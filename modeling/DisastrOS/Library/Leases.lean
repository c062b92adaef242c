import Mathlib.Logic.Basic

/-!
# Leases

A process takes the lease of an object: it becomes the owner in a register and gets a token. The
register is truthful if it names a process exactly as long as that process holds a token for the
object. `held p d q` says that `p` holds the token `d` for the object `q`, and `owner q` is what the
register says; objects that are not live may be registered without a token.
-/

set_option autoImplicit false

namespace Leases

variable {π δ κ : Type}

/-- The register names the processes that hold tokens, one token for each object. -/
structure Truthful (live : κ → Prop) (held : π → δ → κ → Prop) (owner : κ → Option π) : Prop where
  registered : ∀ p d q, held p d q → owner q = some p
  single : ∀ p p' d d' q, held p d q → held p' d' q → d = d'
  holds : ∀ p q, live q → owner q = some p → ∃ d, held p d q

variable {live live' : κ → Prop} {held held' : π → δ → κ → Prop} {owner owner' : κ → Option π}
  {r : π} {d : δ} {q : κ}

/-- Somebody holds a token for a live object exactly if it has an owner. -/
theorem Truthful.owner_iff (h : Truthful live held owner) (hq : live q) :
    owner q ≠ none ↔ ∃ p d, held p d q := by
  constructor
  · intro hne
    obtain ⟨p, hp⟩ := Option.ne_none_iff_exists'.1 hne
    obtain ⟨d, hd⟩ := h.holds p q hq hp
    exact ⟨p, d, hd⟩
  · rintro ⟨p, d, hd⟩ hnone
    rw [h.registered p d q hd] at hnone
    cases hnone

/-- No object gets another owner, and no owner of a live object loses its token. -/
theorem Truthful.mono (h : Truthful live held owner) (howner : ∀ q, owner' q = owner q)
    (hlive : ∀ p q, live' q → owner q = some p → live q)
    (hheld : ∀ p d q, held' p d q → held p d q)
    (hkeep : ∀ p d q, live' q → owner q = some p → held p d q → held' p d q) :
    Truthful live' held' owner' := by
  constructor
  · intro p d q hd
    rw [howner]
    exact h.registered p d q (hheld p d q hd)
  · intro p p' d d' q hd hd'
    exact h.single p p' d d' q (hheld p d q hd) (hheld p' d' q hd')
  · intro p q hq hp
    rw [howner] at hp
    obtain ⟨d, hd⟩ := h.holds p q (hlive p q hq hp) hp
    exact ⟨d, hkeep p d q hq hp hd⟩

variable [DecidableEq κ]

/-- `r` takes the lease of `q` and gets the token `d`. -/
theorem Truthful.acquire (h : Truthful live held owner) (hfree : owner q = none)
    (hlive : ∀ q, live' q → live q)
    (howner : ∀ q', owner' q' = if q' = q then some r else owner q')
    (hheld : ∀ p d' q', held' p d' q' ↔ held p d' q' ∨ (p = r ∧ d' = d ∧ q' = q)) :
    Truthful live' held' owner' := by
  -- nobody holds a token for a free object
  have hnone : ∀ p d', ¬ held p d' q := fun p d' hd' => by
    rw [h.registered p d' q hd'] at hfree
    cases hfree
  constructor
  · intro p d' q' hd'
    rw [howner]
    rcases (hheld p d' q').1 hd' with hd' | ⟨rfl, -, rfl⟩
    · have hne : q' ≠ q := fun heq => hnone p d' (heq ▸ hd')
      rw [if_neg hne]
      exact h.registered p d' q' hd'
    · exact if_pos rfl
  · intro p p' d₁ d₂ q' h₁ h₂
    rcases (hheld p d₁ q').1 h₁ with h₁ | ⟨-, rfl, rfl⟩
    · rcases (hheld p' d₂ q').1 h₂ with h₂ | ⟨-, rfl, rfl⟩
      · exact h.single p p' d₁ d₂ q' h₁ h₂
      · exact absurd h₁ (hnone p d₁)
    · rcases (hheld p' d₂ q').1 h₂ with h₂ | ⟨-, rfl, -⟩
      · exact absurd h₂ (hnone p' d₂)
      · rfl
  · intro p q' hq' hp
    rw [howner] at hp
    by_cases heq : q' = q
    · rw [if_pos heq] at hp
      obtain rfl := Option.some.inj hp
      exact ⟨d, (hheld r d q').2 (Or.inr ⟨rfl, rfl, heq⟩)⟩
    · rw [if_neg heq] at hp
      obtain ⟨d', hd'⟩ := h.holds p q' (hlive q' hq') hp
      exact ⟨d', (hheld p d' q').2 (Or.inl hd')⟩

/-- `r` gives the lease of `q` back with its token `d`, which is a token for nothing else. -/
theorem Truthful.release (h : Truthful live held owner) (hd : held r d q)
    (htoken : ∀ p q', held p d q' → q' = q) (hlive : ∀ q, live' q → live q)
    (howner : ∀ q', owner' q' = if q' = q then none else owner q')
    (hheld : ∀ p d' q', held' p d' q' ↔ held p d' q' ∧ d' ≠ d) :
    Truthful live' held' owner' := by
  constructor
  · intro p d' q' hd'
    obtain ⟨hd', hne⟩ := (hheld p d' q').1 hd'
    have hq' : q' ≠ q := by
      rintro rfl
      exact hne (h.single p r d' d q' hd' hd)
    rw [howner, if_neg hq']
    exact h.registered p d' q' hd'
  · intro p p' d₁ d₂ q' h₁ h₂
    exact h.single p p' d₁ d₂ q' ((hheld p d₁ q').1 h₁).1 ((hheld p' d₂ q').1 h₂).1
  · intro p q' hq' hp
    rw [howner] at hp
    by_cases heq : q' = q
    · rw [if_pos heq] at hp
      cases hp
    · rw [if_neg heq] at hp
      obtain ⟨d', hd'⟩ := h.holds p q' (hlive q' hq') hp
      refine ⟨d', (hheld p d' q').2 ⟨hd', ?_⟩⟩
      rintro rfl
      exact heq (htoken p q' hd')

end Leases
