import Mathlib.Logic.Function.Basic
import Mathlib.Data.List.Nodup
import Mathlib.Order.RelClasses

/-!
# Forests stored as lists of children

Every member of a forest, other than the root, has exactly one entry on the list of exactly one
member that may hold children. Entries are objects of their own; `process e` is the member that the
entry `e` stands for. The operations on such lists are adding a new member, removing a member with
its entry, and handing all children of a member over to the root.
-/

set_option autoImplicit false

namespace ChildLists

variable {π ε : Type}

/-- The lists `C` hold one entry for every member in `used` other than the root, and only members in
`holder` have children. -/
structure Forest (used holder : π → Prop) (root : Option π) (process : ε → π) (C : π → List ε) :
    Prop where
  entry : ∀ q, ∀ e ∈ C q, used (process e) ∧ root ≠ some (process e) ∧ process e ≠ q
  holder : ∀ q, C q ≠ [] → holder q
  nodup : ∀ q, (C q).Nodup
  unique : ∀ q q' e e', e ∈ C q → e' ∈ C q' → process e = process e' → q = q' ∧ e = e'
  listed : ∀ x, used x → root ≠ some x → ∃ q, ∃ e ∈ C q, process e = x

variable {ω : Type} {used used' holder holder' : π → Prop} {root : Option π}
  {process process' : ε → π} {C : π → List ε} {r x i : π} {e : ε}

/-- A forest only depends on who is a member, on who may hold children, and on the entries. -/
theorem Forest.congr (h : Forest used holder root process C) (hused : ∀ x, used' x ↔ used x)
    (hholder : ∀ q, C q ≠ [] → holder q → holder' q)
    (hprocess : ∀ q, ∀ e ∈ C q, process' e = process e) :
    Forest used' holder' root process' C := by
  refine ⟨fun q e he => ?_, fun q hq => hholder q hq (h.holder q hq), h.nodup,
    fun q q' e e' he he' heq => ?_, fun x hx hi => ?_⟩
  · rw [hprocess q e he, hused]
    exact h.entry q e he
  · rw [hprocess q e he, hprocess q' e' he'] at heq
    exact h.unique q q' e e' he he' heq
  · obtain ⟨q, e, he, rfl⟩ := h.listed x ((hused x).1 hx) hi
    exact ⟨q, e, he, hprocess q e he⟩

/-- An entry is on one list only. -/
theorem Forest.list_eq (h : Forest used holder root process C) {q q' : π} (he : e ∈ C q)
    (he' : e ∈ C q') : q = q' :=
  (h.unique q q' e e he he' rfl).1

/-- Who holds no children has an empty list. -/
theorem Forest.eq_nil (h : Forest used holder root process C) (hx : ¬ holder x) : C x = [] := by
  by_contra hne
  exact hx (h.holder x hne)

/-! ## Descent from the root -/

/-- Members have a larger rank than those on whose lists they are. -/
def Ascending [LT ω] (rank : π → ω) (process : ε → π) (C : π → List ε) : Prop :=
  ∀ q, ∀ e ∈ C q, rank q < rank (process e)

/-- The member `x` is `i`, or a child of a member that descends from `i`. -/
inductive Descends (process : ε → π) (C : π → List ε) (i : π) : π → Prop where
  | self : Descends process C i i
  | child {q : π} {e : ε} : Descends process C i q → e ∈ C q → Descends process C i (process e)

/-- If ranks ascend, then every member descends from the root. -/
theorem Forest.descends [LT ω] [WellFoundedLT ω] {rank : π → ω}
    (h : Forest used holder (some i) process C) (hrank : Ascending rank process C)
    (hused : ∀ q, holder q → used q) (hx : used x) : Descends process C i x := by
  -- by induction on the rank, since the one with the entry of `x` has a smaller one
  induction hr : rank x using WellFoundedLT.induction generalizing x with
  | ind n ih =>
      by_cases hxi : i = x
      · subst hxi
        exact .self
      · obtain ⟨q, e, he, rfl⟩ := h.listed x hx fun heq => hxi (Option.some.inj heq)
        have hlt : rank q < n := by
          rw [← hr]
          exact hrank q e he
        exact .child (ih _ hlt (hused q (h.holder q (List.ne_nil_of_mem he))) rfl) he

theorem Descends.trans {q : π} (h : Descends process C i q) (h' : Descends process C q x) :
    Descends process C i x := by
  induction h' with
  | self => exact h
  | child _ he ih => exact .child ih he

/-- If ranks ascend and are bounded, then from every member one comes down to one without `P`, if
only members with children have `P`. -/
theorem Ascending.exists_descendant {rank : π → Nat} {n : Nat} (h : Ascending rank process C)
    (hbound : ∀ q, ∀ e ∈ C q, rank (process e) < n) {P : π → Prop} (hP : ∀ q, P q → C q ≠ [])
    (x : π) : ∃ y, Descends process C x y ∧ ¬ P y := by
  -- by induction on the distance of the rank to the bound
  induction hm : n - rank x using Nat.strongRecOn generalizing x with
  | ind m ih =>
      by_cases hx : P x
      · obtain ⟨e, he⟩ := List.exists_mem_of_ne_nil _ (hP x hx)
        have hlt := h x e he
        have hn := hbound x e he
        obtain ⟨y, hy, hPy⟩ := ih (n - rank (process e)) (by omega) (process e) rfl
        exact ⟨y, (Descends.child .self he).trans hy, hPy⟩
      · exact ⟨x, .self, hx⟩

variable [DecidableEq π] [DecidableEq ε]

/-! ## A new member -/

omit [DecidableEq ε] in
theorem mem_add {q : π} {u : ε} :
    u ∈ Function.update C r (C r ++ [e]) q ↔ u ∈ C q ∨ (q = r ∧ u = e) := by
  by_cases hq : q = r
  · subst hq
    simp
  · simp [hq]

/-- A new member `x`, with the new entry `e` on the list of `r`. -/
theorem Forest.add (h : Forest used holder root process C) (hr : holder r) (hx : ¬ used x)
    (hrx : r ≠ x) (hroot : root ≠ some x) (he : ∀ q, e ∉ C q) :
    Forest (fun y => used y ∨ y = x) holder root (Function.update process e x)
      (Function.update C r (C r ++ [e])) := by
  have hnew : Function.update process e x e = x := Function.update_self ..
  have hold : ∀ q, ∀ u ∈ C q, Function.update process e x u = process u := fun q u hu =>
    Function.update_of_ne (show u ≠ e from fun heq => he q (heq ▸ hu)) ..
  refine ⟨fun q u hu => ?_, fun q hq => ?_, fun q => ?_, fun q q' u u' hu hu' heq => ?_,
    fun y hy hi => ?_⟩
  · rcases mem_add.1 hu with hu | ⟨rfl, rfl⟩
    · obtain ⟨h1, h2⟩ := h.entry q u hu
      rw [hold q u hu]
      exact ⟨Or.inl h1, h2⟩
    · rw [hnew]
      exact ⟨Or.inr rfl, hroot, hrx.symm⟩
  · obtain ⟨u, hu⟩ := List.exists_mem_of_ne_nil _ hq
    rcases mem_add.1 hu with hu | ⟨rfl, -⟩
    · exact h.holder q (List.ne_nil_of_mem hu)
    · exact hr
  · by_cases hq : q = r
    · subst hq
      rw [Function.update_self, List.nodup_append]
      refine ⟨h.nodup q, List.nodup_singleton e, fun u hu u' hu' heq => he q ?_⟩
      rw [← List.mem_singleton.1 hu', ← heq]
      exact hu
    · rw [Function.update_of_ne hq]
      exact h.nodup q
  · rcases mem_add.1 hu with hu₁ | ⟨hq, rfl⟩
    · rcases mem_add.1 hu' with hu₂ | ⟨-, rfl⟩
      · rw [hold q u hu₁, hold q' u' hu₂] at heq
        exact h.unique q q' u u' hu₁ hu₂ heq
      · rw [hold q u hu₁, hnew] at heq
        exact absurd (heq ▸ (h.entry q u hu₁).1) hx
    · rcases mem_add.1 hu' with hu₂ | ⟨hq', rfl⟩
      · rw [hold q' u' hu₂, hnew] at heq
        exact absurd (heq ▸ (h.entry q' u' hu₂).1) hx
      · exact ⟨hq.trans hq'.symm, rfl⟩
  · rcases hy with hy | rfl
    · obtain ⟨q, u, hu, rfl⟩ := h.listed y hy hi
      exact ⟨q, u, mem_add.2 (Or.inl hu), hold q u hu⟩
    · exact ⟨r, e, mem_add.2 (Or.inr ⟨rfl, rfl⟩), hnew⟩

omit [DecidableEq ε] in
/-- The new member has a larger rank than `r`, and the others keep theirs. -/
theorem Ascending.add [LT ω] {rank rank' : π → ω} (h : Ascending rank process C)
    (hrank : ∀ q, ∀ u ∈ C q, rank' q = rank q ∧ rank' (process' u) = rank (process u))
    (he : rank' r < rank' (process' e)) :
    Ascending rank' process' (Function.update C r (C r ++ [e])) := by
  intro q u hu
  rcases mem_add.1 hu with hu | ⟨rfl, rfl⟩
  · rw [(hrank q u hu).1, (hrank q u hu).2]
    exact h q u hu
  · exact he

/-! ## Removing a member -/

theorem mem_of_mem_remove {q : π} {u : ε}
    (hu : u ∈ Function.update C r ((C r).erase e) q) : u ∈ C q := by
  by_cases hq : q = r
  · subst hq
    rw [Function.update_self] at hu
    exact List.mem_of_mem_erase hu
  · rwa [Function.update_of_ne hq] at hu

/-- A new entry is taken off again. -/
theorem remove_add (he : e ∉ C r) :
    Function.update (Function.update C r (C r ++ [e])) r
      ((Function.update C r (C r ++ [e]) r).erase e) = C := by
  rw [Function.update_idem, Function.update_self, List.erase_append_right _ he,
    List.erase_cons_head, List.append_nil, Function.update_eq_self]

theorem mem_remove (hnd : (C r).Nodup) (hapart : ∀ q, e ∈ C q → q = r) {q : π} {u : ε} :
    u ∈ Function.update C r ((C r).erase e) q ↔ u ∈ C q ∧ u ≠ e := by
  by_cases hq : q = r
  · subst hq
    rw [Function.update_self, hnd.mem_erase_iff, and_comm]
  · rw [Function.update_of_ne hq]
    exact ⟨fun hu => ⟨hu, fun heq => hq (hapart q (heq ▸ hu))⟩, And.left⟩

/-- The member of the entry `e` leaves the forest, with its entry; it holds no children. -/
theorem Forest.remove (h : Forest used holder root process C) (he : e ∈ C r) :
    Forest (fun y => used y ∧ y ≠ process e) holder root process
      (Function.update C r ((C r).erase e)) := by
  have hmem := fun q u => mem_remove (q := q) (u := u) (h.nodup r) fun p hp => h.list_eq hp he
  refine ⟨fun q u hu => ?_, fun q hq => ?_, fun q => ?_, fun q q' u u' hu hu' heq => ?_,
    fun y hy hi => ?_⟩
  · obtain ⟨hu, hne⟩ := (hmem q u).1 hu
    obtain ⟨h1, h2⟩ := h.entry q u hu
    exact ⟨⟨h1, fun heq => hne (h.unique q r u e hu he heq).2⟩, h2⟩
  · obtain ⟨u, hu⟩ := List.exists_mem_of_ne_nil _ hq
    exact h.holder q (List.ne_nil_of_mem ((hmem q u).1 hu).1)
  · by_cases hq : q = r
    · subst hq
      rw [Function.update_self]
      exact (h.nodup q).erase e
    · rw [Function.update_of_ne hq]
      exact h.nodup q
  · exact h.unique q q' u u' ((hmem q u).1 hu).1 ((hmem q' u').1 hu').1 heq
  · obtain ⟨q, u, hu, rfl⟩ := h.listed y hy.1 hi
    exact ⟨q, u, (hmem q u).2 ⟨hu, fun heq => hy.2 (congrArg process heq)⟩, rfl⟩

theorem Ascending.remove [LT ω] {rank : π → ω} (h : Ascending rank process C) :
    Ascending rank process (Function.update C r ((C r).erase e)) :=
  fun q u hu => h q u (mem_of_mem_remove hu)

/-! ## Handing the children over -/

omit [DecidableEq ε] in
theorem mem_handOver (hri : r ≠ i) {q : π} {u : ε} :
    u ∈ Function.update (Function.update C i (C i ++ C r)) r [] q ↔
      q ≠ r ∧ (u ∈ C q ∨ (q = i ∧ u ∈ C r)) := by
  by_cases hqr : q = r
  · simp [hqr]
  · rw [Function.update_of_ne hqr]
    by_cases hqi : q = i
    · subst hqi
      simp [hqr]
    · simp [hqr, hqi]

omit [DecidableEq ε] in
/-- The children of `r` go to the root, and `r` holds no children from now on. -/
theorem Forest.handOver (h : Forest used holder (some i) process C) (hri : r ≠ i)
    (hi : holder i) :
    Forest used (fun q => holder q ∧ q ≠ r) (some i) process
      (Function.update (Function.update C i (C i ++ C r)) r []) := by
  have hmem := fun q u => mem_handOver (C := C) (q := q) (u := u) hri
  refine ⟨fun q u hu => ?_, fun q hq => ?_, fun q => ?_, fun q q' u u' hu hu' heq => ?_,
    fun y hy hne => ?_⟩
  · rcases ((hmem q u).1 hu).2 with hu₁ | ⟨rfl, hu₁⟩
    · exact h.entry q u hu₁
    · obtain ⟨h1, h2, -⟩ := h.entry r u hu₁
      exact ⟨h1, h2, fun heq => h2 (by rw [heq])⟩
  · obtain ⟨u, hu⟩ := List.exists_mem_of_ne_nil _ hq
    obtain ⟨hqr, hu | ⟨rfl, -⟩⟩ := (hmem q u).1 hu
    · exact ⟨h.holder q (List.ne_nil_of_mem hu), hqr⟩
    · exact ⟨hi, hqr⟩
  · by_cases hqr : q = r
    · simp [hqr]
    · rw [Function.update_of_ne hqr]
      by_cases hqi : q = i
      · subst hqi
        rw [Function.update_self, List.nodup_append]
        refine ⟨h.nodup q, h.nodup r, fun u hu u' hu' heq => hqr (h.list_eq (e := u) hu ?_)⟩
        rw [heq]
        exact hu'
      · rw [Function.update_of_ne hqi]
        exact h.nodup q
  · obtain ⟨hqr, hu₁ | ⟨hqi, hu₁⟩⟩ := (hmem q u).1 hu
    · obtain ⟨hqr', hu₂ | ⟨hqi', hu₂⟩⟩ := (hmem q' u').1 hu'
      · exact h.unique q q' u u' hu₁ hu₂ heq
      -- an entry of the root and one of `r` stand for two members
      · exact absurd (h.unique q r u u' hu₁ hu₂ heq).1 hqr
    · obtain ⟨hqr', hu₂ | ⟨hqi', hu₂⟩⟩ := (hmem q' u').1 hu'
      · exact absurd (h.unique r q' u u' hu₁ hu₂ heq).1.symm hqr'
      · exact ⟨hqi.trans hqi'.symm, (h.unique r r u u' hu₁ hu₂ heq).2⟩
  · obtain ⟨q, u, hu, rfl⟩ := h.listed y hy hne
    by_cases hqr : q = r
    · subst hqr
      exact ⟨i, u, (hmem i u).2 ⟨hri.symm, Or.inr ⟨rfl, hu⟩⟩, rfl⟩
    · exact ⟨q, u, (hmem q u).2 ⟨hqr, Or.inl hu⟩, rfl⟩

omit [DecidableEq ε] in
/-- The root has a smaller rank than all others. -/
theorem Ascending.handOver [LT ω] {rank : π → ω} (h : Ascending rank process C) (hri : r ≠ i)
    (hroot : ∀ u ∈ C r, rank i < rank (process u)) :
    Ascending rank process (Function.update (Function.update C i (C i ++ C r)) r []) := by
  intro q u hu
  rcases ((mem_handOver hri).1 hu).2 with hold | ⟨rfl, hchild⟩
  · exact h q u hold
  · exact hroot u hchild

end ChildLists
