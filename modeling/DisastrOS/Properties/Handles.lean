import DisastrOS.Abstract.Handles
import DisastrOS.Properties.CloseDestroy

/-!
# An open descriptor stays open

The number that `openResource` answers stands for the same resource until its process closes it or
exits, whatever all processes do in the meantime. Nobody can destroy the resource before.
-/

set_option autoImplicit false

namespace DisastrOS

open Runs Model

variable {es fs : List (Event Kernel Action)} {s t : Kernel} {e : Event Kernel Action}
  {a a' : Model} {r p d : Addr} {res : ResourceRef}

/-- The number `fd` of the process `p` stands for the resource `res`, the one with this id. -/
structure Denotes (s : Kernel) (p : Addr) (fd : Int) (res : ResourceRef) (id : Int) : Prop where
  descriptor : ∃ d, s.descriptorListByFd p fd = .ok (some d) ∧ s.desResource d = res
  resource : s.resourceListById id = .ok (some res)

/-- In this event the process `p` exits or closes its descriptor with the number `fd`. -/
def GivesUp (e : Event Kernel Action) (p : Addr) (fd : Int) : Prop :=
  e.pre.running = some p ∧ ((∃ v, e.act = .syscall (.exit v)) ∨
    ∃ fd' mode, e.act = .syscall (.closeResource fd' mode) ∧ fd'.toInt = fd)

/-- After this event `fd` of `p` still stands for `res`, and if a process has tried to destroy the
resource, it has got an error. -/
structure KeepsOpen (e : Event Kernel Action) (p : Addr) (fd : Int) (res : ResourceRef)
    (id : Int) : Prop where
  denotes : Denotes e.post p fd res id
  destroy : ∀ r id', e.pre.running = some r → e.act = .syscall (.destroyResource id') →
    id'.toInt = id → e.post.syscallRetvalue r = dsosEResourceInUse

/-! ## Events -/

theorem Refines.denotes {m : Addr → Nat} {fd id : Int} (hR : Refines exceptZombies s a)
    (hI : a.Inv) (hF : a.FdInv m) (ho : a.HasOpen p d fd res id) : Denotes s p fd res id := by
  obtain ⟨hres, -⟩ := ho.in_use hI.desc
  refine ⟨⟨d, ?_, ?_⟩, ?_⟩
  · rw [hR.descriptorListByFd_eq hI.desc,
      descriptorByFd_self (hF.distinct p) ho.descriptor ho.number]
  · rw [hR.data]
    exact ho.resource
  · rw [hR.resourceListById_eq hI.res, ← ho.id, hI.res.byId hres]

/-- A `destroyResource` of a resource in use. -/
theorem Model.DestroyStep.answer_inUse {id : Int} (h : DestroyStep a r id a') (hI : a.ResInv)
    (hres : res ∈ a.resourcesList) (huse : a.descriptorsPtrs res ≠ [])
    (hid : a.resourceId res = id) : a'.syscallRetvalue r = dsosEResourceInUse := by
  have hfound : a.resourceById id = some res := hid ▸ hI.byId hres
  cases h with
  | notFound hnone => cases hfound.symm.trans hnone
  | inUse _ _ => exact answer_retvalue ..
  | destroyed hfound' hnil =>
      obtain rfl := Option.some.inj (hfound.symm.trans hfound')
      exact absurd hnil huse

/-- An event in which `p` does not give up its descriptor. -/
theorem Simulated.keepsOpen {m : Addr → Nat} {fd id : Int} (h : Simulated exceptZombies e a a')
    (ho : a.HasOpen p d fd res id) (hF' : a'.FdInv m) (hkeep : ¬ GivesUp e p fd) :
    a'.HasOpen p d fd res id ∧ KeepsOpen e p fd res id := by
  have ho' : a'.HasOpen p d fd res id := by
    refine h.step.hasOpen ho h.inv h.inv' h.distinct (fun v hact hrun => hkeep ⟨?_, ?_⟩)
      fun fd' mode hrun hact hfd' => hkeep ⟨?_, ?_⟩
    · exact h.pre.running_eq.trans hrun
    · exact Or.inl ⟨v, hact⟩
    · exact h.pre.running_eq.trans hrun
    · exact Or.inr ⟨fd', mode, hact, hfd'⟩
  refine ⟨ho', h.post.denotes h.inv' hF' ho', fun r id' hr hact hid => ?_⟩
  obtain ⟨hres, huse⟩ := ho.in_use h.inv.desc
  obtain ⟨hrun, hs⟩ := h.handler hact hr
  rw [h.post.data]
  cases hs with
  | destroyResource hs =>
      exact hs.answer_inUse (h.inv.enter hrun _).res hres huse (ho.id.trans hid.symm)

/-! ## Runs -/

/-- In a run from a state in which `p` has a descriptor, until `p` gives it up. -/
theorem Refines.keepsOpen_run {fd id : Int} (hR : Refines exceptZombies s a) (hI : a.Inv)
    (hF : a.FdInv (opened es)) (ho : a.HasOpen p d fd res id)
    (hrun : Run Kernel.Completes s fs t) (hn : FewOpens (es ++ fs))
    (hkeep : ∀ f ∈ fs, ¬ GivesUp f p fd) : ∀ f ∈ fs, KeepsOpen f p fd res id := by
  have hstep : ∀ gs f b b', (b.FdInv (opened (es ++ gs)) ∧ b.HasOpen p d fd res id ∧
        ∀ g ∈ gs, KeepsOpen g p fd res id) → Simulated exceptZombies f b b' →
      (∀ q, opened (es ++ gs ++ [f]) q < 2 ^ 31) ∧ ¬ GivesUp f p fd →
      b'.FdInv (opened (es ++ (gs ++ [f]))) ∧ b'.HasOpen p d fd res id ∧
        ∀ g ∈ gs ++ [f], KeepsOpen g p fd res id := by
    rintro gs f b b' ⟨hF, ho, hall⟩ hsim ⟨hbound, hkeep⟩
    have hF' := hsim.fdInv hF hbound
    obtain ⟨ho', hkeeps⟩ := hsim.keepsOpen ho hF' hkeep
    rw [List.append_assoc] at hF'
    refine ⟨hF', ho', fun g hg => ?_⟩
    rcases List.mem_append.1 hg with hg | hg
    · exact hall g hg
    · rw [List.mem_singleton.1 hg]
      exact hkeeps
  obtain ⟨-, -, -, -, -, hall⟩ := hR.invariant
    (J := fun gs b => b.FdInv (opened (es ++ gs)) ∧ b.HasOpen p d fd res id ∧
      ∀ g ∈ gs, KeepsOpen g p fd res id)
    (P := fun gs f => (∀ q, opened (es ++ gs ++ [f]) q < 2 ^ 31) ∧ ¬ GivesUp f p fd) hI
    ⟨by rwa [List.append_nil], ho, fun _ hg => absurd hg List.not_mem_nil⟩ hrun
    (fun gs f hs heq => ⟨hn.right gs f hs heq, hkeep f (by simp [heq])⟩) hstep
  exact hall

/-- The number that an `openResource` answers stands for a resource of its type with its id until
the process exits or closes it, and the resource is not destroyed as long. -/
theorem open_fd_lasts {id type mode : Int32} (h : SystemRun (es ++ e :: fs) s)
    (hn : FewOpens (es ++ e :: fs)) (hr : e.pre.running = some r)
    (hact : e.act = .syscall (.openResource id type mode)) (hfd : 0 ≤ e.post.syscallRetvalue r)
    (hkeep : ∀ f ∈ fs, ¬ GivesUp f r (e.post.syscallRetvalue r)) :
    ∃ res, res.type = type.toInt ∧ Denotes e.post r (e.post.syscallRetvalue r) res id.toInt ∧
      ∀ f ∈ fs, KeepsOpen f r (e.post.syscallRetvalue r) res id.toInt := by
  obtain ⟨hpre, hstep, -⟩ := h.split
  rw [List.append_cons] at hn
  obtain ⟨hnpre, hnlast⟩ := throughout_concat.1 hn.left
  obtain ⟨a, hR, hI, hF⟩ := hpre.fdInv hnpre
  obtain ⟨a', hsim⟩ := hR.simulated hI hstep
  have hF' := hsim.fdInv hF hnlast
  obtain ⟨hrun, hs⟩ := hsim.handler hact hr
  have hret : e.post.syscallRetvalue r = a'.syscallRetvalue r := by rw [hsim.post.data]
  cases hs with
  | openResource hs =>
      rw [hret] at hfd
      obtain ⟨d, res, ho, htype⟩ := hs.hasOpen (hI.enter hrun _) hrun hfd
      rw [← hret] at ho
      exact ⟨res, htype.symm, hsim.post.denotes hsim.inv' hF' ho,
        hsim.post.keepsOpen_run hsim.inv' hF' ho h.rest hn hkeep⟩

/-- The first process closes another descriptor, and a second one tries to destroy the queue. -/
theorem open_fd_lasts_refused : ∃ e f : Event Kernel Action,
    (e.act = .syscall (.openResource 7 1 1) ∧ f.act = .syscall (.destroyResource 7) ∧
      f.pre.running = some 17544) ∧
      ∃ res, Denotes e.post 0 0 res 7 ∧ KeepsOpen f 0 0 res 7 := by
  obtain ⟨es, s, hrun, hp⟩ := exists_of_executes
    [.syscall (.openResource 7 1 1), .syscall (.openResource 8 0 1),
      .syscall (.closeResource 1 0), .syscall (.spawn 1 0), .syscall .preempt,
      .syscall (.destroyResource 7)]
    (fun es _ => match es with
      | [e, f₁, f₂, f₃, f₄, f₅] => e.pre.running = some 0 ∧ e.post.syscallRetvalue 0 = 0 ∧
          e.act = .syscall (.openResource 7 1 1) ∧ f₁.act = .syscall (.openResource 8 0 1) ∧
          f₂.act = .syscall (.closeResource 1 0) ∧ f₃.act = .syscall (.spawn 1 0) ∧
          f₄.act = .syscall .preempt ∧ f₅.act = .syscall (.destroyResource 7) ∧
          f₅.pre.running = some 17544
      | _ => false) (by decide +kernel)
  split at hp
  · rename_i e f₁ f₂ f₃ f₄ f₅
    obtain ⟨hr, hfd, hact, h₁, h₂, h₃, h₄, h₅, hother⟩ := of_decide_eq_true hp
    have hkeep : ∀ f ∈ [f₁, f₂, f₃, f₄, f₅], ¬ GivesUp f 0 (e.post.syscallRetvalue 0) := by
      intro f hf
      rw [hfd]
      simp only [List.mem_cons, List.not_mem_nil, or_false] at hf
      rcases hf with rfl | rfl | rfl | rfl | rfl <;> simp [GivesUp, *]
    have hrun' : SystemRun ([] ++ e :: [f₁, f₂, f₃, f₄, f₅]) s := hrun
    obtain ⟨res, -, hpost, hall⟩ := open_fd_lasts hrun' (fewOpens_of_length (by simp)) hr hact
      (by simp [hfd]) hkeep
    rw [hfd] at hpost hall
    exact ⟨e, f₅, ⟨hact, h₅, hother⟩, res, hpost, hall f₅ (by simp)⟩
  · cases hp

end DisastrOS
