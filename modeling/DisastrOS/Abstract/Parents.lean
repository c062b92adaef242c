import DisastrOS.Abstract.Families

/-!
# Parent pointers

Who is the parent of a process is stored twice: by the parent pointer in its PCB and by the children
list that has its entry. Only `exit` makes the two differ: the children of the process that leaves
keep their parent pointers, and a woken parent looks up the entry by its pid only.
-/

set_option autoImplicit false

namespace DisastrOS

open ChildLists

/-- The process `r` leaves no children behind, and if its parent waits for it, then no entry in
front of its own has the same pid. -/
def Data.LeavesAlone (d : Data) (children : Addr → List Addr) (r : Addr) : Prop :=
  children r = [] ∧ ∀ p ∈ d.parent r, d.awaits p (d.pid r) →
    ∀ k ∈ (children p).takeWhile (fun k => d.ptrPcb k ≠ r), d.pid (d.ptrPcb k) ≠ d.pid r

instance (d : Data) (children : Addr → List Addr) (r : Addr) :
    Decidable (d.LeavesAlone children r) := by
  unfold Data.LeavesAlone
  infer_instance

namespace Model

variable {clean : Addr → Prop} {a a' : Model} {r x e init parent : Addr} {c : Syscall}
  {act : Action}

/-- The entries of a process stand for processes with a parent pointer to it. -/
def Parents (a : Model) : Prop :=
  ∀ q, ∀ k ∈ a.children q, a.parent (a.ptrPcb k) = some q

/-- Parent pointers stay right if no entry comes to another list. -/
theorem Parents.mono (hQ : a.Parents) (hK : a.KidInv) (hparent : a'.parent = a.parent)
    (hptr : ∀ k, k ∉ a.freePcbPtrs → a'.ptrPcb k = a.ptrPcb k)
    (hchildren : ∀ q, a'.children q ⊆ a.children q) : a'.Parents := by
  intro q k hk
  have hk' := hchildren q hk
  rw [hparent, hptr k (hK.used q k hk').2]
  exact hQ q k hk'

theorem SameFamilies.parents (h : SameFamilies a a') (hQ : a.Parents) (hK : a.KidInv) :
    a'.Parents := by
  apply hQ.mono hK h.parent h.ptrPcb
  intro q
  rw [h.children]
  exact List.Subset.refl _

/-! ## Creation and collection -/

/-- The parent pointer of a new process is to the owner of its entry. -/
theorem CreateStep.parents (h : CreateStep a r a') (hQ : a.Parents) (hF : a.FamInv)
    (hP : a.ProcInv) (hK : a.KidInv) : a'.Parents := by
  cases h with
  | @created x e xs es hfree hptr =>
      have hx : ¬ a.Used x := hP.free_fresh (by rw [hfree]; exact List.mem_cons_self)
      have hxc : a.children x = [] := hF.eq_nil fun halive => hx halive.used
      intro q k hk
      have hchildren : (a.create r x e xs es).children =
          Function.update a.children r (a.children r ++ [e]) := by
        show Function.update (Function.update a.children x []) r _ = _
        rw [← hxc, Function.update_eq_self]
      rw [hchildren] at hk
      rcases mem_add.1 hk with hk | ⟨rfl, rfl⟩
      · have hke : k ≠ e := fun heq => (hK.used q k hk).2 (by
          rw [hptr, heq]
          exact List.mem_cons_self)
        have hkx : a.ptrPcb k ≠ x := fun heq => hx (heq ▸ (hF.entry q k hk).1)
        simp only [create, Function.update_of_ne hke, Function.update_of_ne hkx]
        exact hQ q k hk
      · simp only [create, Function.update_self]

/-- `wait` takes an entry away and changes no parent pointer. -/
theorem WaitStep.parents (h : WaitStep a r a') (hQ : a.Parents) (hK : a.KidInv) : a'.Parents := by
  rcases h.families with hsame | ⟨e, -, -, rfl⟩
  · exact hsame.parents hQ hK
  · rw [reap_eq]
    refine hQ.mono hK rfl (fun _ _ => rfl) fun q k hk => mem_of_mem_remove hk

/-! ## Leaving -/

theorem leave_children_eq (hnil : a.children r = []) :
    (a.leave r init parent).children = a.children := by
  simp only [leave, hnil, List.append_nil, Function.update_eq_self]
  rw [← hnil, Function.update_eq_self]

/-- A woken parent of `r` finds the entry of `r`, if `r` meets the condition. -/
theorem findsOwn_of_leavesAlone (hsafe : a.LeavesAlone a.children r) : a.FindsOwn r := by
  intro init parent e _ _ hparent hawaits hfind
  rw [leave_children_eq hsafe.1] at hfind
  by_contra hother
  obtain ⟨hpid, as, bs, heq, has⟩ := List.find?_eq_some_iff_append.1 hfind
  refine hsafe.2 parent hparent hawaits e ?_ (by simpa using hpid)
  have hfront : ∀ k ∈ as, decide (a.ptrPcb k ≠ r) = true := by
    intro k hk
    have hkpid := has k hk
    apply decide_eq_true
    intro hkr
    simp [hkr] at hkpid
  have hfound : e ∈ (e :: bs).takeWhile fun k => decide (a.ptrPcb k ≠ r) := by
    rw [List.takeWhile_cons_of_pos (by simpa using hother)]
    exact List.mem_cons_self
  rw [heq, List.takeWhile_append_of_pos hfront]
  exact List.mem_append_right _ hfound

/-- The entry of `r` on the list of its parent. -/
theorem Parents.entry (hQ : a.Parents) (hF : a.FamInv) (hx : a.Used x)
    (hinit : a.initPcb ≠ some x) :
    ∃ q, a.parent x = some q ∧ a.Alive q ∧ ∃ k ∈ a.children q, a.ptrPcb k = x := by
  obtain ⟨q, k, hk, rfl⟩ := hF.listed x hx hinit
  exact ⟨q, hQ q k hk, hF.holder q (List.ne_nil_of_mem hk), k, hk, rfl⟩

/-- A process without children leaves all parent pointers right. -/
theorem ExitStep.parents (h : ExitStep a r a') (hQ : a.Parents) (hK : a.KidInv)
    (hnil : a.children r = []) : a'.Parents := by
  cases h with
  | @wakeParent init parent e _ _ _ _ _ =>
      obtain ⟨_, _, _, _, heq⟩ := handOver_eq (a.leave r init parent) r parent e
      rw [heq]
      refine hQ.mono hK rfl (fun _ _ => rfl) fun q k hk => ?_
      rw [leave_children_eq hnil] at hk
      exact mem_of_mem_remove hk
  | @retire init parent next rest _ _ _ _ _ =>
      refine hQ.mono hK rfl (fun _ _ => rfl) fun q => ?_
      show (a.leave r init parent).children q ⊆ a.children q
      rw [leave_children_eq hnil]
      exact List.Subset.refl _

/-- Without children `r` signals and wakes its parent only. -/
theorem ExitStep.parent_only (h : ExitStep a r a') (hnil : a.children r = []) :
    (∀ x, a'.signals x ≠ a.signals x → a.parent r = some x) ∧
      ∀ x ∈ a.procs .waiting, x ∉ a'.procs .waiting → a.parent r = some x := by
  have hsignals : ∀ init parent x, (a.leave r init parent).signals x ≠ a.signals x →
      x = parent := by
    intro init parent x hx
    by_contra hne
    apply hx
    simp only [leave, hnil, hangUp, Function.update_of_ne hne]
  cases h with
  | @wakeParent init parent e _ _ hparent _ _ =>
      obtain ⟨_, _, _, _, heq⟩ := handOver_eq (a.leave r init parent) r parent e
      rw [heq]
      constructor
      · intro x hx
        rw [hsignals init parent x hx]
        exact hparent
      · intro x hx hx'
        by_contra hne
        apply hx'
        have hxp : x ≠ parent := fun heq => hne (heq ▸ hparent)
        exact (List.mem_erase_of_ne hxp).2 hx
  | @retire init parent next rest _ _ hparent _ _ =>
      refine ⟨fun x hx => ?_, fun x hx hx' => absurd hx hx'⟩
      rw [hsignals init parent x hx]
      exact hparent

/-! ## The system -/

/-- A call keeps the parent pointers right, if a process that exits has no children and takes its own
entry along. -/
theorem HandlerStep.parents (h : HandlerStep clean a r c a') (hQ : a.Parents) (hF : a.FamInv)
    (hsafe : (∃ v, c = .exit v) → a.LeavesAlone a.children r) (hI : a.Inv) : a'.Parents := by
  cases hp : c.onProcesses with
  | false => exact (h.sameProcesses hp).sameFamilies.parents hQ hI.kid
  | true =>
      cases h with
      | preempt h => exact h.sameFamilies.parents hQ hI.kid
      | fork h => exact h.parents hQ hF hI.proc hI.kid
      | spawn h => exact h.parents hQ hF hI.proc hI.kid
      | wait h => exact h.parents hQ hI.kid
      | exit h => exact h.parents hQ hI.kid (hsafe ⟨_, rfl⟩).1
      | sleep h => exact h.sameFamilies.parents hQ hI.kid
      | shutdown => exact hQ
      | _ => cases hp

theorem leavesAlone_enter (hsafe : a.LeavesAlone a.children r) (hP : a.ProcInv)
    (hr : a.running = some r) : (a.enter r c).LeavesAlone a.children r :=
  ⟨hsafe.1, fun p hp hawaits => hsafe.2 p hp ((awaits_enter hP hr).1 hawaits)⟩

/-- A transition keeps parent pointers and children lists in agreement, unless a process leaves
children behind or another one with its pid is taken for it. -/
theorem Step.parents (h : Step clean a act a') (hQ : a.Parents) (hF : a.FamInv)
    (hsafe : ∀ r v, a.running = some r → act = .syscall (.exit v) → a.LeavesAlone a.children r)
    (hI : a.Inv) (hI' : a'.Inv) : a'.Parents ∧ a'.FamInv := by
  refine ⟨?_, h.famInv hF (fun r v hr hact => ?_) hI hI'⟩
  · cases h with
    | tick _ hs =>
        have hsame : SameFamilies a a' := { hs.sameFamilies with }
        exact hsame.parents hQ hI.kid
    | @syscall r c _ hr hs =>
        have hI₁ := hI.enter hr c
        have hsame := sameFamilies_enter a r c
        refine hs.parents (hsame.parents hQ hI.kid)
          (hsame.famInv hF hI.proc hI₁.proc hI.kid) ?_ hI₁
        rintro ⟨v, rfl⟩
        exact leavesAlone_enter (hsafe r v hr rfl) hI.proc hr
    | store _ => exact hQ
  · exact findsOwn_of_leavesAlone (hsafe r v hr hact)

/-! ## Having a parent -/

/-- Every process other than `init` has a parent pointer. -/
def HasParents (a : Model) : Prop := ∀ x, a.Used x → a.initPcb ≠ some x → a.parent x ≠ none

theorem NoneNew.hasParents (hnone : NoneNew a a') (h : a.HasParents) : a'.HasParents := by
  intro x hx hi
  rw [hnone.initPcb] at hi
  rw [hnone.parent]
  exact h x (hnone.used x hx) hi

theorem NewChild.hasParents (hnew : NewChild a r x a') (h : a.HasParents) : a'.HasParents := by
  intro y hy hi
  rw [hnew.initPcb] at hi
  rw [hnew.parent]
  by_cases hyx : y = x
  · rw [hyx, Function.update_self]
    exact Option.some_ne_none r
  · rw [Function.update_of_ne hyx]
    exact h y (((hnew.used y).1 hy).resolve_right hyx) hi

/-- Every process other than `init` has a parent pointer at all times. -/
theorem Step.hasParents (hs : Step clean a act a') (h : a.HasParents) (hI : a.Inv)
    (hI' : a'.Inv) : a'.HasParents := by
  rcases hs.newcomer hI hI' with ⟨-, hnone⟩ | ⟨-, r, x, hnew⟩
  · exact hnone.hasParents h
  · exact hnew.hasParents h

end Model

end DisastrOS
