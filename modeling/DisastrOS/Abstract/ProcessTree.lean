import DisastrOS.Abstract.HandOff

/-!
# The tree of the processes

A process is created later than the one on whose children list it is, and `init` was the first one,
so while pids do not wrap around they ascend from `init` along the children lists. Together with
`FamInv` this makes the children lists a tree with `init` as its root. A process that is blocked in
`wait` keeps its children, so below it there is always one that is not.
-/

set_option autoImplicit false

namespace DisastrOS

open ChildLists

namespace Model

variable {clean : Addr → Prop} {a a' : Model} {r x init parent : Addr} {c : Syscall}
  {act : Action} {n : Nat}

/-- Pids ascend along the children lists, from the pid of `init`. -/
structure Ordered (a : Model) : Prop where
  first : ∀ i, a.initPcb = some i → a.pid i = 0
  ascending : Ascending a.pid a.ptrPcb a.children

/-- Every process other than `init` has a larger pid. -/
theorem Ordered.init_lt (hO : a.Ordered) (hN : a.PidInv n) (hP : a.ProcInv)
    (hinit : a.initPcb = some init) (hx : a.Used x) (hne : init ≠ x) : a.pid init < a.pid x := by
  obtain ⟨i, hi, -, halive⟩ := hP.init
  obtain rfl : i = init := Option.some.inj (hi.symm.trans hinit)
  have hzero := hO.first i hinit
  have hbound := (hN.bound x hx).1
  have hdiff : a.pid i ≠ a.pid x := fun heq => hne (hN.inj i x halive.used hx heq)
  omega

theorem SameFamilies.ordered (h : SameFamilies a a') (hO : a.Ordered) (hK : a.KidInv) :
    a'.Ordered := by
  refine ⟨fun i hi => ?_, fun q e he => ?_⟩
  · rw [h.pid]
    exact hO.first i (h.initPcb.symm.trans hi)
  · rw [h.children] at he
    rw [h.pid, h.ptrPcb_eq hK he]
    exact hO.ascending q e he

/-- The new process has a pid above all others. -/
theorem CreateStep.ordered (h : CreateStep a r a') (hO : a.Ordered) (hN : a.PidInv n)
    (hF : a.FamInv) (hP : a.ProcInv) (hK : a.KidInv) (hr : a.running = some r) : a'.Ordered := by
  cases h with
  | @created x e xs es hfree hptr =>
      have hx : ¬ a.Used x := hP.free_fresh (by rw [hfree]; exact List.mem_cons_self)
      have hpid : ∀ y, a.Used y → (a.create r x e xs es).pid y = a.pid y := fun y hy =>
        Function.update_of_ne (show y ≠ x from fun heq => hx (heq ▸ hy)) ..
      obtain ⟨i, hi, -, halive⟩ := hP.init
      constructor
      · intro j hj
        obtain rfl : i = j := Option.some.inj (hi.symm.trans hj)
        rw [hpid i halive.used]
        exact hO.first i hi
      · rw [hF.create_children hx]
        refine hO.ascending.add (fun q u hu => ⟨?_, ?_⟩) ?_
        · exact hpid q (hF.holder q (List.ne_nil_of_mem hu)).used
        · have hue : u ≠ e := fun heq => (hK.used q u hu).2 (by
            rw [hptr, heq]
            exact List.mem_cons_self)
          have hold : (a.create r x e xs es).ptrPcb u = a.ptrPcb u := Function.update_of_ne hue ..
          rw [hold]
          exact hpid _ (hF.entry q u hu).1
        · have hnew : (a.create r x e xs es).ptrPcb e = x := Function.update_self ..
          have hlast : (a.create r x e xs es).pid x = a.lastPid := Function.update_self ..
          rw [hnew, hlast, hpid r (Or.inl hr), hN.next]
          exact (hN.bound r (Or.inl hr)).2

theorem WaitStep.ordered (h : WaitStep a r a') (hO : a.Ordered) (hK : a.KidInv) : a'.Ordered := by
  rcases h.families with hsame | ⟨e, -, -, rfl⟩
  · exact hsame.ordered hO hK
  · rw [reap_eq]
    exact ⟨hO.first, hO.ascending.remove⟩

/-- The children of a process that leaves are younger than `init`. -/
theorem ExitStep.ordered (h : ExitStep a r a') (hO : a.Ordered) (hN : a.PidInv n) (hF : a.FamInv)
    (hP : a.ProcInv) : a'.Ordered := by
  have hleave : ∀ init parent, a.initPcb = some init → r ≠ init →
      Ascending a.pid a.ptrPcb (a.leave r init parent).children := by
    intro init parent hinit hne
    refine hO.ascending.handOver hne fun u hu => ?_
    obtain ⟨hused, hroot, -⟩ := hF.entry r u hu
    exact hO.init_lt hN hP hinit hused fun heq => hroot (by rw [hinit, heq])
  cases h with
  | @wakeParent init parent e hinit hne _ _ _ =>
      obtain ⟨_, _, _, _, heq⟩ := handOver_eq (a.leave r init parent) r parent e
      rw [heq]
      exact ⟨hO.first, (hleave init parent hinit hne).remove⟩
  | @retire init parent next rest hinit hne _ _ _ => exact ⟨hO.first, hleave init parent hinit hne⟩

theorem HandlerStep.ordered (h : HandlerStep clean a r c a') (hO : a.Ordered) (hN : a.PidInv n)
    (hF : a.FamInv) (hI : a.Inv) (hr : a.running = some r) : a'.Ordered := by
  cases hp : c.onProcesses with
  | false => exact (h.sameProcesses hp).sameFamilies.ordered hO hI.kid
  | true =>
      cases h with
      | preempt h => exact h.sameFamilies.ordered hO hI.kid
      | fork h | spawn h => exact h.ordered hO hN hF hI.proc hI.kid hr
      | wait h => exact h.ordered hO hI.kid
      | exit h => exact h.ordered hO hN hF hI.proc
      | sleep h => exact h.sameFamilies.ordered hO hI.kid
      | shutdown => exact { hO with }
      | _ => cases hp

/-- Every transition keeps the order of the pids. -/
theorem Step.ordered (h : Step clean a act a') (hO : a.Ordered) (hG : a.Families n) (hI : a.Inv) :
    a'.Ordered := by
  cases h with
  | tick _ hs =>
      have hsame : SameFamilies a a' := { hs.sameFamilies with }
      exact hsame.ordered hO hI.kid
  | @syscall r c _ hr hs =>
      have hI₁ := hI.enter hr c
      have hsame := sameFamilies_enter a r c
      exact hs.ordered (hsame.ordered hO hI.kid)
        ((hsame.noneNew hI.proc hI₁.proc).pidInv hG.pids)
        (hsame.famInv hG.lists hI.proc hI₁.proc hI.kid) hI₁ hr
  | store _ => exact { hO with }

/-! ## Blocked processes -/

/-- A process that is blocked in `wait` has children. -/
def BlockedParents (a : Model) : Prop := ∀ w, a.Blocked w → a.children w ≠ []

/-- A process that is not blocked before a handler is not after it, unless it calls `wait`; and the
others keep their children. -/
theorem HandlerStep.blockedParents (h : HandlerStep clean a r c a') (hB : a.BlockedParents)
    (hP : a.ProcInv) (hr : a.running = some r) (hnum : a.syscallNum r = c.num) :
    a'.BlockedParents := by
  have hne : ∀ w ∈ a.procs .waiting, w ≠ r := by
    rintro w hw rfl
    exact (hP.running_fresh hr).1 .waiting hw
  rintro w ⟨hw, hwnum⟩
  rw [h.syscall_eq.1] at hwnum
  have hold : w ∈ a.procs .waiting → a.children w ≠ [] := fun hmem => hB w ⟨hmem, hwnum⟩
  cases hp : c.onProcesses with
  | false =>
      have hsame := h.sameProcesses hp
      rw [hsame.procs] at hw
      rw [hsame.children]
      exact hold hw
  | true =>
      cases h with
      | preempt h =>
          rw [h.sameFamilies.children]
          exact hold (h.waiting_subset hw)
      | fork h | spawn h =>
          cases h with
          | @created x e xs es hfree _ =>
              have hwx : w ≠ x := by
                rintro rfl
                exact hP.free_fresh (by rw [hfree]; exact List.mem_cons_self) (Used.of_mem hw)
              have hkeep : (a.create r x e xs es).children w = a.children w := by
                simp only [create, Function.update_of_ne (hne w hw), Function.update_of_ne hwx]
              rw [hkeep]
              exact hold hw
      | wait h =>
          cases h with
          | noChildren _ => exact hold hw
          | @reap e _ _ =>
              rw [reap_eq] at hw ⊢
              have hw' : w ∈ a.procs .waiting := hw
              show Function.update a.children r _ w ≠ []
              rw [Function.update_of_ne (hne w hw')]
              exact hold hw'
          | @block e next rest he _ _ =>
              rcases List.mem_append.1 (show w ∈ a.procs .waiting ++ [r] from hw) with hw | hw
              · exact hold hw
              · rw [List.mem_singleton.1 hw]
                exact List.ne_nil_of_mem (mem_of_awaited (a := a) he)
      | exit h =>
          -- `init` gets the children of `r`, and no list but that of `r` and of its parent shrinks
          have hleave : ∀ init parent, r ≠ init → w ∈ a.procs .waiting →
              (a.leave r init parent).children w ≠ [] := by
            intro init parent hri hmem
            obtain ⟨e, he⟩ := List.exists_mem_of_ne_nil _ (hold hmem)
            exact List.ne_nil_of_mem
              ((mem_leave_children parent hri).2 ⟨hne w hmem, Or.inl he⟩)
          cases h with
          | @wakeParent init parent e _ hri _ _ _ =>
              obtain ⟨_, _, _, _, heq⟩ :=
                exit_handOver_eq init parent e ((hP.running_fresh hr).1 .zombie)
              rw [heq] at hw ⊢
              have hw' : w ∈ (a.procs .waiting).erase parent := hw
              obtain ⟨hwp, hmem⟩ := hP.mem_erase.1 hw'
              show Function.update (a.leave r init parent).children parent _ w ≠ []
              rw [Function.update_of_ne hwp]
              exact hleave init parent hri hmem
          | @retire init parent _ _ _ hri _ _ _ => exact hleave init parent hri hw
      | sleep h =>
          rw [h.sameFamilies.children]
          have hmem : w ∈ a.procs .waiting ∨ w = r := by
            cases h with
            | refused _ => exact Or.inl hw
            | switch _ _ _ _ _ | idle _ _ _ _ _ =>
                exact (List.mem_append.1 (show w ∈ a.procs .waiting ++ [r] from hw)).imp id
                  List.mem_singleton.1
          rcases hmem with hw | rfl
          · exact hold hw
          · have hsleep : dsosCallWait = dsosCallSleep := hwnum.symm.trans hnum
            exact absurd hsleep (by decide)
      | shutdown => exact hold hw
      | _ => cases hp

/-- Blocked processes keep having children. -/
theorem Step.blockedParents (h : Step clean a act a') (hB : a.BlockedParents) (hI : a.Inv) :
    a'.BlockedParents := by
  cases h with
  | tick hr hs =>
      rintro w ⟨hw, hnum⟩
      have hchildren : a'.children = a.children := hs.sameFamilies.children
      rw [hchildren]
      refine hB w ⟨hs.waiting_subset hw, ?_⟩
      obtain ⟨_, _, _, _, _, _, rfl⟩ := hs.eq
      exact hnum
  | @syscall r c _ hr hs =>
      have hI₁ := hI.enter hr c
      refine hs.blockedParents ?_ hI₁.proc hr (Function.update_self ..)
      rintro w ⟨hw, hnum⟩
      have hwr : w ≠ r := by
        rintro rfl
        exact (hI.proc.running_fresh hr).1 .waiting hw
      refine hB w ⟨hw, ?_⟩
      rwa [show (a.enter r c).syscallNum w = a.syscallNum w from Function.update_of_ne hwr ..]
        at hnum
  | store _ => exact hB

/-! ## The tree -/

section Tree

variable (hO : a.Ordered) (hF : a.FamInv) (hN : a.PidInv n)
include hO hF hN

/-- Pids are not negative, so they are ranks. -/
theorem Ordered.ranks : Ascending (fun y => (a.pid y).toNat) a.ptrPcb a.children := by
  intro q e he
  have hlow := (hN.bound q (hF.holder q (List.ne_nil_of_mem he)).used).1
  have hlt := hO.ascending q e he
  show (a.pid q).toNat < (a.pid (a.ptrPcb e)).toNat
  omega

/-- All processes in use descend from `init`. -/
theorem Ordered.descends (hinit : a.initPcb = some init) (hx : a.Used x) :
    Descends a.ptrPcb a.children init x := by
  have hF' : Forest a.Used a.Alive (some init) a.ptrPcb a.children := by
    rw [← hinit]
    exact hF
  exact hF'.descends (hO.ranks hF hN) (fun q hq => hq.used) hx

/-- From every process there is a way down to one that is not blocked. -/
theorem Ordered.not_blocked (hB : a.BlockedParents) (x : Addr) :
    ∃ y, Descends a.ptrPcb a.children x y ∧ ¬ a.Blocked y := by
  refine (hO.ranks hF hN).exists_descendant (n := n) (fun q e he => ?_) hB x
  have hbound := hN.bound _ (hF.entry q e he).1
  show (a.pid (a.ptrPcb e)).toNat < n
  omega

end Tree

end Model

end DisastrOS
