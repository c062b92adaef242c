import DisastrOS.Abstract.HandOff
import DisastrOS.Contexts

/-!
# A new `init`

When no process is left to run the main context resumes and creates one more first process. The
lists, the resources and the other processes stay as they are, also the former `init`.
-/

set_option autoImplicit false

namespace DisastrOS

namespace Model

variable {clean : Addr → Prop} {a a' : Model} {r x : Addr} {c : Syscall} {act : Action}

/-- A new process in the block `x`, without a parent, becomes `init` and runs. -/
def boot (a : Model) (x : Addr) (xs : List Addr) : Model :=
  { a with
    freePcbs := xs
    pid := Function.update a.pid x a.lastPid
    lastPid := wrapInt (a.lastPid + 1)
    returnValue := Function.update a.returnValue x 0
    lastFd := Function.update a.lastFd x 0
    signals := Function.update a.signals x 0
    signalsMask := Function.update a.signalsMask x 0xFFFFFFFF
    status := Function.update a.status x .running
    parent := Function.update a.parent x none
    timer := Function.update a.timer x none
    descriptors := Function.update a.descriptors x []
    children := Function.update a.children x []
    running := some x
    initPcb := some x }

/-- The transition of the main context. -/
inductive BootStep (a : Model) : Model → Prop where
  | booted {x : Addr} {xs : List Addr} : a.freePcbs = x :: xs → BootStep a (a.boot x xs)

/-- The transitions with restarts. -/
inductive MoveStep (clean : Addr → Prop) (a : Model) : Move → Model → Prop where
  | action {act : Action} {a' : Model} : Step clean a act a' → MoveStep clean a (.action act) a'
  | resume {a' : Model} : a.running = none → BootStep a a' → MoveStep clean a .resume a'

/-! ## The invariants -/

theorem ProcInv.boot {xs : List Addr} (hP : a.ProcInv) (hidle : a.running = none)
    (hx : a.freePcbs = x :: xs) : (a.boot x xs).ProcInv where
  partition := by
    apply hP.partition_of_count
    intro y
    simp only [pcbBlocks, Model.boot, hx, hidle, List.count_append, List.count_cons, List.count_nil,
      Option.toList_some, Option.toList_none]
    omega
  ready := by
    intro y hy
    have hfresh := hP.free_fresh (x := x) (by simp [hx])
    have hne : y ≠ x := fun heq => hfresh (heq ▸ Used.of_mem hy)
    exact (Function.update_of_ne hne ..).trans (hP.ready y hy)
  waiting := by
    intro y
    have hold := hP.waiting y
    have hfresh := hP.free_fresh (x := x) (by simp [hx])
    show _ ↔ y ∈ a.procs .waiting
    simp only [Model.boot, Function.update_apply]
    grind [Used]
  zombie := by
    intro y hy
    have hfresh := hP.free_fresh (x := x) (by simp [hx])
    have hne : y ≠ x := fun heq => hfresh (heq ▸ Used.of_mem hy)
    exact (Function.update_of_ne hne ..).trans (hP.zombie y hy)
  running := by
    intro y hy
    obtain rfl : x = y := Option.some.inj hy
    exact Or.inl (Function.update_self ..)
  blocked := hP.blocked
  init := ⟨x, rfl, Function.update_self .., Or.inl rfl⟩

theorem DescInv.boot {xs : List Addr} (hI : a.DescInv) : (a.boot x xs).DescInv := by
  refine hI.mono rfl (fun p => ?_) rfl rfl rfl fun d hd => hd.resource
  show Function.update a.descriptors x [] p ⊆ _
  rw [Function.update_apply]
  split
  · exact List.nil_subset _
  · exact List.Subset.refl _

theorem KidInv.boot {xs : List Addr} (hK : a.KidInv) : (a.boot x xs).KidInv := by
  have hsub : ∀ q, (a.boot x xs).children q ⊆ a.children q := by
    intro q
    show Function.update a.children x [] q ⊆ _
    rw [Function.update_apply]
    split
    · exact List.nil_subset _
    · exact List.Subset.refl _
  exact ⟨fun q e he => hK.used q e (hsub q he), fun q e he => hK.pcb q e (hsub q he)⟩

theorem BootStep.keep (h : BootStep a a') (hI : a.Inv) (hidle : a.running = none) : a'.Inv := by
  cases h with
  | booted hx =>
      exact ⟨hI.proc.boot hidle hx, { hI.timer with }, hI.kid.boot, { hI.res with },
        hI.desc.boot, { hI.msg with }⟩

/-! ## Processes without a parent -/

/-- The process `x` has no parent. Its `exit` would use a null pointer, so it never leaves. -/
def Parentless (a : Model) (x : Addr) : Prop := a.Alive x ∧ a.parent x = none

theorem SameFamilies.parentless_iff (h : SameFamilies a a') (hP : a.ProcInv) (hP' : a'.ProcInv) :
    a'.Parentless x ↔ a.Parentless x := by
  rw [Parentless, Parentless, h.alive_iff hP hP', h.parent]

/-- A new process has a parent. -/
theorem CreateStep.parentless_of (h : CreateStep a r a') (hP : a.ProcInv) (hP' : a'.ProcInv)
    (hx : a'.Parentless x) : a.Parentless x := by
  cases h with
  | @created y e xs es hfree _ =>
      obtain ⟨halive, hparent⟩ := hx
      rw [hP'.alive_iff, used_create hP hP' hfree] at halive
      obtain ⟨hused | rfl, hz⟩ := halive
      · have hne : x ≠ y := by
          rintro rfl
          exact hP.free_fresh (by rw [hfree]; exact List.mem_cons_self) hused
        refine ⟨hP.alive_iff.2 ⟨hused, hz⟩, ?_⟩
        rw [← hparent]
        exact (Function.update_of_ne hne ..).symm
      · simp [Model.create] at hparent

theorem HandlerStep.parentless_of (h : HandlerStep clean a r c a') (hI : a.Inv) (hI' : a'.Inv)
    (hr : a.running = some r) (hx : a'.Parentless x) : a.Parentless x := by
  cases hp : c.onProcesses with
  | false => exact ((h.sameProcesses hp).sameFamilies.parentless_iff hI.proc hI'.proc).1 hx
  | true =>
      cases h with
      | preempt h => exact (h.sameFamilies.parentless_iff hI.proc hI'.proc).1 hx
      | fork h => exact h.parentless_of hI.proc hI'.proc hx
      | spawn h => exact h.parentless_of hI.proc hI'.proc hx
      | wait h =>
          rcases h.families with hsame | ⟨e, -, -, rfl⟩
          · exact (hsame.parentless_iff hI.proc hI'.proc).1 hx
          · rw [reap_eq] at hx
            exact hx
      | exit h =>
          obtain ⟨halive, -, -⟩ := h.alive_of hI.proc hI'.proc hr hx.1
          exact ⟨halive, by rw [← (h.noneNew hI.proc hI'.proc hr).parent]; exact hx.2⟩
      | sleep h => exact (h.sameFamilies.parentless_iff hI.proc hI'.proc).1 hx
      | shutdown => exact hx
      | _ => cases hp

theorem ExitStep.parent_ne_none (h : ExitStep a r a') : a.parent r ≠ none := by
  cases h with
  | wakeParent _ _ hparent _ _ => rw [hparent]; nofun
  | retire _ _ hparent _ _ => rw [hparent]; nofun

theorem HandlerStep.parent_eq (h : HandlerStep clean a r c a') (hP : a.ProcInv) (hP' : a'.ProcInv)
    (hr : a.running = some r) (hx : a.Used x) : a'.parent x = a.parent x := by
  cases hp : c.onProcesses with
  | false => rw [(h.sameProcesses hp).parent]
  | true =>
      cases h with
      | preempt h => rw [h.sameFamilies.parent]
      | fork h | spawn h =>
          cases h with
          | @created y e xs es hfree _ =>
              refine Function.update_of_ne ?_ ..
              rintro rfl
              exact hP.free_fresh (by rw [hfree]; exact List.mem_cons_self) hx
      | wait h =>
          obtain ⟨_, _, _, _, _, _, _, _, rfl⟩ := h.eq
          rfl
      | exit h => rw [(h.noneNew hP hP' hr).parent]
      | sleep h => rw [h.sameFamilies.parent]
      | shutdown => rfl
      | _ => cases hp

/-- A step neither adds a process without a parent nor takes one away. -/
theorem Step.parentless_iff (h : Step clean a act a') (hI : a.Inv) (hI' : a'.Inv) :
    a'.Parentless x ↔ a.Parentless x := by
  cases h with
  | tick _ hs =>
      have hsame : SameFamilies a a' := { hs.sameFamilies with }
      exact hsame.parentless_iff hI.proc hI'.proc
  | @syscall r c _ hr hs =>
      have hI₁ := hI.enter hr c
      refine ⟨hs.parentless_of hI₁ hI' hr, fun hx => ⟨?_, ?_⟩⟩
      · refine hs.alive_mono hI₁ hI' hr hx.1 ?_
        rintro ⟨v, rfl⟩ rfl
        cases hs with
        | exit hs => exact hs.parent_ne_none hx.2
      · exact (hs.parent_eq hI₁.proc hI'.proc hr hx.1.used).trans hx.2
  | store _ => exact Iff.rfl

/-- A restart adds one process without a parent. -/
theorem BootStep.parentless_iff (h : BootStep a a') (hP : a.ProcInv) (hidle : a.running = none) :
    ∃ x, ¬ a.Used x ∧ a'.initPcb = some x ∧
      ∀ y, a'.Parentless y ↔ y = x ∨ a.Parentless y := by
  cases h with
  | @booted x xs hfree =>
      have hx := hP.free_fresh (x := x) (by rw [hfree]; exact List.mem_cons_self)
      refine ⟨x, hx, rfl, fun y => ?_⟩
      by_cases hy : y = x
      · exact iff_of_true ⟨Or.inl (congrArg some hy.symm), by rw [hy]; exact Function.update_self ..⟩
          (Or.inl hy)
      · simp only [Parentless, Alive, boot, Function.update_of_ne hy, hidle, Option.some.injEq,
          reduceCtorEq, false_or, Ne.symm hy, hy]

end Model

end DisastrOS
