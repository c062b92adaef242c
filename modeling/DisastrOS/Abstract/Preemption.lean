import DisastrOS.Abstract.Fairness
import DisastrOS.Abstract.Restart

/-!
# What a step leaves to the others

A process that does not make the call of a step is not affected by it: it stays alive, it keeps the
call stored in its PCB and, unless it waits, also its place among the processes that can run and the
answer to its last call.
-/

set_option autoImplicit false

namespace DisastrOS

namespace Model

variable {clean : Addr → Prop} {a a' : Model} {r x : Addr} {c : Syscall} {act : Action} {mv : Move}

/-! ## Awake processes -/

/-- The process `x` runs or is ready. -/
def Awake (a : Model) (x : Addr) : Prop := a.running = some x ∨ x ∈ a.procs .ready

/-- A running process stays awake in a call of the scheduler. -/
theorem ScheduleStep.stays_awake (h : ScheduleStep a a') (hr : a.running = some r) :
    a'.Awake r := by
  cases h with
  | idle hw _ =>
      obtain ⟨_, -, -, hrun⟩ := hw.ready_eq (List.nil_append _).symm
      exact Or.inl (hrun.trans hr)
  | @switch a₁ q first rest hw hq _ =>
      obtain ⟨_, -, -, hrun⟩ := hw.ready_eq (List.nil_append _).symm
      obtain rfl : q = r := Option.some.inj (hq.symm.trans (hrun.trans hr))
      exact Or.inr (List.mem_append_right _ (List.mem_singleton_self q))

/-- A process that runs or is ready still does or is after a step, unless it makes a call. -/
theorem Step.stays_awake (h : Step clean a act a')
    (hx : a.Awake x)
    (hcall : a.running = some x → ∀ c, act ≠ .syscall c) :
    a'.Awake x := by
  rcases hx with hr | hx
  · cases h with
    | tick hr' hs => exact hs.stays_awake hr
    | syscall _ _ => exact absurd rfl (hcall hr _)
    | store _ => exact Or.inl hr
  · exact (h.advances hx).imp id And.left

/-- Only `shutdown` sets the flag, and it does nothing else. -/
theorem HandlerStep.shutdown_cases (h : HandlerStep clean a r c a') :
    a'.shutdownNow = a.shutdownNow ∨ (c = .shutdown ∧ a' = { a with shutdownNow := true }) := by
  cases hp : c.onProcesses with
  | false => exact Or.inl (h.sameProcesses hp).shutdownNow
  | true =>
      cases h with
      | preempt h =>
          obtain ⟨_, _, _, _, _, _, rfl⟩ := h.eq
          exact Or.inl rfl
      | fork h | spawn h => cases h with | created _ _ => exact Or.inl rfl
      | wait h =>
          obtain ⟨_, _, _, _, _, _, _, _, rfl⟩ := h.eq
          exact Or.inl rfl
      | exit h =>
          obtain ⟨_, _, _, _, _, _, _, _, _, _, _, _, _, rfl⟩ := h.eq
          exact Or.inl rfl
      | sleep h =>
          obtain ⟨_, _, _, _, _, _, _, _, rfl⟩ := h.eq
          exact Or.inl rfl
      | shutdown => exact Or.inr ⟨rfl, rfl⟩
      | _ => cases hp

theorem Step.shutdown_cases (h : Step clean a act a') :
    a'.shutdownNow = a.shutdownNow ∨ a'.running = a.running := by
  cases h with
  | tick _ hs =>
      obtain ⟨_, _, _, _, _, _, rfl⟩ := hs.eq
      exact Or.inl rfl
  | syscall _ hs =>
      refine hs.shutdown_cases.imp id ?_
      rintro ⟨-, rfl⟩
      rfl
  | store _ => exact Or.inl rfl

/-! ## Answers -/

/-- A handler answers the caller or a process that waits. -/
theorem HandlerStep.answer_kept (h : HandlerStep clean a r c a') (hP : a.ProcInv)
    (hr : a.running = some r) (hx : x ∈ a.procs .ready) :
    a'.syscallRetvalue x = a.syscallRetvalue x := by
  have hxr : x ≠ r := by
    rintro rfl
    exact (hP.running_fresh hr).1 .ready hx
  cases hp : c.onProcesses with
  | false => exact (h.sameProcesses hp).syscallRetvalue x hxr
  | true =>
      cases h with
      | preempt h =>
          obtain ⟨_, _, _, _, _, _, rfl⟩ := h.eq
          rfl
      | fork h | spawn h => cases h with | created _ _ => exact Function.update_of_ne hxr ..
      | wait h =>
          cases h with
          | noChildren _ => exact Function.update_of_ne hxr ..
          | reap _ _ =>
              rw [reap_eq]
              exact Function.update_of_ne hxr ..
          | block _ _ _ => rfl
      | exit h =>
          cases h with
          | @wakeParent init parent e _ _ hparent hwaits _ =>
              have hxp : x ≠ parent := by
                rintro rfl
                have hready := hP.ready x hx
                rw [(awaits_iff.1 hwaits).1] at hready
                cases hready
              obtain ⟨_, _, _, _, heq⟩ := handOver_eq (a.leave r init parent) r parent e
              rw [heq]
              exact Function.update_of_ne hxp ..
          | retire _ _ _ _ _ => rfl
      | sleep h =>
          cases h with
          | refused _ => exact Function.update_of_ne hxr ..
          | switch _ _ _ _ _ => rfl
          | idle _ _ _ _ _ => rfl
      | shutdown => rfl
      | _ => cases hp

/-! ## Undisturbed processes -/

/-- A step does nothing to the process `x` but give it the processor or take it away. -/
structure Undisturbed (a : Model) (x : Addr) (a' : Model) : Prop where
  alive : a'.Alive x
  syscallNum : a'.syscallNum x = a.syscallNum x
  syscallArgs : a'.syscallArgs x = a.syscallArgs x
  awake : a.Awake x → a'.Awake x ∧ a'.syscallRetvalue x = a.syscallRetvalue x

theorem Step.undisturbed (h : Step clean a act a') (hI : a.Inv) (hI' : a'.Inv) (hx : a.Alive x)
    (hcall : a.running = some x → ∀ c, act ≠ .syscall c) : Undisturbed a x a' := by
  have halive : a'.Alive x := h.alive_mono hI hI' hx fun v hact hr => hcall hr _ hact
  refine ⟨halive, ?_, ?_, fun hawake => ⟨h.stays_awake hawake hcall, ?_⟩⟩
  · cases h with
    | tick _ hs =>
        obtain ⟨_, _, _, _, _, _, rfl⟩ := hs.eq
        rfl
    | @syscall r c _ hr hs =>
        have hxr : x ≠ r := fun heq => hcall (by rw [hr, heq]) c rfl
        rw [hs.syscall_eq.1]
        exact Function.update_of_ne hxr ..
    | store _ => rfl
  · cases h with
    | tick _ hs =>
        obtain ⟨_, _, _, _, _, _, rfl⟩ := hs.eq
        rfl
    | @syscall r c _ hr hs =>
        have hxr : x ≠ r := fun heq => hcall (by rw [hr, heq]) c rfl
        rw [hs.syscall_eq.2]
        exact Function.update_of_ne hxr ..
    | store _ => rfl
  · cases h with
    | tick _ hs =>
        obtain ⟨_, _, _, _, _, _, rfl⟩ := hs.eq
        rfl
    | @syscall r c _ hr hs =>
        have hready : x ∈ a.procs .ready := hawake.resolve_left fun hr => hcall hr c rfl
        exact hs.answer_kept (hI.enter hr c).proc hr hready
    | store _ => rfl

theorem MoveStep.undisturbed (h : MoveStep clean a mv a') (hI : a.Inv) (hI' : a'.Inv)
    (hx : a.Alive x) (hcall : a.running = some x → ∀ c, mv ≠ .action (.syscall c)) :
    Undisturbed a x a' := by
  cases h with
  | action h => exact h.undisturbed hI hI' hx fun hr c hact => hcall hr c (hact ▸ rfl)
  | resume hidle hboot =>
      cases hboot with
      | booted hfree =>
          refine ⟨?_, rfl, rfl, fun hawake => ⟨?_, rfl⟩⟩
          · exact Or.inr (hx.resolve_left (by rw [hidle]; nofun))
          · exact Or.inr (hawake.resolve_left (by rw [hidle]; nofun))

end Model

end DisastrOS
