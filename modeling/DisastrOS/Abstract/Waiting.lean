import DisastrOS.Abstract.HandOff

/-!
# Processes that wait

A process leaves the waiting list in two ways: its timer elapses, or it is blocked in `wait` and an
`exit` resumes it. So a process that is blocked in `wait` stays blocked, with the arguments of its
call, until the transition after which it runs.
-/

set_option autoImplicit false

namespace DisastrOS

namespace Model

variable {clean : Addr → Prop} {a a' : Model} {r w : Addr} {c : Syscall} {act : Action}

/-- A timer of the process `w` has elapsed. -/
def Elapsed (a : Model) (w : Addr) : Prop :=
  ∃ t ∈ a.timerList, a.timerPcb t = w ∧ a.awakeningTime t ≤ a.time

theorem Wakes.waiting_cases {woken : List Addr} (h : Wakes woken a a')
    (hw : w ∈ a.procs .waiting) : w ∈ a'.procs .waiting ∨ a.Elapsed w := by
  induction h with
  | stop _ => exact Or.inl hw
  | @wake woken a a' t ts rest ht hle _ _ ih =>
      have hmem : t ∈ a.timerList := by rw [ht]; exact List.mem_cons_self
      by_cases heq : w = a.timerPcb t
      · exact Or.inr ⟨t, hmem, heq.symm, hle⟩
      · have hw' : w ∈ (a.wake woken t ts rest).procs .waiting := by
          rw [wake_waiting]
          exact (List.mem_erase_of_ne heq).2 hw
        refine (ih hw').imp id fun ⟨u, hu, hpcb, htime⟩ => ⟨u, ?_, hpcb, htime⟩
        rw [ht]
        exact List.mem_cons_of_mem t hu

theorem ScheduleStep.waiting_cases (h : ScheduleStep a a') (hw : w ∈ a.procs .waiting) :
    w ∈ a'.procs .waiting ∨ a.Elapsed w := by
  cases h with
  | idle hwakes _ => exact hwakes.waiting_cases hw
  | switch hwakes _ _ => exact hwakes.waiting_cases hw

/-- A handler leaves a waiting process alone, wakes it by its timer or runs it after an `exit`. -/
theorem HandlerStep.keeps_waiting (h : HandlerStep clean a r c a') (hw : w ∈ a.procs .waiting) :
    w ∈ a'.procs .waiting ∨ (c = .preempt ∧ a.Elapsed w) ∨
      ((∃ v, c = .exit v) ∧ a'.running = some w) := by
  have happend : w ∈ a.procs .waiting ++ [r] := List.mem_append_left _ hw
  cases hp : c.onProcesses with
  | false => exact Or.inl ((h.sameProcesses hp).procs ▸ hw)
  | true =>
      cases h with
      | preempt h => exact (h.waiting_cases hw).imp id fun he => Or.inl ⟨rfl, he⟩
      | fork h => cases h with | created _ _ => exact Or.inl hw
      | spawn h => cases h with | created _ _ => exact Or.inl hw
      | wait h =>
          cases h with
          | noChildren _ => exact Or.inl hw
          | reap _ _ =>
              rw [reap_eq]
              exact Or.inl hw
          | block _ _ _ => exact Or.inl happend
      | @exit v _ h =>
          cases h with
          | @wakeParent init parent e _ _ _ _ _ =>
              obtain ⟨_, _, _, _, heq⟩ := handOver_eq (a.leave r init parent) r parent e
              rw [heq]
              by_cases hwp : w = parent
              · exact Or.inr (Or.inr ⟨⟨v, rfl⟩, congrArg some hwp.symm⟩)
              · exact Or.inl ((List.mem_erase_of_ne hwp).2 hw)
          | retire _ _ _ _ _ => exact Or.inl hw
      | sleep h =>
          cases h with
          | refused _ => exact Or.inl hw
          | switch _ _ _ _ _ => exact Or.inl happend
          | idle _ _ _ _ _ => exact Or.inl happend
      | shutdown => exact Or.inl hw
      | _ => cases hp

/-- A process that is blocked in `wait` has no timer. -/
theorem Blocked.not_elapsed (hw : a.Blocked w) (hT : a.TimerInv) : ¬ a.Elapsed w := by
  rintro ⟨t, ht, rfl, -⟩
  have hnum := (hT.sleeping t ht).2
  rw [hw.2] at hnum
  exact absurd hnum (by decide)

/-- A process that is blocked in `wait` stays blocked in the same call as long as it does not run.
-/
theorem Step.blocked_stays (h : Step clean a act a') (hI : a.Inv) (hw : a.Blocked w)
    (hne : a'.running ≠ some w) : a'.Blocked w ∧ a'.syscallArgs w = a.syscallArgs w := by
  cases h with
  | tick _ hs =>
      have hI₁ : { a with time := wrapInt (a.time + 1) }.TimerInv := { hI.timer with }
      have hmem := (hs.waiting_cases hw.1).resolve_right (Blocked.not_elapsed hw hI₁)
      obtain ⟨_, _, _, _, _, _, rfl⟩ := hs.eq
      exact ⟨⟨hmem, hw.2⟩, rfl⟩
  | @syscall r c _ hr hs =>
      have hwr : w ≠ r := fun heq => (hI.proc.running_fresh hr).1 .waiting (heq ▸ hw.1)
      have hblocked : (a.enter r c).Blocked w :=
        ⟨hw.1, (Function.update_of_ne hwr ..).trans hw.2⟩
      obtain ⟨hnum, hargs⟩ := hs.syscall_eq
      rcases hs.keeps_waiting hw.1 with hmem | ⟨-, he⟩ | ⟨-, hrun⟩
      · refine ⟨⟨hmem, ?_⟩, ?_⟩
        · rw [hnum]
          exact hblocked.2
        · rw [hargs]
          exact Function.update_of_ne hwr ..
      · exact absurd he (Blocked.not_elapsed hblocked (hI.enter hr c).timer)
      · exact absurd hrun hne
  | store _ => exact ⟨hw, rfl⟩

/-- When a blocked `wait` resumes, it returns the pid of the process that has left, and that is one
it waits for. -/
theorem Step.resumed_answer (h : Step clean a act a') (hI : a.Inv) (hw : a.Blocked w)
    (hw' : a'.running = some w) : ∃ r, a.running = some r ∧ a.awaits w (a.pid r) ∧
      a'.syscallRetvalue w = a.pid r := by
  cases h with
  | tick _ hs => exact absurd hw' (hs.not_resumed { hI.proc with } { hI.timer with } hw)
  | @syscall r c _ hr hs =>
      have hI₁ := hI.enter hr c
      have hwr : w ≠ r := fun heq => (hI.proc.running_fresh hr).1 .waiting (heq ▸ hw.1)
      have hblocked : (a.enter r c).Blocked w :=
        ⟨hw.1, (Function.update_of_ne hwr ..).trans hw.2⟩
      obtain ⟨init, e, v, rfl, -, -, -, hawaits, -, rfl⟩ :=
        hs.resumed hI₁.proc hI₁.timer hblocked hw'
      refine ⟨r, hr, (awaits_enter hI.proc hr).1 hawaits, ?_⟩
      obtain ⟨_, _, _, _, heq⟩ := handOver_eq ((a.enter r (.exit v)).leave r init w) r w e
      rw [heq]
      exact Function.update_self ..
  | store _ => exact absurd hw.1 ((hI.proc.running_fresh hw').1 .waiting)

end Model

end DisastrOS
