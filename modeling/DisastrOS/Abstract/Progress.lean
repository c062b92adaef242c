import DisastrOS.Abstract.Openings
import DisastrOS.Abstract.Preemption

/-!
# Which calls complete, and when the system stops

A call is stuck if its handler needs something that is not there: a block of a pool, a process to
dispatch, an entry of a list, a buffer. No transition leaves such a state. The running process is
lost in one way only: the last process that can run goes to sleep. The main context then starts a
new `init`, unless no PCB is free.
-/

set_option autoImplicit false

namespace DisastrOS

namespace Model

variable {clean : Addr → Prop} {a a' : Model} {r : Addr} {c : Syscall} {act : Action}

/-- The call `c` of the process `r` does not complete. -/
def Stuck (a : Model) (r : Addr) : Syscall → Prop
  | .fork | .spawn .. => a.freePcbs = [] ∨ a.freePcbPtrs = []
  | .wait pid _ =>
      (∃ e ∈ a.awaited r pid.toInt, a.status (a.ptrPcb e) ≠ .zombie) ∧ a.procs .ready = []
  | .exit _ => a.ExitStuck r
  | .openResource id type mode => a.OpenStuck id.toInt type.toInt mode.toInt
  | .mqRead fd buf length => a.ReadStuck r fd.toInt buf length.toInt
  | .mqWrite fd msg length => a.WriteStuck r fd.toInt msg length.toInt
  | _ => False

/-! ## No transition is stuck -/

theorem CreateStep.not_stuck (h : CreateStep a r a') :
    ¬ (a.freePcbs = [] ∨ a.freePcbPtrs = []) := by
  cases h with
  | created hx he =>
      rw [hx, he]
      rintro (hnil | hnil) <;> cases hnil

theorem WaitStep.not_stuck (h : WaitStep a r a') :
    ¬ ((∃ e ∈ a.awaited r (wrapInt (a.syscallArgs r 0)), a.status (a.ptrPcb e) ≠ .zombie) ∧
      a.procs .ready = []) := by
  rintro ⟨⟨e, he, halive⟩, hnil⟩
  cases h with
  | noChildren hkids =>
      have hmem := mem_of_awaited he
      rw [hkids] at hmem
      cases hmem
  | reap he' hz =>
      obtain rfl := Option.some.inj (he.symm.trans he')
      exact halive hz
  | block _ _ hready =>
      rw [hready] at hnil
      cases hnil

theorem ExitStep.not_stuck (h : ExitStep a r a') (hP : a.ProcInv) (hr : a.running = some r) :
    ¬ a.ExitStuck r := by
  rintro (hinit' | hstuck)
  · cases h with
    | wakeParent hinit hne _ _ _ => exact hne (Option.some.inj (hinit'.symm.trans hinit))
    | retire hinit hne _ _ _ => exact hne (Option.some.inj (hinit'.symm.trans hinit))
  · cases h with
    | @wakeParent init parent e hinit _ hparent hawaits hfind =>
        have hne : parent ≠ r := by
          rintro rfl
          exact (hP.running_fresh hr).1 .waiting (hP.awaits_waiting hawaits).1
        have hnone := hstuck parent hparent
        rw [if_pos hawaits, ← leave_children_of_ne hinit hne] at hnone
        exact hnone e (List.mem_of_find?_eq_some hfind) (by simpa using List.find?_some hfind)
    | @retire init parent next rest _ _ hparent hawaits hready =>
        have hnil := hstuck parent hparent
        rw [if_neg hawaits, hready] at hnil
        cases hnil

theorem OpenStep.not_stuck {id type mode : Int} (h : OpenStep a r id type mode a') :
    ¬ a.OpenStuck id type mode := by
  rcases h.outcome with ⟨hrefused, -⟩ | ⟨res, a₁, hprep, -⟩
  · exact hrefused.not_stuck
  · exact hprep.not_stuck

/-- Whether a call is stuck does not depend on its arguments being stored. -/
theorem stuck_enter (hP : a.ProcInv) (hr : a.running = some r) :
    (a.enter r c).Stuck r c ↔ a.Stuck r c := by
  cases c with
  | exit v =>
      refine or_congr Iff.rfl (forall₂_congr fun parent _ => ?_)
      rw [show (a.enter r (.exit v)).pid = a.pid from rfl]
      by_cases hawaits : a.awaits parent (a.pid r)
      · rw [if_pos hawaits, if_pos ((awaits_enter hP hr).2 hawaits)]
        rfl
      · rw [if_neg hawaits, if_neg (fun h => hawaits ((awaits_enter hP hr).1 h))]
        rfl
  | _ => exact Iff.rfl

/-- A transition does not come from a stuck call. For reads and writes that is a matter of pointers
that the transitions do not mention. -/
theorem HandlerStep.not_stuck (h : HandlerStep clean (a.enter r c) r c a') (hI : a.Inv)
    (hr : a.running = some r) (hread : ∀ fd buf length, c ≠ .mqRead fd buf length)
    (hwrite : ∀ fd msg length, c ≠ .mqWrite fd msg length) : ¬ a.Stuck r c := by
  rw [← stuck_enter hI.proc hr]
  have hI₁ := hI.enter hr c
  cases h with
  | fork h | spawn h => exact h.not_stuck
  | @wait pid result _ h =>
      have hargs : (a.enter r (.wait pid result)).syscallArgs r 0 = pid.toInt :=
        enter_args a r (.wait pid result) (by simp [Syscall.args])
      have hfree := h.not_stuck
      rw [hargs, wrapInt_toInt] at hfree
      exact hfree
  | exit h => exact h.not_stuck hI₁.proc hr
  | openResource h => exact h.not_stuck
  | mqRead _ => exact absurd rfl (hread _ _ _)
  | mqWrite _ => exact absurd rfl (hwrite _ _ _)
  | _ => exact not_false

/-! ## Losing the running process -/

end Model

end DisastrOS
