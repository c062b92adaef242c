import DisastrOS.Properties.Preemption

/-!
# Processes with a context

`spawn` makes a context for the new process, `fork` makes none. Without `fork` every process has one
and the machine can do what its kernel can do. A forked process that gets a fresh PCB never runs:
the machine fails when its turn comes.
-/

set_option autoImplicit false

namespace DisastrOS

open Runs LinkedSequence LinkedSequence.ListHeap Model

variable {σ : Type} {code : Code σ} {es fs : List (Event (Machine σ) Bool)} {m m' u : Machine σ}
  {t t' : Kernel} {here : Context σ} {signal : Bool} {r x : Addr} {c : Syscall} {next : Int → σ}

/-! ## New processes -/

/-- The call that the trap finds in the PCB is the one that the process makes. -/
theorem Atomic.stored_call (h : Atomic m t) (hcpu : m.cpu = some (.calling c next))
    (hr : m.kernel.running = some r) : m.kernel.syscallNum r = c.num ∧
      m.kernel.syscallArgs r = Kernel.storeArgs (fun j => c.args.getD j 0)
        (Kernel.syscallNumarg c.num) (t.syscallArgs r) := by
  have hcontext := (Machine.context_running hr).trans hcpu
  rw [h.kernel]
  show m.storedNum t r = _ ∧ m.storedArgs t r = _
  rw [Machine.storedNum, Machine.storedArgs, hcontext]
  exact ⟨rfl, rfl⟩

/-- The trap of `spawn` makes a context for the new process: the start of its function. -/
theorem Atomic.spawn {f a : Int} (h : Atomic m t) (hcpu : m.cpu = some (.calling (.spawn f a) next))
    (hstep : m.execute code (.calling (.spawn f a) next) = .ok m')
    (hx : m.kernel.pcbAllocator.getBlock.1 = some x) :
    m'.cpuState x = some (.user (code.entry f a)) := by
  obtain ⟨r, hr, -⟩ := Machine.calling_eq hstep
  obtain ⟨hnum, hargs⟩ := h.stored_call hcpu hr
  have hstored : m.kernel.syscallArgs r 0 = f ∧ m.kernel.syscallArgs r 1 = a := by
    rw [hargs]
    exact ⟨by simp [Kernel.syscallNumarg, Syscall.num, Kernel.storeArgs, Syscall.args],
      by simp [Kernel.syscallNumarg, Syscall.num, Kernel.storeArgs, Syscall.args]⟩
  rw [Machine.calling_spawn hstep hr hnum hx, hstored.1, hstored.2]

/-- The trap of `spawn(f, a)` creates a process in the next free PCB. It stands at the start of `f`
with the argument `a`, and it is still there when it executes its first step. -/
theorem spawned_starts_at_entry {f a : Int} (h : MachineRun code es m)
    (hcpu : m.cpu = some (.calling (.spawn f a) next)) (hstep : m.Completes code false u) :
    ∃ x, m.kernel.pcbAllocator.getBlock.1 = some x ∧ ∀ fs m',
      Run (Machine.Completes code) u fs m' → (∀ e ∈ fs, ¬ Executes e x) →
        m'.kernel.Awake x ∧ m'.context x = some (.user (code.entry f a)) := by
  obtain ⟨-, t, -, -, hatomic⟩ := h.atomic
  have hcode := hstep.executes hcpu
  obtain ⟨t', hcompletes, hatomic'⟩ := hatomic.call hcpu hcode
  obtain ⟨a₁, hR, hI, -⟩ := hatomic.awake
  obtain ⟨a₂, hsim⟩ := hR.simulated hI hcompletes
  have hI' := hsim.inv'
  have hnew : ∃ x, t.pcbAllocator.getBlock.1 = some x ∧ x ∈ a₂.procs .ready := by
    cases hsim.step with
    | syscall hr hs =>
        cases hs with
        | spawn hs =>
            cases hs with
            | @created b e xs es hb _ =>
                exact ⟨b, hR.next_block hb, List.mem_append_right _ (List.mem_singleton_self b)⟩
  obtain ⟨x, hblock, hready⟩ := hnew
  have hblock' : m.kernel.pcbAllocator.getBlock.1 = some x := by
    rwa [hatomic.pcbAllocator_eq]
  have hx : u.kernel.Awake x := by
    rw [hatomic'.kernel]
    exact Or.inr ((hsim.post.processes_eq hI'.proc .ready).symm ▸ hready)
  have hrun : u.kernel.running ≠ some x := by
    rw [hatomic'.running_eq]
    intro hrun
    exact (hI'.proc.running_fresh (hsim.post.running_eq.symm.trans hrun)).1 .ready hready
  refine ⟨x, hblock', fun fs m' hrest hexec => ?_⟩
  obtain ⟨-, hcontext, -, -, hawake⟩ :=
    hatomic'.undisturbed_run (hx.imp id Or.inl) hrest hexec
  refine ⟨(hawake hx).1, hcontext.trans ?_⟩
  rw [Machine.context_other hrun]
  exact hatomic.spawn hcpu hcode hblock'

/-- The process waits at its start while `init` goes on. -/
theorem spawned_starts_at_entry_spawn : ∃ (u m' : Machine Nat)
    (fs : List (Event (Machine Nat) Bool)), Run (Machine.Completes interruptedSpawn) u fs m' ∧
      fs.length = 2 ∧ m'.context 17544 = some (.user (interruptedSpawn.entry 3 4)) := by
  obtain ⟨es, m', hrun, hp⟩ := exists_of_machine interruptedSpawn false (List.replicate 7 false)
    (fun es _ => match es with
      | [_, _, _, _, e, f, g] => e.act = false ∧
          e.pre.kernel.pcbAllocator.getBlock.1 = some 17544 ∧
          e.pre.shows interruptedSpawn false = some (.action (.syscall (.spawn 3 4))) ∧
          f.pre.kernel.running = some 0 ∧ g.pre.kernel.running = some 0
      | _ => false) (by decide +kernel)
  split at hp
  · rename_i e₁ e₂ e₃ e₄ e f g
    obtain ⟨hact, hblock, hshows, hf, hg⟩ := of_decide_eq_true hp
    obtain ⟨-, next, hcpu⟩ := Machine.shows_syscall hshows
    have hrun' : MachineRun interruptedSpawn ([e₁, e₂, e₃, e₄] ++ e :: [f, g]) m' := hrun
    obtain ⟨hpre, hstep, hrest⟩ := hrun'.split
    rw [hact] at hstep
    obtain ⟨x, hx, hall⟩ := spawned_starts_at_entry hpre hcpu hstep
    obtain rfl : x = 17544 := Option.some.inj (hx.symm.trans hblock)
    refine ⟨e.post, m', [f, g], hrest, rfl, (hall _ _ hrest ?_).2⟩
    rintro k (_ | ⟨_, _ | ⟨_, ⟨⟩⟩⟩)
    · intro hexec
      rw [Executes, hf] at hexec
      exact absurd hexec.2.2 (by decide)
    · intro hexec
      rw [Executes, hg] at hexec
      exact absurd hexec.2.2 (by decide)
  · cases hp

/-! ## Contexts without `fork` -/

/-- Somebody runs after a call of the scheduler if somebody ran before. -/
theorem Model.ScheduleStep.runs {a a' : Model} (h : ScheduleStep a a') (hr : a.running = some r) :
    ∃ q, a'.running = some q := by
  cases h with
  | idle hw _ =>
      obtain ⟨_, -, -, hsame⟩ := hw.ready_eq (List.nil_append _).symm
      exact ⟨r, hsame.trans hr⟩
  | switch _ _ _ => exact ⟨_, rfl⟩

/-- The move is a call of the scheduler. -/
def Move.schedules : Move → Bool
  | .action act => Model.schedules act
  | .resume => false

/-- How many of the moves are calls of the scheduler. -/
def countSchedules (mvs : List Move) : Nat := mvs.countP Move.schedules

/-- A process without a context does not get the processor. -/
theorem Atomic.not_dispatched (h : Atomic m t) (hstep : m.Completes code signal m')
    (hx : m.kernel.running ≠ some x) (hnone : m'.context x = none) :
    m'.kernel.running ≠ some x := by
  intro hrun
  rw [Machine.context_running hrun] at hnone
  rcases hstep.cases with ⟨here, hcpu, rfl, htimer⟩ | ⟨here, hcpu, rfl, hcode⟩ |
    ⟨hcpu, rfl, hon, hmain⟩
  · obtain ⟨-, -, _, _, -, hsome⟩ := Machine.timerInterrupt_eq hcpu htimer
    rw [hsome] at hnone
    cases hnone
  · rcases here with _ | _ | ⟨c, next⟩ | _
    case calling => exact hx (h.stops_at hcpu hcode hrun hnone)
    all_goals
      obtain ⟨_, _, _, _, rfl⟩ := Machine.execute_eq hcode (by simp)
      exact hx hrun
  · simp only [Machine.resumeMain, bind_eq_ok] at hmain
    obtain ⟨_, -, hlaunch⟩ := hmain
    obtain ⟨_, -, -, hsome, -⟩ := Machine.launch_eq hlaunch
    rw [hsome] at hnone
    cases hnone

/-- A ready process without a context stays one, and every call of the scheduler takes away one of
the processes in front of it. -/
theorem Atomic.stranded (h : Atomic m t) (hx : x ∈ m.kernel.processes .ready)
    (hnone : m.context x = none) (hstep : m.Completes code signal m') :
    x ∈ m'.kernel.processes .ready ∧ m'.context x = none ∧
      m'.kernel.ahead x + countSchedules (m.shows code signal).toList ≤ m.kernel.ahead x := by
  obtain ⟨a, hR, hI, -⟩ := h.awake
  have hready : x ∈ a.procs .ready := by
    rw [h.kernel] at hx
    rwa [← hR.processes_eq hI.proc]
  have hxr : m.kernel.running ≠ some x := by
    rw [h.running_eq]
    intro hr
    exact (hI.proc.running_fresh (hR.running_eq.symm.trans hr)).1 .ready hready
  obtain ⟨-, hcontext, -, -, hawake⟩ :=
    h.undisturbed hstep (Or.inr (Or.inl hx)) fun hexec => hxr hexec.2.2
  have hnone' := hcontext.trans hnone
  have hxr' := h.not_dispatched hstep hxr hnone'
  refine ⟨(hawake (Or.inr hx)).1.resolve_left hxr', hnone', ?_⟩
  obtain ⟨t', hanswer, h'⟩ := Machine.simulates code m signal m' t h hstep
  have hahead : m.kernel.ahead x = a.ahead x := by
    rw [h.kernel]
    exact hR.ahead_eq hI x
  cases hshows : m.shows code signal with
  | none =>
      rw [hshows] at hanswer
      obtain rfl : t' = t := hanswer
      rw [hahead, h'.kernel]
      exact Nat.le_of_eq (hR.ahead_eq hI x)
  | some mv =>
      rw [hshows] at hanswer
      obtain ⟨a', hR', hI', hmove⟩ := hR.moves hI hanswer
      have hahead' : m'.kernel.ahead x = a'.ahead x := by
        rw [h'.kernel]
        exact hR'.ahead_eq hI' x
      rw [hahead, hahead']
      cases hmove with
      | @action act _ hs =>
          have hcount : countSchedules (Option.toList (some (.action act))) =
              (schedules act).toNat := by
            cases hact : schedules act <;> simp [countSchedules, Move.schedules, hact]
          rcases hs.advances hready with hrun | ⟨-, hle⟩
          · exact absurd (h'.running_eq.trans (hR'.running_eq.trans hrun)) hxr'
          · rwa [hcount]
      | resume _ hboot => cases hboot with | booted _ => exact Nat.le_refl _

/-- Throughout a run a ready process without a context stays where it is, and gets closer to the
head of the ready list with every call of the scheduler. -/
theorem Atomic.stranded_run (h : Atomic u t) (hx : x ∈ u.kernel.processes .ready)
    (hnone : u.context x = none) (hrun : Run (Machine.Completes code) u fs m') :
    x ∈ m'.kernel.processes .ready ∧ m'.context x = none ∧
      m'.kernel.ahead x + countSchedules (shown (Machine.shows code) fs) ≤ u.kernel.ahead x := by
  suffices hall : ∃ v, Atomic m' v ∧ x ∈ m'.kernel.processes .ready ∧ m'.context x = none ∧
      m'.kernel.ahead x + countSchedules (shown (Machine.shows code) fs) ≤ u.kernel.ahead x by
    obtain ⟨_, -, hall⟩ := hall
    exact hall
  induction hrun with
  | start => exact ⟨t, h, hx, hnone, Nat.le_refl _⟩
  | @step fs w w' signal _ hstep ih =>
      obtain ⟨v, hv, hx', hnone', hle⟩ := ih
      obtain ⟨v', -, hv'⟩ := Machine.simulates code w signal w' v hv hstep
      obtain ⟨hx'', hnone'', hle'⟩ := hv.stranded hx' hnone' hstep
      refine ⟨v', hv', hx'', hnone'', ?_⟩
      have hsplit : countSchedules (shown (Machine.shows code) (fs ++ [⟨w, signal, w'⟩])) =
          countSchedules (shown (Machine.shows code) fs) +
            countSchedules (w.shows code signal).toList := by
        rw [shown_concat, countSchedules, List.countP_append, ← countSchedules, ← countSchedules]
      omega

/-- The process that `fork` creates is ready and has the context left in its PCB, if any. -/
theorem Atomic.forked (h : Atomic m t)
    (hfork : m.shows code signal = some (.action (.syscall .fork)))
    (hblock : m.kernel.pcbAllocator.getBlock.1 = some x) (hstep : m.Completes code signal u) :
    x ∈ u.kernel.processes .ready ∧ u.context x = m.cpuState x ∧
      u.kernel.ahead x < maxNumProcesses := by
  obtain ⟨t', hanswer, h'⟩ := Machine.simulates code m signal u t h hstep
  obtain ⟨a, hR, hI, -⟩ := h.awake
  rw [hfork] at hanswer
  obtain ⟨a', hsim⟩ := hR.simulated hI hanswer
  have hR' := hsim.post
  have hI' := hsim.inv'
  rw [h.pcbAllocator_eq] at hblock
  have hfree : ¬ a.Used x := hR.next_free hI.proc hblock
  have hready : x ∈ a'.procs .ready := by
    cases hsim.step with
    | syscall hr hs =>
        cases hs with
        | fork hs =>
            cases hs with
            | @created b e xs es hb _ =>
                obtain rfl : b = x := Option.some.inj ((hR.next_block hb).symm.trans hblock)
                exact List.mem_append_right _ (List.mem_singleton_self b)
  refine ⟨?_, ?_, ?_⟩
  · rw [h'.kernel]
    exact (hR'.processes_eq hI'.proc .ready).symm ▸ hready
  · obtain ⟨rfl, next, hcpu⟩ := Machine.shows_syscall hfork
    have hcode := hstep.executes hcpu
    obtain ⟨r, hr, -⟩ := Machine.calling_eq hcode
    have hnum := (h.stored_call hcpu hr).1
    have hxr : x ≠ r := by
      rintro rfl
      exact hfree (Or.inl (hR.running_eq.symm.trans (h.running_eq.symm.trans hr)))
    have hrun' : u.kernel.running ≠ some x := by
      rw [h'.running_eq]
      intro hrun'
      exact (hI'.proc.running_fresh (hR'.running_eq.symm.trans hrun')).1 .ready hready
    rw [Machine.context_other hrun', Machine.calling_other hcode hr (by rw [hnum]; decide),
      Function.update_of_ne hxr]
  · rw [h'.kernel]
    exact (hR'.ahead_eq hI' x).symm ▸ hI'.ahead_lt hready

/-- A forked process that gets a PCB without a saved context never runs: as long as the machine goes
on it is ready and has no context, and the machine can call the scheduler only as often as there are
processes in front of it. -/
theorem forked_never_runs (h : MachineRun code es m)
    (hfork : m.shows code signal = some (.action (.syscall .fork)))
    (hblock : m.kernel.pcbAllocator.getBlock.1 = some x) (hfresh : m.cpuState x = none)
    (hstep : m.Completes code signal u) (hrun : Run (Machine.Completes code) u fs m') :
    x ∈ m'.kernel.processes .ready ∧ m'.context x = none ∧
      countSchedules (shown (Machine.shows code) fs) ≤ u.kernel.ahead x ∧
      u.kernel.ahead x < maxNumProcesses := by
  obtain ⟨-, t, -, -, hatomic⟩ := h.atomic
  obtain ⟨hx, hcontext, hahead⟩ := hatomic.forked hfork hblock hstep
  obtain ⟨t', -, hatomic'⟩ := Machine.simulates code m signal u t hatomic hstep
  obtain ⟨hx', hnone, hle⟩ := hatomic'.stranded_run hx (hcontext.trans hfresh) hrun
  exact ⟨hx', hnone, by omega, hahead⟩

/-- `init` forks and computes, and the next tick would be the last step. -/
def forks : Code Nat where
  main := 0
  entry := fun _ _ => 1
  fetch
    | 0 => .call .fork fun _ => 1
    | n => .compute n

/-- The child of `init` is next in the ready list, but has no context. -/
theorem forked_never_runs_init : ∃ (u m' : Machine Nat) (fs : List (Event (Machine Nat) Bool)),
    Run (Machine.Completes forks) u fs m' ∧ fs.length = 2 ∧ 17544 ∈ m'.kernel.processes .ready ∧
      m'.context 17544 = none ∧ u.kernel.ahead 17544 = 0 ∧
      countSchedules (shown (Machine.shows forks) fs) ≤ u.kernel.ahead 17544 := by
  obtain ⟨es, m', hrun, hp⟩ := exists_of_machine forks false (List.replicate 5 false)
    (fun es _ => match es with
      | [_, _, e, f, _] => e.pre.shows forks e.act = some (.action (.syscall .fork)) ∧
          e.pre.kernel.pcbAllocator.getBlock.1 = some 17544 ∧
          (e.pre.cpuState 17544).isNone ∧ e.post.kernel.ahead 17544 = 0
      | _ => false) (by decide +kernel)
  split at hp
  · rename_i e₁ e₂ e f g
    obtain ⟨hfork, hblock, hfresh, hahead⟩ := of_decide_eq_true hp
    have hrun' : MachineRun forks ([e₁, e₂] ++ e :: [f, g]) m' := hrun
    obtain ⟨hpre, hstep, hrest⟩ := hrun'.split
    obtain ⟨hx, hnone, hle, -⟩ :=
      forked_never_runs hpre hfork hblock (Option.isNone_iff_eq_none.1 hfresh) hstep hrest
    exact ⟨e.post, m', [f, g], hrest, rfl, hx, hnone, hahead, hle⟩
  · cases hp

end DisastrOS
