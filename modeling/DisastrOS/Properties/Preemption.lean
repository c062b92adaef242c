import DisastrOS.Properties.Fairness
import DisastrOS.Refinement.Atomicity

/-!
# Preemption

The machine switches between processes at any point of their code. To the kernel this makes no
difference: every run of the machine is a run in which each call happens in one step. Nor does it to
the processes: each one goes on where it stood.
-/

set_option autoImplicit false

namespace DisastrOS

open Runs LinkedSequence LinkedSequence.ListHeap Model

variable {σ : Type} {code : Code σ} {es fs : List (Event (Machine σ) Bool)} {m m' : Machine σ}
  {t t' : Kernel} {here : Context σ} {signal : Bool} {r x : Addr}

/-- `init` spawns a process and begins to spawn another one, and is interrupted after it has stored
the first argument. The other process computes with the sum of the arguments. -/
def interruptedSpawn : Code Nat where
  main := 0
  entry := fun f a => (f + a).toNat
  fetch
    | 0 => .call (.spawn 3 4) fun _ => 1
    | 1 => .call (.spawn 7 8) fun _ => 2
    | n => .compute n

/-- In the event the process `x` executes one step of its code. -/
def Executes (e : Event (Machine σ) Bool) (x : Addr) : Prop :=
  e.act = false ∧ e.pre.cpu ≠ none ∧ e.pre.kernel.running = some x

/-- The process at which the machine stops is the one that shut it down. -/
theorem Atomic.stops_at (h : Atomic m t) {c : Syscall} {next : Int → σ}
    (hcpu : m.cpu = some (.calling c next)) (hstep : m.execute code (.calling c next) = .ok m')
    (hx : m'.kernel.running = some x) (hnone : m'.cpu = none) : m.kernel.running = some x := by
  obtain ⟨hon, -⟩ := h.executing hcpu
  obtain ⟨t', hcompletes, h'⟩ := h.call hcpu hstep
  obtain ⟨a, hR, hI, -⟩ := h.awake
  obtain ⟨a', hsim⟩ := hR.simulated hI hcompletes
  have hx' : t'.running = some x := h'.running_eq.symm.trans hx
  have hdown : t'.shutdownNow = true := by
    by_contra hoff
    exact h'.cpu.2 ⟨by simp [hx'], by simpa using hoff⟩ hnone
  rw [h.running_eq, ← hsim.shutdown_running hon hdown]
  exact hx'

/-- A step of another process or of the kernel leaves a process where it stands. -/
theorem Atomic.context_kept (h : Atomic m t) (hstep : m.Completes code signal m')
    (hx : m.kernel.pcbAllocator.handedOut x) (hexec : ¬ Executes ⟨m, signal, m'⟩ x) :
    m'.context x = m.context x := by
  obtain ⟨a, hR, hI, -⟩ := h.awake
  have hnew : m.kernel.pcbAllocator.getBlock.1 ≠ some x := by
    intro hnew
    rw [h.pcbAllocator_eq] at hnew hx
    exact hR.next_free hI.proc hnew ((hR.handedOut_iff_used hI.proc).1 hx)
  rcases hstep.cases with ⟨here, hcpu, rfl, htimer⟩ | ⟨here, hcpu, rfl, hcode⟩ |
    ⟨hcpu, rfl, hon, hmain⟩
  · rw [(Machine.timerInterrupt_eq hcpu htimer).2.1]
  · have hxr : m.kernel.running ≠ some x := fun hr => hexec ⟨rfl, by simp [hcpu], hr⟩
    rcases here with _ | _ | ⟨c, next⟩ | _
    case calling =>
      obtain ⟨r, hr, -, hcontexts, -⟩ := Machine.calling_eq hcode
      rcases hcontexts x with ⟨hrun, hnone⟩ | ⟨rfl, -⟩ | ⟨hblock, -⟩ | ⟨-, hkeep⟩
      · exact absurd (h.stops_at hcpu hcode hrun hnone) hxr
      · exact absurd hr hxr
      · exact absurd hblock hnew
      · exact hkeep
    all_goals
      obtain ⟨_, _, _, _, heq⟩ := Machine.execute_eq hcode (by simp)
      have hxr' : m'.kernel.running ≠ some x := by rw [heq]; exact hxr
      rw [Machine.context_other hxr', Machine.context_other hxr, heq]
  · have hxr : m.kernel.running ≠ some x := by simp [h.running_eq, h.idle hcpu hon]
    simp only [Machine.resumeMain, bind_eq_ok] at hmain
    obtain ⟨kernel, hkernel, hlaunch⟩ := hmain
    obtain ⟨q, hq, -, -, -, hkeep⟩ := Machine.launch_eq hlaunch
    have hxq : x ≠ q := by
      rintro rfl
      exact hnew ((Kernel.resumeMain_running hkernel).symm.trans hq)
    exact (hkeep x hxq).trans (Machine.context_other hxr).symm

/-- The step that shows a call is the one in which a process enters the trap. -/
theorem Machine.shows_syscall {c : Syscall}
    (h : m.shows code signal = some (.action (.syscall c))) :
    signal = false ∧ ∃ next, m.cpu = some (.calling c next) := by
  unfold Machine.shows at h
  cases hcpu : m.cpu with
  | none => simp [hcpu] at h
  | some here =>
      rw [hcpu] at h
      cases signal with
      | true => simp at h
      | false =>
          simp only [Bool.false_eq_true, if_false, Option.map_eq_some_iff, Move.action.injEq,
            exists_eq_right] at h
          refine ⟨rfl, ?_⟩
          cases here with
          | user state =>
              simp only [Context.shows] at h
              cases hfetch : code.fetch state <;> simp [hfetch] at h
          | calling d next =>
              obtain rfl : d = c := by simpa [Context.shows] using h
              exact ⟨next, rfl⟩
          | storing _ _ _ | returning _ => cases h

/-- A step of another process or of the kernel does nothing else to a process that is alive. -/
theorem Atomic.undisturbed (h : Atomic m t) (hstep : m.Completes code signal m')
    (hx : m.kernel.Alive x) (hexec : ¬ Executes ⟨m, signal, m'⟩ x) :
    m'.kernel.Alive x ∧ m'.context x = m.context x ∧
      m'.kernel.syscallNum x = m.kernel.syscallNum x ∧
      m'.kernel.syscallArgs x = m.kernel.syscallArgs x ∧ (m.kernel.Awake x →
        m'.kernel.Awake x ∧ m'.kernel.syscallRetvalue x = m.kernel.syscallRetvalue x) := by
  obtain ⟨a, hR, hI, -⟩ := h.awake
  have halive : a.Alive x := by
    rw [h.kernel] at hx
    exact (hR.alive_iff hI.proc).1 hx
  have hused : m.kernel.pcbAllocator.handedOut x := by
    rw [h.pcbAllocator_eq]
    exact (hR.handedOut_iff_used hI.proc).2 halive.used
  have hcontext := h.context_kept hstep hused hexec
  obtain ⟨t', hanswer, h'⟩ := Machine.simulates code m signal m' t h hstep
  have hcall : t.running = some x → ∀ c, m.shows code signal ≠ some (.action (.syscall c)) := by
    intro hr c hshows
    obtain ⟨rfl, next, hcpu⟩ := Machine.shows_syscall hshows
    exact hexec ⟨rfl, by simp [hcpu], h.running_eq.trans hr⟩
  -- what the simulating kernel does to the process
  have hkernel : t'.Alive x ∧ t'.syscallNum x = t.syscallNum x ∧
      t'.syscallArgs x = t.syscallArgs x ∧ (t.Awake x →
        t'.Awake x ∧ t'.syscallRetvalue x = t.syscallRetvalue x) := by
    cases hshows : m.shows code signal with
    | none =>
        rw [hshows] at hanswer
        obtain rfl : t' = t := hanswer
        exact ⟨(hR.alive_iff hI.proc).2 halive, rfl, rfl, fun hawake => ⟨hawake, rfl⟩⟩
    | some mv =>
        rw [hshows] at hanswer
        obtain ⟨a', hR', hI', hmove⟩ := hR.moves hI hanswer
        have hkeep := hmove.undisturbed hI hI' halive fun hr c hmv =>
          hcall (hR.running_eq.trans hr) c (by rw [hshows, hmv])
        refine ⟨(hR'.alive_iff hI'.proc).2 hkeep.alive, ?_, ?_, fun hawake => ?_⟩
        · rw [hR'.data, hR.data]
          exact hkeep.syscallNum
        · rw [hR'.data, hR.data]
          exact hkeep.syscallArgs
        · rw [Kernel.Awake, hR.running_eq, hR.processes_eq hI.proc] at hawake
          rw [Kernel.Awake, hR'.running_eq, hR'.processes_eq hI'.proc]
          refine ⟨(hkeep.awake hawake).1, ?_⟩
          rw [hR'.data, hR.data]
          exact (hkeep.awake hawake).2
  obtain ⟨halive', hnum, hargs, hawake⟩ := hkernel
  rw [h.kernel, h'.kernel]
  refine ⟨halive', hcontext, ?_, ?_, hawake⟩
  · show Context.storedNum (m'.context x) (t'.syscallNum x) =
      Context.storedNum (m.context x) (t.syscallNum x)
    rw [hcontext, hnum]
  · show Context.storedArgs (m'.context x) (t'.syscallArgs x) =
      Context.storedArgs (m.context x) (t.syscallArgs x)
    rw [hcontext, hargs]

theorem Atomic.undisturbed_run (h : Atomic m t) (hx : m.kernel.Alive x)
    (hrun : Run (Machine.Completes code) m fs m') (hexec : ∀ e ∈ fs, ¬ Executes e x) :
    m'.kernel.Alive x ∧ m'.context x = m.context x ∧
      m'.kernel.syscallNum x = m.kernel.syscallNum x ∧
      m'.kernel.syscallArgs x = m.kernel.syscallArgs x ∧ (m.kernel.Awake x →
        m'.kernel.Awake x ∧ m'.kernel.syscallRetvalue x = m.kernel.syscallRetvalue x) := by
  suffices hall : ∃ t, Atomic m' t ∧ m'.kernel.Alive x ∧ m'.context x = m.context x ∧
      m'.kernel.syscallNum x = m.kernel.syscallNum x ∧
      m'.kernel.syscallArgs x = m.kernel.syscallArgs x ∧ (m.kernel.Awake x →
        m'.kernel.Awake x ∧ m'.kernel.syscallRetvalue x = m.kernel.syscallRetvalue x) by
    obtain ⟨-, -, hkept⟩ := hall
    exact hkept
  induction hrun with
  | start => exact ⟨t, h, hx, rfl, rfl, rfl, fun hawake => ⟨hawake, rfl⟩⟩
  | @step fs u u' signal _ hstep ih =>
      obtain ⟨v, hv, halive, hcontext, hnum, hargs, hawake⟩ :=
        ih fun e he => hexec e (List.mem_append_left _ he)
      obtain ⟨v', -, hv'⟩ := Machine.simulates code u signal u' v hv hstep
      obtain ⟨halive', hcontext', hnum', hargs', hawake'⟩ :=
        hv.undisturbed hstep halive (hexec _ (by simp))
      refine ⟨v', hv', halive', hcontext'.trans hcontext, hnum'.trans hnum, hargs'.trans hargs,
        fun hm => ?_⟩
      obtain ⟨hu, hret⟩ := hawake hm
      obtain ⟨hu', hret'⟩ := hawake' hu
      exact ⟨hu', hret'.trans hret⟩

end DisastrOS
