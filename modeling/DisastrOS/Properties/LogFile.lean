import DisastrOS.Properties.Contexts

/-!
# The log file

Each tick and each call that reaches the trap leaves two lines in the log file: one when it takes
the processor from a process, one when it gives it to the next. So the log tells the clock and the
process that ran throughout. The second line names the running process, and a process must run: with
a log file there is no restart after a `sleep`. A process function that returned would restart the
main context, which opens the log file for writing again and so empties it; none returns here.
-/

set_option autoImplicit false

namespace DisastrOS

open Runs LinkedSequence LinkedSequence.ListHeap Model

variable {σ : Type} {code : Code σ} {es : List (Event (Machine σ) Bool)} {m m' m₀ : Machine σ}
  {t t' : Kernel} {here : Context σ} {signal : Bool} {entries lines : List LogEntry}
  {action : LogAction} {c : Syscall} {next : Int → σ}

/-! ## Lines -/

/-- The lines lead from one clock time and running pid to another. Every pair of them starts with
those that the last pair ended with. -/
inductive Recorded (time₀ pid₀ : Int) : List LogEntry → Int → Int → Prop where
  | start : Recorded time₀ pid₀ [] time₀ pid₀
  | tick {lines : List LogEntry} {time pid : Int} (pid' : Int) :
      Recorded time₀ pid₀ lines time pid →
      Recorded time₀ pid₀
        (lines ++ [⟨time, pid, .timerOut⟩, ⟨wrapInt (time + 1), pid', .timerIn⟩])
        (wrapInt (time + 1)) pid'
  | call {lines : List LogEntry} {time pid : Int} (num pid' : Int) :
      Recorded time₀ pid₀ lines time pid →
      Recorded time₀ pid₀ (lines ++ [⟨time, pid, .syscallIn num⟩, ⟨time, pid', .syscallOut num⟩])
        time pid'

/-- What a move leaves in the log file. -/
def Move.logs : Move → List LogAction
  | .action .tick => [.timerOut, .timerIn]
  | .action (.syscall c) => [.syscallIn c.num, .syscallOut c.num]
  | _ => []

/-! ## What the operations write -/

theorem log_entry (h : m.log action = .ok m') (hlog : m.logFile = some entries) :
    m' = { m with
      logFile := some (entries ++ [⟨m.kernel.time, m.kernel.disastrOSGetpid, action⟩]) } := by
  rw [Machine.log, hlog] at h
  simp only [bind_eq_ok, pure_eq_ok, Except.ok.injEq, deref_eq_ok] at h
  obtain ⟨r, hr, rfl⟩ := h
  rw [Kernel.disastrOSGetpid, hr]

theorem timerInterrupt_log (h : m.timerInterrupt here = .ok m') (hlog : m.logFile = some entries) :
    m'.logFile = some (entries ++ [⟨m.kernel.time, m.kernel.disastrOSGetpid, .timerOut⟩,
      ⟨m'.kernel.time, m'.kernel.disastrOSGetpid, .timerIn⟩]) := by
  simp only [Machine.timerInterrupt, bind_eq_ok] at h
  obtain ⟨m₁, hsave, m₂, hout, kernel, hkernel, m₃, hin, hset⟩ := h
  obtain ⟨r, hr, rfl⟩ := Machine.saveContext_eq hsave
  obtain rfl := log_entry hout hlog
  obtain rfl := log_entry hin rfl
  obtain ⟨_, _, -, -, rfl, -⟩ := Machine.setContext_eq hset
  simp

theorem calling_log (h : m.execute code (.calling c next) = .ok m')
    (hlog : m.logFile = some entries) (hnum : ∀ r, m.kernel.running = some r →
      m.kernel.syscallNum r = c.num) :
    (m'.kernel.shutdownNow = true ∧ m'.logFile = some
      (entries ++ [⟨m.kernel.time, m.kernel.disastrOSGetpid, .syscallIn c.num⟩])) ∨
    (m'.kernel.shutdownNow = false ∧ m'.cpu ≠ none ∧ m'.logFile = some
      (entries ++ [⟨m.kernel.time, m.kernel.disastrOSGetpid, .syscallIn c.num⟩,
        ⟨m'.kernel.time, m'.kernel.disastrOSGetpid, .syscallOut c.num⟩])) := by
  simp only [Machine.execute, Machine.disastrOSTrap, bind_eq_ok, deref_eq_ok] at h
  obtain ⟨m₁, hsave, r, hr, m₂, hin, kernel, hkernel, h⟩ := h
  obtain ⟨q, hq, rfl⟩ := Machine.saveContext_eq hsave
  have hnum' : m.kernel.syscallNum r = c.num := hnum r hr
  obtain rfl := log_entry hin hlog
  split at h
  · rename_i hdown
    obtain rfl := Except.ok.inj h
    exact Or.inl ⟨hdown, by rw [← hnum']⟩
  · rename_i hon
    simp only [bind_eq_ok] at h
    obtain ⟨m₃, hout, h⟩ := h
    obtain rfl := log_entry hout rfl
    split at h
    · -- the line names the running process, so there is one
      rename_i hnone
      rw [Machine.log] at hout
      simp [hnone, deref] at hout
    · obtain ⟨_, _, -, -, rfl, -⟩ := Machine.setContext_eq h
      exact Or.inr ⟨by simpa using hon, by simp, by simp [← hnum']⟩

/-! ## Runs with a log file -/

/-- The log file after the events `es`. After a shutdown the second line of its pair is missing. -/
structure LogInv (code : Code σ) (es : List (Event (Machine σ) Bool)) (m : Machine σ)
    (lines : List LogEntry) : Prop where
  logFile : m.logFile = some (⟨0, -1, .start⟩ :: lines)
  running : m.kernel.shutdownNow = false → m.cpu ≠ none ∧
    Recorded 0 0 lines m.kernel.time m.kernel.disastrOSGetpid ∧
    lines.map LogEntry.action = (shown (Machine.shows code) es).flatMap Move.logs
  stopped : m.kernel.shutdownNow = true → ∃ before : List LogEntry,
    lines = before ++ [⟨m.kernel.time, m.kernel.disastrOSGetpid, .syscallIn dsosCallShutdown⟩] ∧
    Recorded 0 0 before m.kernel.time m.kernel.disastrOSGetpid ∧
    lines.map LogEntry.action ++ [.syscallOut dsosCallShutdown] =
      (shown (Machine.shows code) es).flatMap Move.logs
  noRestart : .resume ∉ shown (Machine.shows code) es

theorem LogInv.tick (h : LogInv code es m lines) (ha : Atomic m t) (hcpu : m.cpu = some here)
    (hstep : m.timerInterrupt here = .ok m') :
    ∃ lines', LogInv code (es ++ [⟨m, true, m'⟩]) m' lines' := by
  have hon : m.kernel.shutdownNow = false := ha.shutdownNow_eq.trans (ha.executing hcpu).1
  obtain ⟨-, hrec, hacts⟩ := h.running hon
  obtain ⟨t', hcompletes, ha'⟩ := ha.tick hcpu hstep
  obtain ⟨a, hR, hI, -⟩ := ha.awake
  obtain ⟨a', hsim⟩ := hR.simulated hI hcompletes
  have htime : m'.kernel.time = wrapInt (m.kernel.time + 1) := by
    rw [ha'.kernel, ha.kernel]
    show t'.time = wrapInt (t.time + 1)
    rw [hsim.post.data, hR.data]
    cases hsim.step with
    | tick _ hs =>
        obtain ⟨_, _, _, _, _, _, rfl⟩ := hs.eq
        rfl
  obtain ⟨-, -, _, _, -, hsome⟩ := Machine.timerInterrupt_eq hcpu hstep
  have hcpu' : m'.cpu ≠ none := by simp [hsome]
  have hon' : m'.kernel.shutdownNow = false := ha'.shutdownNow_eq.trans (ha'.executing hsome).1
  have hshows : m.shows code true = some (.action .tick) := by rw [Machine.shows, hcpu]; rfl
  refine ⟨lines ++ [⟨m.kernel.time, m.kernel.disastrOSGetpid, .timerOut⟩,
    ⟨m'.kernel.time, m'.kernel.disastrOSGetpid, .timerIn⟩],
    ⟨by rw [timerInterrupt_log hstep h.logFile]; rfl, fun _ => ⟨hcpu', ?_, ?_⟩, fun hdown => ?_,
      ?_⟩⟩
  · rw [htime]
    exact .tick _ hrec
  · rw [List.map_append, hacts, shown_concat, hshows]
    simp [Move.logs]
  · rw [hon'] at hdown
    cases hdown
  · rw [shown_concat, hshows]
    simpa using h.noRestart

theorem LogInv.call (h : LogInv code es m lines) (ha : Atomic m t)
    (hcpu : m.cpu = some (.calling c next)) (hstep : m.execute code (.calling c next) = .ok m') :
    ∃ lines', LogInv code (es ++ [⟨m, false, m'⟩]) m' lines' := by
  have hon : m.kernel.shutdownNow = false := ha.shutdownNow_eq.trans (ha.executing hcpu).1
  obtain ⟨-, hrec, hacts⟩ := h.running hon
  obtain ⟨t', hcompletes, ha'⟩ := ha.call hcpu hstep
  obtain ⟨a, hR, hI, -⟩ := ha.awake
  obtain ⟨a', hsim⟩ := hR.simulated hI hcompletes
  have htime : m'.kernel.time = m.kernel.time := by
    rw [ha'.kernel, ha.kernel]
    show t'.time = t.time
    rw [hsim.post.data, hR.data]
    cases hsim.step with
    | syscall _ hs => exact hs.time_eq
  have hshows : m.shows code false = some (.action (.syscall c)) := by
    rw [Machine.shows, hcpu]
    rfl
  have hnum : ∀ r, m.kernel.running = some r → m.kernel.syscallNum r = c.num := fun r hr =>
    (ha.stored_call hcpu hr).1
  have hnoRestart : .resume ∉ shown (Machine.shows code) (es ++ [⟨m, false, m'⟩]) := by
    rw [shown_concat, hshows]
    simpa using h.noRestart
  rcases calling_log hstep h.logFile hnum with ⟨hdown, hlog⟩ | ⟨hon', hcpu', hlog⟩
  · have hshut : c = .shutdown ∧ m'.kernel.disastrOSGetpid = m.kernel.disastrOSGetpid := by
      rw [ha'.kernel] at hdown ⊢
      rw [ha.kernel] at hon ⊢
      change t'.shutdownNow = true at hdown
      change t.shutdownNow = false at hon
      show _ ∧ t'.disastrOSGetpid = t.disastrOSGetpid
      rw [Kernel.disastrOSGetpid, Kernel.disastrOSGetpid, hsim.post.data, hR.data]
      rw [hsim.post.data] at hdown
      rw [hR.data] at hon
      cases hsim.step with
      | syscall _ hs =>
          rcases hs.shutdown_cases with hsame | ⟨rfl, rfl⟩
          · rw [hsame] at hdown
            exact absurd (hdown.symm.trans hon) (by simp)
          · exact ⟨rfl, rfl⟩
    obtain ⟨rfl, hpid⟩ := hshut
    refine ⟨lines ++ [⟨m.kernel.time, m.kernel.disastrOSGetpid, .syscallIn dsosCallShutdown⟩],
      ⟨by rw [hlog]; rfl, fun hon' => ?_, fun _ => ⟨lines, ?_, ?_, ?_⟩, hnoRestart⟩⟩
    · rw [hdown] at hon'
      cases hon'
    · rw [htime, hpid]
    · rwa [htime, hpid]
    · rw [List.map_append, hacts, shown_concat, hshows]
      simp [Move.logs, Syscall.num]
  · refine ⟨lines ++ [⟨m.kernel.time, m.kernel.disastrOSGetpid, .syscallIn c.num⟩,
      ⟨m'.kernel.time, m'.kernel.disastrOSGetpid, .syscallOut c.num⟩],
      ⟨by rw [hlog]; rfl, fun _ => ⟨hcpu', ?_, ?_⟩, fun hdown => ?_, hnoRestart⟩⟩
    · rw [htime]
      exact .call _ _ hrec
    · rw [List.map_append, hacts, shown_concat, hshows]
      simp [Move.logs]
    · rw [hon'] at hdown
      cases hdown

theorem LogInv.step (h : LogInv code es m lines) (ha : Atomic m t)
    (hstep : m.Completes code signal m') :
    ∃ lines', LogInv code (es ++ [⟨m, signal, m'⟩]) m' lines' := by
  rcases hstep.cases with ⟨here, hcpu, rfl, htimer⟩ | ⟨here, hcpu, rfl, hcode⟩ |
    ⟨hcpu, rfl, hon, -⟩
  · exact h.tick ha hcpu htimer
  · by_cases hcall : ∀ c next, here ≠ .calling c next
    · -- a step within the process writes nothing
      have hon : m.kernel.shutdownNow = false := ha.shutdownNow_eq.trans (ha.executing hcpu).1
      obtain ⟨-, hrec, hacts⟩ := h.running hon
      have hsilent : (m.shows code false).toList.flatMap Move.logs = [] ∧
          .resume ∉ (m.shows code false).toList := by
        unfold Machine.shows
        rw [hcpu]
        cases here with
        | user state => cases hfetch : code.fetch state <;> simp [Context.shows, hfetch, Move.logs]
        | calling c next => exact absurd rfl (hcall c next)
        | _ => simp [Context.shows]
      obtain ⟨_, _, _, _, rfl⟩ := Machine.execute_eq hcode hcall
      refine ⟨lines, ⟨h.logFile, fun _ => ⟨by simp, hrec, ?_⟩, fun hdown => ?_, ?_⟩⟩
      · rw [shown_concat, List.flatMap_append, ← hacts, hsilent.1, List.append_nil]
      · exact absurd (hdown.symm.trans hon) (by simp)
      · rw [shown_concat, List.mem_append, not_or]
        exact ⟨h.noRestart, hsilent.2⟩
    · obtain ⟨c, next, rfl⟩ : ∃ c next, here = .calling c next := by
        by_contra hno
        exact hcall fun c next heq => hno ⟨c, next, heq⟩
      exact h.call ha hcpu hcode
  · exact absurd hcpu (h.running hon).1

/-- The log file that `disastrOS_start` opens holds, after its first line, a pair of lines for each
tick and each call of the run, in order, which start where the last pair ends and lead to the
current time and the pid of the running process. A shutdown leaves one line. As no process function
returns, the main context never restarts. -/
theorem log_records_run {chars : Int → UInt8} {ints : Int → Int}
    (hstart : Machine.disastrOSStart code chars ints true = .ok m₀)
    (hrun : Run (Machine.Completes code) m₀ es m) : ∃ lines, LogInv code es m lines := by
  obtain ⟨hkernel, h₀⟩ := Machine.start_atomic hstart
  induction hrun with
  | start =>
      obtain ⟨s, hs, hR⟩ := disastrOSStart_refines exceptZombies chars ints
      obtain rfl : m₀.kernel = s := Except.ok.inj (hkernel.symm.trans hs)
      have htime : m₀.kernel.time = 0 := by rw [hR.data]; rfl
      have hpid : m₀.kernel.disastrOSGetpid = 0 := by rw [Kernel.disastrOSGetpid, hR.data]; rfl
      have hon : m₀.kernel.shutdownNow = false := by rw [hR.data]; rfl
      simp only [Machine.disastrOSStart, bind_eq_ok] at hstart
      obtain ⟨kernel, hkernel', hlaunch⟩ := hstart
      obtain ⟨r, hr, hsame, hmain, -⟩ := Machine.launch_eq hlaunch
      have hlog : m₀.logFile = some [⟨kernel.time, -1, .start⟩] := by
        simp only [Machine.launch, bind_eq_ok, deref_eq_ok] at hlaunch
        obtain ⟨_, -, hset⟩ := hlaunch
        obtain ⟨_, _, -, -, rfl, -⟩ := Machine.setContext_eq hset
        rfl
      refine ⟨[], ⟨?_, fun _ => ⟨by simp [hmain], ?_, rfl⟩, fun hdown => ?_, by simp [shown]⟩⟩
      · rw [hlog, ← htime]
        exact congrArg (fun k : Kernel => some [(⟨k.time, -1, .start⟩ : LogEntry)]) hsame.symm
      · rw [htime, hpid]
        exact .start
      · rw [hon] at hdown
        cases hdown
  | @step es u u' signal hrun hstep ih =>
      obtain ⟨lines, hlines⟩ := ih
      obtain ⟨_, v, -, -, hv⟩ := (Machine.simulates code).run hrun h₀
      exact hlines.step hv hstep

/-- A spawn and a tick. -/
theorem log_records_run_spawn : ∃ (es : List (Event (Machine Nat) Bool)) (m : Machine Nat)
    (lines : List LogEntry), LogInv interruptedSpawn es m lines ∧
      lines = [⟨0, 0, .syscallIn dsosCallSpawn⟩, ⟨0, 0, .syscallOut dsosCallSpawn⟩,
        ⟨0, 0, .timerOut⟩, ⟨1, 1, .timerIn⟩] := by
  obtain ⟨m₀, es, m, hstart, hrun, hp⟩ := exists_started interruptedSpawn true
    (List.replicate 8 false ++ [true, false])
    (fun _ m => m.logFile = some [⟨0, -1, .start⟩, ⟨0, 0, .syscallIn dsosCallSpawn⟩,
      ⟨0, 0, .syscallOut dsosCallSpawn⟩, ⟨0, 0, .timerOut⟩, ⟨1, 1, .timerIn⟩]) (by decide +kernel)
  obtain ⟨lines, hlines⟩ := log_records_run hstart hrun
  have hfile := hlines.logFile.symm.trans (of_decide_eq_true hp)
  exact ⟨es, m, lines, hlines, (List.cons.inj (Option.some.inj hfile)).2⟩

end DisastrOS
