import DisastrOS.Refinement.Restart
import DisastrOS.Refinement.StoredCalls

/-!
# What the steps of the machine do to the contexts

Each operation of the machine is a kernel operation and a change of contexts. The context of a
process is what the processor executes, if it runs, and otherwise what is saved in its PCB. A
context switch gives every process back its own.
-/

set_option autoImplicit false

namespace DisastrOS

open Runs LinkedSequence LinkedSequence.ListHeap

namespace Machine

variable {σ : Type} {code : Code σ} {m m' : Machine σ} {here : Context σ} {action : LogAction}
  {s : Kernel} {r x : Addr}

/-- Where the process `x` stands. -/
def context (m : Machine σ) (x : Addr) : Option (Context σ) :=
  if m.kernel.running = some x then m.cpu else m.cpuState x

theorem context_running (hr : m.kernel.running = some r) : m.context r = m.cpu := if_pos hr

theorem context_other (hx : m.kernel.running ≠ some x) : m.context x = m.cpuState x := if_neg hx

/-- One completed step of the machine. -/
def Completes (code : Code σ) (m : Machine σ) (signal : Bool) (m' : Machine σ) : Prop :=
  m.step code signal = .ok m'

theorem Completes.executes (h : m.Completes code false m') (hcpu : m.cpu = some here) :
    m.execute code here = .ok m' := by
  unfold Completes step at h
  rw [hcpu] at h
  exact h

/-- The three kinds of steps. -/
theorem Completes.cases {signal : Bool} (h : m.Completes code signal m') :
    (∃ here, m.cpu = some here ∧ signal = true ∧ m.timerInterrupt here = .ok m') ∨
      (∃ here, m.cpu = some here ∧ signal = false ∧ m.execute code here = .ok m') ∨
      (m.cpu = none ∧ signal = false ∧ m.kernel.shutdownNow = false ∧
        m.resumeMain code = .ok m') := by
  unfold Completes step at h
  cases hcpu : m.cpu with
  | none =>
      rw [hcpu] at h
      simp only at h
      split at h
      · cases h
      · rename_i hon
        cases signal with
        | true => cases h
        | false => exact Or.inr (Or.inr ⟨rfl, rfl, by simpa using hon, h⟩)
  | some here =>
      rw [hcpu] at h
      cases signal with
      | true => exact Or.inl ⟨here, rfl, rfl, h⟩
      | false => exact Or.inr (Or.inl ⟨here, rfl, rfl, h⟩)

/-! ## Operations -/

theorem log_eq (h : m.log action = .ok m') : ∃ logFile, m' = { m with logFile } := by
  unfold log at h
  split at h
  · obtain rfl := Except.ok.inj h
    exact ⟨m.logFile, rfl⟩
  · simp only [bind_eq_ok, pure_eq_ok, Except.ok.injEq] at h
    obtain ⟨_, -, rfl⟩ := h
    exact ⟨_, rfl⟩

theorem deref_eq_ok {α : Type} {p : Option α} {y : α} : deref p = .ok y ↔ p = some y := by
  cases p <;> simp [deref]

theorem saveContext_eq (h : m.saveContext here = .ok m') : ∃ r, m.kernel.running = some r ∧
    m' = { m with cpuState := Function.update m.cpuState r (some here) } := by
  simp only [saveContext, bind_eq_ok, pure_eq_ok, Except.ok.injEq, deref_eq_ok] at h
  obtain ⟨r, hr, rfl⟩ := h
  exact ⟨r, hr, rfl⟩

/-- After `setcontext` every process stands where its saved context says. -/
theorem setContext_eq (h : m.setContext = .ok m') : ∃ r c, m.kernel.running = some r ∧
    m.cpuState r = some c ∧ m' = { m with cpu := some c } ∧ m'.context = m.cpuState := by
  simp only [setContext, bind_eq_ok, pure_eq_ok, Except.ok.injEq, deref_eq_ok] at h
  obtain ⟨r, hr, c, hc, rfl⟩ := h
  refine ⟨r, c, hr, hc, rfl, funext fun x => ?_⟩
  unfold context
  split
  · rename_i hx
    obtain rfl : r = x := Option.some.inj (hr.symm.trans hx)
    exact hc.symm
  · rfl

/-- A timer interrupt is one of the kernel, and every process keeps its context. -/
theorem timerInterrupt_eq (hcpu : m.cpu = some here)
    (h : m.timerInterrupt here = .ok m') :
    m.kernel.timerInterrupt = .ok m'.kernel ∧ m'.context = m.context ∧
      ∃ r c, m'.kernel.running = some r ∧ m'.cpu = some c := by
  simp only [timerInterrupt, bind_eq_ok] at h
  obtain ⟨m₁, hsave, m₂, hout, kernel, hkernel, m₃, hin, hset⟩ := h
  obtain ⟨r, hr, rfl⟩ := saveContext_eq hsave
  obtain ⟨_, rfl⟩ := log_eq hout
  obtain ⟨_, rfl⟩ := log_eq hin
  obtain ⟨q, c, hq, -, rfl, hcontext⟩ := setContext_eq hset
  refine ⟨hkernel, ?_, q, c, hq, rfl⟩
  rw [hcontext]
  funext x
  show Function.update m.cpuState r (some here) x = m.context x
  by_cases hx : x = r
  · rw [hx, Function.update_self, context_running hr, hcpu]
  · rw [Function.update_of_ne hx, context_other]
    intro hr'
    exact hx (Option.some.inj (hr'.symm.trans hr))

/-- After a trap a process runs, in its saved context, or none does. -/
theorem disastrOSTrap_eq (h : m.disastrOSTrap code = .ok m') : ∃ r, m.kernel.running = some r ∧
    m.kernel.disastrOSTrap = .ok m'.kernel ∧
      m'.cpuState = makeContext code m.kernel r m.cpuState ∧
      ((m'.cpu = none ∧ (m'.kernel.shutdownNow ∨ m'.kernel.running = none)) ∨
        (m'.kernel.shutdownNow = false ∧ m'.context = m'.cpuState ∧
          ∃ q c, m'.kernel.running = some q ∧ m'.cpu = some c)) := by
  simp only [disastrOSTrap, bind_eq_ok, deref_eq_ok] at h
  obtain ⟨r, hr, m₁, hin, kernel, hkernel, h⟩ := h
  obtain ⟨_, rfl⟩ := log_eq hin
  refine ⟨r, hr, ?_⟩
  split at h
  · rename_i hdown
    obtain rfl := Except.ok.inj h
    exact ⟨hkernel, rfl, Or.inl ⟨rfl, Or.inl hdown⟩⟩
  · rename_i hon
    simp only [bind_eq_ok] at h
    obtain ⟨m₂, hout, h⟩ := h
    obtain ⟨_, rfl⟩ := log_eq hout
    split at h
    · rename_i hnone
      obtain rfl := Except.ok.inj h
      exact ⟨hkernel, rfl, Or.inl ⟨rfl, Or.inr hnone⟩⟩
    · obtain ⟨q, c, hq, -, rfl, hcontext⟩ := setContext_eq h
      exact ⟨hkernel, rfl, Or.inr ⟨by simpa using hon, hcontext, q, c, hq, rfl⟩⟩

/-- The contexts that a handler makes: at most one, for the next free PCB. -/
theorem makeContext_eq (code : Code σ) (s : Kernel) (r : Addr)
    (cpuState : Addr → Option (Context σ)) : makeContext code s r cpuState x = cpuState x ∨
      s.pcbAllocator.getBlock.1 = some x ∧ ∃ state, makeContext code s r cpuState x =
        some (.user state) := by
  unfold makeContext
  cases s.pcbAllocator.getBlock.1 with
  | none => exact Or.inl rfl
  | some newPcb =>
      simp only
      split
      · by_cases hx : x = newPcb
        · rw [hx, Function.update_self]
          exact Or.inr ⟨rfl, _, rfl⟩
        · rw [Function.update_of_ne hx]
          exact Or.inl rfl
      · exact Or.inl rfl

/-- A call is a trap of the kernel. The caller will read the answer, a new process starts at its
entry, and the others keep their contexts; after a shutdown no process executes anything. -/
theorem calling_eq {c : Syscall} {next : Int → σ} (h : m.execute code (.calling c next) = .ok m') :
    ∃ r, m.kernel.running = some r ∧ m.kernel.disastrOSTrap = .ok m'.kernel ∧
      (∀ x, (m'.kernel.running = some x ∧ m'.cpu = none) ∨
        (x = r ∧ m'.context x = some (.returning next)) ∨
        (m.kernel.pcbAllocator.getBlock.1 = some x ∧ ∃ state, m'.context x = some (.user state)) ∨
        (x ≠ r ∧ m'.context x = m.context x)) ∧
      ((m'.cpu = none ∧ (m'.kernel.shutdownNow ∨ m'.kernel.running = none)) ∨
        (m'.kernel.shutdownNow = false ∧ ∃ q d, m'.kernel.running = some q ∧ m'.cpu = some d)) := by
  simp only [execute, bind_eq_ok] at h
  obtain ⟨m₁, hsave, htrap⟩ := h
  obtain ⟨r, hr, rfl⟩ := saveContext_eq hsave
  obtain ⟨q, hq, hkernel, hstates, hcpu⟩ := disastrOSTrap_eq htrap
  obtain rfl : r = q := Option.some.inj (hr.symm.trans hq)
  refine ⟨r, hr, hkernel, fun x => ?_, ?_⟩
  · have hsaved : (m'.kernel.running = some x ∧ m'.cpu = none) ∨ m'.context x = m'.cpuState x := by
      rcases hcpu with ⟨hnone, -⟩ | ⟨-, hcontext, -⟩
      · by_cases hx : m'.kernel.running = some x
        · exact Or.inl ⟨hx, hnone⟩
        · exact Or.inr (context_other hx)
      · exact Or.inr (congrFun hcontext x)
    refine hsaved.imp_right fun hx => ?_
    rw [hx, hstates]
    rcases makeContext_eq (x := x) code m.kernel r
      (Function.update m.cpuState r (some (.returning next))) with hold | hnew
    · by_cases hxr : x = r
      · left
        rw [hold, hxr]
        exact ⟨rfl, Function.update_self ..⟩
      · right; right
        rw [hold, Function.update_of_ne hxr, context_other]
        · exact ⟨hxr, rfl⟩
        · rw [hr]
          exact fun heq => hxr (Option.some.inj heq).symm
    · exact Or.inr (Or.inl hnew)
  · refine hcpu.imp id ?_
    rintro ⟨hon, -, hruns⟩
    exact ⟨hon, hruns⟩

/-- The context of a new process is at the start of the function passed to `spawn`. -/
theorem calling_spawn {c : Syscall} {next : Int → σ}
    (h : m.execute code (.calling c next) = .ok m') (hr : m.kernel.running = some r)
    (hnum : m.kernel.syscallNum r = dsosCallSpawn)
    (hx : m.kernel.pcbAllocator.getBlock.1 = some x) : m'.cpuState x =
      some (.user (code.entry (m.kernel.syscallArgs r 0) (m.kernel.syscallArgs r 1))) := by
  simp only [execute, bind_eq_ok] at h
  obtain ⟨m₁, hsave, htrap⟩ := h
  obtain ⟨q, hq, rfl⟩ := saveContext_eq hsave
  obtain ⟨q', hq', -, hstates, -⟩ := disastrOSTrap_eq htrap
  obtain rfl : r = q' := Option.some.inj (hr.symm.trans hq')
  simp only [hstates, makeContext, hx, hnum, if_true, Function.update_self]

/-- The other calls, also `fork`, make no context. -/
theorem calling_other {c : Syscall} {next : Int → σ}
    (h : m.execute code (.calling c next) = .ok m') (hr : m.kernel.running = some r)
    (hnum : m.kernel.syscallNum r ≠ dsosCallSpawn) :
    m'.cpuState = Function.update m.cpuState r (some (.returning next)) := by
  simp only [execute, bind_eq_ok] at h
  obtain ⟨m₁, hsave, htrap⟩ := h
  obtain ⟨q, hq, rfl⟩ := saveContext_eq hsave
  obtain ⟨q', hq', -, hstates, -⟩ := disastrOSTrap_eq htrap
  obtain rfl : r = q := Option.some.inj (hr.symm.trans hq)
  obtain rfl : r = q' := Option.some.inj (hr.symm.trans hq')
  rw [hstates]
  unfold makeContext
  cases m.kernel.pcbAllocator.getBlock.1 with
  | none => rfl
  | some _ => exact if_neg hnum

/-- The other steps of a process change its own context, its memory and the call stored in its PCB
only. -/
theorem execute_eq (h : m.execute code here = .ok m') (hcall : ∀ c next, here ≠ .calling c next) :
    ∃ chars args num here', m' = { m with
      kernel := { m.kernel.withCalls args num with chars }
      cpu := some here' } := by
  cases here with
  | user state =>
      simp only [execute] at h
      cases hfetch : code.fetch state with
      | compute _ | load _ _ | loadInt _ _ | store _ _ _ | getpid _ =>
          rw [hfetch] at h
          obtain rfl := Except.ok.inj h
          exact ⟨_, _, _, _, rfl⟩
      | call c next =>
          rw [hfetch] at h
          simp only [bind_eq_ok, pure_eq_ok] at h
          obtain ⟨_, -, h⟩ := h
          split at h <;> obtain rfl := Except.ok.inj h <;> exact ⟨_, _, _, _, rfl⟩
  | storing c i next =>
      simp only [execute, bind_eq_ok, pure_eq_ok] at h
      obtain ⟨_, -, h⟩ := h
      split at h <;> obtain rfl := Except.ok.inj h <;> exact ⟨_, _, _, _, rfl⟩
  | calling c next => exact absurd rfl (hcall c next)
  | returning next =>
      simp only [execute, bind_eq_ok, pure_eq_ok] at h
      obtain ⟨_, -, h⟩ := h
      obtain rfl := Except.ok.inj h
      exact ⟨_, _, _, _, rfl⟩

end Machine

end DisastrOS
