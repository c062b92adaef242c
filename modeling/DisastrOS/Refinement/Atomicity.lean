import DisastrOS.Abstract.Preemption
import DisastrOS.Library.Simulation
import DisastrOS.Refinement.Contexts

/-!
# Preempted calls are atomic

A process may be interrupted while `disastrOS_syscall` stores its arguments. Until it enters the
trap its PCB then differs from that of a process that has not begun the call, and nothing else does.
The relation `Atomic` between the machine and a kernel that makes its calls in one step says so.
-/

set_option autoImplicit false

namespace DisastrOS

open Runs LinkedSequence LinkedSequence.ListHeap Model

variable {σ : Type} {code : Code σ} {m m' : Machine σ} {t t' : Kernel} {a a' : Model}
  {here : Context σ} {r x : Addr} {c : Syscall} {next : Int → σ}
  {es fs : List (Event (Machine σ) Bool)} {e : Event (Machine σ) Bool}

/-! ## Calls in progress -/

namespace Context

/-- The process has begun a call and has not entered the trap. -/
def InCall : Option (Context σ) → Prop
  | some (.storing _ _ _) => True
  | some (.calling _ _) => True
  | _ => False

/-- The arguments in the PCB of a process that stands there, if its last call left `args`. -/
def storedArgs : Option (Context σ) → (Nat → Int) → Nat → Int
  | some (.storing c i _), args => Kernel.storeArgs (fun j => c.args.getD j 0) i args
  | some (.calling c _), args =>
      Kernel.storeArgs (fun j => c.args.getD j 0) (Kernel.syscallNumarg c.num) args
  | _, args => args

/-- The number of the call in its PCB, if that of its last call was `num`. -/
def storedNum : Option (Context σ) → Int → Int
  | some (.calling c _), _ => c.num
  | _, num => num

/-- Outside of a call nothing is stored ahead. -/
theorem stored_eq {here : Option (Context σ)} (h : ¬ InCall here) (args : Nat → Int) (num : Int) :
    storedArgs here args = args ∧ storedNum here num = num := by
  rcases here with _ | (_ | _ | _ | _)
  · exact ⟨rfl, rfl⟩
  · exact ⟨rfl, rfl⟩
  · exact absurd trivial h
  · exact absurd trivial h
  · exact ⟨rfl, rfl⟩

end Context

/-- The arguments in the PCBs of the machine, if the calls in progress had not begun in `t`. -/
def Machine.storedArgs (m : Machine σ) (t : Kernel) (x : Addr) : Nat → Int :=
  Context.storedArgs (m.context x) (t.syscallArgs x)

/-- The numbers of the calls. -/
def Machine.storedNum (m : Machine σ) (t : Kernel) (x : Addr) : Int :=
  Context.storedNum (m.context x) (t.syscallNum x)

/-- The kernel of the machine is `t`, apart from the calls in progress. Only processes that run or
are ready have a call in progress. -/
structure Atomic (m : Machine σ) (t : Kernel) : Prop where
  kernel : m.kernel = t.withCalls (m.storedArgs t) (m.storedNum t)
  awake : ∃ a, Refines exceptZombies t a ∧ a.Inv ∧
    ∀ x, Context.InCall (m.context x) → a.running = some x ∨ x ∈ a.procs .ready
  bound : ∀ x c i next, m.context x = some (.storing c i next) → i ≤ Kernel.syscallNumarg c.num
  cpu : m.cpu ≠ none ↔ t.running ≠ none ∧ t.shutdownNow = false

/-! The fields in which the two kernels agree. -/

theorem Atomic.running_eq (h : Atomic m t) : m.kernel.running = t.running := by
  rw [h.kernel]
  rfl

theorem Atomic.shutdownNow_eq (h : Atomic m t) : m.kernel.shutdownNow = t.shutdownNow := by
  rw [h.kernel]
  rfl

theorem Atomic.pcbAllocator_eq (h : Atomic m t) : m.kernel.pcbAllocator = t.pcbAllocator := by
  rw [h.kernel]
  rfl

/-- A machine that executes something is not shut down and has a running process. -/
theorem Atomic.executing (h : Atomic m t) (hcpu : m.cpu = some here) :
    t.shutdownNow = false ∧ ∃ r, t.running = some r ∧ m.context r = some here := by
  have hsome : m.cpu ≠ none := by
    rw [hcpu]
    exact Option.some_ne_none here
  obtain ⟨hrun, hon⟩ := h.cpu.1 hsome
  obtain ⟨r, hr⟩ := Option.ne_none_iff_exists'.1 hrun
  exact ⟨hon, r, hr, (Machine.context_running (h.running_eq.trans hr)).trans hcpu⟩

/-- Without a context on the processor no process runs. -/
theorem Atomic.idle (h : Atomic m t) (hcpu : m.cpu = none) (hon : m.kernel.shutdownNow = false) :
    t.running = none := by
  by_contra hrun
  exact h.cpu.2 ⟨hrun, h.shutdownNow_eq.symm.trans hon⟩ hcpu

theorem map_eq_ok {α β : Type} {y : Except Fault α} {f : α → β} {b : β} :
    y.map f = .ok b ↔ ∃ z, y = .ok z ∧ f z = b := by
  cases y with
  | error _ => simp [Except.map]
  | ok z => simp [Except.map]

/-! ## Ticks -/

/-- A timer interrupt of the machine is a tick of the kernel. -/
theorem Atomic.tick (h : Atomic m t) (hcpu : m.cpu = some here)
    (hstep : m.timerInterrupt here = .ok m') : ∃ t', t.Completes .tick t' ∧ Atomic m' t' := by
  obtain ⟨hkernel, hcontext, q, c, hq, hc⟩ := Machine.timerInterrupt_eq hcpu hstep
  obtain ⟨hon, -⟩ := h.executing hcpu
  rw [h.kernel, ← Kernel.timerInterrupt_withCalls, map_eq_ok] at hkernel
  obtain ⟨t', ht', hk⟩ := hkernel
  have hcompletes : t.Completes .tick t' := by simp [Kernel.Completes, Kernel.step, hon, ht']
  obtain ⟨a, hR, hI, hawake⟩ := h.awake
  obtain ⟨a', hsim⟩ := hR.simulated hI hcompletes
  have hcalls : t'.syscallArgs = t.syscallArgs ∧ t'.syscallNum = t.syscallNum ∧
      t'.shutdownNow = t.shutdownNow := by
    rw [hsim.post.data, hR.data]
    cases hsim.step with
    | tick _ hs =>
        obtain ⟨_, _, _, _, _, _, rfl⟩ := hs.eq
        exact ⟨rfl, rfl, rfl⟩
  refine ⟨t', hcompletes, ?_, ⟨a', hsim.post, hsim.inv', fun x hx => ?_⟩, ?_, ?_⟩
  · rw [← hk]
    unfold Machine.storedArgs Machine.storedNum
    rw [hcontext, hcalls.1, hcalls.2.1]
  · rw [hcontext] at hx
    exact hsim.step.stays_awake (hawake x hx) fun _ _ => by simp
  · rw [hcontext]
    exact h.bound
  · have hrun : t'.running = some q := by rw [← hq, ← hk]; rfl
    rw [hc, hcalls.2.2, hrun, hon]
    simp

/-! ## Calls -/

/-- The trap runs the handler of the call stored in the PCB. -/
theorem disastrOSTrap_handler {s : Kernel} (hr : s.running = some r)
    (hnum : s.syscallNum r = c.num) : s.disastrOSTrap = c.handler s := by
  obtain ⟨hlow, hhigh⟩ := c.num_range
  rw [Kernel.disastrOSTrap, hr, deref_some, ok_bind, hnum, if_neg (by omega), if_neg (by omega)]
  cases c <;> rfl

/-- A process that waits has no call in progress. -/
theorem Atomic.sameCalls (h : Atomic m t) (hr : t.running = some r)
    (hcpu : m.cpu = some (.calling c next)) :
    (t.enter r c).SameCalls (m.storedArgs t) (m.storedNum t) := by
  have hrun : m.kernel.running = some r := by rw [h.kernel]; exact hr
  have hctx : m.context r = some (.calling c next) := (Machine.context_running hrun).trans hcpu
  obtain ⟨a, hR, hI, hawake⟩ := h.awake
  constructor
  · intro q hq
    obtain rfl : r = q := Option.some.inj (hr.symm.trans hq)
    simp [Machine.storedArgs, Machine.storedNum, hctx, Kernel.enter, Context.storedArgs,
      Context.storedNum]
  · intro p hp
    have hstatus : a.status p = .waiting := by rw [← hp]; show _ = t.status p; rw [hR.data]
    have hwaits := (hI.proc.waiting p).1 hstatus
    have hpr : p ≠ r := by
      rintro rfl
      exact (hI.proc.running_fresh (hR.running_eq.symm.trans hr)).1 .waiting hwaits
    have hout : ¬ Context.InCall (m.context p) := by
      intro hin
      rcases hawake p hin with hrun' | hready
      · exact (hI.proc.running_fresh hrun').1 .waiting hwaits
      · have := hI.proc.ready p hready
        rw [hstatus] at this
        cases this
    obtain ⟨hargs, hnum⟩ := Context.stored_eq hout (t.syscallArgs p) (t.syscallNum p)
    exact ⟨hargs.trans (Function.update_of_ne hpr ..).symm,
      hnum.trans (Function.update_of_ne hpr ..).symm⟩

/-- The process that shuts the system down still counts as running. -/
theorem Simulated.shutdown_running {act : Action} (h : Simulated exceptZombies ⟨t, act, t'⟩ a a')
    (hon : t.shutdownNow = false) (hdown : t'.shutdownNow = true) : t'.running = t.running := by
  rw [show t.shutdownNow = a.shutdownNow by rw [h.pre.data]] at hon
  rw [show t'.shutdownNow = a'.shutdownNow by rw [h.post.data]] at hdown
  rw [h.post.running_eq, h.pre.running_eq]
  refine h.step.shutdown_cases.resolve_left ?_
  rw [hon, hdown]
  simp

theorem Refines.next_block {s : Kernel} {xs : List Addr} (hR : Refines exceptZombies s a)
    (hx : a.freePcbs = x :: xs) : s.pcbAllocator.getBlock.1 = some x := by
  rcases hR.pcbs.getBlock_cases with ⟨hnil, -⟩ | ⟨y, ys, pool, hy, hblock, -⟩
  · rw [hnil] at hx
    cases hx
  · rw [hx] at hy
    rw [hblock, (List.cons.inj hy).1]

/-- The blocks that the allocator would hand out next are not in use. -/
theorem Refines.next_free {s : Kernel} (hR : Refines exceptZombies s a) (hP : a.ProcInv)
    (hx : s.pcbAllocator.getBlock.1 = some x) : ¬ a.Used x := by
  rcases hR.pcbs.getBlock_cases with ⟨-, hblock⟩ | ⟨y, ys, pool, hy, hblock, -⟩
  · rw [hblock] at hx
    cases hx
  · rw [hblock] at hx
    obtain rfl : y = x := Option.some.inj hx
    exact hP.free_fresh (by rw [hy]; exact List.mem_cons_self)

/-- How the contexts relate before and after a step of the process `r`: the others keep theirs,
except those that are in no call before or after. -/
def Machine.Resettled (m m' : Machine σ) (r x : Addr) : Prop :=
  ¬ Context.InCall (m'.context x) ∧ (x = r ∨ ¬ Context.InCall (m.context x)) ∨
    x ≠ r ∧ m'.context x = m.context x

/-- The relation holds again once the call of the process `r` is made. -/
theorem Atomic.after (h : Atomic m t)
    (hkernel : t'.withCalls (m.storedArgs t) (m.storedNum t) = m'.kernel)
    (hplace : ∀ x, m.Resettled m' r x)
    (hother : ∀ x, x ≠ r → t'.syscallArgs x = t.syscallArgs x ∧ t'.syscallNum x = t.syscallNum x)
    (hown : t'.syscallArgs r = m.storedArgs t r ∧ t'.syscallNum r = m.storedNum t r)
    (hawake : ∃ a, Refines exceptZombies t' a ∧ a.Inv ∧
      ∀ x, x ≠ r → Context.InCall (m.context x) → a.running = some x ∨ x ∈ a.procs .ready)
    (hcpu : m'.cpu ≠ none ↔ m'.kernel.running ≠ none ∧ m'.kernel.shutdownNow = false) :
    Atomic m' t' := by
  have hstored : ∀ x, m'.storedArgs t' x = m.storedArgs t x ∧
      m'.storedNum t' x = m.storedNum t x := by
    intro x
    unfold Machine.storedArgs Machine.storedNum at *
    rcases hplace x with ⟨hout, hwas⟩ | ⟨hxr, hcontext⟩
    · obtain ⟨hargs', hnum'⟩ := Context.stored_eq hout (t'.syscallArgs x) (t'.syscallNum x)
      rw [hargs', hnum']
      by_cases hxr : x = r
      · rw [hxr]
        exact hown
      · obtain ⟨hargs, hnum⟩ := Context.stored_eq (hwas.resolve_left hxr) (t.syscallArgs x)
          (t.syscallNum x)
        rw [hargs, hnum]
        exact hother x hxr
    · rw [hcontext, (hother x hxr).1, (hother x hxr).2]
      exact ⟨rfl, rfl⟩
  obtain ⟨a, hR, hI, hready⟩ := hawake
  refine ⟨?_, ⟨a, hR, hI, fun x hx => ?_⟩, fun x d i n hx => ?_, ?_⟩
  · rw [funext fun x => (hstored x).1, funext fun x => (hstored x).2]
    exact hkernel.symm
  · rcases hplace x with ⟨hout, -⟩ | ⟨hxr, hcontext⟩
    · exact absurd hx hout
    · exact hready x hxr (hcontext ▸ hx)
  · rcases hplace x with ⟨hout, -⟩ | ⟨-, hcontext⟩
    · rw [hx] at hout
      exact absurd trivial hout
    · exact h.bound x d i n (hcontext.symm.trans hx)
  · rw [hcpu, ← hkernel]
    exact Iff.rfl

/-- The trap of the machine is one call of the kernel. -/
theorem Atomic.call (h : Atomic m t) (hcpu : m.cpu = some (.calling c next))
    (hstep : m.execute code (.calling c next) = .ok m') :
    ∃ t', t.Completes (.syscall c) t' ∧ Atomic m' t' := by
  obtain ⟨r, hr, hkernel, hcontexts, hcpu'⟩ := Machine.calling_eq hstep
  obtain ⟨hon, -⟩ := h.executing hcpu
  have hrt : t.running = some r := h.running_eq.symm.trans hr
  have hsame := h.sameCalls hrt hcpu
  -- the trap finds the call in the PCB, and the handler runs as in one step
  have hk : m.kernel = (t.enter r c).withCalls (m.storedArgs t) (m.storedNum t) := h.kernel
  have hnum : m.kernel.syscallNum r = c.num := by
    rw [hk]
    exact (hsame.running r hrt).2.trans (Function.update_self ..)
  rw [disastrOSTrap_handler (c := c) hr hnum, hk, ← Kernel.handler_withCalls c hsame,
    map_eq_ok] at hkernel
  obtain ⟨t', ht', hk'⟩ := hkernel
  have hcompletes : t.Completes (.syscall c) t' := (step_syscall_eq hrt hon).trans ht'
  obtain ⟨a, hR, hI, hawake⟩ := h.awake
  obtain ⟨a', hsim⟩ := hR.simulated hI hcompletes
  obtain ⟨hr', hs⟩ := hsim.handler rfl hrt
  have hcalls : t'.syscallArgs = (t.enter r c).syscallArgs ∧
      t'.syscallNum = (t.enter r c).syscallNum := by
    rw [hsim.post.data, hs.syscall_eq.1, hs.syscall_eq.2, Kernel.enter, hR.data]
    exact ⟨rfl, rfl⟩
  have hplace : ∀ x, m.Resettled m' r x := by
    intro x
    rcases hcontexts x with ⟨hx, hnone⟩ | ⟨rfl, hback⟩ | ⟨hnew, state, huser⟩ | hkeep
    · -- the system is shut down, and the process that did it still counts as running
      refine Or.inl ⟨by rw [Machine.context_running hx, hnone]; exact id, Or.inl ?_⟩
      have hdown : t'.shutdownNow = true := by
        rcases hcpu' with ⟨-, hend⟩ | ⟨-, q, d, -, hd⟩
        · rw [hx] at hend
          rw [← hend.resolve_right (Option.some_ne_none x), ← hk']
          rfl
        · rw [hnone] at hd
          cases hd
      have hrun := hsim.shutdown_running hon hdown
      have hx' : t'.running = some x := by rw [← hx, ← hk']; rfl
      exact Option.some.inj (hx'.symm.trans (hrun.trans hrt))
    · exact Or.inl ⟨by rw [hback]; exact id, Or.inl rfl⟩
    · refine Or.inl ⟨by rw [huser]; exact id, Or.inr fun hin => ?_⟩
      have hfree := hR.next_free hI.proc (h.pcbAllocator_eq ▸ hnew)
      exact hfree ((hawake x hin).imp id Or.inl)
    · exact Or.inr hkeep
  refine ⟨t', hcompletes, h.after hk' hplace (fun x hxr => ?_) ?_
    ⟨a', hsim.post, hsim.inv', fun x hxr hx => ?_⟩ ?_⟩
  · rw [hcalls.1, hcalls.2]
    exact ⟨Function.update_of_ne hxr .., Function.update_of_ne hxr ..⟩
  · rw [hcalls.1, hcalls.2]
    exact ⟨(hsame.running r hrt).1.symm, (hsame.running r hrt).2.symm⟩
  · refine hsim.step.stays_awake (hawake x hx) fun hrun => ?_
    exact absurd (Option.some.inj (hrun.symm.trans (hR.running_eq.symm.trans hrt))) hxr
  · rcases hcpu' with ⟨hnone, hend⟩ | ⟨hon', q, d, hq, hd⟩
    · rw [hnone]
      rcases hend with hend | hend <;> simp [hend]
    · rw [hd, hq, hon']
      simp

/-! ## Steps within a process -/

/-- A step of the running process that enters no trap: only its own context and the call stored in
its PCB change, and that call is the one its new context says. -/
theorem Atomic.inside (h : Atomic m t) (here' : Context σ) (args : Addr → Nat → Int)
    (num : Addr → Int) (hcpu : m.cpu = some here) (hr : t.running = some r)
    (hkernel : m'.kernel = m.kernel.withCalls args num) (hstates : m'.cpuState = m.cpuState)
    (hcpu' : m'.cpu = some here')
    (hother : ∀ x, x ≠ r → args x = m.kernel.syscallArgs x ∧ num x = m.kernel.syscallNum x)
    (hargs : args r = Context.storedArgs (some here') (t.syscallArgs r))
    (hnum : num r = Context.storedNum (some here') (t.syscallNum r))
    (hbound : ∀ c i next, here' = .storing c i next → i ≤ Kernel.syscallNumarg c.num) :
    Atomic m' t := by
  have hrun : m'.kernel.running = some r := by rw [hkernel, ← hr, h.kernel]; rfl
  have hrun₀ : m.kernel.running = some r := by rw [← hr, h.kernel]; rfl
  have hcontext : m'.context r = some here' := (Machine.context_running hrun).trans hcpu'
  have hkeep : ∀ x, x ≠ r → m'.context x = m.context x := by
    intro x hxr
    have hne : some r ≠ some x := fun heq => hxr (Option.some.inj heq).symm
    rw [Machine.context_other (hrun ▸ hne), Machine.context_other (hrun₀ ▸ hne), hstates]
  obtain ⟨a, hR, hI, hawake⟩ := h.awake
  refine ⟨?_, ⟨a, hR, hI, fun x hx => ?_⟩, fun x d i n hx => ?_, ?_⟩
  · rw [hkernel, h.kernel]
    show t.withCalls args num = _
    congr 1
    · funext x
      unfold Machine.storedArgs
      by_cases hxr : x = r
      · rw [hxr, hcontext, hargs]
      · rw [hkeep x hxr, (hother x hxr).1, h.kernel]
        rfl
    · funext x
      unfold Machine.storedNum
      by_cases hxr : x = r
      · rw [hxr, hcontext, hnum]
      · rw [hkeep x hxr, (hother x hxr).2, h.kernel]
        rfl
  · by_cases hxr : x = r
    · exact Or.inl (hxr ▸ hR.running_eq.symm.trans hr)
    · exact hawake x (hkeep x hxr ▸ hx)
  · by_cases hxr : x = r
    · rw [hxr, hcontext] at hx
      exact hbound d i n (Option.some.inj hx)
    · exact h.bound x d i n (hkeep x hxr ▸ hx)
  · rw [← h.cpu, hcpu, hcpu']
    simp

/-- A step that leaves the kernel as it is, if the new context claims no other call. -/
theorem Atomic.inside_same {here' : Context σ} (h : Atomic m t) (hcpu : m.cpu = some here)
    (hargs : ∀ args, Context.storedArgs (some here') args = Context.storedArgs (some here) args)
    (hnum : ∀ num, Context.storedNum (some here') num = Context.storedNum (some here) num)
    (hbound : ∀ c i next, here' = .storing c i next → i ≤ Kernel.syscallNumarg c.num) :
    Atomic { m with cpu := some here' } t := by
  obtain ⟨-, r, hr, hcontext⟩ := h.executing hcpu
  refine h.inside here' m.kernel.syscallArgs m.kernel.syscallNum hcpu hr rfl rfl rfl
    (fun _ _ => ⟨rfl, rfl⟩) ?_ ?_ hbound
  · rw [hargs, ← hcontext, h.kernel]
    rfl
  · rw [hnum, ← hcontext, h.kernel]
    rfl

/-- A store of a process into its own memory. -/
theorem Atomic.store {state next : σ} {address : Int} {value : UInt8} (h : Atomic m t)
    (hcpu : m.cpu = some (.user state)) :
    ∃ t', t.Completes (.store address value) t' ∧ Atomic { m with
      kernel := { m.kernel with chars := Function.update m.kernel.chars address value }
      cpu := some (.user next) } t' := by
  obtain ⟨hon, r, hr, -⟩ := h.executing hcpu
  have h₁ : Atomic { m with cpu := some (.user next) } t :=
    h.inside_same hcpu (fun _ => rfl) (fun _ => rfl) fun _ _ _ heq => by simp at heq
  have hchars : m.kernel.chars = t.chars := by rw [h.kernel]; rfl
  have hcompletes : t.Completes (.store address value)
      { t with chars := Function.update t.chars address value } := by
    simp [Kernel.Completes, Kernel.step, hon, hr, deref]
  obtain ⟨a, hR, hI, hawake⟩ := h₁.awake
  obtain ⟨a', hsim⟩ := hR.simulated hI hcompletes
  refine ⟨_, hcompletes, ?_, ⟨a', hsim.post, hsim.inv', fun x hx => ?_⟩, h₁.bound, h₁.cpu⟩
  · show ({ m.kernel with chars := Function.update m.kernel.chars address value } : Kernel) =
      ({ t with chars := Function.update t.chars address value } : Kernel).withCalls
        (Machine.storedArgs { m with cpu := some (.user next) } t)
        (Machine.storedNum { m with cpu := some (.user next) } t)
    have hkernel : m.kernel = t.withCalls (Machine.storedArgs { m with cpu := some (.user next) } t)
        (Machine.storedNum { m with cpu := some (.user next) } t) := h₁.kernel
    rw [hchars]
    exact congrArg (fun u : Kernel => { u with chars := Function.update t.chars address value })
      hkernel
  · exact hsim.step.stays_awake (hawake x hx) fun _ _ => by simp

/-! ## The main context -/

theorem Kernel.resumeMain_withCalls (s : Kernel) (args : Addr → Nat → Int) (num : Addr → Int) :
    s.resumeMain.map (·.withCalls args num) = (s.withCalls args num).resumeMain := by
  unfold Kernel.resumeMain
  show _ = (if s.shutdownNow then _ else _)
  split
  · rfl
  · exact map_bind_map (pcbAlloc_withCalls s args num) fun _ => rfl

/-- The process that the main context starts gets the next free PCB. -/
theorem Kernel.resumeMain_running {s s' : Kernel} (h : s.resumeMain = .ok s') :
    s'.running = s.pcbAllocator.getBlock.1 := by
  unfold Kernel.resumeMain at h
  split at h
  · cases h
  · simp only [Kernel.pcbAlloc, bind_eq_ok, pure_eq_ok, Except.ok.injEq, deref_eq_ok] at h
    obtain ⟨_, ⟨pcb, hblock, rfl⟩, rfl⟩ := h
    exact hblock.symm

/-- The main context dispatches the new process at the start of its code. -/
theorem Machine.launch_eq {logging : Bool} (h : m.launch code logging = .ok m') :
    ∃ r, m.kernel.running = some r ∧ m'.kernel = m.kernel ∧ m'.cpu = some (.user code.main) ∧
      m'.context r = some (.user code.main) ∧ ∀ x, x ≠ r → m'.context x = m.cpuState x := by
  simp only [launch, bind_eq_ok, deref_eq_ok] at h
  obtain ⟨r, hr, hset⟩ := h
  obtain ⟨q, c, hq, hc, rfl, hcontext⟩ := setContext_eq hset
  obtain rfl : r = q := Option.some.inj (hr.symm.trans hq)
  have hmain : c = .user code.main := by
    have : Function.update m.cpuState r (some (.user code.main)) r = some c := hc
    rw [Function.update_self] at this
    exact (Option.some.inj this).symm
  refine ⟨r, hr, rfl, by rw [hmain], ?_, fun x hxr => ?_⟩
  · rw [hcontext]
    exact Function.update_self ..
  · rw [hcontext]
    exact Function.update_of_ne hxr ..

/-- A restart of the machine is one of the kernel. -/
theorem Atomic.resume (h : Atomic m t) (hidle : t.running = none)
    (hstep : m.resumeMain code = .ok m') : ∃ t', t.Moves .resume t' ∧ Atomic m' t' := by
  simp only [Machine.resumeMain, bind_eq_ok] at hstep
  obtain ⟨kernel, hkernel, hlaunch⟩ := hstep
  obtain ⟨r, hr, hsame, hmain, hat, hkeep⟩ := Machine.launch_eq hlaunch
  rw [h.kernel, ← Kernel.resumeMain_withCalls, map_eq_ok] at hkernel
  obtain ⟨t', ht', hk'⟩ := hkernel
  have hmoves : t.Moves .resume t' := ⟨hidle, ht'⟩
  obtain ⟨a, hR, hI, hawake⟩ := h.awake
  obtain ⟨a', hR', hI', hmove⟩ := hR.moves hI hmoves
  cases hmove with
  | resume hidle' hboot =>
      cases hboot with
      | @booted y ys hy =>
          have hyr : y = r := by
            have hrun : t'.running = some r := by rw [← hr, ← hk']; rfl
            exact Option.some.inj (hR'.running_eq.symm.trans hrun)
          have hfree : ¬ a.Used r := hI.proc.free_fresh (by rw [hy, hyr]; exact List.mem_cons_self)
          have hout : ¬ Context.InCall (m.context r) := fun hin =>
            hfree ((hawake r hin).imp id Or.inl)
          have hcalls : t'.syscallArgs = t.syscallArgs ∧ t'.syscallNum = t.syscallNum := by
            rw [hR'.data, hR.data]
            exact ⟨rfl, rfl⟩
          have hon : t'.shutdownNow = false := by
            have htrue : ∀ u : Kernel, t.resumeMain = .ok u → t.shutdownNow = false := by
              intro u hu
              cases hdown : t.shutdownNow with
              | false => rfl
              | true => simp [Kernel.resumeMain, hdown] at hu
            rw [hR'.data, ← htrue t' ht', hR.data]
            rfl
          refine ⟨t', hmoves, h.after (r := r) (hk'.trans hsame.symm) (fun x => ?_)
            (fun x _ => ?_) ?_ ⟨_, hR', hI', fun x hxr hx => ?_⟩ ?_⟩
          · by_cases hxr : x = r
            · rw [hxr]
              exact Or.inl ⟨by rw [hat]; exact id, Or.inl rfl⟩
            · have hx : m.kernel.running ≠ some x := by
                rw [h.running_eq, hidle]
                simp
              exact Or.inr ⟨hxr, (hkeep x hxr).trans (Machine.context_other hx).symm⟩
          · rw [hcalls.1, hcalls.2]
            exact ⟨rfl, rfl⟩
          · rw [hcalls.1, hcalls.2]
            obtain ⟨hargs, hnum⟩ := Context.stored_eq hout (t.syscallArgs r) (t.syscallNum r)
            exact ⟨hargs.symm, hnum.symm⟩
          · rcases hawake x hx with hrun | hready
            · rw [hidle'] at hrun
              cases hrun
            · exact Or.inr hready
          · have hon' : kernel.shutdownNow = false := by rw [← hk']; exact hon
            rw [hmain, hsame, hr, hon']
            simp

/-! ## The simulation -/

/-- The action of the kernel in the next step of a process, if any. A process that computes, reads
its memory, stores an argument or takes an answer performs none. -/
def Context.shows (code : Code σ) : Context σ → Option Action
  | .user state =>
      match code.fetch state with
      | .store address value _ => some (.store address value)
      | _ => none
  | .calling c _ => some (.syscall c)
  | _ => none

/-- The move of the kernel in the next step of the machine, if any. -/
def Machine.shows (code : Code σ) (m : Machine σ) (signal : Bool) : Option Move :=
  match m.cpu with
  | none => some .resume
  | some here => if signal then some (.action .tick) else (here.shows code).map .action

/-- The steps within a process that perform no action of the kernel. -/
theorem Atomic.quiet (h : Atomic m t) (hcpu : m.cpu = some here)
    (hstep : m.execute code here = .ok m') (hshows : here.shows code = none) : Atomic m' t := by
  obtain ⟨-, r, hr, hcontext⟩ := h.executing hcpu
  have hr₀ : m.kernel.running = some r := h.running_eq.trans hr
  have hargs₀ : m.kernel.syscallArgs r = Context.storedArgs (some here) (t.syscallArgs r) := by
    rw [← hcontext, h.kernel]
    rfl
  cases here with
  | user state =>
      simp only [Machine.execute] at hstep
      simp only [Context.shows] at hshows
      cases hfetch : code.fetch state with
      | compute next | load _ next | loadInt _ next | getpid next =>
          rw [hfetch] at hstep
          obtain rfl := Except.ok.inj hstep
          exact h.inside_same hcpu (fun _ => rfl) (fun _ => rfl) fun _ _ _ heq => by simp at heq
      | store _ _ _ =>
          rw [hfetch] at hshows
          cases hshows
      | call c next =>
          obtain ⟨hlow, hhigh⟩ := c.num_range
          rw [hfetch] at hstep
          simp only [hr₀, assertNonNull, ok_bind, if_neg (show ¬ (c.num < 0 ∨
            c.num > dsosMaxSyscalls) by omega), pure_eq_ok, Except.ok.injEq] at hstep
          obtain rfl := hstep
          refine h.inside_same hcpu (fun _ => rfl) (fun _ => rfl) fun d i n heq => ?_
          obtain ⟨-, rfl, -⟩ := Context.storing.inj heq
          exact Nat.zero_le _
  | storing c i next =>
      simp only [Machine.execute, hr₀, deref_some, ok_bind] at hstep
      split at hstep
      · rename_i hi
        obtain rfl := Except.ok.inj hstep
        refine h.inside (.storing c (i + 1) next) _ _ hcpu hr rfl rfl rfl
          (fun x hxr => ⟨Function.update_of_ne hxr .., rfl⟩) ?_ ?_ fun d j n heq => ?_
        · rw [Function.update_self, hargs₀]
          rfl
        · rw [h.kernel]
          show m.storedNum t r = _
          rw [Machine.storedNum, hcontext]
          rfl
        · obtain ⟨rfl, rfl, -⟩ := Context.storing.inj heq
          omega
      · rename_i hi
        obtain rfl := Except.ok.inj hstep
        have hall : i = Kernel.syscallNumarg c.num := by
          have := h.bound r c i next hcontext
          omega
        refine h.inside (.calling c next) _ _ hcpu hr rfl rfl rfl
          (fun x hxr => ⟨rfl, Function.update_of_ne hxr ..⟩) ?_ (Function.update_self ..)
          fun _ _ _ heq => by simp at heq
        · rw [hargs₀, hall]
          rfl
  | calling c next => cases hshows
  | returning next =>
      simp only [Machine.execute, hr₀, deref_some, ok_bind, pure_eq_ok, Except.ok.injEq] at hstep
      obtain rfl := hstep
      exact h.inside_same hcpu (fun _ => rfl) (fun _ => rfl) fun _ _ _ heq => by simp at heq

/-- The kernel with calls in one step simulates the machine. -/
theorem Machine.simulates (code : Code σ) :
    Simulates (Machine.Completes code) Kernel.Moves (Machine.shows code) Atomic := by
  intro m signal m' t h hstep
  unfold Machine.shows
  rcases hstep.cases with ⟨here, hcpu, rfl, htimer⟩ | ⟨here, hcpu, rfl, hexec⟩ |
    ⟨hcpu, rfl, hon, hmain⟩
  · rw [hcpu]
    obtain ⟨t', hcompletes, h'⟩ := h.tick hcpu htimer
    exact ⟨t', hcompletes, h'⟩
  · rw [hcpu]
    simp only [Bool.false_eq_true, if_false]
    cases hshows : here.shows code with
    | none => exact ⟨t, rfl, h.quiet hcpu hexec hshows⟩
    | some act =>
        rcases here with state | _ | ⟨c, next⟩ | _
        · simp only [Context.shows] at hshows
          simp only [Machine.execute] at hexec
          cases hfetch : code.fetch state with
          | store address value next =>
              rw [hfetch] at hshows hexec
              obtain rfl := Option.some.inj hshows
              obtain rfl := Except.ok.inj hexec
              exact h.store hcpu
          | _ =>
              rw [hfetch] at hshows
              cases hshows
        · cases hshows
        · obtain rfl := Option.some.inj hshows
          exact h.call hcpu hexec
        · cases hshows
  · rw [hcpu]
    exact h.resume (h.idle hcpu hon) hmain

/-- The machine starts in the initial state of the kernel. -/
theorem Machine.start_atomic {chars : Int → UInt8} {ints : Int → Int} {logging : Bool}
    (h : Machine.disastrOSStart code chars ints logging = .ok m) :
    Kernel.disastrOSStart chars ints = .ok m.kernel ∧ Atomic m m.kernel := by
  simp only [Machine.disastrOSStart, bind_eq_ok] at h
  obtain ⟨kernel, hstart, hlaunch⟩ := h
  obtain ⟨r, hr, hsame, hmain, hat, hkeep⟩ := Machine.launch_eq hlaunch
  obtain ⟨s, hs, hR⟩ := disastrOSStart_refines exceptZombies chars ints
  obtain rfl : kernel = s := Except.ok.inj (hstart.symm.trans hs)
  have hsame' : m.kernel = kernel := hsame
  have hout : ∀ x, ¬ Context.InCall (m.context x) := by
    intro x
    by_cases hxr : x = r
    · rw [hxr, hat]
      exact id
    · rw [hkeep x hxr]
      exact id
  rw [hsame']
  refine ⟨hstart, ?_, ⟨_, hR, Model.start_inv chars ints, fun x hx => absurd hx (hout x)⟩,
    fun x c i next hx => ?_, ?_⟩
  · rw [hsame']
    have hargs : m.storedArgs kernel = kernel.syscallArgs :=
      funext fun x => (Context.stored_eq (hout x) _ (kernel.syscallNum x)).1
    have hnum : m.storedNum kernel = kernel.syscallNum :=
      funext fun x => (Context.stored_eq (hout x) (kernel.syscallArgs x) _).2
    rw [hargs, hnum]
    rfl
  · have := hout x
    rw [hx] at this
    exact absurd trivial this
  · have hrun : kernel.running = some r := hr
    have hon : kernel.shutdownNow = false := by rw [hR.data]; rfl
    rw [hmain, hrun, hon]
    simp

/-! ## Runs of the machine -/

/-- The events `es` are those of a run of the machine that ends in `m`. -/
def MachineRun (code : Code σ) (es : List (Event (Machine σ) Bool)) (m : Machine σ) : Prop :=
  ∃ chars ints logging m₀, Machine.disastrOSStart code chars ints logging = .ok m₀ ∧
    Run (Machine.Completes code) m₀ es m

/-- A run of the machine shows the moves of a run of the kernel. -/
theorem MachineRun.atomic (h : MachineRun code es m) : ∃ fs t, LongRun fs t ∧
    fs.map Event.act = shown (Machine.shows code) es ∧ Atomic m t := by
  obtain ⟨chars, ints, logging, m₀, hstart, hrun⟩ := h
  obtain ⟨hkernel, h₀⟩ := Machine.start_atomic hstart
  obtain ⟨fs, t, hrun', hacts, h'⟩ := (Machine.simulates code).run hrun h₀
  exact ⟨fs, t, ⟨chars, ints, _, hkernel, hrun'⟩, hacts, h'⟩

theorem MachineRun.split (h : MachineRun code (es ++ e :: fs) m) : MachineRun code es e.pre ∧
    e.pre.Completes code e.act e.post ∧ Run (Machine.Completes code) e.post fs m := by
  obtain ⟨chars, ints, logging, m₀, hstart, hrun⟩ := h
  obtain ⟨hpre, hstep, hrest⟩ := hrun.split
  exact ⟨⟨chars, ints, logging, m₀, hstart, hpre⟩, hstep, hrest⟩

/-- The test `p` succeeds on the run with these signals, from zero-initialised memory of the
processes. -/
def Machine.executes (code : Code σ) (logging : Bool) (signals : List Bool)
    (p : List (Event (Machine σ) Bool) → Machine σ → Bool) : Bool :=
  match Machine.disastrOSStart code (fun _ => 0) (fun _ => 0) logging with
  | .error _ => false
  | .ok m =>
      match trace (Machine.step code) m signals with
      | .error _ => false
      | .ok (es, m') => p es m'

theorem exists_started (code : Code σ) (logging : Bool) (signals : List Bool)
    (p : List (Event (Machine σ) Bool) → Machine σ → Bool)
    (h : Machine.executes code logging signals p) : ∃ m₀ es m,
      Machine.disastrOSStart code (fun _ => 0) (fun _ => 0) logging = .ok m₀ ∧
        Run (Machine.Completes code) m₀ es m ∧ p es m := by
  unfold Machine.executes at h
  split at h
  · cases h
  · rename_i m₀ hstart
    split at h
    · cases h
    · rename_i es m htrace
      exact ⟨m₀, es, m, hstart, trace_run htrace, h⟩

theorem exists_of_machine (code : Code σ) (logging : Bool) (signals : List Bool)
    (p : List (Event (Machine σ) Bool) → Machine σ → Bool)
    (h : Machine.executes code logging signals p) : ∃ es m, MachineRun code es m ∧ p es m := by
  obtain ⟨m₀, es, m, hstart, hrun, hp⟩ := exists_started code logging signals p h
  exact ⟨es, m, ⟨_, _, logging, m₀, hstart, hrun⟩, hp⟩

end DisastrOS
