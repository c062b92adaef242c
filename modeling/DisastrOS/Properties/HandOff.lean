import DisastrOS.Abstract.HandOff
import DisastrOS.Properties.ProcessTable

/-!
# Handing over exit values

A process that exits is handed over to at most one `wait`, made by the process on whose children
list it is, together with the value it passed to `exit`. Two pieces of code have to agree on this:
`exit` wakes a parent that is blocked already, and `wait` collects a child that has left already.
The invariant `HandOffInv` relates zombies and blocked processes to the events so far.
-/

set_option autoImplicit false

namespace DisastrOS

open Runs LinkedSequence LinkedSequence.ListHeap ChildLists Model

/-! ## Observations -/

/-- In this step the process with pid `p` executes `exit(v)`. -/
def ExitOf (e : Event Kernel Action) (p : Int) (v : Int32) : Prop :=
  ∃ x, e.pre.running = some x ∧ e.pre.pid x = p ∧ e.act = .syscall (.exit v)

/-- In this step a `wait` of the process `w` returns `p`: either `w` calls it and goes on running,
or `w` was blocked in it and runs again. -/
def WaitReturns (e : Event Kernel Action) (w : Addr) (p : Int) : Prop :=
  e.post.running = some w ∧ e.post.syscallRetvalue w = p ∧
    ((e.pre.running = some w ∧ ∃ q result, e.act = .syscall (.wait q result)) ∨
      (w ∈ e.pre.processes .waiting ∧ e.pre.syscallNum w = dsosCallWait))

/-- The syscall `c` is the last thing that the process `w` did. -/
def LastCall (es : List (Event Kernel Action)) (w : Addr) (c : Syscall) : Prop :=
  ∃ fs e gs, es = fs ++ e :: gs ∧ e.pre.running = some w ∧ e.act = .syscall c ∧
    ∀ f ∈ gs, f.pre.running ≠ some w

/-- The `wait` of `w` that returns `p` in the event `e`, after the events `fs`, is about a child of
`w` which has executed `exit(v)`, and `v` is stored through the result pointer of that `wait`. -/
structure Collects (fs : List (Event Kernel Action)) (e : Event Kernel Action) (w : Addr) (p : Int) :
    Prop where
  child : ∃ k ∈ e.pre.childrenOf w, e.pre.pid (e.pre.ptrPcb k) = p
  value : ∃ v q result, (∃ f ∈ fs ++ [e], ExitOf f p v) ∧
    LastCall (fs ++ [e]) w (.wait q result) ∧
    e.post.ints = (if result ≠ 0 then Function.update e.pre.ints result v.toInt else e.pre.ints)

/-- What holds of the event `e` after the events `fs`: a process exits once, a `wait` returns the
pid of a child that has exited with its exit value, and at most one `wait` returns a pid. -/
structure HandOffEvent (fs : List (Event Kernel Action)) (e : Event Kernel Action) : Prop where
  exitsOnce : ∀ p v, ExitOf e p v → ∀ f ∈ fs, ∀ v', ¬ ExitOf f p v'
  collects : ∀ w p, WaitReturns e w p → 0 ≤ p → Collects fs e w p
  returnsOnce : ∀ w p, WaitReturns e w p → 0 ≤ p → ∀ f ∈ fs, ∀ w', ¬ WaitReturns f w' p

/-- Nothing is lost or duplicated between `exit` and `wait` in the run `es` that ends in `s`. -/
structure HandOff (es : List (Event Kernel Action)) (s : Kernel) : Prop where
  /-- Every process but `init` is on the children list of exactly one process that is no zombie,
  exactly once. -/
  listed : ∀ x, s.pcbAllocator.handedOut x → s.initPcb ≠ some x → ∃ q, s.Alive q ∧
    (s.childrenOf q).countP (fun k => s.ptrPcb k = x) = 1 ∧
    ∀ q', q' ≠ q → (s.childrenOf q').countP (fun k => s.ptrPcb k = x) = 0
  events : Throughout HandOffEvent es

/-! ## The invariant -/

/-- The events so far and the processes of the state. -/
structure HandOffInv (es : List (Event Kernel Action)) (a : Model) : Prop where
  families : a.Families (processesCreated es)
  exited : ∀ f ∈ es, ∀ p v, ExitOf f p v → p < processesCreated es
  alive : ∀ x, a.Alive x → ∀ f ∈ es, ∀ v, ¬ ExitOf f (a.pid x) v
  zombie : ∀ z ∈ a.procs .zombie,
    (∃ f ∈ es, ∃ v, ExitOf f (a.pid z) v ∧ a.returnValue z = v.toInt) ∧
      ∀ f ∈ es, ∀ w, ¬ WaitReturns f w (a.pid z)
  blocked : ∀ w, a.Blocked w → ∃ p result, LastCall es w (.wait p result) ∧
    a.syscallArgs w 1 = result
  events : Throughout HandOffEvent es

variable {counted : ProcList → Prop} {es : List (Event Kernel Action)} {s : Kernel}
  {e : Event Kernel Action} {a a' : Model} {w x : Addr} {p : Int} {v : Int32} {c : Syscall}

theorem lastCall_self (hrun : e.pre.running = some w) (hact : e.act = .syscall c) :
    LastCall (es ++ [e]) w c :=
  ⟨es, e, [], rfl, hrun, hact, fun _ hf => absurd hf List.not_mem_nil⟩

theorem LastCall.concat (h : LastCall es w c) (hrun : e.pre.running ≠ some w) :
    LastCall (es ++ [e]) w c := by
  obtain ⟨fs, f, gs, rfl, hf, hact, hgs⟩ := h
  refine ⟨fs, f, gs ++ [e], by simp, hf, hact, fun g hg => ?_⟩
  rcases List.mem_append.1 hg with hg | hg
  · exact hgs g hg
  · rw [List.mem_singleton.1 hg]
    exact hrun

theorem Simulated.exitOf_iff (h : Simulated counted e a a') :
    ExitOf e p v ↔ ∃ x, a.running = some x ∧ a.pid x = p ∧ e.act = .syscall (.exit v) := by
  rw [ExitOf, h.pre.data]

/-- What a `wait` that returns no error code does in a simulated event. -/
theorem Simulated.wait_returns {n : Nat} (h : Simulated counted e a a') (hG : a.Families n)
    (hret : WaitReturns e w p) (hp : 0 ≤ p) :
    ∃ k z, k ∈ a.children w ∧ a.ptrPcb k = z ∧ p = a.pid z ∧ a.Used z ∧ ¬ a'.Used z ∧
      Collected a e.act w z a' := by
  obtain ⟨hrun', rfl, hwait⟩ := hret
  have hvalue : e.post.syscallRetvalue w = a'.syscallRetvalue w := by rw [h.post.data]
  rw [hvalue] at hp ⊢
  apply h.step.wait_returns h.inv h.inv' hG (h.post.running_eq.symm.trans hrun') hp
  apply hwait.imp (fun ⟨hrun, hact⟩ => ⟨h.pre.running_eq.symm.trans hrun, hact⟩)
  rintro ⟨hmem, hnum⟩
  rw [h.pre.processes_eq h.inv.proc] at hmem
  rw [h.pre.data] at hnum
  exact ⟨hmem, hnum⟩

theorem HandOffInv.start (chars : Int → UInt8) (ints : Int → Int) :
    HandOffInv [] (Model.start chars ints) where
  families := Model.start_families chars ints
  exited := fun _ hf => absurd hf List.not_mem_nil
  alive := fun _ _ _ hf => absurd hf List.not_mem_nil
  zombie := fun _ hz => absurd hz List.not_mem_nil
  blocked := fun _ hw => absurd hw.1 List.not_mem_nil
  events := throughout_nil _

/-- No `wait` has returned a process that has not left. -/
theorem HandOffInv.alive_not_returned (hJ : HandOffInv es a) (hx : a.Alive x) :
    ∀ f ∈ es, ∀ w, ¬ WaitReturns f w (a.pid x) := by
  intro f hf w hret
  obtain ⟨fs, gs, rfl⟩ := List.append_of_mem hf
  have hpid := (hJ.families.pids.bound x hx.used).1
  obtain ⟨v, -, -, ⟨g, hg, hexit⟩, -⟩ := ((hJ.events fs f gs rfl).collects w _ hret hpid).value
  refine hJ.alive x hx g ?_ v hexit
  rcases List.mem_append.1 hg with hg | hg
  · exact List.mem_append_left _ hg
  · rw [List.mem_singleton.1 hg]
    exact List.mem_append_right _ List.mem_cons_self

/-- What a `wait` returns in the event `e` meets the claims about it. -/
theorem HandOffInv.event (hJ : HandOffInv es a) (h : Simulated counted e a a') :
    HandOffEvent es e where
  exitsOnce := by
    intro p v hexit
    obtain ⟨x, hrun, rfl, -⟩ := h.exitOf_iff.1 hexit
    exact fun f hf v' => hJ.alive x (Or.inl hrun) f hf v'
  collects := by
    intro w p hret hp
    obtain ⟨k, z, hk, rfl, rfl, hused, -, hcollected⟩ := h.wait_returns hJ.families hret hp
    refine ⟨⟨k, ?_, ?_⟩, ?_⟩
    · rw [h.pre.childrenOf_eq h.inv.kid]
      exact hk
    · rw [h.pre.data]
    · have hints : e.post.ints = a'.ints := by rw [h.post.data]
      have hints' : e.pre.ints = a.ints := by rw [h.pre.data]
      rw [hints, hints']
      cases hcollected with
      | @zombie q result hact hrun hz hstore =>
          -- the exit lies in the past, and the value is in the PCB of the zombie
          obtain ⟨⟨f, hf, v, hexit, hvalue⟩, -⟩ := hJ.zombie _ hz
          refine ⟨v, q, result, ⟨f, List.mem_append_left _ hf, hexit⟩,
            lastCall_self (h.pre.running_eq.trans hrun) hact, ?_⟩
          rw [hstore, hvalue]
      | @woken v hact hrun hblocked hstore =>
          -- the exit is this event, and the call of `wait` lies in the past
          obtain ⟨q, result, hcall, hresult⟩ := hJ.blocked w hblocked
          have hne : a.running ≠ some w := fun heq =>
            (h.inv.proc.running_fresh heq).1 .waiting hblocked.1
          refine ⟨v, q, result, ⟨e, List.mem_append_right _ (List.mem_singleton_self e),
            h.exitOf_iff.2 ⟨_, hrun, rfl, hact⟩⟩,
            hcall.concat (fun heq => hne (h.pre.running_eq.symm.trans heq)), ?_⟩
          rw [hstore, hresult]
  returnsOnce := by
    intro w p hret hp
    obtain ⟨k, z, -, -, rfl, -, -, hcollected⟩ := h.wait_returns hJ.families hret hp
    cases hcollected with
    | zombie _ _ hz _ => exact (hJ.zombie z hz).2
    | woken _ hrun _ _ => exact hJ.alive_not_returned (Or.inl hrun)

theorem HandOffInv.zombie_step (hJ : HandOffInv es a) (h : Simulated counted e a a') :
    ∀ z ∈ a'.procs .zombie,
      (∃ f ∈ es ++ [e], ∃ v, ExitOf f (a'.pid z) v ∧ a'.returnValue z = v.toInt) ∧
        ∀ f ∈ es ++ [e], ∀ w, ¬ WaitReturns f w (a'.pid z) := by
  intro z hz
  -- the process that a `wait` returns in this event is freed, so it is no zombie afterwards
  have hnot : a.Used z → ∀ w, ¬ WaitReturns e w (a.pid z) := by
    intro hused w hret
    have hpid := (hJ.families.pids.bound z hused).1
    obtain ⟨k, y, -, -, heq, hy, hfreed, -⟩ := h.wait_returns hJ.families hret hpid
    obtain rfl := hJ.families.pids.inj z y hused hy heq
    exact hfreed (Used.of_mem hz)
  rcases h.step.zombie_cases h.inv hz with ⟨hold, hpid, hvalue⟩ | ⟨v, hact, hrun, hpid, hvalue⟩
  · rw [hpid, hvalue]
    obtain ⟨⟨f, hf, v, hexit⟩, hreturns⟩ := hJ.zombie z hold
    refine ⟨⟨f, List.mem_append_left _ hf, v, hexit⟩, fun f hf w => ?_⟩
    rcases List.mem_append.1 hf with hf | hf
    · exact hreturns f hf w
    · rw [List.mem_singleton.1 hf]
      exact hnot (Used.of_mem hold) w
  · rw [hpid, hvalue]
    refine ⟨⟨e, List.mem_append_right _ (List.mem_singleton_self e), v,
      h.exitOf_iff.2 ⟨z, hrun, rfl, hact⟩, rfl⟩, fun f hf w => ?_⟩
    rcases List.mem_append.1 hf with hf | hf
    · exact hJ.alive_not_returned (Or.inl hrun) f hf w
    · rw [List.mem_singleton.1 hf]
      exact hnot (Or.inl hrun) w

/-- The invariant is kept by every step. -/
theorem HandOffInv.step (hJ : HandOffInv es a) (h : Simulated counted e a a')
    (hn : processesCreated (es ++ [e]) < 2 ^ 31) : HandOffInv (es ++ [e]) a' := by
  have hG := hJ.families
  have hle : processesCreated es ≤ processesCreated (es ++ [e]) := by
    rw [processesCreated_concat]
    omega
  refine ⟨?_, ?_, ?_, ?_, ?_, throughout_concat.2 ⟨hJ.events, hJ.event h⟩⟩
  · rw [processesCreated_concat] at hn ⊢
    exact h.step.families hG h.inv h.inv' hn
  · intro f hf p v hexit
    rcases List.mem_append.1 hf with hf | hf
    · have := hJ.exited f hf p v hexit
      omega
    · rw [List.mem_singleton.1 hf] at hexit
      obtain ⟨x, hrun, rfl, -⟩ := h.exitOf_iff.1 hexit
      have := hG.pids.bound x (Or.inl hrun)
      omega
  · intro x hx f hf v hexit
    rcases h.step.alive_cases h.inv h.inv' hG.lists hx with ⟨halive, hpid, hstays⟩ | ⟨hnew, hpid⟩
    · rw [hpid] at hexit
      rcases List.mem_append.1 hf with hf | hf
      · exact hJ.alive x halive f hf v hexit
      · rw [List.mem_singleton.1 hf] at hexit
        obtain ⟨y, hrun, heq, hact⟩ := h.exitOf_iff.1 hexit
        obtain rfl := hG.pids.inj y x (Or.inl hrun) halive.used heq
        exact hstays ⟨v, hact⟩ hrun
    · rw [hpid, hG.pids.next] at hexit
      rcases List.mem_append.1 hf with hf | hf
      · exact absurd (hJ.exited f hf _ v hexit) (Int.lt_irrefl _)
      · rw [List.mem_singleton.1 hf] at hexit
        obtain ⟨y, -, -, hact⟩ := h.exitOf_iff.1 hexit
        rw [hact] at hnew
        cases hnew
  · exact hJ.zombie_step h
  · intro w hw
    rcases h.step.blocked_cases h.inv hw with ⟨hblocked, hargs, hne⟩ | ⟨p, result, hact, hrun, hresult⟩
    · obtain ⟨p, result, hcall, hresult⟩ := hJ.blocked w hblocked
      refine ⟨p, result, hcall.concat fun heq => hne (h.pre.running_eq.symm.trans heq), ?_⟩
      rw [hargs, hresult]
    · exact ⟨p, result, lastCall_self (h.pre.running_eq.trans hrun) hact, hresult⟩

/-! ## Runs -/

theorem SystemRun.handOffInv (h : SystemRun es s) (hn : processesCreated es < 2 ^ 31) :
    ∃ a, Refines (fun _ => True) s a ∧ a.Inv ∧ HandOffInv es a :=
  h.invariant (throughout_processesCreated hn) HandOffInv.start
    (fun _ _ hJ hI _ _ _ he => hJ.families.lists.not_free hI.proc he)
    fun _ _ _ _ _ hJ hsim hPe => hJ.step hsim hPe

/-- An entry that stands for a process occurs once in all lists of children. -/
theorem FamInv.countP_entry (hF : a.FamInv) {q k : Addr} (hk : k ∈ a.children q) (q' : Addr) :
    (a.children q').countP (fun k' => a.ptrPcb k' = a.ptrPcb k) = if q' = q then 1 else 0 := by
  by_cases hq : q' = q
  · subst hq
    rw [if_pos rfl]
    have hcongr : (a.children q').countP (fun k' => a.ptrPcb k' = a.ptrPcb k) =
        (a.children q').countP (fun k' => k' == k) := by
      apply List.countP_congr
      intro k' hk'
      simp only [decide_eq_true_eq, beq_iff_eq]
      exact ⟨fun heq => (hF.unique q' q' k' k hk' hk heq).2, fun heq => by rw [heq]⟩
    rw [hcongr]
    exact List.count_eq_one_of_mem (hF.nodup q') hk
  · rw [if_neg hq, List.countP_eq_zero]
    intro k' hk' heq
    exact hq (hF.unique q' q k' k hk' hk (of_decide_eq_true heq)).1

/-- Exit values are handed over once, to the process whose child has left. -/
theorem exit_hand_off (h : SystemRun es s) (hn : processesCreated es < 2 ^ 31) : HandOff es s := by
  obtain ⟨a, hR, hI, hJ⟩ := h.handOffInv hn
  refine ⟨fun x hx hinit => ?_, hJ.events⟩
  have hF := hJ.families.lists
  rw [hR.handedOut_iff_used hI.proc] at hx
  have hinit' : a.initPcb ≠ some x := by rwa [hR.data] at hinit
  obtain ⟨q, k, hk, rfl⟩ := hF.listed x hx hinit'
  have hptr : s.ptrPcb = a.ptrPcb := by rw [hR.data]
  have hlists : ∀ q, s.childrenOf q = a.children q := hR.childrenOf_eq hI.kid
  simp only [hptr, hlists]
  refine ⟨q, ?_, ?_, fun q' hq' => ?_⟩
  · exact (hR.alive_iff hI.proc).2 (hF.holder q (List.ne_nil_of_mem hk))
  · rw [FamInv.countP_entry hF hk, if_pos rfl]
  · rw [FamInv.countP_entry hF hk, if_neg hq']

/-- One child is collected as a zombie, the other one wakes its parent. -/
theorem exit_hand_off_two : ∃ (es : List (Event Kernel Action)) (s : Kernel),
    (es.length = 8 ∧ s.ints 100 = 3 ∧ s.ints 200 = 4) ∧ HandOff es s := by
  obtain ⟨es, s, hrun, hp⟩ := exists_of_executes
    [.syscall (.spawn 1 0), .syscall (.spawn 1 0), .syscall .preempt, .syscall (.exit 3),
      .syscall .preempt, .syscall (.wait 0 100), .syscall (.wait 2 200), .syscall (.exit 4)]
    (fun es s => processesCreated es < 2 ^ 31 ∧ es.length = 8 ∧ s.ints 100 = 3 ∧
      s.ints 200 = 4) (by decide +kernel)
  obtain ⟨hn, hrest⟩ := of_decide_eq_true hp
  exact ⟨es, s, hrest, exit_hand_off hrun hn⟩

end DisastrOS
