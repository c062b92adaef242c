import DisastrOS.Refinement.Restart

/-!
# Restarts

Each time a `sleep` leaves no process to run, one more `init` is started. A process without a parent
cannot leave, so every restart takes a PCB for good: there are never more than 1023 of them. These
are all the restarts there are, since no process function returns.
-/

set_option autoImplicit false

namespace DisastrOS

open Runs LinkedSequence LinkedSequence.ListHeap Model

variable {es : List (Event Kernel Move)} {e : Event Kernel Move} {s : Kernel} {a a' : Model}
  {p r : Addr}

/-- The number of restarts in a run. -/
def restarts (es : List (Event Kernel Move)) : Nat := es.countP fun e => e.act = .resume

theorem Model.Step.initPcb_eq {clean : Addr → Prop} {act : Action} (h : Step clean a act a')
    (hI : a.Inv) (hI' : a'.Inv) : a'.initPcb = a.initPcb := by
  cases h with
  | tick _ hs => rw [hs.sameFamilies.initPcb]
  | @syscall r c _ hr hs =>
      have hI₁ := hI.enter hr c
      cases hp : c.onProcesses with
      | false => rw [(hs.sameProcesses hp).initPcb]; rfl
      | true =>
          cases hs with
          | preempt h => rw [h.sameFamilies.initPcb]; rfl
          | fork h | spawn h => cases h with | created _ _ => rfl
          | wait h =>
              obtain ⟨_, _, _, _, _, _, _, _, rfl⟩ := h.eq
              rfl
          | exit h => rw [(h.noneNew hI₁.proc hI'.proc hr).initPcb]; rfl
          | sleep h => rw [h.sameFamilies.initPcb]; rfl
          | shutdown => rfl
          | _ => cases hp
  | store _ => rfl

/-- The processes `inits` are those without a parent, the last one started first, one for each
restart and one from the start. -/
structure Inits (es : List (Event Kernel Move)) (inits : List Addr) (a : Model) : Prop where
  nodup : inits.Nodup
  length : inits.length = restarts es + 1
  last : a.initPcb = inits.head?
  parentless : ∀ p, p ∈ inits ↔ a.Parentless p

theorem Inits.step {inits : List Addr} (h : Inits es inits a) (hmove : Moved e a a') :
    ∃ inits', Inits (es ++ [e]) inits' a' := by
  have hcount : restarts (es ++ [e]) = restarts es + if e.act = .resume then 1 else 0 := by
    simp [restarts, List.countP_append, List.countP_singleton]
  have hstep := hmove.step
  cases hact : e.act with
  | action act =>
      rw [hact] at hstep hcount
      cases hstep with
      | action hs =>
          refine ⟨inits, h.nodup, by simpa [h.length] using hcount.symm, ?_, fun p => ?_⟩
          · rw [hs.initPcb_eq hmove.inv hmove.inv', h.last]
          · rw [hs.parentless_iff hmove.inv hmove.inv', h.parentless]
  | resume =>
      rw [hact] at hstep hcount
      cases hstep with
      | resume hidle hboot =>
          obtain ⟨x, hx, hinit, hiff⟩ := hboot.parentless_iff hmove.inv.proc hidle
          refine ⟨x :: inits, List.nodup_cons.2 ⟨fun hmem => ?_, h.nodup⟩, ?_, hinit, fun p => ?_⟩
          · exact hx ((h.parentless x).1 hmem).1.used
          · simpa [h.length] using hcount.symm
          · rw [List.mem_cons, h.parentless, hiff]

theorem LongRun.inits (h : LongRun es s) :
    ∃ a, Refines exceptZombies s a ∧ a.Inv ∧ ∃ inits, Inits es inits a := by
  refine h.invariant (J := fun es a => ∃ inits, Inits es inits a) (fun chars ints => ?_)
    fun es e a a' ⟨inits, hinits⟩ hmove => hinits.step hmove
  refine ⟨[0], List.nodup_singleton 0, rfl, rfl, fun p => ?_⟩
  rw [List.mem_singleton]
  constructor
  · rintro rfl
    exact ⟨Or.inl rfl, rfl⟩
  · intro hp
    exact start_used hp.1.used

/-- After any number of restarts the processes without a parent are the first processes of all
starts, `init_pcb` is the latest of them, and none of them can complete an `exit`. Their number, one
more than that of the restarts, is at most that of the PCBs. -/
theorem restarts_keep_inits (h : LongRun es s) : ∃ inits : List Addr,
    inits.Nodup ∧ inits.length = restarts es + 1 ∧ inits.length ≤ maxNumProcesses ∧
      s.initPcb = inits.head? ∧ (∀ p, p ∈ inits ↔ s.Alive p ∧ s.parent p = none) ∧
      ∀ p ∈ inits, s.running = some p → ∀ v s', ¬ s.Completes (.syscall (.exit v)) s' := by
  obtain ⟨a, hR, hI, inits, hinits⟩ := h.inits
  have hparentless : ∀ p, p ∈ inits ↔ s.Alive p ∧ s.parent p = none := by
    intro p
    rw [hinits.parentless, hR.alive_iff hI.proc, hR.data, Parentless]
  refine ⟨inits, hinits.nodup, hinits.length, ?_, ?_, hparentless, ?_⟩
  · have hblocks : ∀ x ∈ inits, IsBlock maxNumProcesses sizeofPCB x := fun x hx =>
      hI.proc.isBlock_iff.2 (Or.inl ((hinits.parentless x).1 hx).1.used)
    exact length_le_of_blocks hinits.nodup hblocks
  · rw [hR.data, hinits.last]
  · intro p hp hr v s' hstep
    obtain ⟨a', hsim⟩ := hR.simulated hI hstep
    obtain ⟨hr', hs⟩ := hsim.handler rfl hr
    cases hs with
    | exit hs => exact hs.parent_ne_none ((hinits.parentless p).1 hp).2

/-- Both processes sleep and the main context starts a second `init`. -/
theorem exists_restarted : ∃ es s, LongRun es s ∧ restarts es = 1 ∧ s.running = some 35088 ∧
    s.processes .waiting = [0, 17544] := by
  obtain ⟨es, s, hrun, hp⟩ := exists_of_executes
    [.syscall (.spawn 1 0), .syscall (.sleep 5), .syscall (.sleep 3)]
    (fun es s => es.length = 3 ∧ s.running = none ∧
      (s.resumeMain.toOption.map fun s' => (s'.running, s'.processes .waiting)) =
        some (some 35088, [0, 17544])) (by decide +kernel)
  obtain ⟨-, hidle, hresume⟩ := of_decide_eq_true hp
  cases hstep : s.resumeMain with
  | error f =>
      rw [hstep] at hresume
      cases hresume
  | ok s' =>
      rw [hstep] at hresume
      obtain ⟨hr, hwaiting⟩ := Prod.mk.inj (Option.some.inj hresume)
      obtain ⟨chars, ints, s₀, hstart, hlong⟩ := hrun.longRun
      have hmove : s.Moves .resume s' := ⟨hidle, hstep⟩
      refine ⟨_, s', ⟨chars, ints, s₀, hstart, hlong.step hmove⟩, ?_, hr, hwaiting⟩
      have hnone : restarts (es.map fun e => ⟨e.pre, .action e.act, e.post⟩) = 0 := by
        refine List.countP_eq_zero.2 fun e he => ?_
        obtain ⟨f, -, rfl⟩ := List.mem_map.1 he
        simp
      rw [restarts] at hnone
      rw [restarts, List.countP_append, hnone]
      rfl

/-- After one restart there are two such processes. -/
theorem restarts_keep_inits_two : ∃ (s : Kernel) (inits : List Addr),
    s.running = some 35088 ∧ inits.length = 2 ∧ s.initPcb = inits.head? := by
  obtain ⟨es, s, hrun, hcount, hr, -⟩ := exists_restarted
  obtain ⟨inits, -, hlength, -, hlast, -⟩ := restarts_keep_inits hrun
  exact ⟨s, inits, hr, by rw [hlength, hcount], hlast⟩

/-! ## The tables -/

/-- The lists of processes hold exactly the PCBs handed out, each once, and the timers stand for the
processes that sleep, one for each. -/
structure TablesKept (s : Kernel) : Prop where
  once : (s.running.toList ++ (s.processes .ready ++ (s.processes .waiting ++
    s.processes .zombie))).Nodup
  handedOut : ∀ x, s.pcbAllocator.handedOut x ↔ s.running = some x ∨ ∃ l, x ∈ s.processes l
  timers : (s.timers.map s.timerPcb).Nodup
  sleeping : ∀ p, p ∈ s.timers.map s.timerPcb ↔
    p ∈ s.processes .waiting ∧ s.syscallNum p = dsosCallSleep

/-- As long as no process function returns, no run, with or without restarts and however many
processes it creates, spoils the process table. A function that returned would do so: the main
context would replace `running`, and the old PCB would stay handed out in no list. -/
theorem restarts_keep_tables (h : LongRun es s) : TablesKept s := by
  obtain ⟨a, hR, hI, -⟩ := h.invariant (J := fun _ _ => True) (fun _ _ => trivial)
    fun _ _ _ _ _ _ => trivial
  have hprocs : ∀ l, s.processes l = a.procs l := hR.processes_eq hI.proc
  constructor
  · have hnd := hI.proc.nodup
    simp only [pcbBlocks, ← List.append_assoc] at hnd
    simp only [hprocs, hR.running_eq, ← List.append_assoc]
    exact (List.nodup_append.1 hnd).1
  · intro x
    rw [hR.handedOut_iff_used hI.proc, hR.running_eq]
    refine or_congr_right ⟨?_, ?_⟩
    · rintro (hx | hx | hx)
      · exact ⟨.ready, hprocs .ready ▸ hx⟩
      · exact ⟨.waiting, hprocs .waiting ▸ hx⟩
      · exact ⟨.zombie, hprocs .zombie ▸ hx⟩
    · rintro ⟨l, hx⟩
      rw [hprocs] at hx
      cases l with
      | ready => exact Or.inl hx
      | waiting => exact Or.inr (Or.inl hx)
      | zombie => exact Or.inr (Or.inr hx)
  · rw [hR.timers_eq hI.timer, hR.data]
    exact hI.timer.distinct
  · intro p
    rw [hR.timers_eq hI.timer, hprocs, hR.data]
    constructor
    · intro hp
      obtain ⟨t, ht, rfl⟩ := List.mem_map.1 hp
      exact hI.timer.sleeping t ht
    · rintro ⟨hwaits, hsleeps⟩
      obtain ⟨t, ht, rfl⟩ := hI.timer.timed p hwaits hsleeps
      exact List.mem_map.2 ⟨t, ht, rfl⟩

theorem restarts_keep_tables_two : ∃ s : Kernel, s.running = some 35088 ∧
    s.processes .waiting = [0, 17544] ∧ TablesKept s := by
  obtain ⟨es, s, hrun, -, hr, hwaiting⟩ := exists_restarted
  exact ⟨s, hr, hwaiting, restarts_keep_tables hrun⟩

end DisastrOS
