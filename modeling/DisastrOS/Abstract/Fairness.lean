import DisastrOS.Abstract.Sleeping

/-!
# The wait for the processor

A ready process waits for those in front of it in the ready list and for the sleepers, which the
wake-up loop puts at the front of that list. No transition adds to their number: a sleeper that
wakes moves from the second group into the first, and a process that goes to sleep while another is
ready has just given the processor to the head of the list. A pass of the scheduler takes one away.
-/

set_option autoImplicit false

namespace DisastrOS

namespace Model

variable {clean : Addr → Prop} {a a' : Model} {r x : Addr} {c : Syscall} {act : Action}
  {woken rest : List Addr} {w : Int} {before : Addr → Addr → Prop}

/-- The action is a call of the scheduler: a tick of the timer or a `preempt`. -/
def schedules : Action → Bool
  | .tick => true
  | .syscall .preempt => true
  | _ => false

/-- The processes that may run before the ready process `x`. -/
def ahead (a : Model) (x : Addr) : Nat := (a.procs .ready).idxOf x + a.timerList.length

/-- The process `x` runs, or it is ready with `n` processes fewer in front of it. -/
def Advances (a : Model) (x : Addr) (n : Nat) (a' : Model) : Prop :=
  a'.running = some x ∨ (x ∈ a'.procs .ready ∧ a'.ahead x + n ≤ a.ahead x)

/-- The rest of the ready list is all that counts for the processes in it. -/
theorem Advances.of_eq (hx : x ∈ a.procs .ready) (hready : a'.procs .ready = a.procs .ready)
    (htimers : a'.timerList = a.timerList) : Advances a x 0 a' := by
  refine Or.inr ⟨hready ▸ hx, ?_⟩
  rw [ahead, ahead, hready, htimers]
  omega

/-- Processes at the tail of the ready list do not count. -/
theorem idxOf_append_left {xs ys : List Addr} (hx : x ∈ xs) :
    (xs ++ ys).idxOf x = xs.idxOf x := by
  rw [List.idxOf_append, if_pos hx]

/-- The head of the ready list gets the processor. -/
theorem Advances.of_head {next : Addr} {n : Nat} {ys : List Addr} (hx : x ∈ a.procs .ready)
    (hready : a.procs .ready = next :: rest) (hrun : a'.running = some next)
    (hready' : a'.procs .ready = rest ++ ys) (htimers : a'.timerList.length + n ≤
      a.timerList.length + 1) : Advances a x n a' := by
  rw [hready, List.mem_cons] at hx
  rcases hx with rfl | hx
  · exact Or.inl hrun
  · by_cases hne : next = x
    · exact Or.inl (hne ▸ hrun)
    · refine Or.inr ⟨?_, ?_⟩
      · rw [hready']
        exact List.mem_append_left ys hx
      · rw [ahead, ahead, hready', idxOf_append_left hx, hready, List.idxOf_cons_ne rest hne]
        omega

/-! ## One pass of the scheduler -/

/-- The wake-up loop turns sleepers into processes in front of the others. -/
theorem Wakes.ready_eq (h : Wakes woken a a') (hready : a.procs .ready = woken ++ rest) :
    ∃ more, a'.procs .ready = woken ++ (more ++ rest) ∧
      more.length + a'.timerList.length = a.timerList.length ∧ a'.running = a.running := by
  induction h generalizing rest with
  | stop _ => exact ⟨[], hready, by simp, rfl⟩
  | @wake woken a a' t ts rest' ht _ hready' _ ih =>
      obtain rfl : rest' = rest := List.append_cancel_left (hready'.symm.trans hready)
      obtain ⟨more, hmore, hlen, hrun⟩ := ih
        (show _ = (woken ++ [a.timerPcb t]) ++ rest' by simp)
      refine ⟨a.timerPcb t :: more, ?_, ?_, hrun⟩
      · rw [hmore]
        simp
      · rw [show (a.wake woken t ts rest').timerList = ts from rfl] at hlen
        rw [ht, List.length_cons, List.length_cons]
        omega

/-- After a pass of the scheduler there is one process fewer in front of `x`, or `x` runs. -/
theorem ScheduleStep.advances (h : ScheduleStep a a') (hx : x ∈ a.procs .ready) :
    Advances a x 1 a' := by
  cases h with
  | idle hw hnil =>
      obtain ⟨more, hready, -, -⟩ := hw.ready_eq (List.nil_append _).symm
      rw [List.nil_append, hnil, eq_comm, List.append_eq_nil_iff] at hready
      rw [hready.2] at hx
      cases hx
  | @switch a₁ r next rest hw hr hcons =>
      obtain ⟨more, hready, hlen, -⟩ := hw.ready_eq (List.nil_append _).symm
      rw [List.nil_append] at hready
      have hx₁ : x ∈ a₁.procs .ready := by
        rw [hready]
        exact List.mem_append_right more hx
      have hhead : Advances a₁ x 1 (a₁.rotate r next rest) :=
        .of_head hx₁ hcons rfl rfl (Nat.le_refl _)
      rcases hhead with hrun | ⟨hmem, hle⟩
      · exact Or.inl hrun
      · refine Or.inr ⟨hmem, ?_⟩
        -- the sleepers that woke are counted either way
        have hidx : (a₁.procs .ready).idxOf x ≤ more.length + (a.procs .ready).idxOf x := by
          rw [hready, List.idxOf_append]
          split
          · have := List.idxOf_lt_length_iff.2 ‹x ∈ more›
            omega
          · omega
        rw [ahead] at hle ⊢
        rw [ahead] at hle
        rw [ahead]
        omega

/-! ## Every transition -/

/-- A handler puts nobody in front of a ready process, and `preempt` takes one away. -/
theorem HandlerStep.advances (h : HandlerStep clean a r c a')
    (hx : x ∈ a.procs .ready) : Advances a x (schedules (.syscall c)).toNat a' := by
  cases hp : c.onProcesses with
  | false =>
      have hsame := h.sameProcesses hp
      rw [show schedules (.syscall c) = false by cases c <;> first | rfl | cases hp]
      exact .of_eq hx (congrFun hsame.procs .ready) hsame.timerList
  | true =>
      cases h with
      | preempt h => exact h.advances hx
      | fork h | spawn h =>
          cases h with
          | created _ _ =>
              refine Or.inr ⟨List.mem_append_left _ hx, ?_⟩
              show ((a.procs .ready ++ _).idxOf x + a.timerList.length) + 0 ≤ _
              rw [idxOf_append_left hx]
              exact Nat.le_refl _
      | wait h =>
          cases h with
          | noChildren _ => exact .of_eq hx rfl rfl
          | reap _ _ =>
              rw [reap_eq]
              exact .of_eq hx rfl rfl
          | @block e next rest _ _ hready =>
              exact .of_head hx hready rfl (List.append_nil rest).symm (Nat.le_succ _)
      | exit h =>
          cases h with
          | @wakeParent init parent e _ _ _ _ _ =>
              obtain ⟨_, _, _, _, heq⟩ := handOver_eq (a.leave r init parent) r parent e
              rw [heq]
              exact .of_eq hx rfl rfl
          | @retire init parent next rest _ _ _ _ hready =>
              exact .of_head hx hready rfl (List.append_nil rest).symm (Nat.le_succ _)
      | sleep h =>
          cases h with
          | refused _ => exact .of_eq hx rfl rfl
          | @switch t next ts as bs rest wakeTime _ _ hsplit _ hready =>
              refine .of_head hx hready rfl (List.append_nil rest).symm ?_
              -- the timer that `r` takes makes up for the process that runs now
              show (as ++ t :: bs).length + 0 ≤ _
              rw [hsplit, List.length_append, List.length_append, List.length_cons]
              omega
          | idle _ _ _ _ hnil =>
              rw [hnil] at hx
              cases hx
      | shutdown => exact .of_eq hx rfl rfl
      | _ => cases hp

/-- A transition puts nobody in front of a ready process, and a call of the scheduler takes one
away. -/
theorem Step.advances (h : Step clean a act a') (hx : x ∈ a.procs .ready) :
    Advances a x (schedules act).toNat a' := by
  cases h with
  | tick _ h => exact h.advances hx
  | syscall _ h => exact h.advances hx
  | store _ => exact .of_eq hx rfl rfl

/-- There are at most as many timers in use as waiting processes. -/
theorem TimerInv.length_le (hT : a.TimerInv) :
    a.timerList.length ≤ (a.procs .waiting).length := by
  have hsub : a.timerList.map a.timerPcb ⊆ a.procs .waiting := by
    intro y hy
    obtain ⟨t, ht, rfl⟩ := List.mem_map.1 hy
    exact (hT.sleeping t ht).1
  have hle := (List.subperm_of_subset hT.distinct hsub).length_le
  rwa [List.length_map] at hle

/-- The ready processes and the sleepers are different PCBs. -/
theorem Inv.ahead_lt (hI : a.Inv) (hx : x ∈ a.procs .ready) : a.ahead x < maxNumProcesses := by
  have hlen := hI.proc.partition.length_eq
  simp only [pcbBlocks, List.length_append, allBlocks_length] at hlen
  have hsleepers := hI.timer.length_le
  have hidx := List.idxOf_lt_length_iff.2 hx
  rw [ahead]
  omega

/-! ## Sleepers -/

/-- The action is a tick of the timer. -/
def ticks : Action → Bool
  | .tick => true
  | _ => false

/-- Until the clock reaches `w` only ticks move it, and the tick that reaches `w` wakes the process
that sleeps until then. -/
theorem Step.sleeper_cases (h : Step clean a act a') (hI : a.Inv) (hI' : a'.Inv)
    (hO : StableQueue.InOrder a.awakeningTime before a.timerList) (hC : a.ClockInv)
    (hx : a.SleepsUntil x w) (hw : w < 2 ^ 31) (hlt : a.time < w) :
    (a'.SleepsUntil x w ∧ a'.time < w ∧ a'.time = a.time + (ticks act).toNat) ∨
      (a.time + (ticks act).toNat = w ∧ (x ∈ a'.procs .ready ∨ a'.running = some x)) := by
  have hclock : a'.time = a.time + (ticks act).toNat := by
    cases h with
    | tick _ hs =>
        obtain ⟨_, _, _, _, _, _, rfl⟩ := hs.eq
        exact wrapInt_of_bounds (by have := hC.1; omega) (by omega)
    | syscall _ hs => rw [hs.time_eq]; exact (Int.add_zero _).symm
    | store _ => exact (Int.add_zero _).symm
  by_cases hlate : a'.time < w
  · exact Or.inl ⟨h.sleepsUntil hI hI' hx hlate, hlate, hclock⟩
  · -- only a tick moves the clock
    right
    cases h with
    | tick _ hs =>
        simp only [ticks, Bool.toNat_true] at hclock ⊢
        refine ⟨by omega, hs.wakes { hI.proc with } { hI.timer with } hO ?_⟩
        obtain ⟨t, ht, htx, htw⟩ := hx.timer
        refine List.mem_map.2 ⟨t, List.mem_filter.2 ⟨ht, decide_eq_true ?_⟩, htx⟩
        show a.awakeningTime t ≤ wrapInt (a.time + 1)
        rw [wrapInt_of_bounds (by have := hC.1; omega) (by omega), htw]
        omega
    | syscall _ hs => exact absurd (hs.time_eq ▸ hlt) hlate
    | store _ => exact absurd hlt hlate

end Model

end DisastrOS
