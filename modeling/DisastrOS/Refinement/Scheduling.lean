import DisastrOS.Abstract.ResourceTable
import DisastrOS.Refinement.Relation

/-!
# Scheduling refines the abstract transitions

`internalSchedule` and `internalSleep`, with the wake-up loop and the ordered insertion into the
list of timers.
-/

set_option autoImplicit false

namespace DisastrOS

open LinkedSequence LinkedSequence.ListHeap Model

variable {counted : ProcList → Prop} {c c' : Kernel} {a : Model} {r : Addr}

/-- The head of the list of timers, if it has elapsed. -/
theorem Refines.timerListCurrent_eq (hR : Refines counted c a) (time : Int) :
    c.timerListCurrent time = a.timerList.head?.filter fun t => a.awakeningTime t ≤ time := by
  have hdata := hR.data
  obtain ⟨d, sq, fb⟩ := a
  obtain rfl := hdata
  rw [Kernel.timerListCurrent, (hR.timerList.represents () trivial).first]
  cases sq.timerList with
  | nil => rfl
  | cons t ts => simp [Option.filter]

/-- The body of the wake-up loop, for the timer `elapsed`. -/
def Kernel.wakeOne (s : Kernel) (elapsed : Addr) (previous : Option Addr) :
    Except Fault Kernel := do
  let pcb := s.timerPcb elapsed
  let (procs, _) ← listDetach s.procs .waiting (some pcb)
  let s := { s with
    procs
    status := Function.update s.status pcb .ready
    timer := Function.update s.timer pcb none }
  let (procs, _) ← listInsert s.procs .ready previous (some pcb)
  { s with procs }.timerListRemoveCurrent

/-- The wake-up loop runs its body as long as the first timer has elapsed. -/
theorem wakeElapsed_succ (n : Nat) (s : Kernel) (previous : Option Addr) :
    Kernel.wakeElapsed (n + 1) s previous =
      match s.timerListCurrent s.time with
      | none => .ok s
      | some elapsed =>
          s.wakeOne elapsed previous >>= fun s' =>
            Kernel.wakeElapsed n s' (some (s.timerPcb elapsed)) := by
  cases hcur : s.timerListCurrent s.time with
  | none => simp only [Kernel.wakeElapsed, hcur]
  | some elapsed =>
      simp only [Kernel.wakeElapsed, Kernel.wakeOne, hcur, listDetach_eq, ok_bind]
      cases listInsert (s.procs.unlink .waiting (s.timerPcb elapsed)) .ready previous
        (some (s.timerPcb elapsed)) <;> rfl

/-- One iteration of the wake-up loop, with the processes `woken` at the front of the ready list. -/
theorem Refines.wakeOne {t : Addr} {ts woken rest : List Addr} (hR : Refines counted c a)
    (hT : a.TimerInv) (ht : a.timerList = t :: ts) (hready : a.procs .ready = woken ++ rest) :
    ∃ c', c.wakeOne t woken.getLast? = .ok c' ∧ Refines counted c' (a.wake woken t ts rest) := by
  have hdata := hR.data
  have hmem : t ∈ a.timerList := by rw [ht]; exact List.mem_cons_self
  have hx := (hT.sleeping t hmem).1
  have hused := hT.used hmem
  have hdetach := hR.procs.unlink (i := .waiting) trivial hx
  have hout := hR.procs.toFamily.unlisted_erase (i := .waiting) trivial hx
  have hsplit : Function.update a.procs .waiting
      ((a.procs .waiting).erase (a.timerPcb t)) .ready = woken ++ rest := by
    simpa using hready
  have hinsert := listInsert_after hdetach.toFamily (i := .ready) trivial hsplit hout
    (unlink_unlinked ..)
  have hfirst : c.timerList.first () = some t := by
    rw [(hR.timerList.represents () trivial).first, ht]
    rfl
  obtain ⟨pool, hrelease, hpool⟩ := hR.timers.releaseBlock_used hused.1 hused.2
  have htimers := hR.timerList.unlink (i := ()) trivial hmem
  rw [update_single, ht, List.erase_cons_head] at htimers
  have hptr : c.timerPcb = a.timerPcb := by rw [hdata]
  simp only [Kernel.wakeOne, listDetach_eq, ok_bind, hptr, hinsert,
    Kernel.timerListRemoveCurrent, hfirst, Kernel.timerItemFree, hrelease, pure_eq_ok]
  refine ⟨_, rfl, ?_⟩
  obtain ⟨d, sq, fb⟩ := a
  obtain rfl := hdata
  exact { hR with
    data := rfl
    procs := hdetach.splice (i := .ready) trivial hsplit hout
    tidy := (hR.tidy.unlink hR.procs.toFamily trivial hx).splice trivial hsplit
    timerList := htimers
    timers := hpool }

/-- The wake-up loop ends, with the processes `woken` so far at the front of the ready list. -/
theorem Refines.wakeElapsed {n : Nat} (woken : List Addr) {rest : List Addr}
    (hR : Refines counted c a) (hP : a.ProcInv) (hT : a.TimerInv)
    (hready : a.procs .ready = woken ++ rest) (hn : a.timerList.length < n) :
    ∃ c' a', Kernel.wakeElapsed n c woken.getLast? = .ok c' ∧ Wakes woken a a' ∧
      Refines counted c' a' := by
  induction n generalizing c a woken with
  | zero => omega
  | succ n ih =>
      have hcur := hR.timerListCurrent_eq c.time
      have htime : c.time = a.time := by rw [hR.data]
      rw [htime] at hcur
      rw [wakeElapsed_succ, htime, hcur]
      cases ht : a.timerList with
      | nil => exact ⟨c, a, rfl, .stop (by simp [ht]), hR⟩
      | cons t ts =>
          rw [List.head?_cons]
          by_cases hle : a.awakeningTime t ≤ a.time
          · have hx := (hT.sleeping t (by rw [ht]; exact List.mem_cons_self)).1
            obtain ⟨c₁, hone, hR₁⟩ := hR.wakeOne hT ht hready
            have hprevious : some (c.timerPcb t) = (woken ++ [a.timerPcb t]).getLast? := by
              simp [hR.data]
            obtain ⟨c', a', hloop, hw, hR'⟩ := ih (woken ++ [a.timerPcb t]) hR₁
              (hP.wake hx hready) (hT.wake hP ht) (by simp)
              (by rw [ht, List.length_cons] at hn; simpa [Model.wake] using hn)
            refine ⟨c', a', ?_, .wake ht hle hready hw, hR'⟩
            simp only [Option.filter_some, hle, decide_true, if_true, hone, ok_bind, hprevious]
            exact hloop
          · simp only [Option.filter_some, hle, decide_false, Bool.false_eq_true, if_false]
            refine ⟨c, a, rfl, .stop fun u hu => ?_, hR⟩
            rw [ht, List.head?_cons, Option.mem_some_iff] at hu
            subst hu
            omega

theorem Refines.timerList_short (hR : Refines counted c a) (hT : a.TimerInv) :
    a.timerList.length < loopBound := by
  have hlen := length_le_of_blocks (hR.timerList.toFamily.nodup (i := ()) trivial)
    fun t ht => (hT.used ht).1
  simp only [maxNumProcesses] at hlen
  simp only [loopBound]
  omega

/-- The scheduler completes. -/
theorem Refines.internalSchedule (hR : Refines counted c a) (hP : a.ProcInv) (hT : a.TimerInv)
    (hr : a.running = some r) :
    ∃ c' a', c.internalSchedule = .ok c' ∧ ScheduleStep a a' ∧ Refines counted c' a' := by
  obtain ⟨c₁, a₁, hloop, hw, hR₁⟩ := hR.wakeElapsed [] hP hT rfl (hR.timerList_short hT)
  have hr₁ : a₁.running = some r := by
    obtain ⟨_, _, _, _, _, rfl⟩ := hw.eq
    exact hr
  obtain ⟨hP₁, -⟩ := hw.inv hP hT
  have hfirst := (hR₁.procs.represents .ready trivial).first
  rw [List.getLast?_nil] at hloop
  simp only [Kernel.internalSchedule, hloop, ok_bind]
  cases hready : a₁.procs .ready with
  | nil =>
      rw [hready] at hfirst
      simp only [hfirst, List.head?_nil]
      exact ⟨c₁, a₁, rfl, .idle hw hready, hR₁⟩
  | cons next rest =>
      rw [hready] at hfirst
      have hdata := hR₁.data
      have hrun : c₁.running = some r := by rw [hdata, hr₁]
      -- the head leaves the ready list, the running process goes to its tail
      have hdetach := hR₁.procs.unlink_head (i := .ready) trivial hready
      have htidy := hR₁.tidy.unlink_head hR₁.procs.toFamily (i := .ready) trivial hready
      have hout : Unlisted (fun _ => True) (Function.update a₁.procs .ready rest) r := by
        apply Unlisted.congr (fun l _ => (hP₁.running_fresh hr₁).1 l)
        intro l _ y hy
        rw [Function.update_apply] at hy
        split at hy
        · rename_i heq
          rw [heq, hready]
          exact List.mem_cons_of_mem next hy
        · exact hy
      have hinsert := listInsert_last hdetach.toFamily (i := .ready) trivial hout
        (htidy r hout)
      have happend := hdetach.append (i := .ready) trivial hout
      have htidy' := htidy.append (i := .ready) (x := r) trivial
      simp only [Function.update_self, Function.update_idem] at happend htidy'
      simp only [hfirst, List.head?_cons, listDetach_eq, ok_bind, hrun, deref_some, hinsert]
      refine ⟨_, a₁.rotate r next rest, rfl, .switch hw hr₁ hready, ?_⟩
      obtain ⟨d, sq, fb⟩ := a₁
      obtain rfl := hdata
      exact { hR₁ with data := rfl, procs := happend, tidy := htidy' }

theorem refine_internalSchedule (hR : Refines counted c a) (hP : a.ProcInv) (hT : a.TimerInv)
    (hr : a.running = some r) (h : c.internalSchedule = .ok c') :
    ∃ a', ScheduleStep a a' ∧ Refines counted c' a' := by
  obtain ⟨c₁, a', heq, hs⟩ := hR.internalSchedule hP hT hr
  obtain rfl : c₁ = c' := Except.ok.inj (heq.symm.trans h)
  exact ⟨a', hs⟩

/-! ## Sleeping -/

/-- The scan for the place of a new timer stops behind the timers that elapse no later. -/
theorem timerListPrevious_eq {c : Kernel} (time : Int) (previous : Option Addr) {p : Option Addr}
    {xs : List Addr} (hs : c.timerList.Segment p xs none) {n : Nat} (hn : xs.length < n) :
    c.timerListPrevious time n previous xs.head? =
      .ok ((xs.takeWhile fun u => c.awakeningTime u ≤ time).getLast?.or previous) := by
  induction xs generalizing p previous n with
  | nil =>
      obtain ⟨m, rfl⟩ := Nat.exists_eq_add_one_of_ne_zero (Nat.ne_zero_of_lt hn)
      rfl
  | cons x xs ih =>
      obtain ⟨m, rfl⟩ := Nat.exists_eq_add_one_of_ne_zero (Nat.ne_zero_of_lt hn)
      obtain ⟨-, hnext, hrest⟩ := hs
      rw [Option.or_none] at hnext
      rw [List.head?_cons, Kernel.timerListPrevious, hnext, ih _ hrest (by simpa using hn)]
      by_cases hlt : time < c.awakeningTime x
      · rw [if_pos hlt, List.takeWhile_cons_of_neg (by simpa using hlt)]
        rfl
      · rw [if_neg hlt, List.takeWhile_cons_of_pos (by simpa using hlt), List.getLast?_cons]
        cases (xs.takeWhile fun u => c.awakeningTime u ≤ time).getLast? <;> rfl

/-- A free timer is in no list. -/
theorem Model.TimerInv.free_fresh {t : Addr} (hT : a.TimerInv) (ht : t ∈ a.freeTimers) :
    t ∉ a.timerList := fun hmem => (hT.used hmem).2 ht

/-- The running process `r` is appended to a list of processes. -/
theorem Refines.insert_running (hR : Refines counted c a) (hP : a.ProcInv)
    (hr : a.running = some r) (l : ProcList) :
    ∃ procs, listInsert c.procs l (c.procs.last l) (some r) = .ok (procs, some r) ∧
      procs.WellFormed (fun _ => True) counted (Function.update a.procs l (a.procs l ++ [r])) ∧
      procs.Tidy (fun _ => True) (Function.update a.procs l (a.procs l ++ [r])) := by
  have hout : Unlisted (fun _ => True) a.procs r := fun l _ => (hP.running_fresh hr).1 l
  exact ⟨_, listInsert_last hR.procs.toFamily trivial hout (hR.tidy r hout),
    hR.procs.append trivial hout, hR.tidy.append trivial⟩

/-- `sleep` of the running process `r` completes. -/
theorem Refines.internalSleep (hR : Refines counted c a) (hP : a.ProcInv) (hT : a.TimerInv)
    (hr : a.running = some r) :
    ∃ c' a', c.internalSleep = .ok c' ∧ SleepStep a r a' ∧ Refines counted c' a' := by
  have hdata := hR.data
  have hrun : c.running = some r := by rw [hdata, hr]
  obtain ⟨d, sq, fb⟩ := a
  obtain rfl := hdata
  simp only [Kernel.internalSleep, hrun, deref_some, ok_bind]
  by_cases htimer : (c.timer r).isSome
  · simp only [htimer, if_true]
    exact ⟨_, _, rfl, .refused (Or.inl htimer), { hR with data := rfl }⟩
  · have hscan := timerListPrevious_eq (wrapInt (c.time + wrapInt (c.syscallArgs r 0))) none
      (hR.timerList.represents () trivial).chain (hR.timerList_short hT)
    rw [← (hR.timerList.represents () trivial).first] at hscan
    simp only [htimer, Kernel.timerListAdd, hscan, Option.or_none, ok_bind,
      Kernel.timerItemAlloc]
    rcases hR.timers.getBlock_cases with ⟨hnil, hblock⟩ | ⟨t, ts, pool, hfree, hblock, hpool⟩
    · simp only [hblock, pure_eq_ok, Bool.false_eq_true, if_false, ok_bind, Option.isNone_none,
        if_true]
      exact ⟨_, _, rfl, .refused (Or.inr hnil), { hR with data := rfl }⟩
    · have hout : Unlisted (fun _ : Unit => True) (fun _ => sq.timerList) t :=
        unlisted_single (hT.free_fresh (hfree ▸ List.mem_cons_self))
      have hclear := hR.timerList.clearItem hout
      -- the new timer goes behind those that expire no later
      have hsplit : sq.timerList =
          sq.timerList.takeWhile (fun u =>
            c.awakeningTime u ≤ wrapInt (c.time + wrapInt (c.syscallArgs r 0))) ++
          sq.timerList.dropWhile (fun u =>
            c.awakeningTime u ≤ wrapInt (c.time + wrapInt (c.syscallArgs r 0))) :=
        List.takeWhile_append_dropWhile.symm
      have hinsert := listInsert_after hclear.toFamily (i := ()) trivial hsplit hout
        (clearItem_unlinked ..)
      have hsplice := hclear.splice (i := ()) trivial hsplit hout
      rw [update_single] at hsplice
      obtain ⟨procs, hwait, hprocs, htidy⟩ := hR.insert_running hP hr .waiting
      have hfirst := (hprocs.represents .ready trivial).first
      rw [Function.update_of_ne (by decide)] at hfirst
      simp only [hblock, hinsert, ok_bind, pure_eq_ok, Bool.false_eq_true, if_false,
        Option.isNone_some, hwait]
      cases hready : sq.procs .ready with
      | nil =>
          rw [hready] at hfirst
          simp only [hfirst, List.head?_nil]
          exact ⟨_, _, rfl, .idle rfl hfree hsplit rfl hready, { hR with
            data := rfl
            procs := hprocs
            tidy := htidy
            timerList := hsplice
            timers := hpool }⟩
      | cons next rest =>
          rw [hready] at hfirst
          simp only [hfirst, List.head?_cons, listDetach_eq, ok_bind]
          have hsplit' : Function.update sq.procs .waiting (sq.procs .waiting ++ [r])
              .ready = next :: rest := by
            rw [Function.update_of_ne (by decide), hready]
          have hdetach := hprocs.unlink_head (i := .ready) trivial hsplit'
          have htidy' := htidy.unlink_head hprocs.toFamily (i := .ready) trivial hsplit'
          exact ⟨_, _, rfl, .switch rfl hfree hsplit rfl hready, { hR with
            data := rfl
            procs := hdetach
            tidy := htidy'
            timerList := hsplice
            timers := hpool }⟩

theorem refine_internalSleep (hR : Refines counted c a) (hP : a.ProcInv) (hT : a.TimerInv)
    (hr : a.running = some r) (h : c.internalSleep = .ok c') :
    ∃ a', SleepStep a r a' ∧ Refines counted c' a' := by
  obtain ⟨c₁, a', heq, hs⟩ := hR.internalSleep hP hT hr
  obtain rfl : c₁ = c' := Except.ok.inj (heq.symm.trans h)
  exact ⟨a', hs⟩

end DisastrOS
