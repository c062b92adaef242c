import DisastrOS.Abstract.Invariants
import DisastrOS.Library.ChildLists

/-!
# The process table along the transitions

The invariants of the process lists and of the timers are kept by every transition that moves a
process: waking, rotating, sleeping, creating, waiting and leaving.
-/

set_option autoImplicit false

namespace DisastrOS

namespace Model

variable {a a' : Model} {r x t next : Addr} {ts rest woken : List Addr}

/-- Erasing a member takes one occurrence of it away and none of the others. -/
theorem count_erase_add {l : List Addr} (hx : x ∈ l) (y : Addr) :
    (l.erase x).count y + (if x = y then 1 else 0) = l.count y := by
  have hperm := (List.perm_cons_erase hx).count_eq y
  rw [List.count_cons] at hperm
  simpa using hperm.symm

/-- The members of two different lists are different, and so on: how often a block occurs in each
place. -/
theorem ProcInv.count_le (h : a.ProcInv) (y : Addr) :
    a.running.toList.count y + ((a.procs .ready).count y + ((a.procs .waiting).count y +
      ((a.procs .zombie).count y + a.freePcbs.count y))) ≤ 1 := by
  have hle := List.nodup_iff_count_le_one.1 h.nodup y
  simpa only [pcbBlocks, List.count_append] using hle

/-- A state with the same blocks in other places keeps the partition. -/
theorem ProcInv.partition_of_count (h : a.ProcInv)
    (hcount : ∀ y, a'.pcbBlocks.count y = a.pcbBlocks.count y) :
    a'.pcbBlocks.Perm (allBlocks maxNumProcesses sizeofPCB) :=
  (List.perm_iff_count.2 hcount).trans h.partition

/-- No process is twice in the same list. -/
theorem ProcInv.procs_nodup (h : a.ProcInv) (l : ProcList) : (a.procs l).Nodup := by
  apply List.nodup_iff_count_le_one.2
  intro y
  have := h.count_le y
  cases l <;> omega

theorem ProcInv.mem_erase (h : a.ProcInv) {l : ProcList} {y : Addr} :
    y ∈ (a.procs l).erase x ↔ y ≠ x ∧ y ∈ a.procs l :=
  (h.procs_nodup l).mem_erase_iff

/-! ## Scheduling -/

section Procs

variable (a : Model) (woken : List Addr) (t : Addr) (ts rest : List Addr)

@[simp] theorem wake_ready : (a.wake woken t ts rest).procs .ready =
    woken ++ a.timerPcb t :: rest := rfl

@[simp] theorem wake_waiting : (a.wake woken t ts rest).procs .waiting =
    (a.procs .waiting).erase (a.timerPcb t) := rfl

@[simp] theorem wake_zombie : (a.wake woken t ts rest).procs .zombie = a.procs .zombie := rfl

end Procs

/-- A process that is woken goes from the waiting to the ready list. -/
theorem ProcInv.wake (hP : a.ProcInv) (hx : a.timerPcb t ∈ a.procs .waiting)
    (hready : a.procs .ready = woken ++ rest) : (a.wake woken t ts rest).ProcInv where
  partition := by
    apply hP.partition_of_count
    intro y
    have herase := count_erase_add hx y
    simp only [pcbBlocks, Model.wake, hready, List.count_append, List.count_cons,
      Function.update, reduceCtorEq, dite_true, dite_false, beq_iff_eq]
    omega
  ready := by
    intro y hy
    have hold := hP.ready y
    rw [hready] at hold
    simp only [wake_ready, List.mem_append, List.mem_cons] at hy hold
    simp only [Model.wake, Function.update_apply]
    grind
  waiting := by
    intro y
    have hold := hP.waiting y
    rw [wake_waiting, hP.mem_erase, ← hold]
    simp only [Model.wake, Function.update_apply]
    grind
  zombie := by
    intro y hy
    have hold := hP.zombie y hy
    have hw := (hP.waiting _).2 hx
    simp only [Model.wake, Function.update_apply]
    grind
  running := by
    intro r hr
    have hold := hP.running r hr
    have hw := (hP.waiting _).2 hx
    simp only [Model.wake, Function.update_apply]
    grind
  blocked := by
    intro y hy
    rw [wake_waiting, hP.mem_erase] at hy
    exact hP.blocked y hy.2
  init := by
    obtain ⟨i, hi, hp, hal⟩ := hP.init
    refine ⟨i, hi, hp, ?_⟩
    simp only [Alive, hready, wake_ready, wake_waiting, hP.mem_erase, List.mem_append,
      List.mem_cons] at hal ⊢
    grind [Model.wake]

/-- A timer in the list has a block that is not free. -/
theorem TimerInv.used (hT : a.TimerInv) (ht : t ∈ a.timerList) :
    IsBlock maxNumProcesses sizeofTimerItem t ∧ t ∉ a.freeTimers := by
  have hnd := hT.partition.nodup_iff.2 (allBlocks_nodup (by decide))
  refine ⟨?_, fun hfree => (List.nodup_append.1 hnd).2.2 t ht t hfree rfl⟩
  rw [← mem_allBlocks, ← hT.partition.mem_iff]
  exact List.mem_append_left _ ht

/-- The timer of a process that is woken becomes free. -/
theorem TimerInv.wake (hT : a.TimerInv) (hP : a.ProcInv) (ht : a.timerList = t :: ts) :
    (a.wake woken t ts rest).TimerInv where
  partition := by
    have hold := hT.partition
    rw [ht] at hold
    exact List.perm_middle.trans hold
  sleeping := by
    intro u hu
    have hdis := hT.distinct
    rw [ht, List.map_cons, List.nodup_cons] at hdis
    have hold := hT.sleeping u (by rw [ht]; exact List.mem_cons_of_mem t hu)
    rw [wake_waiting, hP.mem_erase]
    exact ⟨⟨fun heq => hdis.1 (List.mem_map.2 ⟨u, hu, heq⟩), hold.1⟩, hold.2⟩
  distinct := by
    have hdis := hT.distinct
    rw [ht, List.map_cons, List.nodup_cons] at hdis
    exact hdis.2
  timed := by
    intro x hx hsleep
    rw [wake_waiting, hP.mem_erase] at hx
    obtain ⟨u, hu, rfl⟩ := hT.timed x hx.2 hsleep
    rw [ht, List.mem_cons] at hu
    rcases hu with rfl | hu
    · exact absurd rfl hx.1
    · exact ⟨u, hu, rfl⟩

/-- What `Wakes` leaves alone, and the invariants it keeps. -/
theorem Wakes.inv (h : Wakes woken a a') (hP : a.ProcInv) (hT : a.TimerInv) :
    a'.ProcInv ∧ a'.TimerInv := by
  induction h with
  | stop _ => exact ⟨hP, hT⟩
  | wake ht _ hready _ ih =>
      have hx := (hT.sleeping _ (by rw [ht]; exact List.mem_cons_self)).1
      exact ih (hP.wake hx hready) (hT.wake hP ht)

/-- The running process is exchanged for the head of the ready list. -/
theorem ProcInv.rotate (hP : a.ProcInv) (hr : a.running = some r)
    (hready : a.procs .ready = next :: rest) : (a.rotate r next rest).ProcInv where
  partition := by
    apply hP.partition_of_count
    intro y
    simp only [pcbBlocks, Model.rotate, hr, hready, List.count_append, List.count_cons,
      List.count_nil, Option.toList_some, Function.update, reduceCtorEq, dite_true, dite_false]
    omega
  ready := by
    intro y hy
    have hold := hP.ready y
    have hnd := hP.procs_nodup .ready
    rw [hready] at hold hnd
    have hrest : y ∈ rest ++ [r] := hy
    have hrn : r ≠ next := fun heq => (hP.running_fresh hr).1 .ready (by simp [hready, heq])
    simp only [Model.rotate, Function.update_apply]
    grind
  waiting := by
    intro y
    have hold := hP.waiting y
    have hrw := hP.waiting r
    have hnw := hP.waiting next
    have hn := hP.ready next (by simp [hready])
    have hrun := hP.running r hr
    show _ ↔ y ∈ a.procs .waiting
    simp only [Model.rotate, Function.update_apply]
    grind
  zombie := by
    intro y hy
    have hold := hP.zombie y hy
    have hn := hP.ready next (by simp [hready])
    have hrun := hP.running r hr
    simp only [Model.rotate, Function.update_apply]
    grind
  running := by
    intro y hy
    obtain rfl : next = y := Option.some.inj hy
    exact Or.inl (Function.update_self ..)
  blocked := hP.blocked
  init := by
    obtain ⟨i, hi, hp, hal⟩ := hP.init
    refine ⟨i, hi, hp, ?_⟩
    simp only [Alive, hr, hready, Model.rotate, Function.update, reduceCtorEq, dite_true,
      dite_false, List.mem_append, List.mem_cons] at hal ⊢
    grind

/-- The scheduler keeps the invariants: it wakes processes and exchanges two of them. -/
theorem ScheduleStep.inv (h : ScheduleStep a a') (hP : a.ProcInv) (hT : a.TimerInv) :
    a'.ProcInv ∧ a'.TimerInv := by
  cases h with
  | idle hw _ => exact hw.inv hP hT
  | switch hw hr hready =>
      obtain ⟨hP, hT⟩ := hw.inv hP hT
      exact ⟨hP.rotate hr hready, { hT with }⟩

/-! ## Blocking -/

/-- The running process goes to the waiting list, the head of the ready list runs. -/
theorem ProcInv.block (hP : a.ProcInv) (hr : a.running = some r)
    (hnum : a.syscallNum r = dsosCallWait ∨ a.syscallNum r = dsosCallSleep)
    (hready : a.procs .ready = next :: rest) : (a.block r next rest).ProcInv where
  partition := by
    apply hP.partition_of_count
    intro y
    simp only [pcbBlocks, Model.block, hr, hready, List.count_append, List.count_cons,
      List.count_nil, Option.toList_some, Function.update, reduceCtorEq, dite_true, dite_false]
    omega
  ready := by
    intro y hy
    have hold := hP.ready y
    have hnr := (hP.running_fresh hr).1 .ready
    have hrest : y ∈ rest := hy
    rw [hready] at hold hnr
    simp only [Model.block, Function.update_apply]
    grind
  waiting := by
    intro y
    have hold := hP.waiting y
    show _ ↔ y ∈ a.procs .waiting ++ [r]
    simp only [Model.block, Function.update_apply]
    grind
  zombie := by
    intro y hy
    have hold := hP.zombie y hy
    have hnr := (hP.running_fresh hr).1 .zombie
    have hyz : y ∈ a.procs .zombie := hy
    simp only [Model.block, Function.update_apply]
    grind
  running := by
    intro y hy
    obtain rfl : next = y := Option.some.inj hy
    have hold := hP.ready next (by simp [hready])
    have hnr := (hP.running_fresh hr).1 .ready
    rw [hready] at hnr
    simp only [Model.block, Function.update_apply]
    grind
  blocked := by
    intro y hy
    -- the process that goes to the waiting list has called `wait` or `sleep`
    have hwait : y ∈ a.procs .waiting ++ [r] := hy
    rcases List.mem_append.1 hwait with hy | hy
    · exact hP.blocked y hy
    · rw [List.mem_singleton.1 hy]
      exact hnum
  init := by
    obtain ⟨i, hi, hp, hal⟩ := hP.init
    refine ⟨i, hi, hp, ?_⟩
    simp only [Alive, hr, hready, Model.block, Function.update, reduceCtorEq, dite_true,
      dite_false, List.mem_append, List.mem_cons] at hal ⊢
    grind

/-- A process that blocks in `wait` needs no timer. -/
theorem TimerInv.block (hT : a.TimerInv) (hnum : a.syscallNum r = dsosCallWait) :
    (a.block r next rest).TimerInv where
  partition := hT.partition
  sleeping := fun t ht =>
    ⟨List.mem_append_left _ (hT.sleeping t ht).1, (hT.sleeping t ht).2⟩
  distinct := hT.distinct
  timed := by
    intro x hx hsleep
    have hwait : x ∈ a.procs .waiting ++ [r] := hx
    rcases List.mem_append.1 hwait with hx | hx
    · exact hT.timed x hx hsleep
    · rw [List.mem_singleton.1 hx] at hsleep
      exact absurd (hnum.symm.trans hsleep) (by decide)

section Sleep

variable {as bs : List Addr} {wakeTime : Int}

/-- The running process falls asleep and no process is ready. -/
theorem ProcInv.sleep_idle (hP : a.ProcInv) (hr : a.running = some r)
    (hnum : a.syscallNum r = dsosCallSleep) (hready : a.procs .ready = []) :
    ProcInv { a.sleep r t ts as bs wakeTime with running := none } where
  partition := by
    apply hP.partition_of_count
    intro y
    simp only [pcbBlocks, Model.sleep, hr, hready, List.count_append, List.count_cons,
      List.count_nil, Option.toList_some, Option.toList_none, Function.update, reduceCtorEq,
      dite_true, dite_false]
    omega
  ready := by
    intro y hy
    have hold : y ∈ a.procs .ready := hy
    rw [hready] at hold
    exact absurd hold List.not_mem_nil
  waiting := by
    intro y
    have hold := hP.waiting y
    show _ ↔ y ∈ a.procs .waiting ++ [r]
    simp only [Model.sleep, Function.update_apply]
    grind
  zombie := by
    intro y hy
    have hold := hP.zombie y hy
    have hnr := (hP.running_fresh hr).1 .zombie
    have hyz : y ∈ a.procs .zombie := hy
    simp only [Model.sleep, Function.update_apply]
    grind
  running := by
    intro y hy
    cases hy
  blocked := by
    intro y hy
    have hwait : y ∈ a.procs .waiting ++ [r] := hy
    rcases List.mem_append.1 hwait with hy | hy
    · exact hP.blocked y hy
    · rw [List.mem_singleton.1 hy]
      exact Or.inr hnum
  init := by
    obtain ⟨i, hi, hp, hal⟩ := hP.init
    refine ⟨i, hi, hp, ?_⟩
    simp only [Alive, hr, hready, Model.sleep, Function.update, reduceCtorEq, dite_true,
      dite_false, List.mem_append, List.mem_cons] at hal ⊢
    grind

/-- The process that goes to sleep gets a timer of its own. -/
theorem TimerInv.sleep (hT : a.TimerInv) (hP : a.ProcInv) (hr : a.running = some r)
    (hnum : a.syscallNum r = dsosCallSleep) (hfree : a.freeTimers = t :: ts)
    (hlist : a.timerList = as ++ bs) : (a.sleep r t ts as bs wakeTime).TimerInv where
  partition := by
    refine List.Perm.trans (List.perm_iff_count.2 fun u => ?_) hT.partition
    simp only [Model.sleep, hfree, hlist, List.count_append, List.count_cons]
    omega
  sleeping := by
    intro u hu
    have hold := hT.sleeping u
    have hmem : u ∈ as ++ t :: bs := hu
    rw [hlist] at hold
    show Function.update a.timerPcb t r u ∈ a.procs .waiting ++ [r] ∧
      a.syscallNum (Function.update a.timerPcb t r u) = dsosCallSleep
    simp only [Function.update_apply]
    grind
  distinct := by
    have hnd := hT.partition.nodup_iff.2 (allBlocks_nodup (by decide))
    rw [hfree, hlist, List.perm_middle.nodup_iff, List.nodup_cons] at hnd
    have hout : ∀ u ∈ as ++ bs, Function.update a.timerPcb t r u = a.timerPcb u := by
      intro u hu
      refine Function.update_of_ne (fun heq => hnd.1 ?_) ..
      rw [← heq]
      exact List.mem_append_left _ hu
    show ((as ++ t :: bs).map (Function.update a.timerPcb t r)).Nodup
    rw [(List.perm_middle.map _).nodup_iff, List.map_cons, List.map_congr_left hout,
      Function.update_self, List.nodup_cons]
    -- `r` runs, so it has no timer yet
    refine ⟨?_, hlist ▸ hT.distinct⟩
    intro hmem
    obtain ⟨u, hu, heq⟩ := List.mem_map.1 hmem
    apply (hP.running_fresh hr).1 .waiting
    rw [← heq]
    exact (hT.sleeping u (hlist ▸ hu)).1
  timed := by
    have hnd := hT.partition.nodup_iff.2 (allBlocks_nodup (by decide))
    rw [hfree, hlist, List.perm_middle.nodup_iff, List.nodup_cons] at hnd
    intro x hx hsleep
    have hwait : x ∈ a.procs .waiting ++ [r] := hx
    show ∃ u ∈ as ++ t :: bs, Function.update a.timerPcb t r u = x
    rcases List.mem_append.1 hwait with hx | hx
    · obtain ⟨u, hu, rfl⟩ := hT.timed x hx hsleep
      rw [hlist] at hu
      refine ⟨u, by simp only [List.mem_append, List.mem_cons] at hu ⊢; tauto, ?_⟩
      refine Function.update_of_ne (fun heq => hnd.1 ?_) ..
      rw [← heq]
      exact List.mem_append_left _ hu
    · rw [List.mem_singleton.1 hx]
      exact ⟨t, by simp, Function.update_self ..⟩

end Sleep

theorem SleepStep.inv (h : SleepStep a r a') (hP : a.ProcInv) (hT : a.TimerInv)
    (hr : a.running = some r) (hnum : a.syscallNum r = dsosCallSleep) :
    a'.ProcInv ∧ a'.TimerInv := by
  cases h with
  | refused _ => exact ⟨{ hP with }, { hT with }⟩
  | switch _ hfree hlist _ hready =>
      exact ⟨{ hP.block hr (Or.inr hnum) hready with }, { hT.sleep hP hr hnum hfree hlist with }⟩
  | idle _ hfree hlist _ hready =>
      exact ⟨hP.sleep_idle hr hnum hready, { hT.sleep hP hr hnum hfree hlist with }⟩

/-! ## Creating and collecting processes -/

/-- The new process takes a free PCB and is ready. -/
theorem ProcInv.create {e : Addr} {xs es : List Addr} (hP : a.ProcInv)
    (hx : a.freePcbs = x :: xs) : (a.create r x e xs es).ProcInv where
  partition := by
    apply hP.partition_of_count
    intro y
    simp only [pcbBlocks, Model.create, hx, List.count_append, List.count_cons, List.count_nil,
      Function.update, reduceCtorEq, dite_true, dite_false]
    omega
  ready := by
    intro y hy
    have hold := hP.ready y
    have hmem : y ∈ a.procs .ready ++ [x] := hy
    simp only [Model.create, Function.update_apply]
    grind
  waiting := by
    intro y
    have hold := hP.waiting y
    have hfresh := hP.free_fresh (x := x) (by simp [hx])
    show _ ↔ y ∈ a.procs .waiting
    simp only [Model.create, Function.update_apply]
    grind [Used]
  zombie := by
    intro y hy
    have hold := hP.zombie y hy
    have hfresh := hP.free_fresh (x := x) (by simp [hx])
    have hmem : y ∈ a.procs .zombie := hy
    simp only [Model.create, Function.update_apply]
    grind [Used]
  running := by
    intro y hy
    have hold := hP.running y hy
    simp only [Model.create, Function.update_apply]
    grind
  blocked := hP.blocked
  init := by
    obtain ⟨i, hi, hp, hal⟩ := hP.init
    have hfresh := hP.free_fresh (x := x) (by simp [hx])
    have hix : i ≠ x := fun heq => hfresh (heq ▸ Alive.used hal)
    refine ⟨i, hi, (Function.update_of_ne hix ..).trans hp, ?_⟩
    simp only [Alive, Model.create, Function.update, reduceCtorEq, dite_true, dite_false,
      List.mem_append] at hal ⊢
    grind

/-- The new entry on the list of the parent is one that no list had. -/
theorem KidInv.create {e : Addr} {xs es : List Addr} (hK : a.KidInv) (hD : a.Distinct)
    (hx : IsBlock maxNumProcesses sizeofPCB x) (he : a.freePcbPtrs = e :: es) :
    (a.create r x e xs es).KidInv := by
  obtain ⟨hnd, hblock⟩ := hD.freePcbPtrs
  rw [he] at hnd hblock
  have hmem : ∀ q, ∀ u ∈ (a.create r x e xs es).children q, u = e ∨ ∃ q', u ∈ a.children q' := by
    intro q u hu
    simp only [Model.create, Function.update_apply] at hu
    grind
  have hne : ∀ q, ∀ u ∈ a.children q, u ≠ e ∧ u ∉ es := by
    intro q u hu
    have hused := (hK.used q u hu).2
    rw [he, List.mem_cons, not_or] at hused
    exact hused
  constructor
  · intro q u hu
    rcases hmem q u hu with rfl | ⟨q', hu⟩
    · exact ⟨hblock u List.mem_cons_self, (List.nodup_cons.1 hnd).1⟩
    · exact ⟨(hK.used q' u hu).1, (hne q' u hu).2⟩
  · intro q u hu
    show IsBlock maxNumProcesses sizeofPCB (Function.update a.ptrPcb e x u)
    rcases hmem q u hu with rfl | ⟨q', hu⟩
    · rwa [Function.update_self]
    · rw [Function.update_of_ne (hne q' u hu).1]
      exact hK.pcb q' u hu

theorem CreateStep.inv (h : CreateStep a r a') (hP : a.ProcInv) (hT : a.TimerInv)
    (hK : a.KidInv) (hD : a.Distinct) :
    a'.ProcInv ∧ a'.TimerInv ∧ a'.KidInv := by
  cases h with
  | created hx he =>
      have hblock := hP.isBlock_iff.2 (Or.inr (by rw [hx]; exact List.mem_cons_self))
      exact ⟨hP.create hx, { hT with }, hK.create hD hblock he⟩

theorem storeInt_eq (a : Model) (result v : Int) : a.storeInt result v =
    { a with ints := if result ≠ 0 then Function.update a.ints result v else a.ints } := by
  unfold storeInt
  split <;> rfl

/-- What `wait` does when it collects a zombie. -/
theorem reap_eq (a : Model) (r e : Addr) : a.reap r e =
    { a with
      syscallRetvalue := Function.update a.syscallRetvalue r (a.pid (a.ptrPcb e))
      ints := if a.syscallArgs r 1 ≠ 0 then
        Function.update a.ints (a.syscallArgs r 1) (a.returnValue (a.ptrPcb e)) else a.ints
      children := Function.update a.children r ((a.children r).erase e)
      freePcbPtrs := e :: a.freePcbPtrs
      procs := Function.update a.procs .zombie ((a.procs .zombie).erase (a.ptrPcb e))
      freePcbs := if a.ptrPcb e ∈ a.freePcbs then a.freePcbs else a.ptrPcb e :: a.freePcbs } := by
  simp only [reap, storeInt_eq, answer]

/-- What `exit` does to the parent that it wakes. -/
theorem deliver_eq (a : Model) (r parent e : Addr) : a.deliver r parent e =
    { a with
      syscallRetvalue := Function.update a.syscallRetvalue parent (a.pid r)
      ints := if a.syscallArgs parent 1 ≠ 0 then
        Function.update a.ints (a.syscallArgs parent 1) (a.returnValue r) else a.ints
      status := Function.update a.status parent .running
      children := Function.update a.children parent ((a.children parent).erase e)
      procs := Function.update a.procs .waiting ((a.procs .waiting).erase parent) } := by
  simp only [deliver, storeInt_eq, answer]

/-- A process with the status `Zombie` is in the list of zombies or freed. -/
theorem ProcInv.zombie_or_free (hP : a.ProcInv) (hx : IsBlock maxNumProcesses sizeofPCB x)
    (hz : a.status x = .zombie) : x ∈ a.procs .zombie ∨ x ∈ a.freePcbs := by
  rcases hP.isBlock_iff.1 hx with (h | h | h | h) | h
  · have := hP.running x h
    grind
  · have := hP.ready x h
    grind
  · have := (hP.waiting x).2 h
    grind
  · exact Or.inl h
  · exact Or.inr h

/-- The PCB of a zombie that is collected becomes free. -/
theorem ProcInv.reap {e : Addr} (hP : a.ProcInv)
    (hx : IsBlock maxNumProcesses sizeofPCB (a.ptrPcb e))
    (hz : a.status (a.ptrPcb e) = .zombie) : (a.reap r e).ProcInv := by
  have hprocs : (a.reap r e).procs = Function.update a.procs .zombie
      ((a.procs .zombie).erase (a.ptrPcb e)) := rfl
  have hfree : (a.reap r e).freePcbs =
      if a.ptrPcb e ∈ a.freePcbs then a.freePcbs else a.ptrPcb e :: a.freePcbs := rfl
  have hdata : (a.reap r e).status = a.status ∧ (a.reap r e).running = a.running ∧
      (a.reap r e).syscallNum = a.syscallNum ∧ (a.reap r e).initPcb = a.initPcb ∧
      (a.reap r e).parent = a.parent := by
    rw [reap_eq]
    exact ⟨rfl, rfl, rfl, rfl, rfl⟩
  obtain ⟨hstatus, hrunning, hnum, hinit, hparent⟩ := hdata
  have hothers : ∀ l, l ≠ .zombie → (a.reap r e).procs l = a.procs l :=
    fun l hl => Function.update_of_ne hl ..
  refine ⟨hP.partition_of_count fun y => ?_, ?_, ?_, ?_, ?_, ?_, ?_⟩
  · simp only [pcbBlocks, hrunning, hprocs, hfree, List.count_append, Function.update,
      reduceCtorEq, dite_true, dite_false]
    -- a stale entry leads to a free block, which is not freed again
    rcases hP.zombie_or_free hx hz with hmem | hmem
    · have hout : a.ptrPcb e ∉ a.freePcbs := fun hf =>
        hP.free_fresh hf (Used.of_mem hmem)
      have herase := count_erase_add hmem y
      simp only [hout, if_false, List.count_cons, beq_iff_eq]
      omega
    · have hout : a.ptrPcb e ∉ a.procs .zombie := fun hf =>
        hP.free_fresh hmem (Used.of_mem hf)
      rw [List.erase_of_not_mem hout, if_pos hmem]
  · rw [hothers _ (by decide), hstatus]
    exact hP.ready
  · rw [hothers _ (by decide), hstatus]
    exact hP.waiting
  · intro y hy
    rw [hprocs, Function.update_self] at hy
    rw [hstatus]
    exact hP.zombie y (List.mem_of_mem_erase hy)
  · rw [hrunning, hstatus]
    exact hP.running
  · rw [hothers _ (by decide), hnum]
    exact hP.blocked
  · rw [hinit, hparent]
    simp only [Alive, hothers _ (show ProcList.ready ≠ .zombie by decide),
      hothers _ (show ProcList.waiting ≠ .zombie by decide), hrunning]
    exact hP.init

/-- The entry of a child that is collected becomes free. -/
theorem KidInv.reap {e : Addr} (hK : a.KidInv) (hD : a.Distinct) (he : e ∈ a.children r) :
    (a.reap r e).KidInv := by
  have hmem : ∀ q, ∀ u ∈ (a.reap r e).children q, u ∈ a.children q ∧ u ≠ e := by
    intro q u hu
    apply (ChildLists.mem_remove (hD.children.nodup' r) _).1 hu
    intro p hp
    exact hD.children.eq hp he
  have hptr : (a.reap r e).ptrPcb = a.ptrPcb := by rw [reap_eq]
  constructor
  · intro q u hu
    obtain ⟨hu, hne⟩ := hmem q u hu
    refine ⟨(hK.used q u hu).1, ?_⟩
    show u ∉ e :: a.freePcbPtrs
    rw [List.mem_cons, not_or]
    exact ⟨hne, (hK.used q u hu).2⟩
  · intro q u hu
    rw [hptr]
    exact hK.pcb q u (hmem q u hu).1

/-- The entry that `wait` looks at is one of the children of the caller. -/
theorem mem_of_awaited {e : Addr} {n : Int} (h : a.awaited r n = some e) : e ∈ a.children r := by
  simp only [awaited, Option.or_eq_some_iff] at h
  rcases h with h | ⟨-, h⟩
  · exact List.mem_of_find?_eq_some h
  · exact List.mem_of_getLast? h

theorem WaitStep.inv (h : WaitStep a r a') (hP : a.ProcInv) (hT : a.TimerInv)
    (hK : a.KidInv) (hD : a.Distinct) (hr : a.running = some r)
    (hnum : a.syscallNum r = dsosCallWait) : a'.ProcInv ∧ a'.TimerInv ∧ a'.KidInv := by
  cases h with
  | noChildren _ => exact ⟨{ hP with }, { hT with }, { hK with }⟩
  | reap he hz =>
      have hmem := mem_of_awaited he
      refine ⟨hP.reap (hK.pcb r _ hmem) hz, ?_, hK.reap hD hmem⟩
      rw [reap_eq]
      exact { hT with }
  | block _ _ hready =>
      exact ⟨hP.block hr (Or.inl hnum) hready, hT.block hnum, { hK with }⟩

/-! ## Termination -/

/-- Closing descriptors changes the lists of descriptors and their pools only. -/
theorem dropDescriptors_eq (p : Addr) (ds : List Addr) (a : Model) :
    ∃ descriptors descriptorsPtrs freeDescriptors freeDescriptorPtrs,
      dropDescriptors p ds a =
        { a with descriptors, descriptorsPtrs, freeDescriptors, freeDescriptorPtrs } := by
  induction ds generalizing a with
  | nil => exact ⟨_, _, _, _, rfl⟩
  | cons d ds ih =>
      obtain ⟨f, g, u, v, h⟩ := ih (a.dropDescriptor p d)
      exact ⟨f, g, u, v, h⟩

/-- What `handOver` does to the processes. -/
theorem handOver_eq (a : Model) (r parent e : Addr) :
    ∃ descriptors descriptorsPtrs freeDescriptors freeDescriptorPtrs,
      a.handOver r parent e =
        { a with
          descriptors, descriptorsPtrs, freeDescriptors, freeDescriptorPtrs
          ints := if a.syscallArgs parent 1 ≠ 0 then
            Function.update a.ints (a.syscallArgs parent 1) (a.returnValue r) else a.ints
          syscallRetvalue := Function.update a.syscallRetvalue parent (a.pid r)
          status := Function.update a.status parent .running
          children := Function.update a.children parent ((a.children parent).erase e)
          procs := Function.update
            (Function.update a.procs .waiting ((a.procs .waiting).erase parent)) .zombie
            ((a.procs .zombie).erase r)
          freePcbs := r :: a.freePcbs
          running := some parent } := by
  obtain ⟨f, g, u, v, h⟩ := dropDescriptors_eq r (a.descriptors r) (a.deliver r parent e)
  refine ⟨f, g, u, v, ?_⟩
  rw [handOver, h, deliver_eq]
  simp only [Function.update_of_ne (show ProcList.zombie ≠ .waiting by decide)]

/-- What an exit that wakes the parent does, when `r` was no zombie before. -/
theorem exit_handOver_eq (init parent e : Addr) (hz : r ∉ a.procs .zombie) :
    ∃ descriptors descriptorsPtrs freeDescriptors freeDescriptorPtrs,
      (a.leave r init parent).handOver r parent e =
        { a.leave r init parent with
          descriptors, descriptorsPtrs, freeDescriptors, freeDescriptorPtrs
          ints := if a.syscallArgs parent 1 ≠ 0 then
            Function.update a.ints (a.syscallArgs parent 1) (wrapInt (a.syscallArgs r 0))
            else a.ints
          syscallRetvalue := Function.update a.syscallRetvalue parent (a.pid r)
          status := Function.update (a.leave r init parent).status parent .running
          children := Function.update (a.leave r init parent).children parent
            (((a.leave r init parent).children parent).erase e)
          procs := Function.update a.procs .waiting ((a.procs .waiting).erase parent)
          freePcbs := r :: a.freePcbs
          running := some parent } := by
  obtain ⟨f, g, u, v, heq⟩ := handOver_eq (a.leave r init parent) r parent e
  have hprocs : Function.update (Function.update (a.leave r init parent).procs .waiting
      (((a.leave r init parent).procs .waiting).erase parent)) .zombie
      (((a.leave r init parent).procs .zombie).erase r) =
      Function.update a.procs .waiting ((a.procs .waiting).erase parent) := by
    funext l
    cases l with
    | ready => rfl
    | waiting => rfl
    -- `r` enters the zombie list and is taken out again
    | zombie => simp [leave, List.erase_append_right, hz]
  rw [hprocs] at heq
  refine ⟨f, g, u, v, ?_⟩
  rw [heq]
  simp only [leave, Function.update_self]

/-- The process that leaves gives the processor to its parent. -/
theorem ProcInv.handOver {init parent e : Addr} (hP : a.ProcInv) (hr : a.running = some r)
    (hinit : a.initPcb = some init) (hne : r ≠ init) (hparent : parent ∈ a.procs .waiting) :
    ((a.leave r init parent).handOver r parent e).ProcInv := by
  have hfresh := hP.running_fresh hr
  obtain ⟨f, g, u, v, heq⟩ := exit_handOver_eq init parent e (hfresh.1 .zombie)
  rw [heq]
  have hpr : parent ≠ r := fun h => hfresh.1 .waiting (h ▸ hparent)
  refine ⟨hP.partition_of_count fun y => ?_, ?_, ?_, ?_, ?_, ?_, ?_⟩
  · have herase := count_erase_add hparent y
    simp only [pcbBlocks, hr, List.count_append, List.count_cons, List.count_nil,
      Option.toList_some, Function.update, reduceCtorEq, dite_true, dite_false, beq_iff_eq]
    omega
  · intro y hy
    have hmem : y ∈ a.procs .ready := hy
    have hold := hP.ready y hmem
    have hw := (hP.waiting parent).2 hparent
    have hnr := hfresh.1 .ready
    simp only [leave, Function.update_apply]
    grind
  · intro y
    have hold := hP.waiting y
    have hnr := hfresh.1 .waiting
    show _ ↔ y ∈ (a.procs .waiting).erase parent
    rw [hP.mem_erase]
    simp only [leave, Function.update_apply]
    grind
  · intro y hy
    have hmem : y ∈ a.procs .zombie := hy
    have hold := hP.zombie y hmem
    have hw := (hP.waiting parent).2 hparent
    have hnr := hfresh.1 .zombie
    simp only [leave, Function.update_apply]
    grind
  · intro y hy
    obtain rfl : parent = y := Option.some.inj hy
    exact Or.inl (Function.update_self ..)
  · intro y hy
    have hmem : y ∈ (a.procs .waiting).erase parent := hy
    rw [hP.mem_erase] at hmem
    exact hP.blocked y hmem.2
  · obtain ⟨i, hi, hp, hal⟩ := hP.init
    obtain rfl : init = i := Option.some.inj (hinit.symm.trans hi)
    refine ⟨init, hi, hp, ?_⟩
    simp only [Alive, hr, Function.update, reduceCtorEq, dite_true, dite_false] at hal ⊢
    rw [hP.mem_erase]
    grind

/-- The process that leaves becomes a zombie, and the first of the ready ones runs. -/
theorem ProcInv.retire {init parent : Addr} (hP : a.ProcInv) (hr : a.running = some r)
    (hinit : a.initPcb = some init) (hne : r ≠ init) (hready : a.procs .ready = next :: rest) :
    ((a.leave r init parent).retire next rest).ProcInv where
  partition := by
    apply hP.partition_of_count
    intro y
    simp only [pcbBlocks, leave, Model.retire, hr, hready, List.count_append, List.count_cons,
      List.count_nil, Option.toList_some, Function.update, reduceCtorEq, dite_true, dite_false]
    omega
  ready := by
    intro y hy
    have hmem : y ∈ rest := hy
    have hold := hP.ready y (by simp [hready, hmem])
    have hnd := hP.procs_nodup .ready
    have hnr := (hP.running_fresh hr).1 .ready
    rw [hready] at hnd hnr
    simp only [Model.retire, leave, Function.update_apply]
    grind
  waiting := by
    intro y
    have hold := hP.waiting y
    have hnr := (hP.running_fresh hr).1 .waiting
    have hn := hP.ready next (by simp [hready])
    have hnw := hP.waiting next
    show _ ↔ y ∈ a.procs .waiting
    simp only [Model.retire, leave, Function.update_apply]
    grind
  zombie := by
    intro y hy
    have hmem : y ∈ a.procs .zombie ++ [r] := hy
    have hold := hP.zombie y
    have hn := hP.ready next (by simp [hready])
    have hnr := (hP.running_fresh hr).1 .ready
    rw [hready] at hnr
    simp only [Model.retire, leave, Function.update_apply]
    grind
  running := by
    intro y hy
    obtain rfl : next = y := Option.some.inj hy
    exact Or.inl (Function.update_self ..)
  blocked := hP.blocked
  init := by
    obtain ⟨i, hi, hp, hal⟩ := hP.init
    obtain rfl : init = i := Option.some.inj (hinit.symm.trans hi)
    refine ⟨init, hi, hp, ?_⟩
    simp only [Alive, Model.retire, leave, hr, hready, Function.update, reduceCtorEq, dite_true,
      dite_false, List.mem_cons] at hal ⊢
    grind

theorem TimerInv.handOver {init parent e : Addr} (hT : a.TimerInv) (hP : a.ProcInv)
    (hnum : a.syscallNum parent = dsosCallWait) :
    ((a.leave r init parent).handOver r parent e).TimerInv := by
  obtain ⟨f, g, u, v, heq⟩ := handOver_eq (a.leave r init parent) r parent e
  rw [heq]
  refine ⟨hT.partition, fun t ht => ?_, hT.distinct, fun x hx hsleep => ?_⟩
  · obtain ⟨hmem, hsleep⟩ := hT.sleeping t ht
    refine ⟨?_, hsleep⟩
    show a.timerPcb t ∈ (a.procs .waiting).erase parent
    rw [hP.mem_erase]
    refine ⟨fun heq => ?_, hmem⟩
    rw [heq, hnum] at hsleep
    exact absurd hsleep (by decide)
  · have hmem : x ∈ (a.procs .waiting).erase parent := hx
    rw [hP.mem_erase] at hmem
    exact hT.timed x hmem.2 hsleep

/-- The entries of the children lists after the children of `r` have moved to `init`. -/
theorem mem_leave_children (parent : Addr) {init q u : Addr} (hne : r ≠ init) :
    u ∈ (a.leave r init parent).children q ↔
      q ≠ r ∧ (u ∈ a.children q ∨ (q = init ∧ u ∈ a.children r)) :=
  ChildLists.mem_handOver hne

/-- The children of the parent of `r` at the point where `exit` looks for the entry of `r`. -/
theorem leave_children_of_ne {init parent : Addr} (hinit : a.initPcb = some init)
    (hne : parent ≠ r) : (a.leave r init parent).children parent =
      a.children parent ++ if a.initPcb = some parent then a.children r else [] := by
  simp only [leave, Function.update_of_ne hne, hinit, Option.some.injEq]
  by_cases hp : init = parent
  · subst hp
    rw [Function.update_self, if_pos rfl]
  · rw [Function.update_of_ne (fun heq => hp heq.symm), if_neg hp, List.append_nil]

/-- The entries of the re-parented children are appended to those of `init`. -/
theorem KidInv.leave {init : Addr} (hK : a.KidInv) (parent : Addr) (hne : r ≠ init) :
    (a.leave r init parent).KidInv := by
  have hmem : ∀ q, ∀ u ∈ (a.leave r init parent).children q, ∃ q', u ∈ a.children q' := by
    intro q u hu
    rw [mem_leave_children parent hne] at hu
    rcases hu.2 with hu | ⟨-, hu⟩
    · exact ⟨q, hu⟩
    · exact ⟨r, hu⟩
  constructor
  · intro q u hu
    obtain ⟨q', hu⟩ := hmem q u hu
    exact hK.used q' u hu
  · intro q u hu
    obtain ⟨q', hu⟩ := hmem q u hu
    exact hK.pcb q' u hu

theorem KidInv.handOver {parent e : Addr} (hK : a.KidInv) : (a.handOver r parent e).KidInv := by
  obtain ⟨f, g, u, v, heq⟩ := handOver_eq a r parent e
  rw [heq]
  have hmem : ∀ q, ∀ u ∈ Function.update a.children parent ((a.children parent).erase e) q,
      u ∈ a.children q := fun q u hu => ChildLists.mem_of_mem_remove hu
  exact ⟨fun q u hu => hK.used q u (hmem q u hu), fun q u hu => hK.pcb q u (hmem q u hu)⟩

/-- A parent that awaits is in the waiting list. -/
theorem ProcInv.awaits_waiting {parent : Addr} {n : Int} (hP : a.ProcInv)
    (h : a.awaits parent n) : parent ∈ a.procs .waiting ∧ a.syscallNum parent = dsosCallWait := by
  simp only [PCBs.awaits, decide_eq_true_eq] at h
  exact ⟨(hP.waiting parent).1 h.1, h.2.1⟩

theorem ExitStep.inv (h : ExitStep a r a') (hP : a.ProcInv) (hT : a.TimerInv)
    (hK : a.KidInv) (hr : a.running = some r) : a'.ProcInv ∧ a'.TimerInv ∧ a'.KidInv := by
  cases h with
  | wakeParent hinit hne _ hawaits _ =>
      obtain ⟨hwait, hnum⟩ := hP.awaits_waiting hawaits
      exact ⟨hP.handOver hr hinit hne hwait, hT.handOver hP hnum, (hK.leave _ hne).handOver⟩
  | @retire init parent next rest hinit hne _ _ hready =>
      exact ⟨hP.retire hr hinit hne hready, { hT with }, { hK.leave parent hne with }⟩

/-! ## What the transitions change -/

/-- The fields that the wake-up loop writes. -/
theorem Wakes.eq (h : Wakes woken a a') : ∃ status timer procs timerList freeTimers,
    a' = { a with status, timer, procs, timerList, freeTimers } := by
  induction h with
  | stop _ => exact ⟨_, _, _, _, _, rfl⟩
  | wake _ _ _ _ ih =>
      obtain ⟨_, _, _, _, _, heq⟩ := ih
      exact ⟨_, _, _, _, _, heq⟩

/-- The fields that the scheduler writes. -/
theorem ScheduleStep.eq (h : ScheduleStep a a') :
    ∃ status timer procs timerList freeTimers running,
      a' = { a with status, timer, procs, timerList, freeTimers, running } := by
  cases h with
  | idle hw _ =>
      obtain ⟨_, _, _, _, _, rfl⟩ := hw.eq
      exact ⟨_, _, _, _, _, _, rfl⟩
  | switch hw _ _ =>
      obtain ⟨_, _, _, _, _, rfl⟩ := hw.eq
      exact ⟨_, _, _, _, _, _, rfl⟩

/-- The fields that `sleep` writes. -/
theorem SleepStep.eq (h : SleepStep a r a') :
    ∃ syscallRetvalue status procs timerList freeTimers timerPcb awakeningTime running,
      a' = { a with
        syscallRetvalue, status, procs, timerList, freeTimers, timerPcb, awakeningTime,
        running } := by
  cases h with
  | refused _ => exact ⟨_, _, _, _, _, _, _, _, rfl⟩
  | switch _ _ _ _ _ => exact ⟨_, _, _, _, _, _, _, _, rfl⟩
  | idle _ _ _ _ _ => exact ⟨_, _, _, _, _, _, _, _, rfl⟩

/-- The fields that `exit` writes. -/
theorem ExitStep.eq (h : ExitStep a r a') :
    ∃ returnValue signals status syscallRetvalue ints procs children descriptors descriptorsPtrs
      freeDescriptors freeDescriptorPtrs freePcbs running,
      a' = { a with
        returnValue, signals, status, syscallRetvalue, ints, procs, children, descriptors,
        descriptorsPtrs, freeDescriptors, freeDescriptorPtrs, freePcbs, running } := by
  cases h with
  | @wakeParent init parent e _ _ _ _ _ =>
      obtain ⟨_, _, _, _, heq⟩ := handOver_eq (a.leave r init parent) r parent e
      exact ⟨_, _, _, _, _, _, _, _, _, _, _, _, _, heq⟩
  | retire _ _ _ _ _ => exact ⟨_, _, _, _, _, _, _, _, _, _, _, _, _, rfl⟩

/-- The fields that `wait` writes. -/
theorem WaitStep.eq (h : WaitStep a r a') :
    ∃ syscallRetvalue ints children freePcbPtrs procs freePcbs status running,
      a' = { a with
        syscallRetvalue, ints, children, freePcbPtrs, procs, freePcbs, status, running } := by
  cases h with
  | noChildren _ => exact ⟨_, _, _, _, _, _, _, _, rfl⟩
  | reap _ _ =>
      rw [reap_eq]
      exact ⟨_, _, _, _, _, _, _, _, rfl⟩
  | block _ _ _ => exact ⟨_, _, _, _, _, _, _, _, rfl⟩

end Model

end DisastrOS
