import DisastrOS.Abstract.Frames
import DisastrOS.Library.StableQueue
import Mathlib.Data.Int.Order.Basic
import Mathlib.Data.List.Perm.Subperm

/-!
# Timers and the scheduler

What a transition does to the list of timers, and what one pass of the scheduler does to all lists.
The wake-up loop looks at the head of the list of timers only, so its effect on the whole list rests
on the order of the timers.
-/

set_option autoImplicit false

namespace DisastrOS

open StableQueue

namespace Model

variable {clean : Addr → Prop} {a a' : Model} {r x : Addr} {c : Syscall} {act : Action}
  {woken rest : List Addr} {before : Addr → Addr → Prop}

/-! ## The timer fields of the PCBs -/

/-- No PCB refers to a timer; nothing ever stores one. -/
def NoTimers (a : Model) : Prop := ∀ x, a.timer x = none

theorem Wakes.noTimers (h : Wakes woken a a') (hN : a.NoTimers) : a'.NoTimers := by
  induction h with
  | stop _ => exact hN
  | wake _ _ _ _ ih =>
      apply ih
      intro x
      simp only [Model.wake, Function.update_apply, hN x, ite_self]

theorem ScheduleStep.noTimers (h : ScheduleStep a a') (hN : a.NoTimers) : a'.NoTimers := by
  cases h with
  | idle hw _ => exact hw.noTimers hN
  | switch hw _ _ => exact hw.noTimers hN

theorem CreateStep.noTimers (h : CreateStep a r a') (hN : a.NoTimers) : a'.NoTimers := by
  cases h with
  | created _ _ =>
      intro x
      simp only [create, Function.update_apply, hN x, ite_self]

theorem ExitStep.noTimers (h : ExitStep a r a') (hN : a.NoTimers) : a'.NoTimers := by
  cases h with
  | @wakeParent init parent e _ _ _ _ _ =>
      obtain ⟨_, _, _, _, heq⟩ := handOver_eq (a.leave r init parent) r parent e
      rw [heq]
      exact hN
  | retire _ _ _ _ _ => exact hN

theorem HandlerStep.noTimers (h : HandlerStep clean a r c a') (hN : a.NoTimers) :
    a'.NoTimers := by
  cases hc : c.onProcesses with
  | false =>
      intro x
      rw [(h.sameProcesses hc).timer]
      exact hN x
  | true =>
      cases h with
      | preempt h => exact h.noTimers hN
      | fork h => exact h.noTimers hN
      | spawn h => exact h.noTimers hN
      | wait h =>
          obtain ⟨_, _, _, _, _, _, _, _, rfl⟩ := h.eq
          exact hN
      | exit h => exact h.noTimers hN
      | sleep h =>
          obtain ⟨_, _, _, _, _, _, _, _, rfl⟩ := h.eq
          exact hN
      | shutdown => exact hN
      | openResource _ => cases hc
      | closeResource _ => cases hc
      | destroyResource _ => cases hc
      | mqRead _ => cases hc
      | mqWrite _ => cases hc

/-- No step stores a timer in a PCB. -/
theorem Step.noTimers (h : Step clean a act a') (hN : a.NoTimers) : a'.NoTimers := by
  cases h with
  | tick _ h => exact h.noTimers hN
  | syscall _ h => exact h.noTimers hN
  | store _ => exact hN

/-- While a process runs there are fewer sleeping processes than PCBs, so a timer is free. -/
theorem TimerInv.free_ne_nil (hT : a.TimerInv) (hP : a.ProcInv) (hr : a.running = some r) :
    a.freeTimers ≠ [] := by
  intro hnil
  have htimers : a.timerList.length = maxNumProcesses := by
    have hlen := hT.partition.length_eq
    rwa [hnil, List.append_nil, allBlocks_length] at hlen
  have hwaiting : a.timerList.length ≤ (a.procs .waiting).length := by
    have hsub : a.timerList.map a.timerPcb ⊆ a.procs .waiting := by
      intro x hx
      obtain ⟨t, ht, rfl⟩ := List.mem_map.1 hx
      exact (hT.sleeping t ht).1
    have hlen := (List.subperm_of_subset hT.distinct hsub).length_le
    rwa [List.length_map] at hlen
  have hpcbs := hP.partition.length_eq
  simp only [pcbBlocks, hr, Option.toList_some, List.length_append, List.length_singleton,
    allBlocks_length] at hpcbs
  omega

/-- A `sleep` of the running process is not refused. -/
theorem TimerInv.not_refused (hT : a.TimerInv) (hP : a.ProcInv) (hN : a.NoTimers)
    (hr : a.running = some r) : ¬ ((a.timer r).isSome ∨ a.freeTimers = []) := by
  rintro (hsome | hnil)
  · rw [hN r] at hsome
    cases hsome
  · exact hT.free_ne_nil hP hr hnil

/-- The running process sleeps: a timer is free, and its own timer field is null. -/
theorem SleepStep.blocks (h : SleepStep a r a') (hP : a.ProcInv) (hT : a.TimerInv)
    (hN : a.NoTimers) (hr : a.running = some r) :
    a'.syscallRetvalue = a.syscallRetvalue ∧ r ∈ a'.procs .waiting := by
  have hmem : r ∈ a.procs .waiting ++ [r] := List.mem_append_right _ List.mem_cons_self
  cases h with
  | refused hno => exact absurd hno (hT.not_refused hP hN hr)
  | switch _ _ _ _ _ => exact ⟨rfl, hmem⟩
  | idle _ _ _ _ _ => exact ⟨rfl, hmem⟩

/-! ## The list of timers -/

/-- What a transition does to the list of timers: it takes timers out, or it is a sleep that adds
one behind the timers that elapse no later. -/
inductive TimerChange (a : Model) (act : Action) (a' : Model) : Prop where
  | removed : a'.timerList.Sublist a.timerList →
      (∀ t ∈ a'.timerList, a'.awakeningTime t = a.awakeningTime t) → TimerChange a act a'
  | added (t : Addr) (cycles : Int32) : act = .syscall (.sleep cycles) → t ∉ a.timerList →
      (∀ u ∈ a.timerList, a'.awakeningTime u = a.awakeningTime u) →
      a'.timerList = insertByKey a'.awakeningTime t a.timerList → TimerChange a act a'

/-- The wake-up loop only takes timers out. -/
theorem Wakes.timers_sublist (h : Wakes woken a a') :
    a'.timerList.Sublist a.timerList ∧ a'.awakeningTime = a.awakeningTime := by
  induction h with
  | stop _ => exact ⟨List.Sublist.refl _, rfl⟩
  | wake ht _ _ _ ih =>
      rw [ht]
      exact ⟨ih.1.trans (List.sublist_cons_self _ _), ih.2⟩

theorem ScheduleStep.timers_sublist (h : ScheduleStep a a') :
    a'.timerList.Sublist a.timerList ∧ a'.awakeningTime = a.awakeningTime := by
  cases h with
  | idle hw _ => exact hw.timers_sublist
  | switch hw _ _ => exact hw.timers_sublist

/-- `sleep` puts its timer behind those that elapse no later. -/
theorem SleepStep.timerChange {cycles : Int32} (h : SleepStep a r a') (hT : a.TimerInv) :
    TimerChange a (.syscall (.sleep cycles)) a' := by
  have hadded : ∀ {t : Addr} {ts as bs : List Addr} {time : Int}, a.freeTimers = t :: ts →
      a.timerList = as ++ bs → as = a.timerList.takeWhile (fun u => a.awakeningTime u ≤ time) →
      t ∉ a.timerList ∧
      (∀ u ∈ a.timerList, Function.update a.awakeningTime t time u = a.awakeningTime u) ∧
      as ++ t :: bs = insertByKey (Function.update a.awakeningTime t time) t a.timerList := by
    intro t ts as bs time hfree hsplit has
    have hout : t ∉ a.timerList := fun ht => (hT.used ht).2 (hfree ▸ List.mem_cons_self)
    have hkeep : ∀ u ∈ a.timerList,
        Function.update a.awakeningTime t time u = a.awakeningTime u :=
      fun u hu => Function.update_of_ne (ne_of_mem_of_not_mem hu hout) ..
    have hbs : bs = a.timerList.dropWhile (fun u => a.awakeningTime u ≤ time) := by
      have hall : as ++ a.timerList.dropWhile (fun u => a.awakeningTime u ≤ time) =
          a.timerList := by
        rw [has]
        exact List.takeWhile_append_dropWhile
      exact List.append_cancel_left (hsplit.symm.trans hall.symm)
    refine ⟨hout, hkeep, ?_⟩
    rw [insertByKey_eq hkeep, Function.update_self, ← hbs, ← has]
  cases h with
  | refused _ => exact .removed (List.Sublist.refl _) fun _ _ => rfl
  | switch _ hfree hsplit has _ =>
      obtain ⟨hout, hkeep, hlist⟩ := hadded hfree hsplit has
      exact .added _ cycles rfl hout hkeep hlist
  | idle _ hfree hsplit has _ =>
      obtain ⟨hout, hkeep, hlist⟩ := hadded hfree hsplit has
      exact .added _ cycles rfl hout hkeep hlist

theorem OpenFound.timerPcb_eq {res : ResourceRef} {mode : Int} (h : OpenFound a r res mode a') :
    a'.timerPcb = a.timerPcb := by
  cases h with
  | notExclusive _ _ => rfl
  | taken _ => rfl
  | noDescriptor _ hreg _ =>
      obtain ⟨_, _, _, _, rfl, -⟩ := hreg.eq
      rfl
  | opened _ hreg _ _ =>
      obtain ⟨_, _, _, _, rfl, -⟩ := hreg.eq
      rfl

/-- Only `sleep` sets the process and the awakening time of a timer. -/
theorem HandlerStep.timers_eq (h : HandlerStep clean a r c a')
    (hc : ∀ cycles, c ≠ .sleep cycles) :
    a'.awakeningTime = a.awakeningTime ∧ a'.timerPcb = a.timerPcb := by
  cases h with
  | preempt h =>
      obtain ⟨_, _, _, _, _, _, rfl⟩ := h.eq
      exact ⟨rfl, rfl⟩
  | fork h => cases h with | created _ _ => exact ⟨rfl, rfl⟩
  | spawn h => cases h with | created _ _ => exact ⟨rfl, rfl⟩
  | wait h =>
      obtain ⟨_, _, _, _, _, _, _, _, rfl⟩ := h.eq
      exact ⟨rfl, rfl⟩
  | exit h =>
      obtain ⟨_, _, _, _, _, _, _, _, _, _, _, _, _, rfl⟩ := h.eq
      exact ⟨rfl, rfl⟩
  | sleep _ => exact absurd rfl (hc _)
  | openResource h =>
      cases h with
      | alreadyExists _ _ => exact ⟨rfl, rfl⟩
      | created _ _ hadd hopen =>
          rw [hopen.sameStore.awakeningTime, hopen.timerPcb_eq]
          cases hadd with
          | standard _ _ => exact ⟨rfl, rfl⟩
          | mq _ _ => exact ⟨rfl, rfl⟩
      | unavailable _ _ => exact ⟨rfl, rfl⟩
      | found _ _ _ hopen => exact ⟨hopen.sameStore.awakeningTime, hopen.timerPcb_eq⟩
  | closeResource h =>
      cases h with
      | notFound _ => exact ⟨rfl, rfl⟩
      | @closed d _ =>
          obtain ⟨_, _, heq⟩ := unregister_eq a (a.desResource d) _
          rw [heq]
          exact ⟨rfl, rfl⟩
  | destroyResource h =>
      cases h with
      | notFound _ => exact ⟨rfl, rfl⟩
      | inUse _ _ => exact ⟨rfl, rfl⟩
      | @destroyed res _ _ => cases res <;> exact ⟨rfl, rfl⟩
  | shutdown => exact ⟨rfl, rfl⟩
  | mqRead h => cases h <;> exact ⟨rfl, rfl⟩
  | mqWrite h => cases h <;> exact ⟨rfl, rfl⟩

/-- No call but `sleep` adds a timer. -/
theorem HandlerStep.timerChange (h : HandlerStep clean a r c a') (hT : a.TimerInv) :
    TimerChange a (.syscall c) a' := by
  cases hc : c.onProcesses with
  | false =>
      have hkeep := (h.timers_eq fun cycles hsleep => by rw [hsleep] at hc; cases hc).1
      refine .removed ?_ fun t _ => congrFun hkeep t
      rw [(h.sameProcesses hc).timerList]
  | true =>
      cases h with
      | preempt h => exact .removed h.timers_sublist.1 fun t _ => congrFun h.timers_sublist.2 t
      | fork h => cases h with | created _ _ => exact .removed (List.Sublist.refl _) fun _ _ => rfl
      | spawn h => cases h with | created _ _ => exact .removed (List.Sublist.refl _) fun _ _ => rfl
      | wait h =>
          obtain ⟨_, _, _, _, _, _, _, _, rfl⟩ := h.eq
          exact .removed (List.Sublist.refl _) fun _ _ => rfl
      | exit h =>
          obtain ⟨_, _, _, _, _, _, _, _, _, _, _, _, _, rfl⟩ := h.eq
          exact .removed (List.Sublist.refl _) fun _ _ => rfl
      | sleep h => exact h.timerChange hT
      | shutdown => exact .removed (List.Sublist.refl _) fun _ _ => rfl
      | openResource _ => cases hc
      | closeResource _ => cases hc
      | destroyResource _ => cases hc
      | mqRead _ => cases hc
      | mqWrite _ => cases hc

/-- A step takes timers out, or it is a `sleep` that adds one in its place. -/
theorem Step.timerChange (h : Step clean a act a') (hI : a.Inv) : TimerChange a act a' := by
  cases h with
  | tick _ h => exact .removed h.timers_sublist.1 fun t _ => congrFun h.timers_sublist.2 t
  | @syscall r c _ hr h =>
      cases h.timerChange (hI.enter hr c).timer with
      | removed hsub hkeep => exact .removed hsub hkeep
      | added t cycles hact hout hkeep hlist => exact .added t cycles hact hout hkeep hlist
  | store _ => exact .removed (List.Sublist.refl _) fun _ _ => rfl

/-- The timers stay sorted by awakening time. -/
theorem Step.timersSorted (h : Step clean a act a') (hI : a.Inv)
    (hO : InOrder a.awakeningTime (fun _ _ => True) a.timerList) :
    InOrder a'.awakeningTime (fun _ _ => True) a'.timerList := by
  cases h.timerChange hI with
  | removed hsub hkeep => exact (hO.sublist hsub).congr hkeep fun _ _ _ _ => id
  | added t _ _ _ hkeep hlist =>
      rw [hlist]
      exact (hO.congr hkeep fun _ _ _ _ => id).insertByKey fun _ _ => trivial

/-! ## One pass of the scheduler -/

/-- The processes whose timers have elapsed, in timer order. -/
def elapsedPcbs (a : Model) : List Addr :=
  (a.timerList.filter fun t => a.awakeningTime t ≤ a.time).map a.timerPcb

/-- The wake-up loop moves exactly the processes with elapsed timers behind those `woken` before. -/
theorem Wakes.effect (h : Wakes woken a a') (hP : a.ProcInv) (hT : a.TimerInv)
    (hO : InOrder a.awakeningTime before a.timerList) (hready : a.procs .ready = woken ++ rest) :
    a'.timerList = (a.timerList.filter fun t => a.time < a.awakeningTime t) ∧
      a'.procs .ready = woken ++ (a.elapsedPcbs ++ rest) ∧
      a'.procs .waiting = (a.procs .waiting).filter (· ∉ a.elapsedPcbs) ∧
      a'.procs .zombie = a.procs .zombie ∧ a'.running = a.running := by
  induction h generalizing rest with
  | @stop woken a hhead =>
      -- the list is sorted, so the first timer that is late ends the loop
      have hlate := hO.lt_of_head hhead
      have hnone : a.elapsedPcbs = [] := by
        rw [elapsedPcbs, List.map_eq_nil_iff, List.filter_eq_nil_iff]
        intro t ht
        simpa using hlate t ht
      rw [hnone]
      refine ⟨(List.filter_eq_self.2 fun t ht => ?_).symm, hready, ?_, rfl, rfl⟩
      · simpa using hlate t ht
      · simp
  | @wake woken a a' t ts rest' ht hle hready' _ ih =>
      obtain rfl : rest' = rest := List.append_cancel_left (hready'.symm.trans hready)
      have hx := (hT.sleeping t (by rw [ht]; exact List.mem_cons_self)).1
      have hpcbs : a.elapsedPcbs = a.timerPcb t :: (a.wake woken t ts rest').elapsedPcbs := by
        rw [elapsedPcbs, ht, List.filter_cons_of_pos (by simpa using hle), List.map_cons]
        rfl
      have hO' : InOrder a.awakeningTime before ts :=
        hO.sublist (by rw [ht]; exact List.sublist_cons_self t ts)
      -- the rest of the loop starts with one more process woken
      obtain ⟨h1, h2, h3, h4, h5⟩ := ih (hP.wake hx hready') (hT.wake hP ht) hO'
        (show _ = (woken ++ [a.timerPcb t]) ++ rest' by simp)
      refine ⟨?_, ?_, ?_, h4, h5⟩
      · rw [h1, ht, List.filter_cons_of_neg (by simpa using hle)]
        rfl
      · rw [h2, hpcbs]
        simp
      · rw [h3, wake_waiting, hpcbs, (hP.procs_nodup .waiting).erase_eq_filter, List.filter_filter]
        apply List.filter_congr
        intro y _
        rw [Bool.eq_iff_iff]
        simp [and_comm]

/-- What one pass of the scheduler does to the lists and the running process. -/
structure Scheduled (a a' : Model) : Prop where
  timerList : a'.timerList = a.timerList.filter fun t => a.time < a.awakeningTime t
  waiting : a'.procs .waiting = (a.procs .waiting).filter (· ∉ a.elapsedPcbs)
  zombie : a'.procs .zombie = a.procs .zombie
  idle : a.elapsedPcbs ++ a.procs .ready = [] →
    a'.procs .ready = [] ∧ a'.running = a.running
  switch : ∀ next rest, a.elapsedPcbs ++ a.procs .ready = next :: rest →
    a'.procs .ready = rest ++ a.running.toList ∧ a'.running = some next

/-- One pass of the scheduler wakes exactly the processes whose timers have elapsed, and exchanges
the running one. -/
theorem ScheduleStep.scheduled (h : ScheduleStep a a') (hP : a.ProcInv) (hT : a.TimerInv)
    (hO : InOrder a.awakeningTime before a.timerList) : Scheduled a a' := by
  cases h with
  | idle hw hnil =>
      obtain ⟨h1, h2, h3, h4, h5⟩ := hw.effect hP hT hO (List.nil_append _).symm
      rw [List.nil_append, hnil] at h2
      exact ⟨h1, h3, h4, fun _ => ⟨hnil, h5⟩, fun next rest heq => by rw [← h2] at heq; cases heq⟩
  | switch hw hr hcons =>
      obtain ⟨h1, h2, h3, h4, h5⟩ := hw.effect hP hT hO (List.nil_append _).symm
      rw [List.nil_append, hcons] at h2
      rw [hr] at h5
      refine ⟨h1, h3, h4, fun heq => ?_, fun next rest heq => ?_⟩
      · rw [heq] at h2
        cases h2
      · rw [heq] at h2
        cases h2
        exact ⟨by rw [← h5]; rfl, rfl⟩

/-- After a pass of the scheduler the processes whose timers have elapsed are ready, or run. -/
theorem ScheduleStep.wakes (h : ScheduleStep a a') (hP : a.ProcInv) (hT : a.TimerInv)
    (hO : InOrder a.awakeningTime before a.timerList) (hx : x ∈ a.elapsedPcbs) :
    x ∈ a'.procs .ready ∨ a'.running = some x := by
  have hs := h.scheduled hP hT hO
  have hmem := List.mem_append_left (a.procs .ready) hx
  cases hall : a.elapsedPcbs ++ a.procs .ready with
  | nil =>
      rw [hall] at hmem
      cases hmem
  | cons next rest =>
      obtain ⟨hready, hrun⟩ := hs.switch next rest hall
      rw [hall, List.mem_cons] at hmem
      rcases hmem with rfl | hmem
      · exact Or.inr hrun
      · rw [hready]
        exact Or.inl (List.mem_append_left _ hmem)

end Model

end DisastrOS
