import DisastrOS.Properties.Programs

/-!
# Delivery from the writer to the reader

When both programs have finished, the reader has received all messages of the writer, in order and
each once, unless one of the events was not safe: the reader finished before the writer had opened
the queue, a message was written into a full queue, or its block was refused by the queue.
-/

set_option autoImplicit false

namespace DisastrOS

open Runs Model

variable {counted : ProcList → Prop} {es : List (Event Kernel Action)} {s₀ s : Kernel}
  {e : Event Kernel Action} {a a' : Model} {x : Programs} {t t' : Progress} {p q : Addr}
  {mode : Int} {st : Stage}

/-! ## The processes and the queue -/

/-- Where the programs are in a state of the system. -/
structure Session (x : Programs) (t : Progress) (a : Model) : Prop where
  queue : .mq x.queue ∈ a.resourcesList
  id : a.resourceId (.mq x.queue) = x.id.toInt
  writer : a.Enrolled x.writer x.queue dsosWrite t.writer.stage
  reader : a.Enrolled x.reader x.queue dsosRead t.reader.stage
  todo : x.todo t <:+ x.messages

theorem not_operatesOn (h : Touches e x.queue x.id = false) : ¬ OperatesOn x.queue e := by
  rintro ⟨r, fd, p, length, hrun, hfd, hact | hact⟩
  · simp [Touches, hact, hrun, hfd] at h
  · simp [Touches, hact, hrun, hfd] at h

/-- A process stays at its stage if it does not open or close descriptors and nobody closes a
descriptor of the queue with its mode. -/
theorem Simulated.enrolled (h : Simulated counted e a a') (hE : a.Enrolled p q mode st)
    (hown : e.act.onDescriptors → e.pre.running = some p → st = .after)
    (hother : ∀ r fd mode', e.pre.running = some r → e.act = .syscall (.closeResource fd mode') →
      e.pre.queueByFd r fd.toInt = some q → mode'.toInt ≠ mode) : a'.Enrolled p q mode st := by
  by_cases hst : st = .after
  · subst hst
    trivial
  · refine hE.keep h.step h.inv h.inv' h.distinct (fun hd hrun => hst ?_) fun r fd mode' d hr hact
      hd hq => hother r fd mode' ?_ hact ?_
    · exact hown hd (h.pre.running_eq.trans hrun)
    · exact h.pre.running_eq.trans hr
    · rw [h.pre.queueByFd_eq h.inv.desc]
      simp only [Model.queueByFd, hd, Option.map_some, hq]

/-- The queue exists until it is destroyed. -/
theorem Session.keeps_queue (hS : Session x t a) (h : Simulated counted e a a')
    (hid : ∀ id, e.act = .syscall (.destroyResource id) → id ≠ x.id) :
    .mq x.queue ∈ a'.resourcesList ∧ a'.resourceId (.mq x.queue) = x.id.toInt := by
  have hkeep := h.step.keeps_resource h.inv hS.queue fun id hact heq =>
    hid id hact (Int32.toInt_inj.1 (heq.trans hS.id))
  exact ⟨hkeep.1, hkeep.2.trans hS.id⟩

/-- An event that leaves the programs alone. -/
theorem Session.idle (hS : Session x t a) (h : Simulated counted e a a')
    (hquiet : Touches e x.queue x.id = false)
    (hwriter : e.act.onDescriptors → e.pre.running = some x.writer → t.writer = .closed)
    (hreader : e.act.onDescriptors → e.pre.running = some x.reader → t.reader = .closed) :
    Session x t a' := by
  have hother : ∀ mode r fd (mode' : Int32), e.pre.running = some r →
      e.act = .syscall (.closeResource fd mode') → e.pre.queueByFd r fd.toInt = some x.queue →
      mode'.toInt ≠ mode := by
    intro mode r fd mode' hr hact hq
    simp [Touches, hact, hr, hq] at hquiet
  have hqueue := hS.keeps_queue h fun id hact heq => by simp [Touches, hact, heq] at hquiet
  refine ⟨hqueue.1, hqueue.2, h.enrolled hS.writer (fun hd hrun => ?_) (hother _),
    h.enrolled hS.reader (fun hd hrun => ?_) (hother _), hS.todo⟩
  · rw [hwriter hd hrun]
    rfl
  · rw [hreader hd hrun]
    rfl

/-- An open of the queue with an answer that is not negative. -/
theorem Simulated.enrolled_of_opens {id type mode : Int32} (h : Simulated counted e a a')
    (hrun : e.pre.running = some p) (hact : e.act = .syscall (.openResource id type mode))
    (hmode : Exclusive mode.toInt) (hpos : 0 ≤ e.post.syscallRetvalue p)
    (hq : .mq q ∈ a.resourcesList) (hid : a.resourceId (.mq q) = id.toInt)
    (hnil : a.descriptors p = []) :
    a'.Enrolled p q mode.toInt (.during (e.post.syscallRetvalue p)) := by
  have hret : e.post.syscallRetvalue p = a'.syscallRetvalue p := by rw [h.post.data]
  obtain ⟨hr, hs⟩ := h.handler hact hrun
  cases hs with
  | openResource hs =>
      obtain ⟨res, d, hfind, hds, hres, hfd⟩ := hs.opened hmode (hret ▸ hpos)
      have hbyId : a.resourceById id.toInt = some (.mq q) := hid ▸ h.inv.res.byId hq
      obtain rfl : res = .mq q := Option.some.inj (hfind.symm.trans hbyId)
      have hopen : OpensQueue e p q d mode.toInt := by
        refine ⟨hrun, ⟨id, type, mode, hact, rfl⟩, ?_, ?_⟩
        · rw [h.post.descriptorsOf_eq h.inv'.desc, h.pre.descriptorsOf_eq h.inv.desc]
          exact hds
        · rw [h.post.data]
          exact hres
      obtain ⟨k, hH⟩ := h.holds_of_opens hmode hopen
      have hsingle : a'.descriptors p = [d] := by
        rw [hds]
        exact congrArg (· ++ [d]) hnil
      refine ⟨d, k, hH, ?_⟩
      simp [descriptorByFd, hsingle, hfd, hret]

/-! ## The messages on their way -/

/-- The messages in the order in which they reach the reader: those it has received, those in the
queue, and those the writer has yet to write. -/
def Programs.flow (x : Programs) (t : Progress) (a : Model) : List Message :=
  t.received ++ a.contents x.queue ++ x.todo t

/-- What an event does to the messages: it keeps them, it loses one, or it tells the reader that
there will be no more. -/
inductive Effect (x : Programs) (t : Progress) (e : Event Kernel Action) (a : Model)
    (t' : Progress) (a' : Model) : Prop where
  | kept : x.Safe t e → x.flow t' a' = x.flow t a → t'.reader.drained = t.reader.drained →
      (t.reader.drained → t'.received = t.received) → (t.writer = .closed → t'.writer = .closed) →
      Effect x t e a t' a'
  | lost : ¬ x.Safe t e → (x.flow t' a').length < (x.flow t a).length →
      t'.reader.drained = t.reader.drained → t'.received = t.received → Effect x t e a t' a'
  | drains : t'.reader.drained → a'.contents x.queue = [] → x.flow t' a' = x.flow t a →
      t'.received = t.received → t'.writer = t.writer →
      (t.writer = .opening ∧ (x.Safe t e ↔ x.messages = []) ∨ t.writer = .closed ∧ x.Safe t e) →
      Effect x t e a t' a'

theorem safe_of_not_operatesOn (h : ¬ OperatesOn x.queue e) : x.Safe t e := by
  unfold Programs.Safe
  split
  · rename_i fd buf length r hact hrun
    exact fun hfd => absurd ⟨r, fd, buf, length, hrun, hfd, Or.inl hact⟩ h
  · rename_i fd msg length r hact hrun
    exact fun hfd => absurd ⟨r, fd, msg, length, hrun, hfd, Or.inr hact⟩ h
  · trivial

/-- Events other than reads and writes keep the messages. -/
theorem Effect.of_not_operatesOn (h : Simulated counted e a a') (hq : .mq x.queue ∈ a.resourcesList)
    (hq' : .mq x.queue ∈ a'.resourcesList) (hother : ¬ OperatesOn x.queue e)
    (htodo : x.todo t' = x.todo t) (hreceived : t'.received = t.received)
    (hdrained : t'.reader.drained = t.reader.drained)
    (hclosed : t.writer = .closed → t'.writer = .closed) : Effect x t e a t' a' := by
  refine .kept (safe_of_not_operatesOn hother) ?_ hdrained (fun _ => hreceived) hclosed
  rw [Programs.flow, Programs.flow, htodo, hreceived, h.contents_eq hq hq' hother]

/-! ## Reading and writing -/

/-- A completed call of `mq_write`, with what the process gets from it. -/
theorem Simulated.call_mqWrite {fd length : Int32} {msg : Int} {r : Addr}
    (h : Simulated counted e a a') (hrun : e.pre.running = some r)
    (hact : e.act = .syscall (.mqWrite fd msg length)) :
    e.pre.call (.mqWrite fd msg length) = .ok (e.post, some (e.post.syscallRetvalue r)) := by
  obtain ⟨hr, hs⟩ := h.handler hact hrun
  have hcompletes := h.completes
  rw [hact] at hcompletes
  have hrun' : e.post.running = some r := by
    rw [h.post.running_eq, (hs.sameProcesses rfl).running]
    exact hr
  rw [call_eq hrun, hcompletes.handler hrun, ok_bind, hrun']
  rfl

/-- A write of the writer: the message goes to the queue, stays with the writer, or is lost. -/
theorem Session.writes {fd length : Int32} {msg : Int} {m : Message} {todo : List Message}
    (hS : Session x t a) (h : Simulated exceptZombies e a a') (hrun : e.pre.running = some x.writer)
    (hw : t.writer = .writing fd.toInt (m :: todo))
    (hact : e.act = .syscall (.mqWrite fd msg length))
    (hm : m = (e.pre.bytes msg length.toInt, length.toInt))
    (hq' : .mq x.queue ∈ a'.resourcesList)
    (ht' : t' = { t with
      writer := .writing fd.toInt
        (if e.post.syscallRetvalue x.writer = dsosMessageQueueFull then m :: todo else todo) }) :
    Effect x t e a t' a' := by
  have htodo : x.todo t = m :: todo := by simp only [Programs.todo, hw]
  have hvalid := x.valid m (hS.todo.subset (htodo ▸ List.mem_cons_self))
  have hEnrolled := hS.writer
  rw [hw] at hEnrolled
  have hfd : e.pre.queueByFd x.writer fd.toInt = some x.queue := by
    rw [h.pre.queueByFd_eq h.inv.desc]
    exact hEnrolled.queueByFd
  have hsafe : x.Safe t e ↔ if ((e.pre.messagesOf x.queue).length : Int) = mForMq then
      e.pre.syscallRetvalue x.writer = dsosMessageQueueFull
      else ∀ m, e.pre.mAllocator.getBlock.1 = some m → e.pre.msgs.Unlinked m := by
    simp [Programs.Safe, hact, hrun, hfd]
  have hpre := h.pre.contents_eq h.inv hS.queue
  have hpost := h.post.contents_eq h.inv' hq'
  have hclosed : t.writer = .closed → t'.writer = .closed := fun hc => by rw [hw] at hc; cases hc
  have hreceived : t'.received = t.received := by rw [ht']
  have hdrained : t'.reader.drained = t.reader.drained := by rw [ht']
  have hsent : e.post.syscallRetvalue x.writer ≠ dsosMessageQueueFull → x.todo t' = todo :=
    fun hne => by simp only [ht', Programs.todo, if_neg hne]
  -- a message is not longer than the maximum, so its length is not the answer of a full queue
  have hnotFull : e.post.syscallRetvalue x.writer = length.toInt →
      e.post.syscallRetvalue x.writer ≠ dsosMessageQueueFull := by
    intro heq hfull
    have hlength : length.toInt = dsosMessageQueueFull := heq.symm.trans hfull
    rw [hm, hlength] at hvalid
    exact absurd (show 0 ≤ dsosMessageQueueFull from hvalid.1) (by decide)
  -- the writer goes on, but the queue has not got the message
  have hlost : x.todo t' = todo → a'.contents x.queue = a.contents x.queue →
      (x.flow t' a').length < (x.flow t a).length := by
    intro htodo' hcontents
    rw [Programs.flow, Programs.flow, htodo, htodo', hcontents, hreceived]
    simp
  cases h.pre.write_outcome h.inv hrun (h.call_mqWrite hrun hact) with
  | refused hwhy _ _ _ =>
      rw [hm] at hvalid
      rcases hwhy with hbad | hbad | hnone
      · exact absurd hvalid.1 (Int.not_le.2 hbad)
      · exact absurd hvalid.2 (Int.not_le.2 hbad)
      · rw [hfd] at hnone
        cases hnone
  | @full q _ _ hq hfull _ hv heq =>
      obtain rfl : x.queue = q := Option.some.inj (hfd.symm.trans hq)
      rw [if_pos hfull] at hsafe
      have hcontents : a'.contents x.queue = a.contents x.queue := by
        rw [← hpre, ← hpost, heq]
        rfl
      -- the answer of a full queue is the one of the previous call, right only by chance
      by_cases hstale : e.pre.syscallRetvalue x.writer = dsosMessageQueueFull
      · refine .kept (hsafe.2 hstale) ?_ hdrained (fun _ => hreceived) hclosed
        have hstays : x.todo t' = m :: todo := by
          simp only [ht', Programs.todo, if_pos (hv.trans hstale)]
        rw [Programs.flow, Programs.flow, hstays, htodo, hreceived, hcontents]
      · refine .lost (fun hs => hstale (hsafe.1 hs)) (hlost (hsent ?_) hcontents) hdrained hreceived
        rwa [hv]
  | @linked q m' _ _ hq hroom hblock hclean hv happended =>
      obtain rfl : x.queue = q := Option.some.inj (hfd.symm.trans hq)
      rw [if_neg hroom] at hsafe
      refine .kept (hsafe.2 fun b hb => ?_) ?_ hdrained (fun _ => hreceived) hclosed
      · obtain rfl : m' = b := Option.some.inj (hblock.symm.trans hb)
        exact hclean
      · obtain ⟨q', hq'', hcontents, -⟩ := happended
        obtain rfl : x.queue = q' := Option.some.inj (hfd.symm.trans hq'')
        rw [hpost, hpre, ← hm] at hcontents
        rw [Programs.flow, Programs.flow, hsent (hnotFull hv), htodo, hreceived, hcontents]
        simp
  | @dropped q m' _ _ hq hroom hblock hlinked hv hsame =>
      obtain rfl : x.queue = q := Option.some.inj (hfd.symm.trans hq)
      rw [if_neg hroom] at hsafe
      have hcontents : a'.contents x.queue = a.contents x.queue := by
        rw [← hpre, ← hpost]
        exact hsame _ ((h.pre.live_iff h.inv).2 hS.queue)
      exact .lost (fun hs => hlinked (hsafe.1 hs m' hblock)) (hlost (hsent (hnotFull hv)) hcontents)
        hdrained hreceived

/-- A read of the reader: it takes a message out of the queue, or it gets none. -/
theorem Session.reads {fd length : Int32} {buf : Int} (hS : Session x t a)
    (h : Simulated exceptZombies e a a') (hrun : e.pre.running = some x.reader)
    (hr : t.reader = .reading fd.toInt) (hact : e.act = .syscall (.mqRead fd buf length))
    (hq' : .mq x.queue ∈ a'.resourcesList)
    (ht' : t' = { t with
      reader := if e.post.syscallRetvalue x.reader = dsosMessageQueueEmpty
        then .closing fd.toInt else .reading fd.toInt
      received := t.received ++ (received x.queue e).toList }) :
    Effect x t e a t' a' := by
  have hEnrolled := hS.reader
  rw [hr] at hEnrolled
  have hfd := hEnrolled.queueByFd
  have hfd' : e.pre.queueByFd x.reader fd.toInt = some x.queue :=
    (h.pre.queueByFd_eq h.inv.desc ..).trans hfd
  have hpre := h.pre.contents_eq h.inv hS.queue
  have hwriter : e.pre.writingPid = a.writingPid := by rw [h.pre.data]
  have htransfer := h.transfer hS.queue hq'
  have hsent : sent x.queue e = none := by simp [sent, hact]
  rw [hsent, hpre, h.post.contents_eq h.inv' hq', Option.toList_none, List.append_nil] at htransfer
  have hflow : x.flow t' a' = x.flow t a := by
    rw [Programs.flow, Programs.flow, htransfer, ht']
    simp [Programs.todo]
  have hsafe : x.Safe t e ↔ (t.writer = .opening → a.contents x.queue = [] →
      a.writingPid x.queue = none → x.messages = []) := by
    simp [Programs.Safe, hact, hrun, hfd', hpre, hwriter]
  -- the reader stops when the queue is empty and no writer is registered
  have hanswer : e.post.syscallRetvalue x.reader = dsosMessageQueueEmpty ↔
      a.msgs x.queue = [] ∧ a.writingPid x.queue = none := by
    obtain ⟨hr, hs⟩ := h.handler hact hrun
    rw [h.post.data]
    cases hs with
    | mqRead hs => exact hs.empty_answer_iff hfd (h.inv.enter hr _).msg
  by_cases hempty : e.post.syscallRetvalue x.reader = dsosMessageQueueEmpty
  · obtain ⟨hmsgs, hnone⟩ := hanswer.1 hempty
    have hnil : a.contents x.queue = [] := by rw [Model.contents, hmsgs, List.map_nil]
    rw [hnil] at htransfer hsafe
    obtain ⟨hreceived, hcontents⟩ := List.append_eq_nil_iff.1 htransfer.symm
    refine .drains ?_ hcontents hflow ?_ (by rw [ht']) ?_
    · rw [ht', if_pos hempty]
      rfl
    · rw [ht', hreceived, List.append_nil]
    · have hE := hS.writer
      cases hw : t.writer with
      | opening =>
          -- the writer has not opened the queue yet: the reader stops too early
          refine Or.inl ⟨rfl, hsafe.trans ⟨fun h => h hw rfl hnone, fun h _ _ _ => h⟩⟩
      | writing n todo =>
          rw [hw] at hE
          obtain ⟨d, k, hH, -⟩ := hE
          have hset : a.writingPid x.queue = some k := hH.registration
          rw [hnone] at hset
          cases hset
      | closed =>
          refine Or.inr ⟨rfl, hsafe.2 fun hc => ?_⟩
          rw [hw] at hc
          cases hc
  · refine .kept (hsafe.2 fun _ hnil hnone => absurd (hanswer.2 ⟨?_, hnone⟩) hempty) hflow ?_
      (fun hd => ?_) fun hc => by rw [ht']; exact hc
    · exact List.map_eq_nil_iff.1 hnil
    · rw [ht', if_neg hempty, hr]
    · rw [hr] at hd
      cases hd

/-! ## One event -/

/-- An event that opens or closes descriptors reads and writes no messages. -/
theorem not_operatesOn_of_onDescriptors {q : Addr} (h : e.act.onDescriptors) :
    ¬ OperatesOn q e := by
  rintro ⟨_, _, _, _, -, -, hact | hact⟩
  · rw [hact] at h
    cases h
  · rw [hact] at h
    cases h

/-- What an event that belongs to the programs does. -/
theorem Turn.effect (hturn : Turn x t e t') (h : Simulated exceptZombies e a a')
    (hS : Session x t a) : Session x t' a' ∧ Effect x t e a t' a' := by
  have hmodes : dsosWrite ≠ dsosRead := by decide
  cases hturn with
  | idle hquiet hwriter hreader =>
      have hS' := hS.idle h hquiet hwriter hreader
      exact ⟨hS', .of_not_operatesOn h hS.queue hS'.queue (not_operatesOn hquiet) rfl rfl rfl id⟩
  | @opensWriting type mode hrun hw hact hmode hpos =>
      have hqueue := hS.keeps_queue h (by simp [hact])
      have hnil := hS.writer
      rw [hw] at hnil
      have hopened := h.enrolled_of_opens hrun hact (Or.inr hmode) hpos hS.queue hS.id hnil
      have hreader := h.enrolled hS.reader
        (fun _ hrun' => absurd (Option.some.inj (hrun.symm.trans hrun')) x.different)
        (by simp [hact])
      have htodo : x.todo t = x.messages := by simp only [Programs.todo, hw]
      refine ⟨⟨hqueue.1, hqueue.2, hmode ▸ hopened, hreader, List.suffix_refl _⟩, ?_⟩
      have hno := not_operatesOn_of_onDescriptors (q := x.queue) (by rw [hact]; rfl)
      refine .of_not_operatesOn h hS.queue hqueue.1 hno htodo.symm rfl rfl fun hc => ?_
      rw [hw] at hc
      cases hc
  | @writes fd length msg m todo hrun hw hact hm =>
      have hqueue := hS.keeps_queue h (by simp [hact])
      have hkept : e.act.onDescriptors = false := by rw [hact]; rfl
      have hwriter := h.enrolled hS.writer (by simp [hkept]) (by simp [hact])
      have hreader := h.enrolled hS.reader (by simp [hkept]) (by simp [hact])
      rw [hw] at hwriter
      have htodo := hS.todo
      simp only [Programs.todo, hw] at htodo
      refine ⟨⟨hqueue.1, hqueue.2, hwriter, hreader, ?_⟩,
        hS.writes h hrun hw hact hm hqueue.1 rfl⟩
      show (if _ then m :: todo else todo) <:+ x.messages
      split
      · exact htodo
      · exact (List.suffix_cons m todo).trans htodo
  | @closesWriting fd mode hrun hw hact hmode =>
      have hqueue := hS.keeps_queue h (by simp [hact])
      have hreader := h.enrolled hS.reader
        (fun _ hrun' => absurd (Option.some.inj (hrun.symm.trans hrun')) x.different)
        (fun r fd' mode' _ hact' _ => by
          rw [hact, Action.syscall.injEq, Syscall.closeResource.injEq] at hact'
          rw [← hact'.2, hmode]
          exact hmodes)
      have htodo : x.todo t = [] := by simp only [Programs.todo, hw]
      refine ⟨⟨hqueue.1, hqueue.2, trivial, hreader, List.nil_suffix⟩, ?_⟩
      have hno := not_operatesOn_of_onDescriptors (q := x.queue) (by rw [hact]; rfl)
      exact .of_not_operatesOn h hS.queue hqueue.1 hno htodo.symm rfl rfl fun _ => rfl
  | @opensReading type mode hrun hr hact hmode hpos =>
      have hqueue := hS.keeps_queue h (by simp [hact])
      have hnil := hS.reader
      rw [hr] at hnil
      have hopened := h.enrolled_of_opens hrun hact (Or.inl hmode) hpos hS.queue hS.id hnil
      have hwriter := h.enrolled hS.writer
        (fun _ hrun' => absurd (Option.some.inj (hrun'.symm.trans hrun)) x.different)
        (by simp [hact])
      refine ⟨⟨hqueue.1, hqueue.2, hwriter, hmode ▸ hopened, hS.todo⟩, ?_⟩
      have hno := not_operatesOn_of_onDescriptors (q := x.queue) (by rw [hact]; rfl)
      exact .of_not_operatesOn h hS.queue hqueue.1 hno rfl rfl (by rw [hr]; rfl) id
  | @reads fd length buf hrun hr hact =>
      have hqueue := hS.keeps_queue h (by simp [hact])
      have hkept : e.act.onDescriptors = false := by rw [hact]; rfl
      have hwriter := h.enrolled hS.writer (by simp [hkept]) (by simp [hact])
      have hreader := h.enrolled hS.reader (by simp [hkept]) (by simp [hact])
      rw [hr] at hreader
      refine ⟨⟨hqueue.1, hqueue.2, hwriter, ?_, hS.todo⟩, hS.reads h hrun hr hact hqueue.1 rfl⟩
      show a'.Enrolled _ _ _ (ReaderState.stage (if _ then _ else _))
      split
      · exact hreader
      · exact hreader
  | @closesReading fd mode hrun hr hact hmode =>
      have hqueue := hS.keeps_queue h (by simp [hact])
      have hwriter := h.enrolled hS.writer
        (fun _ hrun' => absurd (Option.some.inj (hrun'.symm.trans hrun)) x.different)
        (fun r fd' mode' _ hact' _ => by
          rw [hact, Action.syscall.injEq, Syscall.closeResource.injEq] at hact'
          rw [← hact'.2, hmode]
          exact hmodes.symm)
      refine ⟨⟨hqueue.1, hqueue.2, hwriter, trivial, hS.todo⟩, ?_⟩
      have hno := not_operatesOn_of_onDescriptors (q := x.queue) (by rw [hact]; rfl)
      exact .of_not_operatesOn h hS.queue hqueue.1 hno rfl rfl (by rw [hr]; rfl) id

/-! ## Runs of the programs -/

/-- No message is lost, and the reader has not been told too early that there are no more. -/
structure Complete (x : Programs) (t : Progress) (a : Model) : Prop where
  flow : x.flow t a = x.messages
  drained : t.reader.drained → x.messages = [] ∨ t.writer = .closed ∧ a.contents x.queue = []

/-- Some message will never reach the reader. -/
def Short (x : Programs) (t : Progress) (a : Model) : Prop :=
  (x.flow t a).length < x.messages.length ∨
    t.reader.drained ∧ t.received.length < x.messages.length

theorem Effect.complete (h : Effect x t e a t' a') (hC : Complete x t a) (hsafe : x.Safe t e) :
    Complete x t' a' := by
  cases h with
  | kept _ hflow hdrained hreceived hclosed =>
      refine ⟨hflow.trans hC.flow, fun hd => ?_⟩
      rw [hdrained] at hd
      rcases hC.drained hd with hnil | ⟨hw, hcontents⟩
      · exact Or.inl hnil
      · have htodo : x.todo t = [] := by simp only [Programs.todo, hw]
        have htodo' : x.todo t' = [] := by simp only [Programs.todo, hclosed hw]
        rw [Programs.flow, Programs.flow, hreceived hd, hcontents, htodo, htodo'] at hflow
        exact Or.inr ⟨hclosed hw, by simpa using hflow⟩
  | lost hbad _ _ _ => exact absurd hsafe hbad
  | drains _ hcontents hflow _ hwriter hcases =>
      refine ⟨hflow.trans hC.flow, fun _ => ?_⟩
      rcases hcases with ⟨-, hiff⟩ | ⟨hw, -⟩
      · exact Or.inl (hiff.1 hsafe)
      · exact Or.inr ⟨hwriter.trans hw, hcontents⟩

theorem Effect.short_of_unsafe (h : Effect x t e a t' a') (hC : Complete x t a)
    (hbad : ¬ x.Safe t e) : Short x t' a' := by
  cases h with
  | kept hsafe _ _ _ _ => exact absurd hsafe hbad
  | lost _ hless _ _ =>
      rw [hC.flow] at hless
      exact Or.inl hless
  | drains hdrained hcontents hflow hreceived hwriter hcases =>
      rcases hcases with ⟨hw, hiff⟩ | ⟨-, hsafe⟩
      · refine Or.inr ⟨hdrained, ?_⟩
        have htodo : x.todo t' = x.messages := by simp only [Programs.todo, hwriter, hw]
        rw [hC.flow, Programs.flow, htodo, hcontents] at hflow
        have hnil : t'.received = [] := by simpa using hflow
        rw [hnil]
        exact List.length_pos_iff.2 fun hm => hbad (hiff.2 hm)
      · exact absurd hsafe hbad

theorem Effect.short (h : Effect x t e a t' a') (hS : Short x t a) : Short x t' a' := by
  cases h with
  | kept _ hflow hdrained hreceived _ =>
      rw [Short, hflow, hdrained]
      exact hS.imp_right fun hd => ⟨hd.1, by rw [hreceived hd.1]; exact hd.2⟩
  | lost _ hless hdrained hreceived =>
      rw [Short, hdrained, hreceived]
      exact hS.imp_left fun h => Nat.lt_trans hless h
  | drains hdrained _ hflow hreceived _ _ =>
      rw [Short, hflow, hreceived]
      exact hS.imp_right fun hd => ⟨hdrained, hd.2⟩

/-- When both programs have finished, all messages have arrived or some are missing. -/
theorem Complete.delivered (hC : Complete x t a) (hdone : t.Done) :
    t.received = x.messages ∧ a.contents x.queue = [] := by
  have hflow := hC.flow
  have htodo : x.todo t = [] := by simp only [Programs.todo, hdone.1]
  rw [Programs.flow, htodo, List.append_nil] at hflow
  rcases hC.drained (by rw [hdone.2]; rfl) with hnil | ⟨-, hcontents⟩
  · obtain ⟨hreceived, hcontents⟩ := List.append_eq_nil_iff.1 (hflow.trans hnil)
    exact ⟨hreceived.trans hnil.symm, hcontents⟩
  · rw [hcontents, List.append_nil] at hflow
    exact ⟨hflow, hcontents⟩

theorem Short.not_delivered (hS : Short x t a) (hdone : t.Done) :
    ¬ (t.received = x.messages ∧ a.contents x.queue = []) := by
  rintro ⟨hreceived, hcontents⟩
  have htodo : x.todo t = [] := by simp only [Programs.todo, hdone.1]
  rcases hS with hless | ⟨-, hless⟩
  · rw [Programs.flow, hreceived, hcontents, htodo] at hless
    simp at hless
  · rw [hreceived] at hless
    exact absurd hless (Nat.lt_irrefl _)

/-- Every event of the programs is safe. -/
def Programs.SafeRun (x : Programs) (es : List (Event Kernel Action)) : Prop :=
  Throughout (fun fs e => ∀ t, x.follow fs = some t → x.Safe t e) es

theorem follow_concat (h : x.follow (es ++ [e]) = some t') :
    ∃ t, x.follow es = some t ∧ x.next t e = some t' := by
  rw [Programs.follow, List.foldlM_append] at h
  cases hfollow : x.follow es with
  | none =>
      rw [Programs.follow] at hfollow
      simp [hfollow] at h
  | some t =>
      rw [Programs.follow] at hfollow
      exact ⟨t, rfl, by simpa [hfollow] using h⟩

/-- The programs start with all messages still to be written. -/
theorem Refines.ready (hR : Refines exceptZombies s a) (hI : a.Inv) (hready : x.Ready s) :
    Session x Programs.start a ∧ Complete x Programs.start a := by
  have hlive := (hR.live_iff hI).1 hready.live
  have hid := hready.id
  rw [hR.data] at hid
  refine ⟨⟨hlive, hid, ?_, ?_, List.suffix_refl _⟩, ?_, fun hd => by cases hd⟩
  · exact (hR.descriptorsOf_eq hI.desc _).symm.trans hready.writer
  · exact (hR.descriptorsOf_eq hI.desc _).symm.trans hready.reader
  · rw [Programs.flow, ← hR.contents_eq hI hlive, hready.empty]
    rfl

/-- When both programs have finished, the reader has received exactly the messages of the writer in
their order, and the queue is empty, if and only if every event was safe. -/
theorem delivery (hs : Reachable s₀) (hready : x.Ready s₀) (hrun : Run Kernel.Completes s₀ es s)
    (hfollow : x.follow es = some t) (hdone : t.Done) :
    (t.received = x.messages ∧ s.contents x.queue = []) ↔ x.SafeRun es := by
  obtain ⟨fs, hfs⟩ := hs
  obtain ⟨a₀, hR₀, hI₀⟩ := hfs.refines
  obtain ⟨hS₀, hC₀⟩ := hR₀.ready hI₀ hready
  -- as long as every event was safe all messages are on their way, from then on some are lost
  obtain ⟨a, hR, hI, hJ⟩ := hR₀.invariant (P := fun _ _ => True)
    (J := fun es a => ∀ t, x.follow es = some t → Session x t a ∧
      (x.SafeRun es ∧ Complete x t a ∨ ¬ x.SafeRun es ∧ Short x t a))
    hI₀ (fun t ht => by
      obtain rfl : Programs.start = t := Option.some.inj ht
      exact ⟨hS₀, Or.inl ⟨throughout_nil _, hC₀⟩⟩)
    hrun (fun _ _ _ _ => trivial)
    fun es e a a' hJ hsim _ t' ht' => by
      obtain ⟨t, ht, hnext⟩ := follow_concat ht'
      obtain ⟨hS, hcases⟩ := hJ t ht
      -- the turn of the programs decides between the two cases
      obtain ⟨hS', heffect⟩ := (Programs.next_turn hnext).effect hsim hS
      have hsafe : x.SafeRun (es ++ [e]) ↔ x.SafeRun es ∧ x.Safe t e := by
        rw [Programs.SafeRun, throughout_concat, ht]
        exact and_congr_right fun _ => ⟨fun h => h t rfl, fun h u hu => Option.some.inj hu ▸ h⟩
      refine ⟨hS', ?_⟩
      rw [hsafe]
      rcases hcases with ⟨hrun, hC⟩ | ⟨hrun, hshort⟩
      · by_cases hnow : x.Safe t e
        · exact Or.inl ⟨⟨hrun, hnow⟩, heffect.complete hC hnow⟩
        · exact Or.inr ⟨fun h => hnow h.2, heffect.short_of_unsafe hC hnow⟩
      · exact Or.inr ⟨fun h => hrun h.1, heffect.short hshort⟩
  obtain ⟨hS, hcases⟩ := hJ t hfollow
  rw [hR.contents_eq hI hS.queue]
  rcases hcases with ⟨hsafe, hC⟩ | ⟨hbad, hshort⟩
  · exact iff_of_true (hC.delivered hdone) hsafe
  · exact iff_of_false (hshort.not_delivered hdone) hbad

/-! ## Concrete runs -/

/-- Two messages; the writer, process 17544, opens the queue first. -/
def twoMessages : Programs where
  queue := 0
  id := 1
  writer := 17544
  reader := 35088
  messages := [([7], 1), ([0, 0], 2)]
  different := by decide
  valid := by decide

/-- One message; the reader, process 17544, is dispatched first. -/
def readerFirst : Programs where
  queue := 0
  id := 1
  writer := 35088
  reader := 17544
  messages := [([0], 1)]
  different := by decide
  valid := by decide

/-- The test of the state in which the programs start. -/
def readyTest (x : Programs) (s : Kernel) : Bool :=
  s.Live x.queue ∧ s.resourceId (.mq x.queue) = x.id.toInt ∧ s.contents x.queue = [] ∧
    s.descriptorsOf x.writer = [] ∧ s.descriptorsOf x.reader = []

theorem ready_of_test (h : readyTest x s) : x.Ready s := by
  obtain ⟨hlive, hid, hempty, hwriter, hreader⟩ := of_decide_eq_true h
  exact ⟨hlive, hid, hempty, hwriter, hreader⟩

/-- The reader receives both messages. -/
theorem delivery_two : ∃ (es : List (Event Kernel Action)) (s : Kernel) (t : Progress),
    twoMessages.follow es = some t ∧ t.received = [([7], 1), ([0, 0], 2)] ∧
      ((t.received = twoMessages.messages ∧ s.contents twoMessages.queue = []) ↔
        twoMessages.SafeRun es) := by
  obtain ⟨es, s, hrun, hp⟩ := exists_of_executes
    [.syscall (.openResource 1 1 1), .syscall (.spawn 1 0), .syscall (.spawn 1 0),
      .syscall (.wait 0 0), .syscall (.openResource 1 1 3), .store 100 7,
      .syscall (.mqWrite 0 100 1), .syscall .preempt, .syscall (.openResource 1 1 2),
      .syscall (.mqRead 0 200 128), .syscall .preempt, .syscall (.mqWrite 0 300 2),
      .syscall (.closeResource 0 3), .tick, .syscall (.mqRead 0 200 128),
      .syscall (.mqRead 0 200 128), .syscall (.closeResource 0 2)]
    (fun es _ => match es with
      | _ :: _ :: _ :: e :: gs => readyTest twoMessages e.pre ∧ twoMessages.follow (e :: gs) =
          some ⟨.closed, .closed, [([7], 1), ([0, 0], 2)]⟩
      | _ => false) (by decide +kernel)
  split at hp
  · rename_i e₁ e₂ e₃ e gs
    obtain ⟨hready, hfollow⟩ := of_decide_eq_true hp
    have hrun' : SystemRun ([e₁, e₂, e₃] ++ e :: gs) s := hrun
    obtain ⟨hreach, hrest⟩ := hrun'.from_event
    exact ⟨e :: gs, s, _, hfollow, rfl,
      delivery hreach (ready_of_test hready) hrest hfollow ⟨rfl, rfl⟩⟩
  · cases hp

/-- The reader finds no writer yet, is told that the queue is empty, and finishes; the message that
is written afterwards stays in the queue. -/
theorem delivery_missed : ∃ (x : Programs) (es : List (Event Kernel Action)) (s₀ s : Kernel)
    (t : Progress), Reachable s₀ ∧ x.Ready s₀ ∧ Run Kernel.Completes s₀ es s ∧
      x.follow es = some t ∧ t.Done ∧ ¬ (t.received = x.messages ∧ s.contents x.queue = []) := by
  obtain ⟨es, s, hrun, hp⟩ := exists_of_executes
    [.syscall (.openResource 1 1 1), .syscall (.spawn 1 0), .syscall (.spawn 1 0),
      .syscall (.wait 0 0), .syscall (.openResource 1 1 2), .syscall (.mqRead 0 200 128),
      .syscall (.closeResource 0 2), .syscall .preempt, .syscall (.openResource 1 1 3),
      .syscall (.mqWrite 0 100 1), .syscall (.closeResource 0 3)]
    (fun es _ => match es with
      | _ :: _ :: _ :: e :: gs => readyTest readerFirst e.pre ∧
          readerFirst.follow (e :: gs) = some ⟨.closed, .closed, []⟩
      | _ => false) (by decide +kernel)
  split at hp
  · rename_i e₁ e₂ e₃ e gs
    obtain ⟨hready, hfollow⟩ := of_decide_eq_true hp
    have hrun' : SystemRun ([e₁, e₂, e₃] ++ e :: gs) s := hrun
    obtain ⟨hreach, hrest⟩ := hrun'.from_event
    exact ⟨readerFirst, e :: gs, e.pre, s, _, hreach, ready_of_test hready, hrest, hfollow,
      ⟨rfl, rfl⟩, fun h => by cases h.1⟩
  · cases hp

end DisastrOS
