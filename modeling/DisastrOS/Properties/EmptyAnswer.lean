import DisastrOS.Abstract.Writers
import DisastrOS.Properties.MessageIntegrity
import DisastrOS.Properties.PcbPtrs

/-!
# The answer of an empty queue

On an empty queue `mq_read` answers by `writing_pid` only. The answer is right as long as
`writing_pid` is: every open for writing sets it, and only a `closeResource` with the mode for
writing resets it, whoever makes it and whichever descriptor is closed.
-/

set_option autoImplicit false

namespace DisastrOS

open Runs Model

variable {counted : ProcList → Prop} {es fs gs : List (Event Kernel Action)} {s : Kernel}
  {e : Event Kernel Action} {a a' : Model} {q d : Addr}

/-- The mode of an `openResource`. -/
def Action.openMode : Action → Option Int
  | .syscall (.openResource _ _ mode) => some mode.toInt
  | _ => none

/-- In this event an `openResource` gives the running process the descriptor `d`. -/
def Obtains (e : Event Kernel Action) (d : Addr) : Prop :=
  e.act.openMode ≠ none ∧
    ∃ r ∈ e.pre.running, e.post.descriptorsOf r = e.pre.descriptorsOf r ++ [d]

instance (e : Event Kernel Action) (d : Addr) : Decidable (Obtains e d) :=
  inferInstanceAs (Decidable (_ ∧ _))

/-- The mode with which the descriptor `d` was opened last. -/
def openedWith (fs : List (Event Kernel Action)) (d : Addr) : Option Int :=
  (fs.filter fun e => Obtains e d).getLast?.bind fun e => e.act.openMode

/-- A process that has not exited holds a descriptor of the queue that it has opened for writing. -/
def HasWriter (fs : List (Event Kernel Action)) (s : Kernel) (q : Addr) : Prop :=
  ∃ p d, s.Alive p ∧ d ∈ s.descriptorsOf p ∧ s.desResource d = .mq q ∧
    openedWith fs d = some dsosWrite

/-- If this is an `mq_read` on an empty queue, then it answers that a message is awaited if there is
a writer, and otherwise that the queue is empty. -/
def EmptyAnswer (fs : List (Event Kernel Action)) (e : Event Kernel Action) : Prop :=
  ∀ r fd buf length q, e.pre.running = some r → e.act = .syscall (.mqRead fd buf length) →
    e.pre.queueByFd r fd.toInt = some q → e.pre.messagesOf q = [] →
    (e.post.syscallRetvalue r = dsosWaitingForMessage ↔ HasWriter fs e.pre q) ∧
      (¬ HasWriter fs e.pre q → e.post.syscallRetvalue r = dsosMessageQueueEmpty)

/-- The registrations with the queues that exist are those of processes that have not exited. -/
def RegisteredAlive (s : Kernel) : Prop :=
  ∀ q mode k, s.Live q → s.registration q mode = some k →
    s.pcbAllocator.handedOut (s.ptrPcb k) ∧ s.Alive (s.ptrPcb k)

/-- The event keeps the registrations right. An exit is made by a process that is not registered. A
queue is created in a block without the registration of a writer, and of a reader that has exited.
An open for writing that registers gets a descriptor. If the queue of a descriptor that is closed
has a registration for writing, then the descriptor is closed with the mode for writing if it was
opened with it, and only then. -/
def WriterCondition (fs : List (Event Kernel Action)) (e : Event Kernel Action) : Prop :=
  match e.act with
  | .syscall (.exit _) => ∀ r ∈ e.pre.running, ∀ res ∈ e.pre.resources,
      ∀ k ∈ e.pre.registrationsOf res, e.pre.ptrPcb k ≠ r
  | .syscall (.openResource id type mode) =>
      (mode.toInt = dsosCreate → type.toInt = messageQueueType →
        (∀ res ∈ e.pre.resources, e.pre.resourceId res ≠ id.toInt) →
        ∀ q ∈ e.pre.mqAllocator.getBlock.1, e.pre.writingPid q = none ∧
          ∀ k ∈ e.pre.readingPid q, e.pre.Alive (e.pre.ptrPcb k)) ∧
      (mode.toInt = dsosWrite → type.toInt = messageQueueType →
        ∀ q ∈ e.pre.queueById id.toInt, e.pre.writingPid q = none →
          e.pre.descriptorAllocator.getBlock.1 ≠ none)
  | .syscall (.closeResource fd mode) => ∀ r ∈ e.pre.running,
      ∀ d, e.pre.descriptorListByFd r fd.toInt = .ok (some d) →
      ∀ q ∈ e.pre.queueByFd r fd.toInt, e.pre.writingPid q ≠ none →
        (mode.toInt = dsosWrite ↔ openedWith fs d = some dsosWrite)
  | _ => True

/-- A test that implies `WriterCondition`. A queue that is created is in a block without any
registration. -/
def writerTest (fs : List (Event Kernel Action)) (e : Event Kernel Action) : Bool :=
  match e.act with
  | .syscall (.exit _) => ∀ r ∈ e.pre.running, ∀ res ∈ e.pre.resources,
      ∀ k ∈ e.pre.registrationsOf res, e.pre.ptrPcb k ≠ r
  | .syscall (.openResource id _ mode) =>
      (mode.toInt = dsosCreate →
        ∀ q ∈ e.pre.mqAllocator.getBlock.1, e.pre.writingPid q = none ∧ e.pre.readingPid q = none) ∧
      (mode.toInt = dsosWrite →
        ∀ q ∈ e.pre.queueById id.toInt, e.pre.writingPid q = none →
          e.pre.descriptorAllocator.getBlock.1 ≠ none)
  | .syscall (.closeResource fd mode) => ∀ r ∈ e.pre.running,
      ∀ d ∈ (e.pre.descriptorListByFd r fd.toInt).toOption.join,
        (mode.toInt = dsosWrite ↔ openedWith fs d = some dsosWrite)
  | _ => true

theorem WriterCondition.of_test (h : writerTest fs e = true) : WriterCondition fs e := by
  unfold WriterCondition
  split
  · rename_i hact
    simpa only [writerTest, hact, decide_eq_true_eq] using h
  · rename_i id type mode hact
    simp only [writerTest, hact, decide_eq_true_eq] at h
    obtain ⟨hcreate, hwrite⟩ := h
    constructor
    · intro hmode _ _ q hq
      obtain ⟨hwriting, hreading⟩ := hcreate hmode q hq
      refine ⟨hwriting, fun k hk => ?_⟩
      rw [hreading] at hk
      cases hk
    · intro hmode _
      exact hwrite hmode
  · rename_i fd mode hact
    intro r hr d hd q _ _
    simp only [writerTest, hact, decide_eq_true_eq] at h
    apply h r hr d
    rw [hd]
    rfl
  · trivial

/-! ## One event -/

theorem openedWith_concat : openedWith (fs ++ [e]) d =
    if Obtains e d then e.act.openMode else openedWith fs d := by
  simp only [openedWith, List.filter_append, List.filter_cons, List.filter_nil, decide_eq_true_eq]
  split
  · simp
  · simp

theorem Action.openMode_ne_none {act : Action} :
    act.openMode ≠ none ↔ ∃ id type mode, act = .syscall (.openResource id type mode) := by
  constructor
  · intro h
    unfold openMode at h
    split at h
    · exact ⟨_, _, _, rfl⟩
    · exact absurd rfl h
  · rintro ⟨id, type, mode, rfl⟩
    exact Option.some_ne_none _

/-- A process obtains a descriptor where its list grows by it. -/
theorem Simulated.obtains_iff (h : Simulated counted e a a') : Obtains e d ↔
    ∃ r id type mode, a.running = some r ∧ e.act = .syscall (.openResource id type mode) ∧
      a'.descriptors r = a.descriptors r ++ [d] := by
  simp only [Obtains, Action.openMode_ne_none, h.pre.running_eq, h.pre.descriptorsOf_eq h.inv.desc,
    h.post.descriptorsOf_eq h.inv'.desc]
  constructor
  · rintro ⟨⟨id, type, mode, hact⟩, r, hr, hd⟩
    exact ⟨r, id, type, mode, hr, hact, hd⟩
  · rintro ⟨r, id, type, mode, hr, hact, hd⟩
    exact ⟨⟨id, type, mode, hact⟩, r, hr, hd⟩

/-- The descriptors that were opened last for writing. -/
def OpenedForWriting (fs : List (Event Kernel Action)) (d : Addr) : Prop :=
  openedWith fs d = some dsosWrite

theorem Simulated.tokens (h : Simulated counted e a a') :
    a.Tokens e.act a' (OpenedForWriting fs) (OpenedForWriting (fs ++ [e])) := by
  constructor
  · intro r id type mode d hr hact hd
    have hobtains := h.obtains_iff.2 ⟨r, id, type, mode, hr, hact, hd⟩
    rw [OpenedForWriting, openedWith_concat, if_pos hobtains, hact]
    exact Option.some_inj
  · intro d hno
    rw [OpenedForWriting, openedWith_concat, if_neg]
    · rfl
    · rw [h.obtains_iff]
      rintro ⟨r, id, type, mode, hr, hact, hd⟩
      exact hno r id type mode hr hact hd

/-- The condition on the event is the one on the transition. -/
theorem Simulated.keepsWriters (h : Simulated counted e a a') (hsafe : WriterCondition fs e) :
    a.KeepsWriters (OpenedForWriting fs) e.act := by
  unfold WriterCondition at hsafe
  cases hact : e.act with
  | tick => trivial
  | store _ _ => trivial
  | syscall c =>
      rw [hact] at hsafe
      cases c with
      | exit v =>
          intro r hr q mode k hq hk
          rw [← h.pre.running_eq] at hr
          have hne := hsafe r hr (.mq q) ((h.pre.live_iff h.inv).2 hq) k
          rw [h.pre.data] at hne
          exact hne (Resources.mem_registrationsOf.2 ⟨mode, hk⟩)
      | openResource id type mode =>
          obtain ⟨hcreate, hwrite⟩ := hsafe
          constructor
          · intro hmode htype hnone q hq
            rw [h.pre.resources_eq h.inv.res, h.pre.mqs.getBlock_head] at hcreate
            have hfree := hcreate hmode htype (fun res hres hid => ?_) q hq
            · rw [h.pre.data] at hfree
              exact ⟨hfree.1, fun k hk => (h.pre.alive_iff h.inv.proc).1 (hfree.2 k hk)⟩
            · rw [h.pre.data] at hid
              simpa [hid] using List.find?_eq_none.1 hnone res hres
          · intro hmode htype q hq hnone
            have hget := hwrite hmode htype q ((h.pre.queueById_eq h.inv.res _).trans hq)
            rw [h.pre.data, h.pre.freeDescriptors.getBlock_head, ne_eq, List.head?_eq_none_iff] at hget
            exact hget hnone
      | closeResource fd mode =>
          intro r hr d hd q hq hset
          have hqueue : a.queueByFd r fd.toInt = some q := by
            rw [Option.mem_def] at hd
            rw [queueByFd, hd, Option.map_some, hq]
          rw [h.pre.data] at hsafe
          exact hsafe r hr d ((h.pre.descriptorListByFd_eq h.inv.desc r _).trans (congrArg _ hd)) q
            ((h.pre.queueByFd_eq h.inv.desc r _).trans hqueue) hset
      | _ => trivial

/-! ## Runs -/

/-- The invariants of a run that keeps the registrations right. -/
structure AnswerInv (fs : List (Event Kernel Action)) (a : Model) : Prop where
  entries : a.RegInv
  alive : a.RegAlive
  writers : a.WriterInv (OpenedForWriting fs)

/-- An event that meets the condition keeps the registrations right. -/
theorem Simulated.answerInv (h : Simulated counted e a a') (hA : AnswerInv fs a)
    (hsafe : WriterCondition fs e) : AnswerInv (fs ++ [e]) a' := by
  have hK := h.keepsWriters hsafe
  constructor
  · exact h.step.regInv hA.entries h.inv h.distinct
  · exact h.step.regAlive hA.alive hA.entries hK h.inv h.inv'
  · exact h.step.writerInv hA.writers hA.alive hA.entries hK h.inv h.inv' h.distinct h.tokens

/-- In a run that meets the condition the registrations are right throughout. -/
theorem SystemRun.answerInv (h : SystemRun es s) (hsafe : Throughout WriterCondition es) :
    ∃ a, Refines exceptZombies s a ∧ a.Inv ∧ AnswerInv es a := by
  refine h.invariant (J := AnswerInv) hsafe (fun chars ints => ?_) (fun _ _ _ _ hc => absurd rfl hc)
    fun es e a a' _ hA hsim hsafe => hsim.answerInv hA hsafe
  refine ⟨start_regInv chars ints, fun q mode k hq => absurd hq List.not_mem_nil, ?_, ?_, ?_⟩
  · intro p d q hd
    rw [WriteHeld, start_descriptors] at hd
    cases hd.1
  · intro p p' d d' q hd
    rw [WriteHeld, start_descriptors] at hd
    cases hd.1
  · intro p q _ hp
    rw [writer_eq_none.2 (start_registration chars ints q dsosWrite)] at hp
    cases hp

/-- There is a writer if and only if a process is registered for writing. -/
theorem Refines.hasWriter_iff (hR : Refines counted s a) (hI : a.Inv) (hA : AnswerInv fs a)
    (hq : .mq q ∈ a.resourcesList) : HasWriter fs s q ↔ a.writer q ≠ none := by
  rw [hA.writers.owner_iff hq]
  constructor
  · rintro ⟨p, d, -, hd, hres, hopened⟩
    rw [hR.descriptorsOf_eq hI.desc] at hd
    rw [hR.data] at hres
    exact ⟨p, d, hd, hres, hopened⟩
  · rintro ⟨p, d, hheld⟩
    have halive := (hA.alive.writer hq (hA.writers.registered p d q hheld)).1
    refine ⟨p, d, (hR.alive_iff hI.proc).2 halive, ?_, ?_, hheld.2.2⟩
    · rw [hR.descriptorsOf_eq hI.desc]
      exact hheld.1
    · rw [hR.data]
      exact hheld.2.1

/-- While the registrations are right, so is the answer of a read from an empty queue. -/
theorem Simulated.emptyAnswer (h : Simulated counted e a a') (hA : AnswerInv fs a) :
    EmptyAnswer fs e := by
  intro r fd buf length q hrun hact hq hnil
  obtain ⟨hrun', hs⟩ := h.handler hact hrun
  rw [h.pre.queueByFd_eq h.inv.desc] at hq
  have hlive := h.inv.desc.queue_live hq
  rw [h.pre.messagesOf_eq h.inv.msg hlive] at hnil
  have hiff := h.pre.hasWriter_iff h.inv hA hlive
  have hanswer : e.post.syscallRetvalue r =
      if a.writer q = none then dsosMessageQueueEmpty else dsosWaitingForMessage := by
    rw [h.post.data]
    cases hs with
    | mqRead hs => exact hs.answer_of_empty hq hnil
  rw [hanswer, hiff]
  by_cases hnone : a.writer q = none
  · rw [if_pos hnone]
    exact ⟨iff_of_false (by decide) (not_not.2 hnone), fun _ => rfl⟩
  · rw [if_neg hnone]
    exact ⟨iff_of_true rfl hnone, fun hno => absurd hnone hno⟩

/-- In a run all events of which keep the registrations right, the registered processes have not
exited, and a reader of an empty queue is told to wait if and only if there is a writer. -/
theorem empty_answer_truthful (h : SystemRun es s) (hsafe : Throughout WriterCondition es) :
    RegisteredAlive s ∧ Throughout EmptyAnswer es := by
  constructor
  · obtain ⟨a, hR, hI, hA⟩ := h.answerInv hsafe
    intro q mode k hq hk
    rw [hR.live_iff hI] at hq
    rw [hR.data] at hk
    have halive := hA.alive q mode k hq hk
    rw [hR.handedOut_iff_used hI.proc, hR.alive_iff hI.proc, hR.data]
    exact ⟨halive.used, halive⟩
  · rintro fs e gs rfl
    obtain ⟨hpre, hstep, -⟩ := h.split
    obtain ⟨a, hR, hI, hA⟩ := hpre.answerInv hsafe.left
    obtain ⟨a', hsim⟩ := hR.simulated hI hstep
    exact hsim.emptyAnswer hA

/-- The writer of an empty queue closes its descriptor between two reads. -/
theorem empty_answer_truthful_two : ∃ (es : List (Event Kernel Action)) (s : Kernel),
    es.map (fun e => e.post.syscallRetvalue 0) =
      [0, 1, dsosWaitingForMessage, 0, dsosMessageQueueEmpty] ∧
    RegisteredAlive s ∧ Throughout EmptyAnswer es := by
  obtain ⟨es, s, hrun, hp⟩ := exists_of_executes
    [.syscall (.openResource 1 1 1), .syscall (.openResource 1 1 3), .syscall (.mqRead 0 0 0),
      .syscall (.closeResource 1 3), .syscall (.mqRead 0 0 0)]
    (fun es _ => throughoutTest writerTest [] es ∧ es.map (fun e => e.post.syscallRetvalue 0) =
      [0, 1, dsosWaitingForMessage, 0, dsosMessageQueueEmpty]) (by decide +kernel)
  obtain ⟨htest, hrest⟩ := of_decide_eq_true hp
  have hsafe := Throughout.of_test (fun _ _ => WriterCondition.of_test) (throughout_nil _) htest
  exact ⟨es, s, hrest, empty_answer_truthful hrun hsafe⟩

/-- A child opens the queue for writing and exits. Its parent is the only process left and has
opened no descriptor for writing, but is told to wait when it reads. -/
theorem empty_answer_stale : ∃ (es : List (Event Kernel Action)) (s : Kernel), SystemRun es s ∧
    ¬ RegisteredAlive s ∧ ¬ Throughout EmptyAnswer es := by
  obtain ⟨es, s, hrun, hp⟩ := exists_of_executes
    [.syscall (.openResource 1 1 1), .syscall (.spawn 1 0), .syscall .preempt,
      .syscall (.openResource 1 1 3), .syscall (.exit 0), .syscall (.mqRead 0 0 0)]
    (fun es s => ∃ e ∈ es.getLast?, e.act = .syscall (.mqRead 0 0 0) ∧
      (e.pre.running = some 0 ∧ e.pre.processes .ready = [] ∧ e.pre.processes .waiting = []) ∧
      (e.pre.queueByFd 0 0 = some 0 ∧ e.pre.messagesOf 0 = []) ∧
      (e.pre.descriptorsOf 0 = [0] ∧ openedWith es.dropLast 0 = some dsosCreate) ∧
      e.post.syscallRetvalue 0 = dsosWaitingForMessage ∧
      (s.running = some 0 ∧ s.processes .ready = [] ∧ s.processes .waiting = []) ∧
      s.Live 0 ∧ ∃ k ∈ s.writingPid 0, s.ptrPcb k ≠ 0) (by decide +kernel)
  obtain ⟨e, he, hact, ⟨hr, hready, hwaiting⟩, ⟨hq, hnil⟩, ⟨hdes, hopened⟩, hanswer,
    ⟨hr', hready', hwaiting'⟩, hlive, k, hk, hne⟩ := of_decide_eq_true hp
  refine ⟨es, s, hrun, fun hregistered => ?_, fun htruthful => ?_⟩
  -- the parent is the only process, and it is not the registered writer
  · rcases (hregistered 0 dsosWrite k hlive hk).2 with hp | hp | hp
    · exact hne (Option.some.inj (hp.symm.trans hr'))
    · rw [hready'] at hp
      cases hp
    · rw [hwaiting'] at hp
      cases hp
  -- the parent is told to wait, and its only descriptor was opened with `DSOS_CREATE`
  · have hes : es = es.dropLast ++ [e] := (List.dropLast_append_getLast? e he).symm
    have hiff := (htruthful es.dropLast e [] hes 0 0 0 0 0 hr hact hq hnil).1
    obtain ⟨p, d, hp, hd, -, hwrite⟩ := hiff.1 hanswer
    obtain rfl : p = 0 := by
      rcases hp with hp | hp | hp
      · exact Option.some.inj (hp.symm.trans hr)
      · rw [hready] at hp
        cases hp
      · rw [hwaiting] at hp
        cases hp
    rw [hdes, List.mem_singleton] at hd
    rw [hd, hopened] at hwrite
    cases hwrite

end DisastrOS
