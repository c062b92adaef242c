import DisastrOS.Abstract.MessageBlocks
import DisastrOS.Properties.WriteAnswer

/-!
# Conservation of message blocks

A message block that is handed out is linked in a queue, unless some `mq_write` has lost it: that
happens when the block it takes from the pool has stale links from its previous use.
-/

set_option autoImplicit false

namespace DisastrOS

open Runs LinkedSequence LinkedSequence.ListHeap Model

variable {counted : ProcList → Prop} {es : List (Event Kernel Action)} {s : Kernel}
  {e : Event Kernel Action} {a a' : Model} {m : Addr}

/-- The messages linked in the queues that exist. -/
def Kernel.allMessages (s : Kernel) : List Addr :=
  s.resources.flatMap fun
    | .standard _ => []
    | .mq q => s.messagesOf q

/-- The message blocks handed out are the messages in the queues, each linked once; and the pool is
empty only if all blocks are messages. -/
structure MessagesConserved (s : Kernel) : Prop where
  once : s.allMessages.Nodup
  handedOut : ∀ m, s.mAllocator.handedOut m ↔ m ∈ s.allMessages
  exhausted : s.mAllocator.getBlock.1 = none → s.allMessages.length = maxNumResources

/-- If this is an `mq_write` that takes a message block, then the block has null link fields. -/
def MessageCondition (e : Event Kernel Action) : Prop :=
  match e.act with
  | .syscall (.mqWrite fd _ length) => ∀ r ∈ e.pre.running,
      0 ≤ length.toInt → length.toInt ≤ messageStringMaxLength →
      ∀ q ∈ e.pre.queueByFd r fd.toInt, ((e.pre.messagesOf q).length : Int) ≠ mForMq →
      ∀ m ∈ e.pre.mAllocator.getBlock.1, e.pre.msgs.Unlinked m
  | _ => True

/-- `MessageCondition` as a test. -/
def messageTest (e : Event Kernel Action) : Bool :=
  match e.act with
  | .syscall (.mqWrite fd _ length) => decide (∀ r ∈ e.pre.running,
      0 ≤ length.toInt → length.toInt ≤ messageStringMaxLength →
      ∀ q ∈ e.pre.queueByFd r fd.toInt, ((e.pre.messagesOf q).length : Int) ≠ mForMq →
      ∀ m ∈ e.pre.mAllocator.getBlock.1, e.pre.msgs.prev m = none ∧ e.pre.msgs.next m = none)
  | _ => true

theorem MessageCondition.of_test (h : messageTest e = true) : MessageCondition e := by
  unfold MessageCondition
  split
  · rename_i hact
    simp only [messageTest, hact, decide_eq_true_eq] at h
    exact h
  · trivial

/-! ## The messages -/

theorem Refines.allMessages_eq (hR : Refines counted s a) (hI : a.Inv) :
    s.allMessages = a.resourcesList.flatMap fun
      | .standard _ => []
      | .mq q => a.msgs q := by
  rw [Kernel.allMessages, hR.resources_eq hI.res]
  apply List.flatMap_congr
  intro res hres
  cases res with
  | standard b => rfl
  | mq q => exact hR.messagesOf_eq hI.msg hres

theorem Refines.mem_allMessages (hR : Refines counted s a) (hI : a.Inv) :
    m ∈ s.allMessages ↔ ∃ q, m ∈ a.msgs q := by
  rw [hR.allMessages_eq hI, List.mem_flatMap]
  constructor
  · rintro ⟨res, -, hm⟩
    cases res with
    | standard b => cases hm
    | mq q => exact ⟨q, hm⟩
  · rintro ⟨q, hm⟩
    refine ⟨.mq q, ?_, hm⟩
    by_contra hdead
    rw [hI.msg.dead q hdead] at hm
    cases hm

theorem Refines.allMessages_nodup (hR : Refines counted s a) (hI : a.Inv) :
    s.allMessages.Nodup := by
  have hD := hR.distinct hI.msg
  rw [hR.allMessages_eq hI, List.nodup_flatMap]
  constructor
  · intro res _
    cases res with
    | standard b => exact List.nodup_nil
    | mq q => exact hD.msgs.nodup' q
  · refine hD.resourcesList.imp fun {res res'} hne => ?_
    intro m hm hm'
    cases res with
    | standard b => cases hm
    | mq q =>
        cases res' with
        | standard b => cases hm'
        | mq q' => exact hne (congrArg _ (hD.msgs.eq hm hm'))

theorem Refines.messagesConserved_iff (hR : Refines counted s a) (hI : a.Inv) :
    MessagesConserved s ↔ a.AllLinked := by
  constructor
  · intro h m hm hout
    exact (hR.mem_allMessages hI).1 ((h.handedOut m).1 (hR.ms.handedOut_iff.2 ⟨hm, hout⟩))
  · intro hL
    have hmem : ∀ m, s.mAllocator.handedOut m ↔ m ∈ s.allMessages := by
      intro m
      rw [hR.ms.handedOut_iff, hR.mem_allMessages hI]
      constructor
      · rintro ⟨hm, hout⟩
        exact hL m hm hout
      · rintro ⟨q, hq⟩
        exact hI.msg.used q m hq
    refine ⟨hR.allMessages_nodup hI, hmem, fun hnone => ?_⟩
    rw [hR.ms.getBlock_head, List.head?_eq_none_iff] at hnone
    have hperm : s.allMessages.Perm (allBlocks maxNumResources sizeofMessage) := by
      refine (List.perm_ext_iff_of_nodup (hR.allMessages_nodup hI)
        (allBlocks_nodup (by decide))).2 fun m => ?_
      rw [← hmem m, hR.ms.handedOut_iff, hnone, mem_allBlocks]
      simp
    simpa using hperm.length_eq

/-! ## Runs -/

theorem Simulated.messageCondition_iff (h : Simulated counted e a a') :
    MessageCondition e ↔ a.KeepsLinked e.pre.msgs.Unlinked e.act := by
  have hmsgs : ∀ {r q n}, q ∈ a.queueByFd r n → e.pre.messagesOf q = a.msgs q :=
    fun hq => h.pre.messagesOf_eq h.inv.msg (h.inv.desc.queue_live hq)
  rw [MessageCondition]
  cases e.act with
  | tick => exact iff_of_true trivial trivial
  | store _ _ => exact iff_of_true trivial trivial
  | syscall c =>
      cases c with
      | mqWrite fd msg length =>
          simp only [KeepsLinked, WriteLinks, h.pre.running_eq, h.pre.ms.getBlock_head,
            h.pre.queueByFd_eq h.inv.desc]
          constructor
          · intro hall r hr h0 h1 q hq hroom
            exact hall r hr h0 h1 q hq (by rwa [hmsgs hq])
          · intro hall r hr h0 h1 q hq hroom
            exact hall r hr h0 h1 q hq (by rwa [hmsgs hq] at hroom)
      | _ => exact iff_of_true trivial trivial

theorem Model.start_allLinked (chars : Int → UInt8) (ints : Int → Int) :
    (Model.start chars ints).AllLinked :=
  fun _ hm hout => absurd (mem_allBlocks.2 hm) hout

/-- In all states of a run the message blocks are conserved if and only if no `mq_write` of the run
takes a block with stale links. -/
theorem messages_conserved_iff (h : SystemRun es s) :
    (MessagesConserved s ∧ ∀ e ∈ es, MessagesConserved e.pre ∧ MessagesConserved e.post) ↔
      ∀ e ∈ es, MessageCondition e := by
  refine h.all_iff (fun s₀ chars ints hR => ?_) fun es e hpre _ hstep hgood => ?_
  · exact (hR.messagesConserved_iff (Model.start_inv chars ints)).2
      (Model.start_allLinked chars ints)
  · obtain ⟨a, hR, hI⟩ := hpre.refines
    obtain ⟨a', hsim⟩ := hR.simulated hI hstep
    rw [hR.messagesConserved_iff hI] at hgood
    rw [hsim.post.messagesConserved_iff hsim.inv', hsim.messageCondition_iff]
    exact hsim.step.allLinked_iff hgood hI hsim.distinct

/-- A message is read, and a queue with a message is destroyed. -/
theorem messages_conserved_iff_read : ∃ (es : List (Event Kernel Action)) (s : Kernel),
    (es.length = 8 ∧ s.allMessages = [0]) ∧ MessagesConserved s ∧
      ∀ e ∈ es, MessagesConserved e.pre ∧ MessagesConserved e.post := by
  obtain ⟨es, s, hrun, hp⟩ := exists_of_executes
    [.syscall (.openResource 5 1 1), .syscall (.mqWrite 0 0 0), .syscall (.mqRead 0 0 0),
      .syscall (.mqWrite 0 0 0), .syscall (.closeResource 0 0), .syscall (.destroyResource 5),
      .syscall (.openResource 6 1 1), .syscall (.mqWrite 1 0 0)]
    (fun es s => (∀ e ∈ es, messageTest e) ∧ es.length = 8 ∧ s.allMessages = [0])
    (by decide +kernel)
  obtain ⟨hsafe, hrest⟩ := of_decide_eq_true hp
  exact ⟨es, s, hrest, (messages_conserved_iff hrun).2 fun e he => .of_test (hsafe e he)⟩

/-- A queue with two messages is destroyed, and the next message that is written is lost. -/
theorem messages_leak : ∃ (es : List (Event Kernel Action)) (s : Kernel), SystemRun es s ∧
    s.allMessages = [] ∧ s.mAllocator.handedOut sizeofMessage ∧ ¬ MessagesConserved s := by
  obtain ⟨es, s, hrun, hp⟩ := exists_of_executes
    [.syscall (.openResource 5 1 1), .syscall (.mqWrite 0 0 0), .syscall (.mqWrite 0 0 0),
      .syscall (.closeResource 0 0), .syscall (.destroyResource 5),
      .syscall (.openResource 6 1 1), .syscall (.mqWrite 1 0 0)]
    (fun _ s => s.allMessages = [] ∧ s.mAllocator.handedOut sizeofMessage) (by decide +kernel)
  obtain ⟨hnone, hout⟩ := of_decide_eq_true hp
  refine ⟨es, s, hrun, hnone, hout, fun h => ?_⟩
  have hmem := (h.handedOut sizeofMessage).1 hout
  rw [hnone] at hmem
  cases hmem

end DisastrOS
