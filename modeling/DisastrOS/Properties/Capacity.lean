import DisastrOS.Properties.WriteAnswer

/-!
# The capacity of the message queues

Every queue takes up to `M_FOR_MQ` messages, but `m_init` gives the pool that all queues share only
`MAX_NUM_RESOURCES` blocks, not `M_FOR_MQ` for each of them. So a write into a queue with room fails
when the other queues hold all blocks; the kernel then follows a null pointer.
-/

set_option autoImplicit false

namespace DisastrOS

open Runs LinkedSequence LinkedSequence.ListHeap Model

variable {counted : ProcList → Prop} {s s' : Kernel} {a a' : Model} {r q m : Addr}
  {fd length : Int32} {msg : Int} {ms : List Addr}

/-! ## Writing into a queue with room -/

/-- A write into a queue with room takes a block from the pool and hands it to `List_insert`. -/
theorem internalMessageQueueWrite_room {n l : Int} {d : Addr} (hrun : s.running = some r)
    (hfd : wrapInt (s.syscallArgs r 0) = n) (hmsg : s.syscallArgs r 1 = msg)
    (hlength : wrapInt (s.syscallArgs r 2) = l) (h0 : 0 ≤ l) (h1 : l ≤ messageStringMaxLength)
    (hfound : s.descriptorListByFd r n = .ok (some d)) (hd : s.desResource d = .mq q)
    (htype : s.resourceType (.mq q) = messageQueueType) (hroom : s.msgs.size q ≠ mForMq) :
    s.internalMessageQueueWrite = (s.mAlloc msg l >>= fun p =>
      listInsert p.1.msgs q (p.1.msgs.last q) p.2 >>= fun x =>
        .ok ({ p.1 with msgs := x.1 }.setRetvalue r l)) := by
  have hok : ¬ (l < 0 ∨ l > messageStringMaxLength) := by omega
  simp only [Kernel.internalMessageQueueWrite, hrun, deref_some, ok_bind, hfd, hmsg, hlength,
    hfound, hok, if_false, hd, htype, ne_eq, not_true_eq_false, Kernel.messageQueueOf, hroom,
    pure_eq_ok]

theorem Refines.write_room (hR : Refines counted s a) (hI : a.Inv) (hrun : s.running = some r)
    (hq : a.queueByFd r fd.toInt = some q) (h0 : 0 ≤ length.toInt)
    (h1 : length.toInt ≤ messageStringMaxLength) (hroom : ((a.msgs q).length : Int) ≠ mForMq) :
    (s.enter r (.mqWrite fd msg length)).internalMessageQueueWrite =
      ((s.enter r (.mqWrite fd msg length)).mAlloc msg length.toInt >>= fun p =>
        listInsert p.1.msgs q (p.1.msgs.last q) p.2 >>= fun x =>
          .ok ({ p.1 with msgs := x.1 }.setRetvalue r length.toInt)) := by
  have hr : a.running = some r := hR.running_eq.symm.trans hrun
  have hI₁ := hI.enter hr (.mqWrite fd msg length)
  have hR₁ := hR.enter r (.mqWrite fd msg length)
  obtain ⟨hfd, hlength⟩ := enter_mqWrite_args s r fd length msg
  have hmsg : (s.enter r (.mqWrite fd msg length)).syscallArgs r 1 = msg := by
    simp only [Kernel.enter, Function.update_self, storeArgs_apply]
    rfl
  have hlive := hI.desc.queue_live hq
  obtain ⟨d, hd, hdq⟩ := mem_of_queueByFd hq
  have htype : a.resourceType (.mq q) = messageQueueType := hI.res.type _ hlive
  exact internalMessageQueueWrite_room hrun hfd hmsg hlength h0 h1
    ((hR₁.descriptorListByFd_eq hI₁.desc r _).trans (congrArg _ hd)) (by rw [hR₁.data]; exact hdq)
    (by rw [hR₁.data]; exact htype) (fun hsize => hroom ((hR.size_eq hlive).symm.trans hsize))

/-- A block with null link fields is linked; the links outside of the queue stay as they are. -/
theorem Refines.write_linked (hR : Refines counted s a) (hI : a.Inv) (hrun : s.running = some r)
    (hq : a.queueByFd r fd.toInt = some q) (h0 : 0 ≤ length.toInt)
    (h1 : length.toInt ≤ messageStringMaxLength) (hroom : ((a.msgs q).length : Int) ≠ mForMq)
    (hfree : a.freeMs = m :: ms) (hclean : s.msgs.Unlinked m)
    (hmsg : 0 < length.toInt → msg ≠ 0) :
    ∃ s', s.call (.mqWrite fd msg length) = .ok (s', some length.toInt) ∧
      s.msgs.SameOutside s'.msgs q (m :: a.msgs q) := by
  have htracks := hR.ms
  rw [hfree] at htracks
  obtain ⟨pool, hblock, -⟩ := htracks.getBlock_cons
  have hlive := hI.desc.queue_live hq
  have hout : Unlisted (fun q => ResourceRef.mq q ∈ a.resourcesList) a.msgs m :=
    fun q' _ hmem => (hI.msg.used q' m hmem).2 (by rw [hfree]; exact List.mem_cons_self)
  have hinsert := listInsert_last hR.msgs.toFamily hlive hout hclean
  have hlong : ¬ length.toInt > messageStringMaxLength := by omega
  have hnull : ¬ (0 < length.toInt ∧ msg = 0) := fun h => hmsg h.1 h.2
  have hsame := splice_sameOutside s.msgs q (a.msgs q) [] m
  rw [List.append_nil] at hsame
  rw [call_eq hrun, Syscall.handler, hR.write_room hI hrun hq h0 h1 hroom]
  simp only [Kernel.mAlloc, Kernel.enter, hblock, hlong, if_false, hnull, ok_bind, hinsert,
    Kernel.setRetvalue, hrun, Option.map_some, Function.update_self]
  exact ⟨_, rfl, hsame⟩

/-- Without a free block, or with a null pointer to the message, the kernel follows that. -/
theorem Refines.write_fault (hR : Refines counted s a) (hI : a.Inv) (hrun : s.running = some r)
    (hq : a.queueByFd r fd.toInt = some q) (h0 : 0 ≤ length.toInt)
    (h1 : length.toInt ≤ messageStringMaxLength) (hroom : ((a.msgs q).length : Int) ≠ mForMq)
    (hbad : s.mAllocator.getBlock.1 = none ∨ (0 < length.toInt ∧ msg = 0)) :
    s.call (.mqWrite fd msg length) = .error .nullPointer := by
  have hlong : ¬ length.toInt > messageStringMaxLength := by omega
  rw [call_eq hrun, Syscall.handler, hR.write_room hI hrun hq h0 h1 hroom]
  rcases hR.ms.getBlock_cases with ⟨-, hblock⟩ | ⟨m, ms, pool, -, hblock, -⟩
  · simp only [Kernel.mAlloc, Kernel.enter, hblock, ok_bind, listInsert, deref, error_bind]
  · rw [hblock] at hbad
    have hnull := hbad.resolve_left (Option.some_ne_none m)
    simp only [Kernel.mAlloc, Kernel.enter, hblock, hlong, if_false, hnull, and_self, if_true,
      error_bind]

/-- A write with a valid length on a queue with room that answers the length has got a block, which
is linked or dropped. -/
theorem WriteOutcome.accepted (h : WriteOutcome s r fd msg length s' length.toInt)
    (hq : s.queueByFd r fd.toInt = some q) (hroom : (s.messagesOf q).length < mForMq)
    (h0 : 0 ≤ length.toInt) : ∃ m, s.mAllocator.getBlock.1 = some m ∧
      ((s.msgs.Unlinked m ∧ s.Appended r fd msg length s') ∨
        (¬ s.msgs.Unlinked m ∧ ∀ q, s.Live q → s'.contents q = s.contents q)) := by
  cases h with
  | refused _ _ hneg _ => omega
  | full _ _ hfd hfull _ _ _ =>
      rw [hq] at hfd
      cases hfd
      omega
  | linked _ _ _ _ hblock hclean _ happended => exact ⟨_, hblock, Or.inl ⟨hclean, happended⟩⟩
  | dropped _ _ _ _ hblock hlinked _ hsame => exact ⟨_, hblock, Or.inr ⟨hlinked, hsame⟩⟩

/-- A call of `mq_write` with a valid length on a queue with room appends the message and answers
the length if and only if the pool has a block, the link fields of the block are null, and so is not
the pointer to the message. -/
theorem write_capacity_iff (hs : Reachable s) (hrun : s.running = some r)
    (hq : s.queueByFd r fd.toInt = some q) (hroom : (s.messagesOf q).length < mForMq)
    (h0 : 0 ≤ length.toInt) (h1 : length.toInt ≤ messageStringMaxLength) :
    (∃ s', s.call (.mqWrite fd msg length) = .ok (s', some length.toInt) ∧
      s.Appended r fd msg length s') ↔
    (∃ m, s.mAllocator.getBlock.1 = some m ∧ s.msgs.Unlinked m) ∧
      (0 < length.toInt → msg ≠ 0) := by
  obtain ⟨es, hes⟩ := hs
  obtain ⟨a, hR, hI⟩ := hes.refines
  have hq' : a.queueByFd r fd.toInt = some q := (hR.queueByFd_eq hI.desc r _).symm.trans hq
  have hmessages := hR.messagesOf_eq hI.msg (hI.desc.queue_live hq')
  have hroom' : ((a.msgs q).length : Int) ≠ mForMq := by
    rw [← hmessages]
    omega
  constructor
  · rintro ⟨s', hcall, happended⟩
    have hno : ∀ hbad : s.mAllocator.getBlock.1 = none ∨ (0 < length.toInt ∧ msg = 0), False := by
      intro hbad
      rw [hR.write_fault hI hrun hq' h0 h1 hroom' hbad] at hcall
      cases hcall
    refine ⟨?_, fun hpos hnull => hno (Or.inr ⟨hpos, hnull⟩)⟩
    obtain ⟨m, hblock, ⟨hclean, -⟩ | ⟨-, hsame⟩⟩ :=
      (hR.write_outcome hI hrun hcall).accepted hq hroom h0
    · exact ⟨m, hblock, hclean⟩
    · exact absurd happended (hR.not_appended hI hsame)
  -- the call returns, and of its outcomes only the linked one is left
  · rintro ⟨⟨m, hblock, hclean⟩, hmsg⟩
    obtain ⟨ms, hfree⟩ := List.head?_eq_some_iff.1 (hR.ms.getBlock_head.symm.trans hblock)
    obtain ⟨s', hcall, -⟩ := hR.write_linked hI hrun hq' h0 h1 hroom' hfree hclean hmsg
    refine ⟨s', hcall, ?_⟩
    obtain ⟨m', hblock', ⟨-, happended⟩ | ⟨hlinked, -⟩⟩ :=
      (hR.write_outcome hI hrun hcall).accepted hq hroom h0
    · exact happended
    · rw [hblock] at hblock'
      cases hblock'
      exact absurd hclean hlinked

/-- Two queues hold a message each, and a second one goes into the first queue. -/
theorem write_capacity_iff_second : ∃ s s' : Kernel, s.running = some 0 ∧
    (s.contents 0 = [([72], 1)] ∧ s.contents 88 = [([73], 1)]) ∧
    s.call (.mqWrite 0 100 1) = .ok (s', some 1) ∧ s.Appended 0 0 100 1 s' := by
  obtain ⟨es, s, hes, hp⟩ := exists_of_executes
    [.syscall (.openResource 5 1 1), .syscall (.openResource 6 1 1), .store 100 72,
      .syscall (.mqWrite 0 100 1), .store 100 73, .syscall (.mqWrite 1 100 1)]
    (fun _ s => s.running = some 0 ∧ s.queueByFd 0 (0 : Int32).toInt = some 0 ∧
      (s.messagesOf 0).length < mForMq ∧
      (s.contents 0 = [([72], 1)] ∧ s.contents 88 = [([73], 1)]) ∧
      s.mAllocator.getBlock.1 = some 304 ∧ s.msgs.prev 304 = none ∧ s.msgs.next 304 = none)
    (by decide +kernel)
  obtain ⟨hrun, hq, hroom, hcontents, hblock, hclean⟩ := of_decide_eq_true hp
  obtain ⟨s', hcall, happended⟩ : ∃ s', s.call (.mqWrite 0 100 1) = .ok (s', some 1) ∧
      s.Appended 0 0 100 1 s' :=
    (write_capacity_iff ⟨es, hes⟩ hrun hq hroom (by decide) (by decide)).2
      ⟨⟨304, hblock, hclean⟩, fun _ => by decide⟩
  exact ⟨s, s', hrun, hcontents, hcall, happended⟩

/-! ## Exhaustion -/

/-- A reachable state in which all free message blocks have null link fields. -/
structure Filling (s : Kernel) (a : Model) (r : Addr) : Prop where
  reachable : Reachable s
  refines : Refines exceptZombies s a
  inv : a.Inv
  running : s.running = some r
  on : s.shutdownNow = false
  clean : ∀ m ∈ a.freeMs, s.msgs.Unlinked m

/-- The queues other than `qs` are the same, and so are all descriptors of `r`. -/
structure SameOthers (a : Model) (r : Addr) (qs : List Addr) (a' : Model) : Prop where
  queues : ∀ n, a'.queueByFd r n = a.queueByFd r n
  others : ∀ q, q ∉ qs → a'.msgs q = a.msgs q

theorem SameOthers.trans {qs qs' : List Addr} {a'' : Model} (h : SameOthers a r qs a')
    (h' : SameOthers a' r qs' a'') : SameOthers a r (qs ++ qs') a'' := by
  refine ⟨fun n => (h'.queues n).trans (h.queues n), fun q hq => ?_⟩
  rw [List.mem_append, not_or] at hq
  exact (h'.others q hq.2).trans (h.others q hq.1)

/-- An empty message is appended to a queue with room. -/
theorem Filling.write (h : Filling s a r) (hq : a.queueByFd r fd.toInt = some q)
    (hroom : ((a.msgs q).length : Int) ≠ mForMq) (hfree : a.freeMs = m :: ms) :
    ∃ s' a', Filling s' a' r ∧ SameOthers a r [q] a' ∧ a'.freeMs = ms ∧
      a'.msgs q = a.msgs q ++ [m] := by
  have hmem : m ∈ a.freeMs := by rw [hfree]; exact List.mem_cons_self
  obtain ⟨s', hcall, hsame⟩ : ∃ s', s.call (.mqWrite fd 0 0) = .ok (s', some 0) ∧
      s.msgs.SameOutside s'.msgs q (m :: a.msgs q) :=
    h.refines.write_linked h.inv h.running hq (by decide) (by decide) hroom hfree (h.clean m hmem)
      fun hpos => absurd hpos (by decide)
  have hstep := completes_of_call h.on hcall
  obtain ⟨a', hsim⟩ := h.refines.simulated h.inv hstep
  obtain ⟨hr, hs⟩ := hsim.handler rfl h.running
  have hkeep := hs.sameProcesses rfl
  have hrun' : s'.running = some r := by
    rw [hsim.post.running_eq, hkeep.running]
    exact hr
  have hon' : s'.shutdownNow = false := by
    rw [hsim.post.data, hkeep.shutdownNow, ← h.on, h.refines.data]
    rfl
  have hclean : ∀ m' ∈ ms, s'.msgs.Unlinked m' := by
    intro m' hm'
    have hfree' : m' ∈ a.freeMs := by rw [hfree]; exact List.mem_cons_of_mem m hm'
    have hnd := hsim.distinct.freeMs.1
    rw [hfree, List.nodup_cons] at hnd
    -- the blocks that stay free are untouched, so their link fields stay null
    have hout : m' ∉ m :: a.msgs q := by
      rw [List.mem_cons, not_or]
      exact ⟨fun heq => hnd.1 (heq ▸ hm'), fun hmem' => (h.inv.msg.used q m' hmem').2 hfree'⟩
    obtain ⟨hprev, hnext⟩ := hsame.nodes m' hout
    rw [Unlinked, hprev, hnext]
    exact h.clean m' hfree'
  refine ⟨s', a', ?_⟩
  cases hs with
  | mqWrite hs =>
      cases hs with
      | badLength hbad => exact absurd hbad (by decide)
      | notFound _ _ hnone =>
          rw [queueByFd, show a.descriptorByFd r fd.toInt = none from hnone] at hq
          cases hq
      | wrongType _ _ _ hnone =>
          cases hq.symm.trans hnone
      | full _ _ hfd hfull =>
          cases hq.symm.trans hfd
          exact absurd hfull hroom
      | linked _ _ hfd _ hms _ =>
          cases hq.symm.trans hfd
          cases hfree.symm.trans hms
          refine ⟨⟨h.reachable.step hstep, hsim.post, hsim.inv', hrun', hon', hclean⟩,
            ⟨fun _ => rfl, fun q' hq' => ?_⟩, rfl, Function.update_self ..⟩
          exact Function.update_of_ne (fun heq => hq' (List.mem_singleton.2 heq)) ..
      | refused _ _ _ _ hms hdirty =>
          cases hfree.symm.trans hms
          exact absurd (h.clean m hmem) hdirty

/-- A queue is filled up to `n` messages. -/
theorem Filling.fill (h : Filling s a r) (hq : a.queueByFd r fd.toInt = some q) (k : Nat)
    (hk : ((a.msgs q).length + k : Int) ≤ mForMq) (hfree : k ≤ a.freeMs.length) :
    ∃ s' a', Filling s' a' r ∧ SameOthers a r [q] a' ∧
      a'.freeMs.length + k = a.freeMs.length := by
  induction k generalizing s a with
  | zero => exact ⟨s, a, h, ⟨fun _ => rfl, fun _ _ => rfl⟩, rfl⟩
  | succ k ih =>
      cases hms : a.freeMs with
      | nil => simp [hms] at hfree
      | cons m ms =>
          rw [hms, List.length_cons] at hfree
          obtain ⟨s₁, a₁, h₁, hsame₁, hms₁, hmsgs⟩ := h.write hq (by omega) hms
          obtain ⟨s', a', h', hsame', hlen⟩ := ih h₁ ((hsame₁.queues _).trans hq)
            (by rw [hmsgs, List.length_append, List.length_singleton]; omega)
            (by rw [hms₁]; omega)
          refine ⟨s', a', h', ⟨fun n => (hsame'.queues n).trans (hsame₁.queues n), ?_⟩, ?_⟩
          · exact fun q' hq' => (hsame'.others q' hq').trans (hsame₁.others q' hq')
          · rw [List.length_cons, ← hms₁, ← hlen]
            omega

/-- Empty queues are filled, one after the other. -/
theorem Filling.fillAll (h : Filling s a r) (l : List (Int32 × Addr)) (hnd : (l.map (·.2)).Nodup)
    (hq : ∀ p ∈ l, a.queueByFd r p.1.toInt = some p.2 ∧ a.msgs p.2 = [])
    (hfree : 128 * l.length ≤ a.freeMs.length) :
    ∃ s' a', Filling s' a' r ∧ SameOthers a r (l.map (·.2)) a' ∧
      a'.freeMs.length + 128 * l.length = a.freeMs.length := by
  induction l generalizing s a with
  | nil => exact ⟨s, a, h, ⟨fun _ => rfl, fun _ _ => rfl⟩, rfl⟩
  | cons p l ih =>
      rw [List.map_cons, List.nodup_cons] at hnd
      rw [List.length_cons] at hfree
      obtain ⟨hfd, hempty⟩ := hq p List.mem_cons_self
      obtain ⟨s₁, a₁, h₁, hsame₁, hlen₁⟩ := h.fill hfd 128 (by rw [hempty]; decide) (by omega)
      have hq₁ : ∀ p' ∈ l, a₁.queueByFd r p'.1.toInt = some p'.2 ∧ a₁.msgs p'.2 = [] := by
        intro p' hp'
        obtain ⟨hfd', hempty'⟩ := hq p' (List.mem_cons_of_mem p hp')
        have hne : p'.2 ∉ [p.2] := by
          rw [List.mem_singleton]
          exact fun heq => hnd.1 (heq ▸ List.mem_map.2 ⟨p', hp', rfl⟩)
        exact ⟨(hsame₁.queues _).trans hfd', (hsame₁.others _ hne).trans hempty'⟩
      obtain ⟨s', a', h', hsame', hlen'⟩ := ih h₁ hnd.2 hq₁ (by omega)
      exact ⟨s', a', h', hsame₁.trans hsame', by rw [List.length_cons]; omega⟩

/-- Eight queues hold 128 messages each; a write of an empty message into the ninth one, which is
empty, follows a null pointer. -/
theorem write_starved : ∃ s : Kernel, Reachable s ∧ s.running = some 0 ∧
    (∃ q, s.queueByFd 0 8 = some q ∧ s.messagesOf q = []) ∧
    s.call (.mqWrite 8 0 0) = .error .nullPointer := by
  obtain ⟨es, s, hrun, hp⟩ := exists_of_executes
    ((List.range 9).map fun i => .syscall (.openResource (Int32.ofNat i) 1 1))
    (fun _ s => s.running = some 0 ∧ s.shutdownNow = false ∧
      (∀ i ∈ List.range 9, s.queueByFd 0 i = some (i * sizeofMessageQueue) ∧
        s.messagesOf (i * sizeofMessageQueue) = []) ∧ s.mAllocator.size = 1024 ∧
      ∀ m ∈ allBlocks maxNumResources sizeofMessage, s.msgs.prev m = none ∧ s.msgs.next m = none)
    (by decide +kernel)
  obtain ⟨hr, hon, hqueues, hsize, hclean⟩ := of_decide_eq_true hp
  obtain ⟨a, hR, hI⟩ := hrun.refines
  have hqueues' : ∀ i ∈ List.range 9, a.queueByFd 0 i = some (i * sizeofMessageQueue) ∧
      a.msgs (i * sizeofMessageQueue) = [] := by
    intro i hi
    obtain ⟨hq, hempty⟩ := hqueues i hi
    rw [hR.queueByFd_eq hI.desc] at hq
    rw [hR.messagesOf_eq hI.msg (hI.desc.queue_live hq)] at hempty
    exact ⟨hq, hempty⟩
  have hlen : a.freeMs.length = 1024 := by
    have hcount := hR.ms.count
    omega
  have hfilling : Filling s a 0 :=
    ⟨⟨es, hrun⟩, hR, hI, hr, hon, fun m hm => hclean m (mem_allBlocks.2 (hR.ms.isBlock hm))⟩
  -- the first eight queues take all blocks
  let l := (List.range 8).map fun i : Nat => (Int32.ofNat i, (i * sizeofMessageQueue : Int))
  obtain ⟨s', a', h', hsame, hlen'⟩ := hfilling.fillAll l (by decide) (fun p hp => by
    obtain ⟨i, hi, rfl⟩ := List.mem_map.1 hp
    have hfd : ∀ i ∈ List.range 8, (Int32.ofNat i).toInt = i := by decide
    rw [hfd i hi]
    exact hqueues' i (List.mem_range.2 (Nat.lt_succ_of_lt (List.mem_range.1 hi))))
    (by rw [hlen]; decide)
  have hnil : a'.freeMs = [] := by
    have hl : l.length = 8 := by decide
    exact List.length_eq_zero_iff.1 (by omega)
  obtain ⟨hq, hempty⟩ := hqueues' 8 (by decide)
  have hq' : a'.queueByFd 0 (8 : Int32).toInt = some (8 * sizeofMessageQueue) :=
    (hsame.queues _).trans hq
  have hempty' : a'.msgs (8 * sizeofMessageQueue) = [] :=
    (hsame.others _ (by decide)).trans hempty
  have hnone : s'.mAllocator.getBlock.1 = none := by
    rw [h'.refines.ms.getBlock_head, hnil]
    rfl
  refine ⟨s', h'.reachable, h'.running, ⟨8 * sizeofMessageQueue, ?_, ?_⟩, ?_⟩
  · rw [h'.refines.queueByFd_eq h'.inv.desc]
    exact hq'
  · rw [h'.refines.messagesOf_eq h'.inv.msg (h'.inv.desc.queue_live hq'), hempty']
  · exact h'.refines.write_fault h'.inv h'.running hq' (by decide) (by decide)
      (by rw [hempty']; decide) (Or.inl hnone)

end DisastrOS
