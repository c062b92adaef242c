import DisastrOS.Refinement.Resources

/-!
# Reading and writing messages refines the abstract transitions

`internalMessageQueueRead` and `internalMessageQueueWrite`. Whether `List_insert` links the block
of a new message depends on the link fields that its previous use left behind.
-/

set_option autoImplicit false

namespace DisastrOS

open LinkedSequence LinkedSequence.ListHeap Model

variable {counted : ProcList → Prop} {c c' : Kernel} {a : Model} {r q : Addr} {fd : Int}

/-- The resource behind a descriptor number is a message queue, or it is none. -/
theorem queueByFd_cases (hI : a.Inv) {d : Addr} (hd : a.descriptorByFd r fd = some d) :
    (a.queueByFd r fd = none ∧ a.resourceType (a.desResource d) ≠ messageQueueType) ∨
      ∃ q, a.queueByFd r fd = some q ∧ a.desResource d = .mq q ∧
        .mq q ∈ a.resourcesList ∧ a.resourceType (a.desResource d) = messageQueueType := by
  have hres := (hI.desc.linked r d (mem_of_descriptorByFd hd).1).2.resource
  have htype := hI.res.type _ hres
  cases hr : a.desResource d with
  | standard b =>
      rw [hr] at htype
      refine Or.inl ⟨by simp [queueByFd, hd, hr], ?_⟩
      rw [htype, type_standard]
      decide
  | mq q =>
      rw [hr] at htype hres
      exact Or.inr ⟨q, by simp [queueByFd, hd, hr], rfl, hres, htype⟩

theorem Refines.size_eq (hR : Refines counted c a) (hq : .mq q ∈ a.resourcesList) :
    c.msgs.size q = (a.msgs q).length :=
  hR.msgs.count q hq

theorem readStuck_iff (buf length : Int) (hq : a.queueByFd r fd = some q) :
    a.ReadStuck r fd buf length ↔
      ∃ m ∈ (a.msgs q).head?, a.msgLength m ≤ length ∧ 0 < a.msgLength m ∧ buf = 0 := by
  simp [ReadStuck, hq]

theorem not_readStuck {buf length : Int} (hnone : a.queueByFd r fd = none) :
    ¬ a.ReadStuck r fd buf length := by
  simp [ReadStuck, hnone]

theorem writeStuck_iff {msg length : Int} (hq : a.queueByFd r fd = some q) (h0 : 0 ≤ length)
    (h1 : length ≤ messageStringMaxLength) : a.WriteStuck r fd msg length ↔
      ((a.msgs q).length : Int) ≠ mForMq ∧ (a.freeMs = [] ∨ (0 < length ∧ msg = 0)) := by
  simp [WriteStuck, hq, h0, h1]

theorem not_writeStuck {msg length : Int} (hnone : a.queueByFd r fd = none) :
    ¬ a.WriteStuck r fd msg length := by
  simp [WriteStuck, hnone]

/-- `mq_read` of the running process `r`. -/
theorem Refines.internalMessageQueueRead (hR : Refines counted c a) (hI : a.Inv)
    (hr : a.running = some r) :
    (a.ReadStuck r (wrapInt (a.syscallArgs r 0)) (a.syscallArgs r 1)
        (wrapInt (a.syscallArgs r 2)) ∧ ∃ f, c.internalMessageQueueRead = .error f) ∨
      ¬ a.ReadStuck r (wrapInt (a.syscallArgs r 0)) (a.syscallArgs r 1)
          (wrapInt (a.syscallArgs r 2)) ∧
        ∃ c' a', c.internalMessageQueueRead = .ok c' ∧
          ReadStep a r (wrapInt (a.syscallArgs r 0)) (a.syscallArgs r 1)
            (wrapInt (a.syscallArgs r 2)) a' ∧ Refines counted c' a' := by
  have hdata := hR.data
  have hrun : c.running = some r := by rw [hdata, hr]
  have hargs : c.syscallArgs = a.syscallArgs := by rw [hdata]
  have hfind := hR.descriptorListByFd_eq hI.desc r (wrapInt (a.syscallArgs r 0))
  have hres : c.desResource = a.desResource := by rw [hdata]
  have htypes : c.resourceType = a.resourceType := by rw [hdata]
  have hwriting : c.writingPid = a.writingPid := by rw [hdata]
  have hlength : c.msgLength = a.msgLength := by rw [hdata]
  simp only [Kernel.internalMessageQueueRead, hrun, deref_some, ok_bind, hargs, hfind]
  cases hd : a.descriptorByFd r (wrapInt (a.syscallArgs r 0)) with
  | none =>
      have hnone : a.queueByFd r (wrapInt (a.syscallArgs r 0)) = none := by simp [queueByFd, hd]
      exact Or.inr ⟨not_readStuck hnone, _, _, rfl, .notFound hd, hR.setRetvalue ..⟩
  | some d =>
      simp only [hres, htypes, hwriting, hlength]
      rcases queueByFd_cases hI hd with ⟨hnone, hne⟩ | ⟨q, hq, hdq, hlive, heq⟩
      · rw [if_pos hne]
        exact Or.inr ⟨not_readStuck hnone, _, _, rfl, .wrongType hd hnone, hR.setRetvalue ..⟩
      · have hstuck := readStuck_iff (a.syscallArgs r 1) (wrapInt (a.syscallArgs r 2)) hq
        have hsize := hR.size_eq hlive
        have hrep := hR.msgs.represents q hlive
        rw [hdq] at heq
        simp only [hdq, heq, ne_eq, not_true_eq_false, if_false, Kernel.messageQueueOf, ok_bind]
        cases hms : a.msgs q with
        -- an empty queue: the answer tells whether a writer is registered
        | nil =>
            rw [hms] at hsize
            have hzero : c.msgs.size q = 0 := hsize
            rw [if_pos hzero]
            refine Or.inr ⟨?_, ?_⟩
            · rw [hstuck, hms]
              rintro ⟨m, hm, -⟩
              cases hm
            · by_cases hw : (a.writingPid q).isSome
              · rw [if_pos hw]
                exact ⟨_, _, rfl, .waiting hq hms (Option.isSome_iff_ne_none.1 hw),
                  hR.setRetvalue ..⟩
              · rw [if_neg hw]
                exact ⟨_, _, rfl, .empty hq hms (by simpa using hw), hR.setRetvalue ..⟩
        | cons m ms =>
            rw [hms] at hsize
            have hpos : c.msgs.size q ≠ 0 := by
              rw [hsize, List.length_cons]
              omega
            have hfirst : c.msgs.first q = some m := by rw [hrep.first, hms]; rfl
            rw [if_neg hpos, hfirst, deref_some, ok_bind, hstuck]
            simp only [hms, List.head?_cons, Option.mem_some_iff, exists_eq_left']
            by_cases hlong : a.msgLength m > wrapInt (a.syscallArgs r 2)
            -- a message that is longer than the buffer stays in the queue
            · rw [if_pos hlong]
              exact Or.inr ⟨fun hle => absurd hle.1 (by omega), _, _, rfl, .tooLong hq hms hlong,
                hR.setRetvalue ..⟩
            · rw [if_neg hlong]
              by_cases hnull : 0 < a.msgLength m ∧ a.syscallArgs r 1 = 0
              · rw [if_pos hnull]
                exact Or.inl ⟨⟨by omega, hnull⟩, _, rfl⟩
              -- the head is unlinked and its block goes back to the pool
              · rw [if_neg hnull]
                have hmem : m ∈ a.msgs q := by rw [hms]; exact List.mem_cons_self
                obtain ⟨hblock, hfree⟩ := hI.msg.used q m hmem
                obtain ⟨pool, hrelease, hpool⟩ := hR.ms.releaseBlock_used hblock hfree
                simp only [Kernel.setRetvalue, listDetach_eq, ok_bind, Kernel.mFree, hrelease,
                  pure_eq_ok]
                refine Or.inr ⟨fun hle => hnull hle.2, _, _, rfl, .read hq hms (by omega), ?_⟩
                have hmsgs := hR.msgs.unlink_head hlive hms
                obtain ⟨dt, sq, fb⟩ := a
                obtain rfl := hdata
                exact { hR with data := rfl, msgs := hmsgs, ms := hpool }

/-- A completed `mq_read` of the running process `r`. -/
theorem refine_internalMessageQueueRead (hR : Refines counted c a) (hI : a.Inv)
    (hr : a.running = some r) (h : c.internalMessageQueueRead = .ok c') :
    ∃ a', ReadStep a r (wrapInt (a.syscallArgs r 0)) (a.syscallArgs r 1)
      (wrapInt (a.syscallArgs r 2)) a' ∧ Refines counted c' a' := by
  rcases hR.internalMessageQueueRead hI hr with ⟨-, f, hfault⟩ | ⟨-, c₂, a', hok, hs, hR'⟩
  · rw [hfault] at h
    cases h
  · obtain rfl : c₂ = c' := Except.ok.inj (hok.symm.trans h)
    exact ⟨a', hs, hR'⟩

/-- `mq_write` of the running process `r`. The message is linked if the link fields of its block
are null. -/
theorem Refines.internalMessageQueueWrite (hR : Refines counted c a) (hI : a.Inv)
    (hr : a.running = some r) :
    (a.WriteStuck r (wrapInt (a.syscallArgs r 0)) (a.syscallArgs r 1)
        (wrapInt (a.syscallArgs r 2)) ∧ ∃ f, c.internalMessageQueueWrite = .error f) ∨
      ¬ a.WriteStuck r (wrapInt (a.syscallArgs r 0)) (a.syscallArgs r 1)
          (wrapInt (a.syscallArgs r 2)) ∧
        ∃ c' a', c.internalMessageQueueWrite = .ok c' ∧
          WriteStep c.msgs.Unlinked a r (wrapInt (a.syscallArgs r 0)) (a.syscallArgs r 1)
            (wrapInt (a.syscallArgs r 2)) a' ∧ Refines counted c' a' := by
  have hdata := hR.data
  have hrun : c.running = some r := by rw [hdata, hr]
  have hargs : c.syscallArgs = a.syscallArgs := by rw [hdata]
  have hfind := hR.descriptorListByFd_eq hI.desc r (wrapInt (a.syscallArgs r 0))
  have hres : c.desResource = a.desResource := by rw [hdata]
  have htypes : c.resourceType = a.resourceType := by rw [hdata]
  simp only [Kernel.internalMessageQueueWrite, hrun, deref_some, ok_bind, hargs, hfind]
  by_cases hbad : wrapInt (a.syscallArgs r 2) < 0 ∨
      wrapInt (a.syscallArgs r 2) > messageStringMaxLength
  · rw [if_pos hbad]
    refine Or.inr ⟨?_, _, _, rfl, .badLength hbad, hR.setRetvalue ..⟩
    rintro ⟨h0, h1, -⟩
    omega
  rw [if_neg hbad]
  have h0 : 0 ≤ wrapInt (a.syscallArgs r 2) := by omega
  have h1 : wrapInt (a.syscallArgs r 2) ≤ messageStringMaxLength := by omega
  cases hd : a.descriptorByFd r (wrapInt (a.syscallArgs r 0)) with
  | none =>
      have hnone : a.queueByFd r (wrapInt (a.syscallArgs r 0)) = none := by simp [queueByFd, hd]
      exact Or.inr ⟨not_writeStuck hnone, _, _, rfl, .notFound h0 h1 hd, hR.setRetvalue ..⟩
  | some d =>
      simp only [hres, htypes]
      rcases queueByFd_cases hI hd with ⟨hnone, hne⟩ | ⟨q, hq, hdq, hlive, heq⟩
      · rw [if_pos hne]
        exact Or.inr ⟨not_writeStuck hnone, _, _, rfl, .wrongType h0 h1 hd hnone,
          hR.setRetvalue ..⟩
      · rw [writeStuck_iff hq h0 h1]
        have hsize := hR.size_eq hlive
        rw [hdq] at heq
        simp only [hdq, heq, ne_eq, not_true_eq_false, if_false, Kernel.messageQueueOf, ok_bind]
        by_cases hfull : c.msgs.size q = mForMq
        · rw [if_pos hfull]
          refine Or.inr ⟨fun hroom => hroom.1 (hsize.symm.trans hfull), _, _, rfl,
            .full h0 h1 hq (hsize.symm.trans hfull), ?_⟩
          obtain ⟨dt, sq, fb⟩ := a
          obtain rfl := hdata
          exact { hR with data := rfl }
        · rw [if_neg hfull]
          have hroom : ((a.msgs q).length : Int) ≠ mForMq := fun hc => hfull (hsize.trans hc)
          rcases hR.ms.getBlock_cases with ⟨hnil, hblock⟩ | ⟨m, ms, pool, hm, hblock, hpool⟩
          -- with an empty pool `List_insert` gets a null pointer
          · refine Or.inl ⟨⟨hroom, Or.inl hnil⟩, .nullPointer, ?_⟩
            simp [Kernel.mAlloc, hblock, listInsert, deref]
          · have hnl : ¬ wrapInt (a.syscallArgs r 2) > messageStringMaxLength := by omega
            simp only [Kernel.mAlloc, hblock, hnl, if_false]
            by_cases hnull : 0 < wrapInt (a.syscallArgs r 2) ∧ a.syscallArgs r 1 = 0
            · rw [if_pos hnull]
              exact Or.inl ⟨⟨hroom, Or.inr hnull⟩, _, rfl⟩
            · rw [if_neg hnull]
              have hfine : ¬ (a.freeMs = [] ∨
                  (0 < wrapInt (a.syscallArgs r 2) ∧ a.syscallArgs r 1 = 0)) := by
                rw [hm]
                exact fun h => h.elim (List.cons_ne_nil m ms) hnull
              have hfree : m ∈ a.freeMs := by rw [hm]; exact List.mem_cons_self
              have hout : Unlisted (fun q => ResourceRef.mq q ∈ a.resourcesList) a.msgs m :=
                fun q' _ hmem => (hI.msg.used q' m hmem).2 hfree
              -- a clean block is linked at the tail, a recycled one is refused
              by_cases hclean : c.msgs.Unlinked m
              · have hinsert := listInsert_last hR.msgs.toFamily hlive hout hclean
                simp only [ok_bind, hinsert, Kernel.setRetvalue, pure_eq_ok]
                refine Or.inr ⟨fun h => hfine h.2, _, _, rfl, .linked h0 h1 hq hroom hm hclean, ?_⟩
                have hmsgs := hR.msgs.append hlive hout
                obtain ⟨dt, sq, fb⟩ := a
                obtain rfl := hdata
                exact { hR with data := rfl, msgs := hmsgs, ms := hpool }
              · simp only [ok_bind, listInsert_refused hclean, Kernel.setRetvalue, pure_eq_ok]
                refine Or.inr ⟨fun h => hfine h.2, _, _, rfl, .refused h0 h1 hq hroom hm hclean, ?_⟩
                obtain ⟨dt, sq, fb⟩ := a
                obtain rfl := hdata
                exact { hR with data := rfl, ms := hpool }

/-- A completed `mq_write` of the running process `r`. -/
theorem refine_internalMessageQueueWrite (hR : Refines counted c a) (hI : a.Inv)
    (hr : a.running = some r) (h : c.internalMessageQueueWrite = .ok c') :
    ∃ a', WriteStep c.msgs.Unlinked a r (wrapInt (a.syscallArgs r 0)) (a.syscallArgs r 1)
      (wrapInt (a.syscallArgs r 2)) a' ∧ Refines counted c' a' := by
  rcases hR.internalMessageQueueWrite hI hr with ⟨-, f, hfault⟩ | ⟨-, c₂, a', hok, hs, hR'⟩
  · rw [hfault] at h
    cases h
  · obtain rfl : c₂ = c' := Except.ok.inj (hok.symm.trans h)
    exact ⟨a', hs, hR'⟩

end DisastrOS
