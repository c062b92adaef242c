import DisastrOS.Properties.MessageIntegrity

/-!
# The answer of `mq_write`

What `mq_write` answers should tell the caller whether the message is in the queue. It does so
unless the queue is full, where the answer of an earlier syscall is handed over and the exit value
of the caller is changed, or the next message block has stale links from its previous use, where
`List_insert` refuses the block and the message is lost.
-/

set_option autoImplicit false

namespace DisastrOS

open Runs LinkedSequence LinkedSequence.ListHeap Model

namespace Kernel

/-- Why a message of this length cannot be appended to the queue behind the descriptor number, as a
result code; `none` if it can. -/
def writeCause (s : Kernel) (r : Addr) (fd length : Int) : Option Int :=
  if length < 0 ∨ messageStringMaxLength < length then some dsosMessageLengthNotValid
  else
    match s.descriptorListByFd r fd with
    | .ok (some d) =>
        match s.desResource d with
        | .standard _ => some dsosEResourceTypeWrong
        | .mq q =>
            if ((s.messagesOf q).length : Int) = mForMq then some dsosMessageQueueFull else none
    | _ => some dsosResourceNotFound

/-- In the step from `s` to `s'` the message, and nothing else, was appended to the queue behind the
descriptor number. -/
def Appended (s : Kernel) (r : Addr) (fd : Int32) (msg : Int) (length : Int32) (s' : Kernel) :
    Prop :=
  ∃ q, s.queueByFd r fd.toInt = some q ∧
    s'.contents q = s.contents q ++ [(s.bytes msg length.toInt, length.toInt)] ∧
    ∀ q', q' ≠ q → s.Live q' → s'.contents q' = s.contents q'

/-- The value `v` handed over by `mq_write` tells the caller what happened: it is the length if the
message was appended, and otherwise the cause, with nothing else changed by the handler. -/
structure WriteAnswered (s : Kernel) (r : Addr) (fd : Int32) (msg : Int) (length : Int32)
    (s' : Kernel) (v : Int) : Prop where
  appended : v = length.toInt ∧ 0 ≤ v ↔ s.Appended r fd msg length s'
  refused : ¬ s.Appended r fd msg length s' → s.writeCause r fd.toInt length.toInt = some v ∧
    s' = (s.enter r (.mqWrite fd msg length)).setRetvalue r v

/-- Either the call is refused before it looks at the queue; or the queue has room and the next
message block has null link fields; or the queue is full, and both the last answer and the exit
value of the caller are the code for that already. -/
def WriteUndisturbed (s : Kernel) (r : Addr) (fd length : Int32) : Prop :=
  length.toInt < 0 ∨ messageStringMaxLength < length.toInt ∨
    ∀ q, s.queueByFd r fd.toInt = some q →
      if ((s.messagesOf q).length : Int) = mForMq then
        s.syscallRetvalue r = dsosMessageQueueFull ∧ s.returnValue r = dsosMessageQueueFull
      else ∀ m, s.mAllocator.getBlock.1 = some m → s.msgs.Unlinked m

end Kernel

/-- The ways a call of `mq_write` completes. -/
inductive WriteOutcome (s : Kernel) (r : Addr) (fd : Int32) (msg : Int) (length : Int32)
    (s' : Kernel) (v : Int) : Prop where
  | refused : (length.toInt < 0 ∨ messageStringMaxLength < length.toInt ∨
        s.queueByFd r fd.toInt = none) →
      s.writeCause r fd.toInt length.toInt = some v → v < 0 →
      s' = (s.enter r (.mqWrite fd msg length)).setRetvalue r v →
      WriteOutcome s r fd msg length s' v
  | full {q : Addr} : 0 ≤ length.toInt → length.toInt ≤ messageStringMaxLength →
      s.queueByFd r fd.toInt = some q → ((s.messagesOf q).length : Int) = mForMq →
      s.writeCause r fd.toInt length.toInt = some dsosMessageQueueFull →
      v = s.syscallRetvalue r →
      s' = { s.enter r (.mqWrite fd msg length) with
        returnValue := Function.update s.returnValue r dsosMessageQueueFull } →
      WriteOutcome s r fd msg length s' v
  | linked {q m : Addr} : 0 ≤ length.toInt → length.toInt ≤ messageStringMaxLength →
      s.queueByFd r fd.toInt = some q → ((s.messagesOf q).length : Int) ≠ mForMq →
      s.mAllocator.getBlock.1 = some m → s.msgs.Unlinked m → v = length.toInt →
      s.Appended r fd msg length s' → WriteOutcome s r fd msg length s' v
  | dropped {q m : Addr} : 0 ≤ length.toInt → length.toInt ≤ messageStringMaxLength →
      s.queueByFd r fd.toInt = some q → ((s.messagesOf q).length : Int) ≠ mForMq →
      s.mAllocator.getBlock.1 = some m → ¬ s.msgs.Unlinked m → v = length.toInt →
      (∀ q, s.Live q → s'.contents q = s.contents q) → WriteOutcome s r fd msg length s' v

variable {counted : ProcList → Prop} {s s' : Kernel} {a a' : Model} {r q : Addr} {fd length : Int32}
  {msg v : Int}

/-! ## The outcomes -/

/-- The queue behind a descriptor number exists. -/
theorem Refines.queueByFd_live (hR : Refines counted s a) (hI : a.Inv) {n : Int}
    (h : s.queueByFd r n = some q) : s.Live q := by
  rw [hR.queueByFd_eq hI.desc] at h
  exact (hR.live_iff hI).2 (hI.desc.queue_live h)

/-- Calls that are refused because of their arguments answer the cause and change nothing else. -/
theorem internalMessageQueueWrite_refused {n l : Int} {d : Option Addr} (hrun : s.running = some r)
    (hfd : wrapInt (s.syscallArgs r 0) = n) (hlength : wrapInt (s.syscallArgs r 2) = l)
    (hfound : s.descriptorListByFd r n = .ok d)
    (htype : ∀ x ∈ d, s.resourceType (s.desResource x) = messageQueueType →
      ∃ q, s.desResource x = .mq q)
    (hcause : s.writeCause r n l = some v) (hne : v ≠ dsosMessageQueueFull) :
    s.internalMessageQueueWrite = .ok (s.setRetvalue r v) := by
  simp only [Kernel.internalMessageQueueWrite, hrun, deref_some, ok_bind, hfd, hlength, hfound]
  simp only [Kernel.writeCause, hfound] at hcause
  by_cases hbad : l < 0 ∨ l > messageStringMaxLength
  · rw [if_pos hbad] at hcause ⊢
    rw [← Option.some.inj hcause]
    rfl
  · rw [if_neg hbad] at hcause ⊢
    cases d with
    | none =>
        rw [← Option.some.inj hcause]
        rfl
    | some x =>
        cases hx : s.desResource x with
        | standard b =>
            simp only [hx] at hcause
            have hne : s.resourceType (.standard b) ≠ messageQueueType := fun heq => by
              obtain ⟨q, hq⟩ := htype x rfl (by rw [hx]; exact heq)
              rw [hx] at hq
              cases hq
            simp only [hx, ne_eq, hne, not_false_eq_true, if_true, ← Option.some.inj hcause,
              pure_eq_ok]
        | mq q =>
            simp only [hx] at hcause
            -- a queue refuses the call only when it is full
            split at hcause
            · exact absurd (Option.some.inj hcause).symm hne
            · cases hcause

/-- A call on a full queue sets the exit value of the caller and no answer. -/
theorem internalMessageQueueWrite_full {n l : Int} {d : Addr} (hrun : s.running = some r)
    (hfd : wrapInt (s.syscallArgs r 0) = n) (hlength : wrapInt (s.syscallArgs r 2) = l)
    (h0 : 0 ≤ l) (h1 : l ≤ messageStringMaxLength) (hfound : s.descriptorListByFd r n = .ok (some d))
    (hd : s.desResource d = .mq q) (htype : s.resourceType (.mq q) = messageQueueType)
    (hfull : s.msgs.size q = mForMq) :
    s.internalMessageQueueWrite =
      .ok { s with returnValue := Function.update s.returnValue r dsosMessageQueueFull } := by
  have hok : ¬ (l < 0 ∨ l > messageStringMaxLength) := by omega
  simp only [Kernel.internalMessageQueueWrite, hrun, deref_some, ok_bind, hfd, hlength, hfound, hok,
    if_false, hd, htype, ne_eq, not_true_eq_false, Kernel.messageQueueOf, hfull, if_true, pure_eq_ok]

section Cause

variable {n l : Int}

theorem writeCause_badLength (hbad : l < 0 ∨ messageStringMaxLength < l) :
    s.writeCause r n l = some dsosMessageLengthNotValid := if_pos hbad

theorem Refines.writeCause_notFound (hR : Refines counted s a) (hI : a.Inv) (h0 : 0 ≤ l)
    (h1 : l ≤ messageStringMaxLength) (hd : a.descriptorByFd r n = none) :
    s.writeCause r n l = some dsosResourceNotFound := by
  have hok : ¬ (l < 0 ∨ messageStringMaxLength < l) := by omega
  simp only [Kernel.writeCause, hok, if_false, hR.descriptorListByFd_eq hI.desc, hd]

theorem Refines.writeCause_wrongType (hR : Refines counted s a) (hI : a.Inv) (h0 : 0 ≤ l)
    (h1 : l ≤ messageStringMaxLength) {d : Addr} (hd : a.descriptorByFd r n = some d)
    (hnone : a.queueByFd r n = none) : s.writeCause r n l = some dsosEResourceTypeWrong := by
  have hok : ¬ (l < 0 ∨ messageStringMaxLength < l) := by omega
  have hres : s.desResource = a.desResource := by rw [hR.data]
  simp only [Kernel.writeCause, hok, if_false, hR.descriptorListByFd_eq hI.desc, hd, hres]
  cases hx : a.desResource d with
  | standard b => rfl
  | mq q => simp [Model.queueByFd, hd, hx] at hnone

theorem Refines.writeCause_full (hR : Refines counted s a) (hI : a.Inv) (h0 : 0 ≤ l)
    (h1 : l ≤ messageStringMaxLength) {d : Addr} (hd : a.descriptorByFd r n = some d)
    (hq : a.desResource d = .mq q) (hfull : ((a.msgs q).length : Int) = mForMq)
    (hlive : .mq q ∈ a.resourcesList) : s.writeCause r n l = some dsosMessageQueueFull := by
  have hok : ¬ (l < 0 ∨ messageStringMaxLength < l) := by omega
  have hres : s.desResource = a.desResource := by rw [hR.data]
  simp only [Kernel.writeCause, hok, if_false, hR.descriptorListByFd_eq hI.desc, hd, hres, hq,
    hR.messagesOf_eq hI.msg hlive, hfull, if_true]

end Cause

/-- The arguments that the handler of `mq_write` finds. -/
theorem enter_mqWrite_args (s : Kernel) (r : Addr) (fd length : Int32) (msg : Int) :
    wrapInt ((s.enter r (.mqWrite fd msg length)).syscallArgs r 0) = fd.toInt ∧
      wrapInt ((s.enter r (.mqWrite fd msg length)).syscallArgs r 2) = length.toInt := by
  simp only [Kernel.enter, Function.update_self, storeArgs_apply]
  exact ⟨wrapInt_toInt fd, wrapInt_toInt length⟩

/-- A completed call of `mq_write` is a transition, and hands over the answer of the caller. -/
theorem Refines.call_mqWrite (hR : Refines exceptZombies s a) (hI : a.Inv)
    (hrun : s.running = some r) (hcall : s.call (.mqWrite fd msg length) = .ok (s', some v)) :
    (s.enter r (.mqWrite fd msg length)).internalMessageQueueWrite = .ok s' ∧
      s'.syscallRetvalue r = v ∧
      ∃ a', WriteStep s.msgs.Unlinked (a.enter r (.mqWrite fd msg length)) r fd.toInt msg
        length.toInt a' ∧ Refines exceptZombies s' a' ∧ a'.Inv := by
  rw [call_eq hrun, bind_eq_ok] at hcall
  obtain ⟨s₁, hhandler, heq⟩ := hcall
  obtain ⟨rfl, hv⟩ := Prod.mk.inj (Except.ok.inj heq)
  have hr : a.running = some r := hR.running_eq.symm.trans hrun
  have hI₁ := hI.enter hr (.mqWrite fd msg length)
  obtain ⟨a', hs, hR'⟩ := refine_handler (hR.enter r (.mqWrite fd msg length)) hI₁ (r := r) hr
    (fun hc => absurd rfl hc) (fun i hi => enter_args a r _ hi) hhandler
  have hrun' : s₁.running = some r := by
    rw [hR'.running_eq, (hs.sameProcesses rfl).running]
    exact hr
  rw [hrun'] at hv
  have hI' := hs.keep hI₁ ((hR.distinct hI.msg).enter _) hr (Function.update_self ..)
  cases hs with
  | mqWrite hs => exact ⟨hhandler, Option.some.inj hv, a', hs, hR', hI'⟩

/-- A write keeps the resources. -/
theorem Model.WriteStep.resourcesList_eq {clean : Addr → Prop} {n l : Int}
    (h : WriteStep clean a r n msg l a') : a'.resourcesList = a.resourcesList := by
  cases h <;> rfl

/-- A call that is refused with the answer `w`. -/
theorem Refines.outcome_refused {w : Int} (hR : Refines counted s a) (hI : a.Inv)
    (hrun : s.running = some r)
    (hhandler : (s.enter r (.mqWrite fd msg length)).internalMessageQueueWrite = .ok s')
    (hv : s'.syscallRetvalue r = v) (hcause : s.writeCause r fd.toInt length.toInt = some w)
    (hneg : w < 0) (hne : w ≠ dsosMessageQueueFull)
    (hwhy : length.toInt < 0 ∨ messageStringMaxLength < length.toInt ∨
      s.queueByFd r fd.toInt = none) : WriteOutcome s r fd msg length s' v := by
  have hr : a.running = some r := hR.running_eq.symm.trans hrun
  have hI₁ := hI.enter hr (.mqWrite fd msg length)
  have hR₁ := hR.enter r (.mqWrite fd msg length)
  obtain ⟨hfd, hlength⟩ := enter_mqWrite_args s r fd length msg
  have heq := internalMessageQueueWrite_refused (s := s.enter r (.mqWrite fd msg length)) hrun hfd
    hlength (hR₁.descriptorListByFd_eq hI₁.desc r fd.toInt) (fun d hd htype => ?_) hcause hne
  · obtain rfl := Except.ok.inj (hhandler.symm.trans heq)
    obtain rfl : w = v := by
      rw [← hv]
      exact (Function.update_self r w s.syscallRetvalue).symm
    exact .refused hwhy hcause hneg rfl
  · rcases queueByFd_cases hI₁ hd with ⟨-, hno⟩ | ⟨q, -, hq, -⟩
    · rw [hR₁.data] at htype
      exact absurd htype hno
    · rw [hR₁.data]
      exact ⟨q, hq⟩

/-- How a completed call of `mq_write` has completed. -/
theorem Refines.write_outcome (hR : Refines exceptZombies s a) (hI : a.Inv)
    (hrun : s.running = some r) (hcall : s.call (.mqWrite fd msg length) = .ok (s', some v)) :
    WriteOutcome s r fd msg length s' v := by
  obtain ⟨hhandler, hv, a', hs, hR', hI'⟩ := hR.call_mqWrite hI hrun hcall
  have hr : a.running = some r := hR.running_eq.symm.trans hrun
  have hI₁ := hI.enter hr (.mqWrite fd msg length)
  have hR₁ := hR.enter r (.mqWrite fd msg length)
  obtain ⟨hfd, hlength⟩ := enter_mqWrite_args s r fd length msg
  have hqueue : ∀ q, a.queueByFd r fd.toInt = some q → s.queueByFd r fd.toInt = some q :=
    fun q hq => (hR.queueByFd_eq hI.desc r _).trans hq
  have hret : s'.syscallRetvalue = a'.syscallRetvalue := by rw [hR'.data]
  have hcontents : ∀ q, s.Live q → a'.contents q = a.contents q → s'.contents q = s.contents q := by
    intro q hq heq
    have hlive := (hR.live_iff hI).1 hq
    have hlive' : .mq q ∈ a'.resourcesList := by
      rw [hs.resourcesList_eq]
      exact hlive
    rw [hR.contents_eq hI hlive, hR'.contents_eq hI' hlive', heq]
  have hblock : ∀ m ms, a.freeMs = m :: ms → s.mAllocator.getBlock.1 = some m := by
    intro m ms hfree
    rw [hR.ms.getBlock_head, hfree]
    rfl
  have hcases := fun q => hs.contents_cases (q := q) hI₁.msg
  cases hs with
  | badLength hbad =>
      apply hR.outcome_refused hI hrun hhandler hv (writeCause_badLength hbad) (by decide)
        (by decide)
      rcases hbad with hbad | hbad
      · exact Or.inl hbad
      · exact Or.inr (Or.inl hbad)
  | notFound h0 h1 hd =>
      refine hR.outcome_refused hI hrun hhandler hv (hR.writeCause_notFound hI h0 h1 hd)
        (by decide) (by decide) (Or.inr (Or.inr ?_))
      rw [hR.queueByFd_eq hI.desc]
      simp only [Model.queueByFd, show a.descriptorByFd r fd.toInt = none from hd]
      rfl
  | wrongType h0 h1 hd hnone =>
      exact hR.outcome_refused hI hrun hhandler hv (hR.writeCause_wrongType hI h0 h1 hd hnone)
        (by decide) (by decide) (Or.inr (Or.inr ((hR.queueByFd_eq hI.desc r _).trans hnone)))
  | @full q h0 h1 hq hfull =>
      have hlive := hI.desc.queue_live hq
      obtain ⟨d, hd, hdq⟩ := mem_of_queueByFd hq
      have htype : a.resourceType (.mq q) = messageQueueType := hI.res.type _ hlive
      -- the handler of a full queue runs to its end, with the old return value
      have hsize : s.msgs.size q = mForMq := (hR.size_eq hlive).trans hfull
      have heq := internalMessageQueueWrite_full (s := s.enter r (.mqWrite fd msg length)) hrun hfd
        hlength h0 h1 ((hR₁.descriptorListByFd_eq hI₁.desc r _).trans (congrArg _ hd))
        (by rw [hR₁.data]; exact hdq) (by rw [hR₁.data]; exact htype) hsize
      obtain rfl := Except.ok.inj (hhandler.symm.trans heq)
      have hmessages := hR.messagesOf_eq hI.msg hlive
      exact .full h0 h1 (hqueue q hq) (by rw [hmessages]; exact hfull)
        (hR.writeCause_full hI h0 h1 hd hdq hfull hlive) hv.symm rfl
  | @linked q m ms h0 h1 hq hroom hfree hclean =>
      have hlive := hI.desc.queue_live hq
      refine .linked h0 h1 (hqueue q hq) (by rw [hR.messagesOf_eq hI.msg hlive]; exact hroom)
        (hblock m ms hfree) hclean ?_ ⟨q, hqueue q hq, ?_, fun q' hne hq' => ?_⟩
      · rw [← hv, hret]
        exact Function.update_self r length.toInt a.syscallRetvalue
      · rw [hR.contents_eq hI hlive, hR'.contents_eq hI' hlive, hR.data]
        rcases hcases q with ⟨-, heq⟩ | heq
        · exact heq
        · have hlen := congrArg List.length heq
          simp only [Model.contents, List.length_map, Function.update_self, List.length_append,
            List.length_singleton] at hlen
          exact absurd hlen (by simp [Model.enter])
      · apply hcontents q' hq'
        rcases hcases q' with ⟨hq₂, -⟩ | heq
        · exact absurd (Option.some.inj (hq₂.symm.trans hq)) hne
        · exact heq
  | @refused q m ms h0 h1 hq hroom hfree hclean =>
      have hlive := hI.desc.queue_live hq
      refine .dropped h0 h1 (hqueue q hq) (by rw [hR.messagesOf_eq hI.msg hlive]; exact hroom)
        (hblock m ms hfree) hclean ?_ fun q' hq' => hcontents q' hq' ?_
      · rw [← hv, hret]
        exact Function.update_self r length.toInt a.syscallRetvalue
      · exact contents_congr (a := a.enter r (.mqWrite fd msg length)) rfl
          (message_fillMessage q' msg length.toInt hI₁.msg hfree)

/-! ## The answer -/

theorem Refines.not_appended (hR : Refines counted s a) (hI : a.Inv)
    (h : ∀ q, s.Live q → s'.contents q = s.contents q) : ¬ s.Appended r fd msg length s' := by
  rintro ⟨q, hfd, happend, -⟩
  rw [h q (hR.queueByFd_live hI hfd)] at happend
  simpa using congrArg List.length happend

/-- The answer of `mq_write` is right if and only if the call is not disturbed. -/
theorem write_answer_iff (hs : Reachable s) (hrun : s.running = some r)
    (hcall : s.call (.mqWrite fd msg length) = .ok (s', some v)) :
    s.WriteAnswered r fd msg length s' v ↔ s.WriteUndisturbed r fd length := by
  obtain ⟨es, hes⟩ := hs
  obtain ⟨a, hR, hI⟩ := hes.refines
  cases hR.write_outcome hI hrun hcall with
  | refused hwhy hcause hneg heq =>
      have hnot : ¬ s.Appended r fd msg length s' := by
        apply hR.not_appended hI
        intro q _
        rw [heq]
        rfl
      apply iff_of_true ⟨iff_of_false (fun hc => by omega) hnot, fun _ => ⟨hcause, heq⟩⟩
      rcases hwhy with hwhy | hwhy | hwhy
      · exact Or.inl hwhy
      · exact Or.inr (Or.inl hwhy)
      · exact Or.inr (Or.inr fun q hq => absurd (hwhy.symm.trans hq) (by simp))
  | @full q h0 h1 hq hfull hcause hv heq =>
      -- the handler sets `returnValue`, and the answer is the one of the previous syscall
      have hnot : ¬ s.Appended r fd msg length s' := by
        apply hR.not_appended hI
        intro q _
        rw [heq]
        rfl
      constructor
      · intro hanswer
        obtain ⟨hcause', heq'⟩ := hanswer.refused hnot
        have hret : v = dsosMessageQueueFull := Option.some.inj (hcause'.symm.trans hcause)
        refine Or.inr (Or.inr fun q' hq' => ?_)
        obtain rfl : q = q' := Option.some.inj (hq.symm.trans hq')
        rw [if_pos hfull]
        refine ⟨hv.symm.trans hret, ?_⟩
        have hvalue := congrArg (fun s => s.returnValue r) (heq'.symm.trans heq)
        exact hvalue.trans (Function.update_self ..)
      · rintro (hbad | hbad | hok)
        · omega
        · omega
        · have hboth := hok q hq
          rw [if_pos hfull] at hboth
          have hret : v = dsosMessageQueueFull := hv.trans hboth.1
          refine ⟨iff_of_false (fun hc => ?_) hnot, fun _ => ⟨hret ▸ hcause, ?_⟩⟩
          · rw [hret] at hc
            exact absurd hc.2 (by decide)
          · rw [heq, ← hboth.2, Function.update_eq_self, hv, Kernel.setRetvalue]
            exact congrArg (fun f => { s.enter r (.mqWrite fd msg length) with syscallRetvalue := f })
              (Function.update_eq_self r s.syscallRetvalue).symm
  | @linked q m h0 h1 hq hroom hblock hclean hv happended =>
      apply iff_of_true ⟨iff_of_true ⟨hv, hv ▸ h0⟩ happended, fun hnot => absurd happended hnot⟩
      refine Or.inr (Or.inr fun q' hq' => ?_)
      obtain rfl : q = q' := Option.some.inj (hq.symm.trans hq')
      rw [if_neg hroom]
      intro m' hm'
      obtain rfl : m = m' := Option.some.inj (hblock.symm.trans hm')
      exact hclean
  | @dropped q m h0 h1 hq hroom hblock hlinked hv hsame =>
      -- `List_insert` refuses the recycled block, and the answer is the length all the same
      refine iff_of_false (fun hanswer => ?_) ?_
      · exact hR.not_appended hI hsame (hanswer.appended.1 ⟨hv, hv ▸ h0⟩)
      · rintro (hbad | hbad | hok)
        · omega
        · omega
        · have hclean := hok q hq
          rw [if_neg hroom] at hclean
          exact hlinked (hclean m hblock)

/-- Two queues hold a message each, and the answer to a write into the first one is right. -/
theorem write_answer_second : ∃ s s' : Kernel,
    (s.contents 0 = [([72], 1)] ∧ s.contents 88 = [([73], 1)]) ∧
    s.call (.mqWrite 0 100 1) = .ok (s', some 1) ∧ s.WriteAnswered 0 0 100 1 s' 1 := by
  obtain ⟨es, s, hes, hp⟩ := exists_of_executes
    [.syscall (.openResource 5 1 1), .syscall (.openResource 6 1 1), .store 100 72,
      .syscall (.mqWrite 0 100 1), .store 100 73, .syscall (.mqWrite 1 100 1)]
    (fun _ s => s.running = some 0 ∧ s.queueByFd 0 (0 : Int32).toInt = some 0 ∧
      ((s.messagesOf 0).length : Int) ≠ mForMq ∧
      (s.contents 0 = [([72], 1)] ∧ s.contents 88 = [([73], 1)]) ∧
      (s.mAllocator.getBlock.1 = some 304 ∧ s.msgs.prev 304 = none ∧ s.msgs.next 304 = none) ∧
      (s.call (.mqWrite 0 100 1)).toOption.map (·.2) = some (some 1)) (by decide +kernel)
  obtain ⟨hrun, hq, hroom, hcontents, ⟨hblock, hclean⟩, hcall⟩ := of_decide_eq_true hp
  cases h : s.call (.mqWrite 0 100 1) with
  | error f => simp [h, Except.toOption] at hcall
  | ok p =>
      obtain ⟨s', v⟩ := p
      obtain rfl : v = some 1 := by simpa [h, Except.toOption] using hcall
      refine ⟨s, s', hcontents, h, (write_answer_iff ⟨es, hes⟩ hrun h).2 ?_⟩
      refine Or.inr (Or.inr fun q hq' => ?_)
      obtain rfl : 0 = q := Option.some.inj (hq.symm.trans hq')
      rw [if_neg hroom]
      intro m hm
      obtain rfl : 304 = m := Option.some.inj (hblock.symm.trans hm)
      exact hclean

/-- A queue with two messages is destroyed and another one is created: the write answers the length
of the message, and the message is lost. -/
theorem write_answer_lost : ∃ s s' : Kernel, Reachable s ∧ s.running = some 0 ∧
    s.call (.mqWrite 1 100 1) = .ok (s', some 1) ∧ ¬ s.WriteAnswered 0 1 100 1 s' 1 := by
  obtain ⟨es, s, hes, hp⟩ := exists_of_executes
    [.syscall (.openResource 5 1 1), .syscall (.mqWrite 0 100 1),
      .syscall (.mqWrite 0 100 1), .syscall (.closeResource 0 0), .syscall (.destroyResource 5),
      .syscall (.openResource 6 1 1)]
    (fun _ s => s.running = some 0 ∧ s.queueByFd 0 1 = some 0 ∧ s.contents 0 = [] ∧
      (s.call (.mqWrite 1 100 1)).toOption.map (fun p => (p.2, p.1.contents 0)) = some (some 1, []))
    (by decide +kernel)
  obtain ⟨hrun, hqueue, hempty, hcall⟩ := of_decide_eq_true hp
  cases h : s.call (.mqWrite 1 100 1) with
  | error f => simp [h, Except.toOption] at hcall
  | ok p =>
      obtain ⟨s', v⟩ := p
      obtain ⟨rfl, hempty'⟩ : v = some 1 ∧ s'.contents 0 = [] := by
        simpa [h, Except.toOption] using hcall
      refine ⟨s, s', ⟨es, hes⟩, hrun, h, fun hanswer => ?_⟩
      obtain ⟨q, hq, happend, -⟩ := hanswer.appended.1 ⟨rfl, by decide⟩
      obtain rfl : 0 = q := Option.some.inj (hqueue.symm.trans hq)
      rw [hempty, hempty'] at happend
      simp at happend

end DisastrOS
