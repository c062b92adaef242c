import DisastrOS.Abstract.MessageQueues
import DisastrOS.Refinement.SystemRun
import Mathlib.Data.List.Induction

/-!
# Integrity of the message queues

From the creation of a message queue on, the messages received from it followed by those still in
it are the messages sent to it, in order. The one-step form of this is `Simulated.transfer`.
-/

set_option autoImplicit false

namespace DisastrOS

open Runs LinkedSequence LinkedSequence.ListHeap Model

/-! ## Observations -/

namespace Kernel

/-- The message queue `q` exists. -/
def Live (s : Kernel) (q : Addr) : Prop := .mq q ∈ s.resources

instance (s : Kernel) (q : Addr) : Decidable (s.Live q) :=
  inferInstanceAs (Decidable (.mq q ∈ s.resources))

/-- The messages linked in queue `q`, in order. -/
def contents (s : Kernel) (q : Addr) : List Message := (s.messagesOf q).map s.message

end Kernel

/-- The message that a successful `mq_read` hands over from queue `q` in this step. -/
def received (q : Addr) (e : Event Kernel Action) : Option Message :=
  match e.act, e.pre.running with
  | .syscall (.mqRead fd buf _), some r =>
      if e.pre.queueByFd r fd.toInt = some q ∧ 0 ≤ e.post.syscallRetvalue r then
        some (e.post.bytes buf (e.post.syscallRetvalue r), e.post.syscallRetvalue r)
      else none
  | _, _ => none

/-- The message of an `mq_write` that links one more message into queue `q` in this step. -/
def sent (q : Addr) (e : Event Kernel Action) : Option Message :=
  match e.act, e.pre.running with
  | .syscall (.mqWrite fd msg length), some r =>
      if e.pre.queueByFd r fd.toInt = some q ∧
          (e.post.messagesOf q).length = (e.pre.messagesOf q).length + 1 then
        some (e.pre.bytes msg length.toInt, length.toInt)
      else none
  | _, _ => none

/-- The step is an `mq_read` or `mq_write` on queue `q`. -/
def OperatesOn (q : Addr) (e : Event Kernel Action) : Prop :=
  ∃ r fd p length, e.pre.running = some r ∧ e.pre.queueByFd r fd.toInt = some q ∧
    (e.act = .syscall (.mqRead fd p length) ∨ e.act = .syscall (.mqWrite fd p length))

variable {counted : ProcList → Prop} {c c' : Kernel} {a a' : Model} {r q : Addr}
  {e : Event Kernel Action} {es : List (Event Kernel Action)} {s : Kernel}

theorem Refines.live_iff (hR : Refines counted c a) (hI : a.Inv) :
    c.Live q ↔ .mq q ∈ a.resourcesList := by
  rw [Kernel.Live, hR.resources_eq hI.res]

theorem Refines.contents_eq (hR : Refines counted c a) (hI : a.Inv)
    (hq : .mq q ∈ a.resourcesList) : c.contents q = a.contents q := by
  rw [Kernel.contents, hR.messagesOf_eq hI.msg hq, hR.data, Model.contents]

/-! ## One step -/

/-- Only `mq_read` and `mq_write` on a queue change its contents. -/
theorem Simulated.contents_eq (h : Simulated counted e a a') (hq : .mq q ∈ a.resourcesList)
    (hq' : .mq q ∈ a'.resourcesList) (hother : ¬ OperatesOn q e) :
    a'.contents q = a.contents q := by
  obtain ⟨pre, act, post⟩ := e
  obtain ⟨-, hR, -, hI, -, hstep⟩ := h
  cases hstep with
  | tick _ hs => exact hs.contents_eq q
  | store _ => rfl
  | @syscall r call _ hr hs =>
      have hrun : pre.running = some r := hR.running_eq.trans hr
      cases hc : call.onMessages with
      | false =>
          have hD := hR.distinct hI.msg
          exact hs.contents_eq hc (hI.enter hr call) (hD.enter call) hq hq'
      | true =>
          cases hs with
          | @mqRead fd length buf _ hs =>
              have hfd : a.queueByFd r fd.toInt ≠ some q := fun heq => hother
                ⟨r, fd, buf, length, hrun, (hR.queueByFd_eq hI.desc r _).trans heq, Or.inl rfl⟩
              rcases hs.contents_cases (hI.enter hr _).msg with ⟨heq, -⟩ | ⟨-, heq⟩
              · exact absurd heq hfd
              · exact heq
          | @mqWrite fd length msg _ hs =>
              have hfd : a.queueByFd r fd.toInt ≠ some q := fun heq => hother
                ⟨r, fd, msg, length, hrun, (hR.queueByFd_eq hI.desc r _).trans heq, Or.inr rfl⟩
              rcases hs.contents_cases (hI.enter hr _).msg with ⟨heq, -⟩ | heq
              · exact absurd heq hfd
              · exact heq
          | _ => cases hc

/-- In one step, what was in the queue and what is sent is what is received and what remains. -/
theorem Simulated.transfer (h : Simulated counted e a a') (hq : .mq q ∈ a.resourcesList)
    (hq' : .mq q ∈ a'.resourcesList) :
    e.pre.contents q ++ (sent q e).toList = (received q e).toList ++ e.post.contents q := by
  rw [h.pre.contents_eq h.inv hq, h.post.contents_eq h.inv' hq']
  have hlength : e.pre.messagesOf q = a.msgs q := h.pre.messagesOf_eq h.inv.msg hq
  have hlength' : e.post.messagesOf q = a'.msgs q := h.post.messagesOf_eq h.inv'.msg hq'
  -- only a read or a write on a descriptor of `q` touches its messages
  by_cases hop : OperatesOn q e
  · obtain ⟨pre, act, post⟩ := e
    obtain ⟨r, fd, p, length, hrun, hfd, hact⟩ := hop
    have hr : a.running = some r := h.pre.running_eq.symm.trans hrun
    have hfd' : a.queueByFd r fd.toInt = some q := (h.pre.queueByFd_eq h.inv.desc r _).symm.trans hfd
    have hstep := h.step
    simp only at hrun hfd hact hlength hlength'
    rcases hact with rfl | rfl
    · cases hstep.handler hr with
      | mqRead hs =>
          have hret : post.syscallRetvalue = a'.syscallRetvalue := by rw [h.post.data]
          have hbytes : post.bytes p (a'.syscallRetvalue r) = a'.bytes p (a'.syscallRetvalue r) := by
            rw [h.post.data]
          simp only [sent, received, hrun, hfd, hret, hbytes, true_and, Option.toList_none,
            List.append_nil]
          rcases hs.contents_cases (q := q) (h.inv.enter hr _).msg with
            ⟨-, hpos, heq⟩ | ⟨hneg, heq⟩
          · rw [if_pos hpos]
            exact heq
          · have hneg : ¬ 0 ≤ a'.syscallRetvalue r := by
              rcases hneg with hneg | hneg
              · exact absurd hfd' hneg
              · omega
            rw [if_neg hneg, heq]
            rfl
    · cases hstep.handler hr with
      | mqWrite hs =>
          have hbytes : pre.bytes p length.toInt = a.bytes p length.toInt := by rw [h.pre.data]
          simp only [sent, received, hrun, hfd, hbytes, hlength, hlength', true_and,
            Option.toList_none, List.nil_append]
          rcases hs.contents_cases (q := q) (h.inv.enter hr _).msg with ⟨-, heq⟩ | heq
          -- linked: the list of `q` has grown by one
          · have hlen : (a'.msgs q).length = (a.msgs q).length + 1 := by
              simpa [Model.contents, Model.enter] using congrArg List.length heq
            rw [if_pos hlen, heq]
            rfl
          -- not linked: neither the list nor the contents have changed
          · have hlen : ¬ (a'.msgs q).length = (a.msgs q).length + 1 := by
              have := congrArg List.length heq
              simp only [Model.contents, List.length_map, Model.enter] at this
              omega
            rw [if_neg hlen, heq]
            exact List.append_nil _
  · have heq := h.contents_eq hq hq' hop
    have hsent : sent q e = none := by
      unfold sent
      split
      · rename_i fd msg length r hact hrun
        exact if_neg fun hc => hop ⟨r, fd, msg, length, hrun, hc.1, Or.inr hact⟩
      · rfl
    have hreceived : received q e = none := by
      unfold received
      split
      · rename_i fd buf length r hact hrun
        exact if_neg fun hc => hop ⟨r, fd, buf, length, hrun, hc.1, Or.inl hact⟩
      · rfl
    rw [hsent, hreceived, heq]
    exact List.append_nil _

/-- A message queue is empty when it is created. -/
theorem Simulated.contents_of_new (h : Simulated counted e a a') (hq : ¬ e.pre.Live q)
    (hq' : e.post.Live q) : e.post.contents q = [] := by
  rw [h.pre.live_iff h.inv] at hq
  rw [h.post.live_iff h.inv'] at hq'
  obtain ⟨_, -, hnew⟩ := h.step.creates hq hq'
  rw [h.post.contents_eq h.inv' hq', Model.contents, hnew.msgs]
  rfl

/-! ## Refused reads -/

/-- `mq_read` sets the answer only, or it hands over the first message of a queue. -/
theorem internalMessageQueueRead_cases (hrun : c.running = some r)
    (h : c.internalMessageQueueRead = .ok c') :
    (∃ v, c' = c.setRetvalue r v) ∨
      ∃ q m, c.queueByFd r (wrapInt (c.syscallArgs r 0)) = some q ∧ c.msgs.first q = some m ∧
        c'.syscallRetvalue r = c.msgLength m := by
  simp only [Kernel.internalMessageQueueRead, hrun, deref_some, ok_bind, bind_eq_ok] at h
  obtain ⟨found, hfound, h⟩ := h
  cases found with
  | none => exact Or.inl ⟨_, (Except.ok.inj h).symm⟩
  | some d =>
      simp only at h
      split at h
      · exact Or.inl ⟨_, (Except.ok.inj h).symm⟩
      · cases hres : c.desResource d with
        | standard b => simp [hres, Kernel.messageQueueOf] at h
        | mq q =>
            simp only [hres, Kernel.messageQueueOf, ok_bind] at h
            split at h
            · split at h <;> exact Or.inl ⟨_, (Except.ok.inj h).symm⟩
            · obtain ⟨m, hm, h⟩ := bind_eq_ok.1 h
              rw [deref_eq_ok] at hm
              split at h
              · exact Or.inl ⟨_, (Except.ok.inj h).symm⟩
              · split at h
                · cases h
                · simp only [listDetach_eq, ok_bind] at h
                  split at h
                  -- the answer is the length of the message, and the block goes back to its pool
                  · rename_i s' hfree
                    refine Or.inr ⟨q, m, by simp [Kernel.queueByFd, hfound, hres], hm, ?_⟩
                    obtain rfl : s' = c' := Except.ok.inj h
                    have hdata := congrArg (fun p => p.2.syscallRetvalue r) hfree
                    simpa [Kernel.mFree, Kernel.setRetvalue] using hdata.symm
                  · cases h

/-- An `mq_read` with a negative answer changes that answer only, apart from the call itself. -/
theorem Simulated.read_refused {fd length : Int32} {buf : Int} (h : Simulated counted e a a')
    (hact : e.act = .syscall (.mqRead fd buf length)) (hrun : e.pre.running = some r)
    (hneg : e.post.syscallRetvalue r < 0) :
    ∃ v, e.post = (e.pre.enter r (.mqRead fd buf length)).setRetvalue r v := by
  obtain ⟨pre, act, post⟩ := e
  obtain ⟨hstep, hR, -, hI, -, -⟩ := h
  simp only at hact hrun hneg hstep
  subst hact
  have hhandler := hstep.handler hrun
  rcases internalMessageQueueRead_cases (show (pre.enter r _).running = some r from hrun)
      hhandler with hv | ⟨q, m, hfd, hfirst, hret⟩
  · exact hv
  · have hR' := hR.enter r (.mqRead fd buf length)
    have hI' := hI.enter (hR.running_eq.symm.trans hrun) (.mqRead fd buf length)
    rw [hR'.queueByFd_eq hI'.desc] at hfd
    have hlive := hI'.desc.queue_live hfd
    rw [(hR'.msgs.represents q hlive).first] at hfirst
    have hbound := hI'.msg.bound q m (List.mem_of_mem_head? hfirst)
    have hlength : (pre.enter r (.mqRead fd buf length)).msgLength = a.msgLength :=
      congrArg (·.msgLength) hR.data
    rw [hret, hlength] at hneg
    exact absurd hbound.1 (Int.not_le.2 hneg)

/-! ## Runs -/

/-- The queue exists in the last state if it exists after every event. -/
theorem SystemRun.live_last {fs : List (Event Kernel Action)} (h : SystemRun (fs ++ e :: es) s)
    (hlive : ∀ f ∈ e :: es, f.post.Live q) : s.Live q := by
  rcases List.eq_nil_or_concat (e :: es) with hnil | ⟨gs, g, hcons⟩
  · cases hnil
  · rw [List.concat_eq_append] at hcons
    rw [hcons, ← List.append_assoc] at h
    rw [← h.of_concat.2.2]
    exact hlive g (by rw [hcons]; exact List.mem_append_right _ (List.mem_singleton_self g))

/-- From the creation of the queue in the event `e` on: what has been received and what is left is
what has been sent. -/
theorem SystemRun.fifo {fs : List (Event Kernel Action)} (h : SystemRun (fs ++ e :: es) s)
    (hnew : ¬ e.pre.Live q) (hlive : ∀ f ∈ e :: es, f.post.Live q) :
    es.filterMap (received q) ++ s.contents q = es.filterMap (sent q) := by
  induction es using List.reverseRecOn generalizing s with
  | nil =>
      obtain ⟨-, -, rfl⟩ := h.of_concat
      obtain ⟨a, a', hsim⟩ := h.simulated (List.mem_append_right _ List.mem_cons_self)
      simpa using hsim.contents_of_new hnew (hlive e List.mem_cons_self)
  | append_singleton es f ih =>
      have hlive' : ∀ g ∈ e :: es, g.post.Live q := fun g hg => hlive g (by simp at hg ⊢; tauto)
      rw [← List.cons_append, ← List.append_assoc] at h
      obtain ⟨hprev, -, rfl⟩ := h.of_concat
      obtain ⟨a, a', hsim⟩ := h.simulated (List.mem_append_right _ (List.mem_singleton_self f))
      have hq := (hsim.pre.live_iff hsim.inv).1 (hprev.live_last hlive')
      have hq' := (hsim.post.live_iff hsim.inv').1 (hlive f (by simp))
      have htransfer := hsim.transfer hq hq'
      have hsingle : ∀ g : Event Kernel Action → Option Message,
          (es ++ [f]).filterMap g = es.filterMap g ++ (g f).toList := fun g => by
        rw [List.filterMap_append]
        cases hg : g f <;> simp [hg]
      rw [hsingle, hsingle, ← ih hprev hlive', List.append_assoc, List.append_assoc, htransfer]

/-- The message queues lose, duplicate and reorder nothing in the run `es` that ends in `s`. -/
structure MessageIntegrity (es : List (Event Kernel Action)) (s : Kernel) : Prop where
  /-- What was received since the creation of a queue, followed by its contents, was sent. -/
  fifo : ∀ q fs e gs, es = fs ++ e :: gs → ¬ e.pre.Live q → (∀ f ∈ e :: gs, f.post.Live q) →
    gs.filterMap (received q) ++ s.contents q = gs.filterMap (sent q)
  /-- A read with a negative answer changes no list, no pool and no message. -/
  refused : ∀ e ∈ es, ∀ r fd buf length, e.act = .syscall (.mqRead fd buf length) →
    e.pre.running = some r → e.post.syscallRetvalue r < 0 →
    e.post.toHeaps = e.pre.toHeaps ∧ e.post.toPools = e.pre.toPools ∧
      e.post.toResources = e.pre.toResources
  /-- Only reads and writes on a queue change its contents. -/
  others : ∀ e ∈ es, ∀ q, e.pre.Live q → e.post.Live q → ¬ OperatesOn q e →
    e.post.contents q = e.pre.contents q
  /-- A queue is a well-formed list with a correct counter, and is bounded. -/
  bounded : ∀ q, s.Live q → s.msgs.Represents q (s.messagesOf q) ∧
    s.msgs.size q = (s.messagesOf q).length ∧ s.msgs.size q ≤ mForMq ∧
    ∀ m ∈ s.contents q, 0 ≤ m.2 ∧ m.2 ≤ messageStringMaxLength

/-- Every run keeps the integrity of the message queues. -/
theorem message_integrity (h : SystemRun es s) : MessageIntegrity es s where
  fifo := by
    rintro q fs e gs rfl hnew hlive
    exact h.fifo hnew hlive
  refused := by
    intro e he r fd buf length hact hrun hneg
    obtain ⟨a, a', hsim⟩ := h.simulated he
    obtain ⟨v, hv⟩ := hsim.read_refused hact hrun hneg
    rw [hv]
    exact ⟨rfl, rfl, rfl⟩
  others := by
    intro e he q hq hq' hop
    obtain ⟨a, a', hsim⟩ := h.simulated he
    have hlive := (hsim.pre.live_iff hsim.inv).1 hq
    have hlive' := (hsim.post.live_iff hsim.inv').1 hq'
    rw [hsim.pre.contents_eq hsim.inv hlive, hsim.post.contents_eq hsim.inv' hlive']
    exact hsim.contents_eq hlive hlive' hop
  bounded := by
    intro q hq
    obtain ⟨a, hR, hI⟩ := h.refines
    have hlive := (hR.live_iff hI).1 hq
    have hsize := hR.size_eq hlive
    rw [hR.messagesOf_eq hI.msg hlive, hR.contents_eq hI hlive]
    refine ⟨hR.msgs.represents q hlive, hsize, hsize ▸ hI.msg.size q, fun m hm => ?_⟩
    obtain ⟨m, hmem, rfl⟩ := List.mem_map.1 hm
    exact hI.msg.bound q m hmem

/-- Two messages are sent and one of them is received. -/
theorem message_integrity_one_read : ∃ es s,
    (es.filterMap (sent 0) = [([7], 1), ([9, 0], 2)] ∧ es.filterMap (received 0) = [([7], 1)] ∧
      s.contents 0 = [([9, 0], 2)]) ∧ MessageIntegrity es s := by
  obtain ⟨es, s, hrun, hp⟩ := exists_of_executes
    [.syscall (.openResource 5 1 1), .store 100 7, .syscall (.mqWrite 0 100 1),
      .store 100 9, .syscall (.mqWrite 0 100 2), .syscall (.mqRead 0 200 128)]
    (fun es s => es.filterMap (sent 0) = [([7], 1), ([9, 0], 2)] ∧
      es.filterMap (received 0) = [([7], 1)] ∧ s.contents 0 = [([9, 0], 2)])
    (by decide +kernel)
  exact ⟨es, s, of_decide_eq_true hp, message_integrity hrun⟩

end DisastrOS
