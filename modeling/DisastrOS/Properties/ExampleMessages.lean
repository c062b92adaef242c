import DisastrOS.Properties.ExampleProgram
import DisastrOS.Properties.MessageIntegrity

/-!
# `disastrOS_test_mq.c`: what the readers receive

A reader of the example program leaves its loop when it is told that there will be no more messages.
It has then received nothing, or all that its writer has sent.
-/

set_option autoImplicit false

namespace DisastrOS

open Runs Model

variable {es : List (Event Kernel Action)} {e : Event Kernel Action} {s : Kernel} {a a' : Model}
  {L : Layout} {t t' : TestMq} {ps : List Addr} {p q r : Addr} {x x' : Process} {pt : InitPoint}
  {c : Syscall} {memory memory' : Int → Int} {i : Nat} {mode : Int} {ph ph' : Phase}

/-! ## Where the clients go -/

/-- The client has left its loop. -/
def Phase.Done : Phase → Prop
  | .closed | .exited => True
  | _ => False

/-- A client never goes back to its start, and when it is done it stays so. -/
theorem ClientCall.forward {args answer : Int}
    (h : ClientCall memory args mode answer ph c ph') : ph' ≠ .started ∧ (ph.Done → ph'.Done) := by
  cases h with
  | opens => exact ⟨Phase.noConfusion, fun hdone => hdone⟩
  | begins _ _ => exact ⟨Phase.noConfusion, fun hdone => hdone⟩
  | uses _ => exact ⟨Phase.noConfusion, fun hdone => hdone⟩
  | closes => exact ⟨Phase.noConfusion, fun _ => trivial⟩
  | exits _ => exact ⟨Phase.noConfusion, fun _ => trivial⟩

theorem initFunction_creating {self : Addr} {pid answer : Int}
    (h : (Process.init pt).resume L memory self pid answer = .call c x' memory')
    (hc : (Action.syscall c).creates) : pt.Creating := by
  cases pt with
  | waiting alive =>
      simp only [Process.resume, initFunction] at h
      split at h <;> cases h <;> cases hc
  | destroying j =>
      simp only [Process.resume, initFunction] at h
      split at h <;> cases h <;> cases hc
  | shutdown => cases h
  | _ => trivial

/-- A call moves its process and leaves the others where they are. -/
theorem Crew.keeps_process (hC : Crew L t ps pt a) (h : Simulated exceptZombies e a a')
    (hx : t.process r = some x)
    (hout : x.resume L t.memory r (e.pre.pid r) (e.pre.syscallRetvalue r) = .call c x' memory)
    {z : Process} (hz : t.process p = some z) :
    TestMq.started L e.pre c (Function.update t.process r (some x')) p =
      Function.update t.process r (some x') p := by
  cases hc : (Action.syscall c).creates with
  | false => rw [TestMq.started_eq hc]
  | true =>
      rcases Process.caller hout with ⟨pt₁, rfl⟩ | ⟨args, mode, ph, ph', -, hcall⟩
      · obtain ⟨rfl, rfl⟩ := hC.init_process hx
        have hpt := initFunction_creating hout hc
        cases c with
        | spawn f args =>
            cases hblock : e.pre.pcbAllocator.getBlock.1 with
            | none => simp only [TestMq.started, hblock]
            | some b =>
                -- the block of the new process is not in use, but all others are
                have hfree : b ∈ a.freePcbs := by
                  rw [h.pre.pcbs.getBlock_head] at hblock
                  exact List.mem_of_mem_head? hblock
                have hne : p ≠ b := by
                  rintro rfl
                  exact h.inv.proc.free_fresh hfree (hC.early hpt p (hC.cast.mem hz))
                rw [TestMq.started_spawn hblock, Function.update_of_ne hne]
        | _ => rfl
      · rw [hcall.creates] at hc
        cases hc

/-- Clients do not go back. -/
theorem Crew.client_next (hC : Crew L t ps pt a) (h : Simulated exceptZombies e a a')
    (hnext : t.next L e = some t') (hp : t.HasClient L p i mode ph) :
    ∃ ph', t'.HasClient L p i mode ph' ∧ (ph ≠ .started → ph' ≠ .started) ∧
      (ph.Done → ph'.Done) := by
  obtain ⟨z, hz, hcl⟩ := hp
  cases TestMq.next_moves hnext with
  | quiet _ => exact ⟨ph, ⟨z, hz, hcl⟩, id, id⟩
  | @calls r x x' c memory hact hr hx hout =>
      have hkeep := hC.keeps_process h hx hout hz
      by_cases hpr : p = r
      · subst hpr
        obtain rfl := Option.some.inj (hz.symm.trans hx)
        obtain ⟨-, ph', hcl', hcall⟩ := Process.client_call hcl hout
        obtain ⟨hstarted, hdone⟩ := hcall.forward
        exact ⟨ph', ⟨x', hkeep.trans (Function.update_self ..), hcl'⟩, fun _ => hstarted, hdone⟩
      · exact ⟨ph, ⟨z, (hkeep.trans (Function.update_of_ne hpr ..)).trans hz, hcl⟩, id, id⟩

/-! ## Who reads and writes -/

/-- Only a reader that holds its descriptor calls `mq_read`. -/
theorem Process.reads {self : Addr} {pid answer : Int} {fd length : Int32} {buf : Int}
    (h : x.resume L memory self pid answer = .call (.mqRead fd buf length) x' memory') :
    ∃ args ph fd', x.client = some (args, dsosRead, ph) ∧
      (ph = .opened ∧ fd' = answer ∨ ph = .holding fd') ∧ fd = .ofInt fd' ∧
      x' = .reader args (.reading fd') := by
  cases x with
  | init pt =>
      simp only [resume, initFunction] at h
      split at h <;> (repeat' split at h) <;> cases h
  | sleeper => cases h
  | writer args pt =>
      simp only [resume, writeChildFunction] at h
      split at h <;> (repeat' split at h) <;> cases h
  | reader args pt =>
      simp only [resume, readChildFunction] at h
      split at h
      · cases h
      · split at h
        · cases h
        · cases h
          exact ⟨args, .opened, answer, rfl, Or.inl ⟨rfl, rfl⟩, rfl, rfl⟩
      · split at h <;> cases h
      · rename_i fd'
        cases h
        exact ⟨args, .holding fd', fd', rfl, Or.inr rfl, rfl, rfl⟩
      · split at h <;> cases h
      · cases h

/-- Only a writer that holds its descriptor calls `mq_write`. -/
theorem Process.writes {self : Addr} {pid answer : Int} {fd length : Int32} {msg : Int}
    (h : x.resume L memory self pid answer = .call (.mqWrite fd msg length) x' memory') :
    ∃ args ph fd', x.client = some (args, dsosWrite, ph) ∧
      (ph = .opened ∧ fd' = answer ∨ ph = .holding fd') ∧ fd = .ofInt fd' := by
  cases x with
  | init pt =>
      simp only [resume, initFunction] at h
      split at h <;> (repeat' split at h) <;> cases h
  | sleeper => cases h
  | writer args pt =>
      simp only [resume, writeChildFunction] at h
      split at h
      · cases h
      · split at h
        · cases h
        · cases h
          exact ⟨args, .opened, answer, rfl, Or.inl ⟨rfl, rfl⟩, rfl⟩
      · split at h <;> cases h
      · rename_i fd' j
        split at h
        · cases h
          exact ⟨args, .holding fd', fd', rfl, Or.inr rfl, rfl⟩
        · cases h
      · split at h <;> cases h
      · cases h
  | reader args pt =>
      simp only [resume, readChildFunction] at h
      split at h <;> (repeat' split at h) <;> cases h

/-- A client that reads or writes holds the queue with which it is registered. -/
theorem Crew.holds (hC : Crew L t ps pt a) (h : Simulated exceptZombies e a a')
    (hx : t.process r = some x) {args fd' : Int} {fd : Int32}
    (hcl : x.client = some (args, mode, ph))
    (hph : ph = .opened ∧ fd' = e.pre.syscallRetvalue r ∨ ph = .holding fd')
    (hfd : fd = .ofInt fd') : ∃ i q, t.HasClient L r i mode ph ∧ ph ≠ .started ∧ ¬ ph.Done ∧
      a.QueueAt i q ∧ e.pre.queueByFd r fd.toInt = some q := by
  obtain ⟨i, q, rfl, -, -, hq, hclient⟩ := hC.client hx hcl
  have hret : e.pre.syscallRetvalue r = a.syscallRetvalue r := by rw [h.pre.data]
  have hE : fd' = 0 ∧ ph ≠ .started ∧ ¬ ph.Done ∧ a.Enrolled r q mode (.during 0) := by
    rcases hph with ⟨rfl, rfl⟩ | rfl
    · exact ⟨hret.trans hclient.2.1, Phase.noConfusion, not_false, hclient.2.2⟩
    · exact ⟨hclient.1, Phase.noConfusion, not_false, hclient.2⟩
  obtain ⟨rfl, hstarted, hdone, hE⟩ := hE
  refine ⟨i, q, ⟨x, hx, hcl⟩, hstarted, hdone, hq, ?_⟩
  rw [h.pre.queueByFd_eq h.inv.desc, hfd]
  exact hE.queueByFd

/-- A message is received in an `mq_read` of the running process. -/
theorem read_of_received (h : received q e ≠ none) : ∃ r fd buf length, e.pre.running = some r ∧
    e.act = .syscall (.mqRead fd buf length) ∧ e.pre.queueByFd r fd.toInt = some q := by
  unfold received at h
  split at h
  · rename_i fd buf length r hact hr
    by_cases hq : e.pre.queueByFd r fd.toInt = some q ∧ 0 ≤ e.post.syscallRetvalue r
    · exact ⟨r, fd, buf, length, hr, hact, hq.1⟩
    · exact absurd (if_neg hq) h
  · exact absurd rfl h

/-- A message is sent in an `mq_write` of the running process. -/
theorem write_of_sent (h : sent q e ≠ none) : ∃ r fd msg length, e.pre.running = some r ∧
    e.act = .syscall (.mqWrite fd msg length) ∧ e.pre.queueByFd r fd.toInt = some q := by
  unfold sent at h
  split at h
  · rename_i fd msg length r hact hr
    by_cases hq : e.pre.queueByFd r fd.toInt = some q ∧
        (e.post.messagesOf q).length = (e.pre.messagesOf q).length + 1
    · exact ⟨r, fd, msg, length, hr, hact, hq.1⟩
    · exact absurd (if_neg hq) h
  · exact absurd rfl h

/-- Only the reader of a queue receives its messages, before it has left its loop. -/
theorem Crew.receives (hC : Crew L t ps pt a) (h : Simulated exceptZombies e a a')
    (hnext : t.next L e = some t') (hq : received q e ≠ none) :
    ∃ r i ph, e.pre.running = some r ∧ t.HasClient L r i dsosRead ph ∧ ¬ ph.Done ∧
      a.QueueAt i q := by
  obtain ⟨r, fd, buf, length, hr, hact, hfd⟩ := read_of_received hq
  cases TestMq.next_moves hnext with
  | quiet hno => exact absurd hact (hno _)
  | @calls r₁ x x' c memory hact₁ hr₁ hx hout =>
      obtain rfl := Option.some.inj (hr.symm.trans hr₁)
      obtain rfl := Action.syscall.inj (hact.symm.trans hact₁)
      obtain ⟨args, ph, fd', hcl, hph, hfd', -⟩ := Process.reads hout
      obtain ⟨i, q', hclient, -, hdone, hq', hfound⟩ := hC.holds h hx hcl hph hfd'
      obtain rfl := Option.some.inj (hfound.symm.trans hfd)
      exact ⟨r, i, ph, hr, hclient, hdone, hq'⟩

/-- Only the writer of a queue sends messages to it, while it has the queue open. -/
theorem Crew.sends (hC : Crew L t ps pt a) (h : Simulated exceptZombies e a a')
    (hnext : t.next L e = some t') (hq : sent q e ≠ none) :
    ∃ r i ph, t.HasClient L r i dsosWrite ph ∧ ph ≠ .started ∧ ¬ ph.Done ∧ a.QueueAt i q := by
  obtain ⟨r, fd, msg, length, hr, hact, hfd⟩ := write_of_sent hq
  cases TestMq.next_moves hnext with
  | quiet hno => exact absurd hact (hno _)
  | @calls r₁ x x' c memory hact₁ hr₁ hx hout =>
      obtain rfl := Option.some.inj (hr.symm.trans hr₁)
      obtain rfl := Action.syscall.inj (hact.symm.trans hact₁)
      obtain ⟨args, ph, fd', hcl, hph, hfd'⟩ := Process.writes hout
      obtain ⟨i, q', hclient, hstarted, hdone, hq', hfound⟩ := hC.holds h hx hcl hph hfd'
      obtain rfl := Option.some.inj (hfound.symm.trans hfd)
      exact ⟨r, i, ph, hclient, hstarted, hdone, hq'⟩

/-- A queue has one client for each mode. -/
theorem Crew.one_client (hC : Crew L t ps pt a) {p' : Addr} (hp : t.HasClient L p i mode ph)
    (hp' : t.HasClient L p' i mode ph') : p = p' ∧ ph = ph' := by
  obtain ⟨x, hx, hcl⟩ := hp
  obtain ⟨x', hx', hcl'⟩ := hp'
  obtain rfl := hC.cast.unique hx hx' (Process.plays_client hcl) (Process.plays_client hcl')
  obtain rfl := Option.some.inj (hx.symm.trans hx')
  rw [hcl] at hcl'
  cases hcl'
  exact ⟨rfl, rfl⟩

/-! ## The queues stay -/

/-- `init` passes the ids of the queues to `destroyResource`. -/
theorem Crew.destroys (hC : Crew L t ps pt a) {self : Addr} {pid answer : Int} {id : Int32}
    (hout : (Process.init pt).resume L t.memory self pid answer =
      .call (.destroyResource id) x' memory) : ∃ j q, a.QueueAt j q ∧ id.toInt = j := by
  have hS := hC.initStanding
  have hvalid : pt.Valid := hC.cast.valid 0 _ hC.init
  have hstored : ∀ j, j < 2 → 2 < pt.created →
      ∃ j' q, a.QueueAt j' q ∧ (Int32.ofInt (t.memory (L.resource j))).toInt = j' := by
    intro j hj hpt
    obtain ⟨q, hq⟩ := hS.queues j (by rwa [InitPoint.queues_of_created hpt])
    refine ⟨j, q, hq, ?_⟩
    rw [hS.stored j (by rwa [InitPoint.stored_of_created hpt])]
    exact Int32.toInt_ofInt_of_le (by omega) (by omega)
  cases pt with
  | waiting alive =>
      simp only [Process.resume, initFunction] at hout
      split at hout
      · cases hout
      · cases hout
        exact hstored 0 (by decide) (show 2 < 6 by decide)
  | destroying j =>
      simp only [Process.resume, initFunction] at hout
      split at hout
      · rename_i hj
        cases hout
        exact hstored (j + 1) hj (show 2 < 6 by decide)
      · cases hout
  | _ =>
      simp only [Process.resume, initFunction] at hout
      (repeat' split at hout) <;> cases hout

/-- The program destroys only what it has open, so nothing is destroyed. -/
theorem Crew.keeps_resources (hC : Crew L t ps pt a) (h : Simulated exceptZombies e a a')
    (hnext : t.next L e = some t') {res : ResourceRef} (hres : res ∈ a.resourcesList) :
    res ∈ a'.resourcesList ∧ a'.resourceId res = a.resourceId res := by
  cases TestMq.next_moves hnext with
  | quiet hno => exact h.step.keeps_resource h.inv hres fun id hact => absurd hact (hno _)
  | @calls r x x' c memory hact hr hx hout =>
      by_cases hdestroy : ∃ id, c = .destroyResource id
      · obtain ⟨id, rfl⟩ := hdestroy
        obtain ⟨hrun, hs⟩ := h.handler hact hr
        have hqueue : ∃ j q, a.QueueAt j q ∧ id.toInt = j := by
          rcases Process.caller hout with ⟨pt₁, rfl⟩ | ⟨_, _, _, _, -, hcall⟩
          · obtain ⟨rfl, rfl⟩ := hC.init_process hx
            exact hC.destroys hout
          · cases hcall with
            | begins _ hu => exact absurd hu not_false
            | uses hu => exact absurd hu not_false
        obtain ⟨j, q, hq, hid⟩ := hqueue
        cases hs with
        | destroyResource hs =>
            cases hs with
            | notFound _ => exact ⟨hres, rfl⟩
            | inUse _ _ => exact ⟨hres, rfl⟩
            | destroyed hfind hnone =>
                have hbyId := hq.byId h.inv
                rw [← hid] at hbyId
                obtain rfl := Option.some.inj (hbyId.symm.trans hfind)
                obtain ⟨d, ho⟩ := hq
                exact absurd hnone (ho.in_use h.inv.desc).2
      · exact h.step.keeps_resource h.inv hres fun id hact' =>
          absurd ⟨id, Action.syscall.inj (hact.symm.trans hact')⟩ hdestroy

/-! ## What has been received -/

/-- The reader of queue number `i` has been told that there will be no more messages. -/
def TestMq.Drained (L : Layout) (t : TestMq) (a : Model) (p : Addr) (i : Nat) : Prop :=
  ∃ pt, t.process p = some (.reader (L.resource i) pt) ∧
    (pt.phase.Done ∨ ∃ fd, pt = .reading fd ∧ a.syscallRetvalue p = dsosMessageQueueEmpty)

/-- The messages of the queues after the events `es` of the program. -/
structure Deliveries (L : Layout) (es : List (Event Kernel Action)) (t : TestMq) (a : Model) :
    Prop where
  fresh : ∀ q, .mq q ∉ a.resourcesList →
    es.filterMap (received q) = [] ∧ es.filterMap (sent q) = []
  order : ∀ q, .mq q ∈ a.resourcesList →
    es.filterMap (received q) ++ a.contents q = es.filterMap (sent q)
  early : ∀ i q, .mq q ∈ a.resourcesList → a.resourceId (.mq q) = (i : Nat) →
    es.filterMap (sent q) ≠ [] → ∃ p ph, t.HasClient L p i dsosWrite ph ∧ ph ≠ .started
  reading : ∀ p args fd, t.process p = some (.reader args (.reading fd)) → a.Awake p
  drained : ∀ i q p, .mq q ∈ a.resourcesList → a.resourceId (.mq q) = (i : Nat) →
    t.Drained L a p i → es.filterMap (received q) = [] ∨
      (a.contents q = [] ∧ ∃ p' ph, t.HasClient L p' i dsosWrite ph ∧ ph.Done)

/-- One more event adds its message, if there is one, at the end. -/
theorem filterMap_concat (g : Event Kernel Action → Option Message) :
    (es ++ [e]).filterMap g = es.filterMap g ++ (g e).toList := by
  rw [List.filterMap_append]
  cases hg : g e <;> simp [hg]

/-- What is not there yet takes no messages. -/
theorem Simulated.no_messages (h : Simulated exceptZombies e a a') (hq : .mq q ∉ a.resourcesList) :
    received q e = none ∧ sent q e = none := by
  constructor
  · by_contra hne
    obtain ⟨r, fd, buf, length, -, -, hfd⟩ := read_of_received hne
    rw [h.pre.queueByFd_eq h.inv.desc] at hfd
    exact hq (h.inv.desc.queue_live hfd)
  · by_contra hne
    obtain ⟨r, fd, buf, length, -, -, hfd⟩ := write_of_sent hne
    rw [h.pre.queueByFd_eq h.inv.desc] at hfd
    exact hq (h.inv.desc.queue_live hfd)

/-- The messages in a queue before and after an event. -/
theorem Simulated.moves_messages (h : Simulated exceptZombies e a a')
    (hq : .mq q ∈ a.resourcesList) (hq' : .mq q ∈ a'.resourcesList) :
    a.contents q ++ (sent q e).toList = (received q e).toList ++ a'.contents q := by
  have htransfer := h.transfer hq hq'
  rwa [h.pre.contents_eq h.inv hq, h.post.contents_eq h.inv' hq'] at htransfer

/-- What has been received, with what is left, is what has been sent, also after the next event. -/
theorem Deliveries.order_next (hD : Deliveries L es t a) (h : Simulated exceptZombies e a a')
    (hq' : .mq q ∈ a'.resourcesList) :
    (es ++ [e]).filterMap (received q) ++ a'.contents q = (es ++ [e]).filterMap (sent q) := by
  rw [filterMap_concat, filterMap_concat]
  by_cases hq : .mq q ∈ a.resourcesList
  · rw [List.append_assoc, ← h.moves_messages hq hq', ← List.append_assoc, hD.order q hq]
  · obtain ⟨hreceived, hsent⟩ := hD.fresh q hq
    obtain ⟨hr, hs⟩ := h.no_messages hq
    have hlive : ¬ e.pre.Live q := fun hl => hq ((h.pre.live_iff h.inv).1 hl)
    have hempty := h.contents_of_new hlive ((h.post.live_iff h.inv').2 hq')
    rw [h.post.contents_eq h.inv' hq'] at hempty
    rw [hreceived, hsent, hr, hs, hempty]
    rfl

theorem Deliveries.early_next (hD : Deliveries L es t a) (hC : Crew L t ps pt a)
    (h : Simulated exceptZombies e a a') (hnext : t.next L e = some t')
    (hid : a'.resourceId (.mq q) = (i : Nat)) (hsent : (es ++ [e]).filterMap (sent q) ≠ []) :
    ∃ p ph, t'.HasClient L p i dsosWrite ph ∧ ph ≠ .started := by
  by_cases hq : .mq q ∈ a.resourcesList
  · rw [(hC.keeps_resources h hnext hq).2] at hid
    have hwriter : ∃ p ph, t.HasClient L p i dsosWrite ph ∧ ph ≠ .started := by
      by_cases hold : es.filterMap (sent q) = []
      · rw [filterMap_concat, hold, List.nil_append] at hsent
        have hne : sent q e ≠ none := fun hnone => hsent (by rw [hnone]; rfl)
        obtain ⟨p, j, ph, hp, hph, -, hqj⟩ := hC.sends h hnext hne
        obtain rfl : j = i := Int.ofNat.inj ((hqj.mem h.inv).2.symm.trans hid)
        exact ⟨p, ph, hp, hph⟩
      · exact hD.early i q hq hid hold
    obtain ⟨p, ph, hp, hph⟩ := hwriter
    obtain ⟨ph', hp', hstarted, -⟩ := hC.client_next h hnext hp
    exact ⟨p, ph', hp', hstarted hph⟩
  · refine absurd ?_ hsent
    rw [filterMap_concat, (hD.fresh q hq).2, (h.no_messages hq).2]
    rfl

/-- How a reader gets to the end of its loop: by a read, or it is there already. -/
theorem Process.drains {self : Addr} {args pid answer : Int} {rp : ReaderPoint}
    (h : x.resume L memory self pid answer = .call c (.reader args rp) memory')
    (hrp : rp.phase.Done ∨ ∃ fd, rp = .reading fd) :
    (∃ fd buf length fd', c = .mqRead fd buf length ∧ rp = .reading fd') ∨
      rp.phase.Done ∧ (∀ fd buf length, c ≠ .mqRead fd buf length) ∧
        ∃ rp', x = .reader args rp' ∧
          (rp'.phase.Done ∨ ∃ fd, rp' = .reading fd ∧ answer = dsosMessageQueueEmpty) := by
  cases x with
  | init pt =>
      simp only [resume, initFunction] at h
      split at h <;> (repeat' split at h) <;> cases h
  | sleeper => cases h
  | writer args' wp =>
      simp only [resume, writeChildFunction] at h
      split at h <;> (repeat' split at h) <;> cases h
  | reader args' rp' =>
      simp only [resume, readChildFunction] at h
      split at h
      · cases h
        rcases hrp with hdone | ⟨fd, hfd⟩
        · exact hdone.elim
        · cases hfd
      · split at h
        · cases h
        · cases h
          exact Or.inl ⟨_, _, _, _, rfl, rfl⟩
      · rename_i fd
        split at h
        · rename_i hempty
          cases h
          exact Or.inr ⟨trivial, by simp, _, rfl, Or.inr ⟨fd, rfl, hempty⟩⟩
        · cases h
          rcases hrp with hdone | ⟨fd, hfd⟩
          · exact hdone.elim
          · cases hfd
      · cases h
        exact Or.inl ⟨_, _, _, _, rfl, rfl⟩
      · split at h
        · cases h
        · cases h
          exact Or.inr ⟨trivial, by simp, _, rfl, Or.inl trivial⟩
      · cases h

/-- A process that is not the running one is where it was, or it is new. -/
theorem TestMq.started_cases {s : Kernel} {process : Addr → Option Process} {z : Process}
    (hz : started L s c process p = some z) :
    process p = some z ∨ ∃ f args, L.entry f args = some z := by
  cases c with
  | spawn f args =>
      cases hb : s.pcbAllocator.getBlock.1 with
      | none =>
          simp only [started, hb] at hz
          exact Or.inl hz
      | some b =>
          rw [started_spawn hb] at hz
          by_cases hpb : p = b
          · rw [hpb, Function.update_self] at hz
            exact Or.inr ⟨f, args, hz⟩
          · rw [Function.update_of_ne hpb] at hz
            exact Or.inl hz
  | _ => exact Or.inl hz

theorem Layout.entry_reader_started {f args args' : Int} {rp : ReaderPoint}
    (h : L.entry f args = some (.reader args' rp)) : rp = .started := by
  unfold Layout.entry at h
  split at h
  · cases h
  · split at h
    · cases h
    · split at h
      · cases h
        rfl
      · cases h

/-- Where a reader has come from that has been in its loop. -/
theorem TestMq.reader_cases {s : Kernel} {args : Int} {rp : ReaderPoint}
    (hp : started L s c (Function.update t.process r (some x')) p = some (.reader args rp))
    (hrp : rp ≠ .started) :
    (p = r ∧ x' = .reader args rp) ∨ (p ≠ r ∧ t.process p = some (.reader args rp)) := by
  rcases started_cases hp with hp | ⟨f, args', hentry⟩
  · by_cases hpr : p = r
    · rw [hpr, Function.update_self] at hp
      exact Or.inl ⟨hpr, Option.some.inj hp⟩
    · rw [Function.update_of_ne hpr] at hp
      exact Or.inr ⟨hpr, hp⟩
  · exact absurd (Layout.entry_reader_started hentry) hrp

/-- A client is registered while it has the queue open. -/
theorem Crew.registered_of_client (hC : Crew L t ps pt a) (hI : a.Inv)
    (hp : t.HasClient L p i mode ph) (hstarted : ph ≠ .started) (hdone : ¬ ph.Done)
    (hq : a.QueueAt i q) : a.registration q mode ≠ none := by
  obtain ⟨x, hx, hcl⟩ := hp
  obtain ⟨j, q', hij, -, -, hq', hclient⟩ := hC.client hx hcl
  obtain rfl := Layout.resource_inj.1 hij
  obtain rfl := hq.unique hq' hI
  have hE : a.Enrolled p q mode (.during 0) := by
    cases ph with
    | started => exact absurd rfl hstarted
    | opened => exact hclient.2.2
    | holding fd => exact hclient.2
    | closed => exact absurd trivial hdone
    | exited => exact absurd trivial hdone
  obtain ⟨d, k, hH, -⟩ := hE
  rw [hH.registration]
  exact Option.some_ne_none k

/-- A reader that has been told so stays right. -/
theorem Deliveries.stays_drained (hD : Deliveries L es t a) (hC : Crew L t ps pt a)
    (h : Simulated exceptZombies e a a') (hnext : t.next L e = some t')
    (hq : .mq q ∈ a.resourcesList) (hid : a.resourceId (.mq q) = (i : Nat))
    (hdrained : t.Drained L a p i) (hreceived : received q e = none) :
    (es ++ [e]).filterMap (received q) = [] ∨
      (a'.contents q = [] ∧ ∃ p' ph, t'.HasClient L p' i dsosWrite ph ∧ ph.Done) := by
  rcases hD.drained i q p hq hid hdrained with hnil | ⟨hempty, p', ph, hp', hdone⟩
  · left
    rw [filterMap_concat, hnil, hreceived]
    rfl
  · right
    have hsent : sent q e = none := by
      by_contra hne
      obtain ⟨r, j, ph₁, hr, -, hnot, hqj⟩ := hC.sends h hnext hne
      obtain rfl : j = i := Int.ofNat.inj ((hqj.mem h.inv).2.symm.trans hid)
      obtain ⟨-, rfl⟩ := hC.one_client hp' hr
      exact hnot hdone
    have hmoves := h.moves_messages hq (hC.keeps_resources h hnext hq).1
    rw [hempty, hsent, hreceived] at hmoves
    obtain ⟨ph', hp'', -, hdone'⟩ := hC.client_next h hnext hp'
    exact ⟨hmoves.symm, p', ph', hp'', hdone' hdone⟩

/-- A read tells the reader that there will be no more messages. -/
theorem Deliveries.gets_drained (hD : Deliveries L es t a) (hC : Crew L t ps pt a)
    (h : Simulated exceptZombies e a a') (hnext : t.next L e = some t')
    (hid : a.resourceId (.mq q) = (i : Nat)) (hq : a.QueueAt i q) {fd length : Int32} {buf : Int}
    (hact : e.act = .syscall (.mqRead fd buf length)) (hr : e.pre.running = some r)
    (hfd : e.pre.queueByFd r fd.toInt = some q)
    (hempty : a'.syscallRetvalue r = dsosMessageQueueEmpty) :
    (es ++ [e]).filterMap (received q) = [] ∨
      (a'.contents q = [] ∧ ∃ p' ph, t'.HasClient L p' i dsosWrite ph ∧ ph.Done) := by
  obtain ⟨hmem, -⟩ := hq.mem h.inv
  obtain ⟨hrun, hs⟩ := h.handler hact hr
  rw [h.pre.queueByFd_eq h.inv.desc] at hfd
  cases hs with
  | mqRead hs =>
  obtain ⟨hmsgs, hnone⟩ := (hs.empty_answer_iff hfd (h.inv.enter hrun _).msg).1 hempty
  have hcontents : a.contents q = [] := by
    rw [Model.contents, show a.msgs q = [] from hmsgs]
    rfl
  have hsent : sent q e = none := by
    by_contra hne
    obtain ⟨_, _, _, _, -, hact', -⟩ := write_of_sent hne
    rw [hact] at hact'
    cases hact'
  have hmoves := h.moves_messages hmem (hC.keeps_resources h hnext hmem).1
  rw [hcontents, hsent] at hmoves
  obtain ⟨hreceived, hcontents'⟩ := List.append_eq_nil_iff.1 hmoves.symm
  have horder := hD.order q hmem
  rw [hcontents, List.append_nil] at horder
  by_cases hold : es.filterMap (sent q) = []
  · left
    rw [filterMap_concat, hreceived, horder, hold]
    rfl
  · right
    obtain ⟨p', ph, hp', hstarted⟩ := hD.early i q hmem hid hold
    have hdone : ph.Done := by
      by_contra hnot
      exact hC.registered_of_client h.inv hp' hstarted hnot hq hnone
    obtain ⟨ph', hp'', -, hdone'⟩ := hC.client_next h hnext hp'
    exact ⟨hcontents', p', ph', hp'', hdone' hdone⟩

/-- A reader is awake between its `mq_read` and the answer. -/
theorem Deliveries.reading_next (hD : Deliveries L es t a) (h : Simulated exceptZombies e a a')
    (hnext : t.next L e = some t') {args fd : Int}
    (hp : t'.process p = some (.reader args (.reading fd))) : a'.Awake p := by
  cases TestMq.next_moves hnext with
  | quiet hno =>
      have hawake := hD.reading p args fd hp
      exact ((h.step.undisturbed h.inv h.inv' hawake.alive fun _ c => hno c).awake hawake).1
  | @calls r x x' c memory hact hr hx hout =>
      rcases TestMq.reader_cases hp ReaderPoint.noConfusion with ⟨rfl, rfl⟩ | ⟨hne, hp⟩
      · rcases Process.drains hout (Or.inr ⟨fd, rfl⟩) with ⟨_, _, _, _, rfl, -⟩ | ⟨hdone, -⟩
        · obtain ⟨hrun, hs⟩ := h.handler hact hr
          cases hs with
          | mqRead hs => exact Or.inl (hs.sameProcesses.running.trans hrun)
        · exact hdone.elim
      · have hawake := hD.reading p args fd hp
        have hrun : a.running ≠ some p := fun heq =>
          hne (Option.some.inj (heq.symm.trans (h.pre.running_eq.symm.trans hr)))
        exact ((h.step.undisturbed h.inv h.inv' hawake.alive fun heq =>
          absurd heq hrun).awake hawake).1

/-- A reader that finds the queue drained has missed nothing, or has received nothing at all. -/
theorem Deliveries.drained_next (hD : Deliveries L es t a) (hC : Crew L t ps pt a)
    (h : Simulated exceptZombies e a a') (hnext : t.next L e = some t')
    (hid : a'.resourceId (.mq q) = (i : Nat)) (hdrained : t'.Drained L a' p i) :
    (es ++ [e]).filterMap (received q) = [] ∨
      (a'.contents q = [] ∧ ∃ p' ph, t'.HasClient L p' i dsosWrite ph ∧ ph.Done) := by
  by_cases hq : .mq q ∈ a.resourcesList
  swap
  · left
    rw [filterMap_concat, (hD.fresh q hq).1, (h.no_messages hq).1]
    rfl
  rw [(hC.keeps_resources h hnext hq).2] at hid
  obtain ⟨rp, hp, hrp⟩ := hdrained
  -- the answer of a reader stays until its next call
  have hbefore : (a.running = some p → ∀ c, e.act ≠ .syscall c) →
      t.process p = some (.reader (L.resource i) rp) → t.Drained L a p i := by
    intro hcall hp
    refine ⟨rp, hp, hrp.imp_right ?_⟩
    rintro ⟨fd, rfl, hret⟩
    have hawake := hD.reading p _ fd hp
    have hsame := (h.step.undisturbed h.inv h.inv' hawake.alive hcall).awake hawake
    exact ⟨fd, rfl, hsame.2.symm.trans hret⟩
  cases TestMq.next_moves hnext with
  | quiet hno =>
      refine hD.stays_drained hC h hnext hq hid (hbefore (fun _ c => hno c) hp) ?_
      by_contra hne
      obtain ⟨_, _, _, _, -, hact, -⟩ := read_of_received hne
      exact hno _ hact
  | @calls r x x' c memory hact hr hx hout =>
      have hloop : rp.phase.Done ∨ ∃ fd, rp = .reading fd :=
        hrp.imp_right fun ⟨fd, hfd, _⟩ => ⟨fd, hfd⟩
      have hstarted : rp ≠ .started := by
        rintro rfl
        rcases hloop with hdone | ⟨fd, hfd⟩
        · exact hdone
        · cases hfd
      rcases TestMq.reader_cases hp hstarted with ⟨rfl, rfl⟩ | ⟨hne, hp⟩
      · rcases Process.drains hout hloop with
          ⟨fd, buf, length, fd', rfl, rfl⟩ | ⟨-, hno, rp', rfl, hrp'⟩
        · have hempty : a'.syscallRetvalue p = dsosMessageQueueEmpty := by
            rcases hrp with hdone | ⟨_, -, hret⟩
            · exact hdone.elim
            · exact hret
          obtain ⟨args, ph, fd'', hcl, hph, hfd, hx'⟩ := Process.reads hout
          obtain ⟨j, q', ⟨x₁, hx₁, hcl₁⟩, -, -, hqj, hfound⟩ := hC.holds h hx hcl hph hfd
          obtain rfl := Option.some.inj (hx.symm.trans hx₁)
          have hargs : L.resource i = L.resource j := by
            cases hx'
            exact congrArg Prod.fst (Option.some.inj (hcl.symm.trans hcl₁))
          obtain rfl := Layout.resource_inj.1 hargs
          have hsame : q' = q := by
            have hbyId := h.inv.res.byId hq
            rw [hid, hqj.byId h.inv] at hbyId
            exact ResourceRef.mq.inj (Option.some.inj hbyId)
          subst hsame
          exact hD.gets_drained hC h hnext hid hqj hact hr hfound hempty
        · refine hD.stays_drained hC h hnext hq hid ⟨rp', hx, hrp'.imp_right ?_⟩ ?_
          · rintro ⟨fd, rfl, hempty⟩
            refine ⟨fd, rfl, ?_⟩
            rw [← hempty, h.pre.data]
          · by_contra hnot
            obtain ⟨_, fd, buf, length, -, hact', -⟩ := read_of_received hnot
            exact hno _ _ _ (Action.syscall.inj (hact.symm.trans hact'))
      · have hrun : a.running ≠ some p := fun heq =>
          hne (Option.some.inj (heq.symm.trans (h.pre.running_eq.symm.trans hr)))
        refine hD.stays_drained hC h hnext hq hid (hbefore (fun heq => absurd heq hrun) hp) ?_
        by_contra hnot
        obtain ⟨r₁, j, ph, hr₁, hp', -, hqj⟩ := hC.receives h hnext hnot
        obtain rfl : j = i := Int.ofNat.inj ((hqj.mem h.inv).2.symm.trans hid)
        obtain ⟨rfl, -⟩ := hC.one_client ⟨_, hp, rfl⟩ hp'
        exact hne (Option.some.inj (hr₁.symm.trans hr))

/-- Each event of the program keeps the account of the messages. -/
theorem Deliveries.next (hD : Deliveries L es t a) (hC : Crew L t ps pt a)
    (h : Simulated exceptZombies e a a') (hnext : t.next L e = some t') :
    Deliveries L (es ++ [e]) t' a' where
  fresh q hq' := by
    have hq : .mq q ∉ a.resourcesList := fun hq => hq' (hC.keeps_resources h hnext hq).1
    obtain ⟨hreceived, hsent⟩ := hD.fresh q hq
    obtain ⟨hr, hs⟩ := h.no_messages hq
    rw [filterMap_concat, filterMap_concat, hreceived, hsent, hr, hs]
    exact ⟨rfl, rfl⟩
  order q hq' := hD.order_next h hq'
  early i q _ hid hsent := hD.early_next hC h hnext hid hsent
  reading p args fd hp := hD.reading_next h hnext hp
  drained i q p _ hid hdrained := hD.drained_next hC h hnext hid hdrained

theorem Deliveries.start (chars : Int → UInt8) (ints : Int → Int) :
    Deliveries L [] TestMq.start (Model.start chars ints) := by
  have hprocess : ∀ p args rp, TestMq.start.process p ≠ some (.reader args rp) := by
    intro p args rp hp
    by_cases hp0 : p = 0
    · simp [TestMq.start, hp0] at hp
    · simp [TestMq.start, hp0] at hp
  refine ⟨fun q _ => ⟨rfl, rfl⟩, fun q hq => absurd hq List.not_mem_nil,
    fun i q hq => absurd hq List.not_mem_nil, fun p args fd hp => absurd hp (hprocess p args _),
    fun i q p hq => absurd hq List.not_mem_nil⟩

/-- In a run of the program both invariants hold. -/
theorem SystemRun.deliveries (h : SystemRun es s) (ht : TestMq.follow L es = some t) :
    ∃ a, Refines exceptZombies s a ∧ a.Inv ∧ Deliveries L es t a := by
  have hstep : ∀ es e a a', SystemRun es e.pre →
      (∀ t, TestMq.follow L es = some t → (∃ ps pt, Crew L t ps pt a) ∧ Deliveries L es t a) →
      Simulated exceptZombies e a a' → ∀ t, TestMq.follow L (es ++ [e]) = some t →
        (∃ ps pt, Crew L t ps pt a') ∧ Deliveries L (es ++ [e]) t a' := by
    intro es e a a' _ hJ hsim t' ht'
    obtain ⟨t, ht, hnext⟩ := TestMq.follow_concat ht'
    obtain ⟨⟨ps, pt, hC⟩, hD⟩ := hJ t ht
    exact ⟨hC.next hsim hnext, hD.next hC hsim hnext⟩
  obtain ⟨a, hR, hI, hall⟩ := h.invariant_of_step
    (J := fun es a => ∀ t, TestMq.follow L es = some t →
      (∃ ps pt, Crew L t ps pt a) ∧ Deliveries L es t a)
    (fun chars ints t ht => by
      obtain rfl := Option.some.inj ht
      exact ⟨⟨[0], .started, Crew.start chars ints⟩, Deliveries.start chars ints⟩) hstep
  exact ⟨a, hR, hI, (hall t ht).2⟩

/-- The messages after the events `es` of the program: each queue delivers in order, and a reader
that has left its loop has received nothing, or all that has been sent, and its writer has left its
loop, too. -/
structure Delivered (L : Layout) (es : List (Event Kernel Action)) (t : TestMq) (s : Kernel) :
    Prop where
  order : ∀ q, s.Live q → es.filterMap (received q) ++ s.contents q = es.filterMap (sent q)
  ended : ∀ (i : Nat) (q p : Addr) (ph : Phase), s.resourceListById i = .ok (some (.mq q)) →
    t.HasClient L p i dsosRead ph → ph.Done → es.filterMap (received q) = [] ∨
      (es.filterMap (received q) = es.filterMap (sent q) ∧
        ∃ p' ph', t.HasClient L p' i dsosWrite ph' ∧ ph'.Done)

/-- In every run of the example program the readers receive the messages in order, and when a reader
ends it has received nothing or everything. -/
theorem test_mq_delivers (h : SystemRun es s) (ht : TestMq.follow L es = some t) :
    Delivered L es t s := by
  obtain ⟨a, hR, hI, hD⟩ := h.deliveries ht
  have horder : ∀ q, .mq q ∈ a.resourcesList →
      es.filterMap (received q) ++ s.contents q = es.filterMap (sent q) := by
    intro q hq
    rw [hR.contents_eq hI hq]
    exact hD.order q hq
  refine ⟨fun q hq => horder q ((hR.live_iff hI).1 hq), fun i q p ph hbyId hp hdone => ?_⟩
  rw [hR.resourceListById_eq hI.res] at hbyId
  obtain ⟨hq, hid⟩ := mem_of_resourceById (Except.ok.inj hbyId)
  have hdrained : t.Drained L a p i := by
    obtain ⟨x, hx, hcl⟩ := hp
    cases x with
    | init pt => cases hcl
    | sleeper => cases hcl
    | writer args wp => cases congrArg (fun y => y.map fun z => z.2.1) hcl
    | reader args rp =>
        simp only [Process.client, Option.some.injEq, Prod.mk.injEq, true_and] at hcl
        obtain ⟨rfl, rfl⟩ := hcl
        exact ⟨rp, hx, Or.inl hdone⟩
  rcases hD.drained i q p hq hid hdrained with hnil | ⟨hempty, hwriter⟩
  · exact Or.inl hnil
  · have hall := horder q hq
    rw [hR.contents_eq hI hq, hempty, List.append_nil] at hall
    exact Or.inr ⟨hall, hwriter⟩

/-- The first reader runs before the first writer, is told that the queue is empty, and ends; the
message that is written then stays in the queue. -/
theorem test_mq_delivers_missed : ∃ es s t, SystemRun es s ∧
    TestMq.follow Layout.sample es = some t ∧
    t.process 52632 = some (.reader 1000 .exited) ∧
    (es.filterMap (sent 0)).length = 1 ∧ (s.contents 0).length = 1 ∧
    Delivered Layout.sample es t s := by
  obtain ⟨es, s, hrun, hp⟩ := exists_of_executes
    [.syscall (.spawn 1 0), .syscall (.openResource 0 1 1), .syscall (.openResource 1 1 1),
      .syscall (.spawn 3 1000), .syscall (.spawn 2 1000), .syscall (.spawn 3 1004),
      .syscall (.spawn 2 1004), .syscall (.wait 0 2000), .tick, .tick,
      .syscall (.openResource 0 1 2), .syscall (.mqRead 0 4096 128),
      .syscall (.closeResource 0 2), .syscall (.exit 4), .tick, .tick, .tick, .tick,
      .syscall (.openResource 0 1 3), .syscall (.mqWrite 0 4096 128)]
    (fun es s => match TestMq.follow Layout.sample es with
      | some t => t.process 52632 = some (.reader 1000 .exited) ∧
          (es.filterMap (sent 0)).length = 1 ∧ (s.contents 0).length = 1
      | none => false) (by decide +kernel)
  split at hp
  · rename_i t ht
    obtain ⟨hreader, hsent, hcontents⟩ := of_decide_eq_true hp
    exact ⟨es, s, t, hrun, ht, hreader, hsent, hcontents, test_mq_delivers hrun ht⟩
  · cases hp

end DisastrOS
