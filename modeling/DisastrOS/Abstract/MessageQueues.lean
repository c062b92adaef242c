import DisastrOS.Abstract.Frames

/-!
# Contents of the message queues

What a transition does to the contents of a message queue that exists before and after it: `mq_read`
takes the first message out, `mq_write` may append one, and every other transition leaves the
contents alone.
-/

set_option autoImplicit false

namespace DisastrOS

/-- A message: its bytes and its length. -/
abbrev Message : Type := List UInt8 × Int

/-- The message stored in the block `m`. -/
def Resources.message (s : Resources) (m : Addr) : Message :=
  ((List.range (s.msgLength m).toNat).map (s.msgText m), s.msgLength m)

/-- The `n` bytes at `p` in the memory of the processes. -/
def UserMemory.bytes (u : UserMemory) (p n : Int) : List UInt8 :=
  (List.range n.toNat).map fun i : Nat => u.chars (p + i)

/-- The first `n` bytes of the block are those of the memory from `src` on. -/
theorem copyIn_apply (chars : Int → UInt8) (src : Int) (n : Nat) (dst : Nat → UInt8) {i : Nat}
    (hi : i < n) : Kernel.copyIn chars src n dst i = chars (src + i) := by
  induction n with
  | zero => omega
  | succ n ih =>
      rw [Kernel.copyIn, Function.update_apply]
      by_cases heq : i = n
      · rw [if_pos heq, heq]
      · rw [if_neg heq]
        exact ih (by omega)

/-- The `n` bytes of the memory from `dst` on are those of the block. -/
theorem copyOut_apply (text : Nat → UInt8) (dst : Int) (n : Nat) (chars : Int → UInt8) {i : Nat}
    (hi : i < n) : Kernel.copyOut text dst n chars (dst + i) = text i := by
  induction n with
  | zero => omega
  | succ n ih =>
      rw [Kernel.copyOut, Function.update_apply]
      by_cases heq : i = n
      · rw [if_pos (by rw [heq]), heq]
      · rw [if_neg (by omega)]
        exact ih (by omega)

/-- The syscall reads or writes a message. -/
def Syscall.onMessages : Syscall → Bool
  | .mqRead .. | .mqWrite .. => true
  | _ => false

namespace Model

variable {clean : Addr → Prop} {a a' : Model} {r q : Addr}

/-- The messages linked in queue `q`, in order. -/
def contents (a : Model) (q : Addr) : List Message := (a.msgs q).map a.message

/-- The contents only depend on the list of the queue and on the blocks in it. -/
theorem contents_congr (hmsgs : a'.msgs q = a.msgs q)
    (hmessage : ∀ m ∈ a.msgs q, a'.message m = a.message m) : a'.contents q = a.contents q := by
  rw [contents, contents, hmsgs]
  exact List.map_congr_left hmessage

theorem SameResources.contents_eq (h : SameResources a a') (q : Addr) :
    a'.contents q = a.contents q :=
  contents_congr (by rw [h.msgs]) fun _ _ => by rw [h.resources]

/-! ## Opening, closing and destroying resources -/

theorem AddResource.contents_eq {id type : Int} {res : ResourceRef}
    (h : AddResource a id type res a') (hI : a.ResInv) (hq : .mq q ∈ a.resourcesList) :
    a'.contents q = a.contents q := by
  cases h with
  | standard _ _ => rfl
  | @mq b bs _ hfree =>
      have hne : q ≠ b := fun heq => hI.mq_fresh hfree (heq ▸ hq)
      exact contents_congr (Function.update_of_ne hne ..) fun _ _ => rfl

theorem SameStore.contents_eq (h : SameStore a a') (q : Addr) : a'.contents q = a.contents q :=
  contents_congr (by rw [h.msgs]) fun m _ => by
    rw [Resources.message, Resources.message, h.msgLength, h.msgText]

/-- `openResource` leaves the contents of the queues that exist alone. -/
theorem OpenStep.contents_eq {id type mode : Int} (h : OpenStep a r id type mode a')
    (hI : a.ResInv) (hq : .mq q ∈ a.resourcesList) : a'.contents q = a.contents q := by
  cases h with
  | alreadyExists _ _ => rfl
  | created _ _ hadd hopen => exact (hopen.sameStore.contents_eq q).trans (hadd.contents_eq hI hq)
  | unavailable _ _ => rfl
  | found _ _ _ hopen => exact hopen.sameStore.contents_eq q

/-- Destroying a resource leaves the contents of the other queues alone. -/
theorem DestroyStep.contents_eq {id : Int} (h : DestroyStep a r id a') (hD : a.Distinct)
    (hq : .mq q ∈ a'.resourcesList) : a'.contents q = a.contents q := by
  cases h with
  | notFound _ => rfl
  | inUse _ _ => rfl
  | @destroyed res _ _ =>
      cases res with
      | standard b => rfl
      | mq q₀ =>
          have hne : q ≠ q₀ := by
            rintro rfl
            exact hD.resourcesList.not_mem_erase hq
          exact contents_congr (Function.update_of_ne hne ..) fun _ _ => rfl

theorem ScheduleStep.contents_eq (h : ScheduleStep a a') (q : Addr) :
    a'.contents q = a.contents q :=
  h.sameResources.contents_eq q

/-- Syscalls other than `mq_read` and `mq_write` leave the contents of the queues alone. -/
theorem HandlerStep.contents_eq {c : Syscall} (h : HandlerStep clean a r c a')
    (hc : c.onMessages = false) (hI : a.Inv) (hD : a.Distinct) (hq : .mq q ∈ a.resourcesList)
    (hq' : .mq q ∈ a'.resourcesList) : a'.contents q = a.contents q := by
  cases hp : c.onProcesses with
  | true => exact (h.sameResources hp).contents_eq q
  | false =>
      cases h with
      | openResource h => exact h.contents_eq hI.res hq
      | closeResource h => exact h.sameStore.contents_eq q
      | destroyResource h => exact h.contents_eq hD hq'
      | mqRead _ => cases hc
      | mqWrite _ => cases hc
      | _ => cases hp

/-! ## Reading and writing -/

/-- `mq_read` takes the first message out of the queue behind the descriptor if its answer is not
negative; otherwise, and in all other queues, nothing changes. -/
theorem ReadStep.contents_cases {fd buf length : Int} (h : ReadStep a r fd buf length a')
    (hM : a.MsgInv) :
    (a.queueByFd r fd = some q ∧ 0 ≤ a'.syscallRetvalue r ∧
      a.contents q =
        (a'.bytes buf (a'.syscallRetvalue r), a'.syscallRetvalue r) :: a'.contents q) ∨
    ((a.queueByFd r fd ≠ some q ∨ a'.syscallRetvalue r < 0) ∧ a'.contents q = a.contents q) := by
  cases h with
  | notFound _ => exact Or.inr ⟨Or.inr (by rw [answer_retvalue]; decide), rfl⟩
  | wrongType _ _ => exact Or.inr ⟨Or.inr (by rw [answer_retvalue]; decide), rfl⟩
  | waiting _ _ _ => exact Or.inr ⟨Or.inr (by rw [answer_retvalue]; decide), rfl⟩
  | empty _ _ _ => exact Or.inr ⟨Or.inr (by rw [answer_retvalue]; decide), rfl⟩
  | tooLong _ _ _ => exact Or.inr ⟨Or.inr (by rw [answer_retvalue]; decide), rfl⟩
  | @read q₀ m ms hfd hms _ =>
      by_cases hq : q = q₀
      · subst hq
        have hbound := hM.bound q m (by rw [hms]; exact List.mem_cons_self)
        have hret : Function.update a.syscallRetvalue r (a.msgLength m) r = a.msgLength m :=
          Function.update_self ..
        refine Or.inl ⟨hfd, ?_, ?_⟩
        · show 0 ≤ Function.update a.syscallRetvalue r (a.msgLength m) r
          rw [hret]
          exact hbound.1
        · have hhead : a.message m =
              ((List.range (a.msgLength m).toNat).map fun i : Nat =>
                Kernel.copyOut (a.msgText m) buf (a.msgLength m).toNat a.chars (buf + i),
                a.msgLength m) := by
            refine congrArg (·, a.msgLength m) (List.map_congr_left fun i hi => ?_)
            exact (copyOut_apply _ _ _ _ (List.mem_range.1 hi)).symm
          simp only [contents, UserMemory.bytes, answer, hret, hms, List.map_cons,
            Function.update_self, hhead]
      · refine Or.inr ⟨Or.inl fun heq => hq (Option.some.inj (heq.symm.trans hfd)), ?_⟩
        exact contents_congr (Function.update_of_ne hq ..) fun _ _ => rfl

/-- The messages in the queues do not change when a free block is filled. -/
theorem message_fillMessage (q : Addr) (msg length : Int) {m : Addr} {ms : List Addr}
    (hM : a.MsgInv) (hfree : a.freeMs = m :: ms) :
    ∀ m' ∈ a.msgs q, (a.fillMessage m ms msg length).message m' = a.message m' := by
  intro m' hm'
  have hne : m' ≠ m := by
    rintro rfl
    exact (hM.used q m' hm').2 (by rw [hfree]; exact List.mem_cons_self)
  simp only [Resources.message, fillMessage, Function.update_of_ne hne]

/-- The block holds the message it is filled with. -/
theorem message_fillMessage_self {m : Addr} {ms : List Addr} {msg length : Int} :
    (a.fillMessage m ms msg length).message m = (a.bytes msg length, length) := by
  simp only [Resources.message, fillMessage, Function.update_self, UserMemory.bytes]
  exact congrArg (·, length) (List.map_congr_left fun i hi =>
    copyIn_apply _ _ _ _ (List.mem_range.1 hi))

/-- `mq_write` appends the message to the queue behind the descriptor or changes no queue. -/
theorem WriteStep.contents_cases {fd msg length : Int} (h : WriteStep clean a r fd msg length a')
    (hM : a.MsgInv) :
    (a.queueByFd r fd = some q ∧ a'.contents q = a.contents q ++ [(a.bytes msg length, length)]) ∨
      a'.contents q = a.contents q := by
  cases h with
  | badLength _ => exact Or.inr rfl
  | notFound _ _ _ => exact Or.inr rfl
  | wrongType _ _ _ _ => exact Or.inr rfl
  | full _ _ _ _ => exact Or.inr rfl
  | @linked q₀ m ms _ _ hfd _ hfree _ =>
      have hkeep := message_fillMessage q msg length hM hfree
      by_cases hq : q = q₀
      · subst hq
        refine Or.inl ⟨hfd, ?_⟩
        show (Function.update a.msgs q (a.msgs q ++ [m]) q).map
          (a.fillMessage m ms msg length).message = _
        rw [Function.update_self, List.map_append, List.map_singleton, message_fillMessage_self,
          List.map_congr_left hkeep]
        rfl
      · exact Or.inr (contents_congr (Function.update_of_ne hq ..) hkeep)
  | @refused q₀ m ms _ _ _ _ hfree _ =>
      exact Or.inr (contents_congr rfl (message_fillMessage q msg length hM hfree))

/-! ## Creation -/

/-- A message queue comes into being by an `openResource` for creation only: it takes the next free
block and has no messages. -/
structure Creates (a : Model) (c : Syscall) (q : Addr) (a' : Model) : Prop where
  call : ∃ id type mode, c = .openResource id type mode ∧ mode.toInt = dsosCreate ∧
    type.toInt = messageQueueType ∧ a.resourceById id.toInt = none
  block : a.freeMqs.head? = some q
  msgs : a'.msgs q = []

theorem HandlerStep.creates {c : Syscall} (h : HandlerStep clean a r c a')
    (hq : .mq q ∉ a.resourcesList) (hq' : .mq q ∈ a'.resourcesList) : Creates a c q a' := by
  cases hp : c.onProcesses with
  | true => exact absurd ((h.sameResources hp).resourcesList ▸ hq') hq
  | false =>
      cases h with
      | @openResource id type mode _ h =>
          cases h with
          | alreadyExists _ _ => exact absurd hq' hq
          | created hmode hnone hadd hopen =>
              -- only `DSOS_CREATE` with the type of queues adds a queue
              rw [hopen.sameStore.resourcesList] at hq'
              cases hadd with
              | standard _ _ => simp [hq] at hq'
              | mq htype hb =>
                  simp only [List.mem_append, hq, false_or, List.mem_singleton,
                    ResourceRef.mq.injEq] at hq'
                  subst hq'
                  refine ⟨⟨id, type, mode, rfl, hmode, htype, hnone⟩, by rw [hb]; rfl, ?_⟩
                  rw [hopen.sameStore.msgs]
                  exact Function.update_self ..
          | unavailable _ _ => exact absurd hq' hq
          | found _ _ _ hopen => exact absurd (hopen.sameStore.resourcesList ▸ hq') hq
      | closeResource h => exact absurd (h.sameStore.resourcesList ▸ hq') hq
      | destroyResource h =>
          cases h with
          | notFound _ => exact absurd hq' hq
          | inUse _ _ => exact absurd hq' hq
          | @destroyed res _ _ =>
              refine absurd ?_ hq
              cases res with
              | standard b => exact List.mem_of_mem_erase hq'
              | mq q₀ => exact List.mem_of_mem_erase hq'
      | mqRead h => cases h <;> exact absurd hq' hq
      | mqWrite h => cases h <;> exact absurd hq' hq
      | _ => cases hp

/-- A queue comes into being in no other way than by an `openResource` that creates it. -/
theorem Step.creates {act : Action} (h : Step clean a act a') (hq : .mq q ∉ a.resourcesList)
    (hq' : .mq q ∈ a'.resourcesList) : ∃ c, act = .syscall c ∧ Creates a c q a' := by
  cases h with
  | tick _ h => exact absurd (h.sameResources.resourcesList ▸ hq') hq
  | @syscall r c _ _ h => exact ⟨c, rfl, { h.creates hq hq' with }⟩
  | store _ => exact absurd hq' hq

end Model

end DisastrOS
