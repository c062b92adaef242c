import DisastrOS.Abstract.MessageQueues

/-!
# Message blocks

Whether all message blocks that are not free are linked in queues. Only `mq_write` can lose a block:
when `List_insert` refuses the one that it has taken from the pool.
-/

set_option autoImplicit false

namespace DisastrOS.Model

variable {clean : Addr → Prop} {a a' : Model} {r q : Addr} {c : Syscall} {act : Action}

/-- Every message block that is not free is linked in some queue. -/
def AllLinked (a : Model) : Prop :=
  ∀ m, IsBlock maxNumResources sizeofMessage m → m ∉ a.freeMs → ∃ q, m ∈ a.msgs q

/-- The next message block can be linked if the call gets as far as taking it from the pool. -/
def WriteLinks (clean : Addr → Prop) (a : Model) (r : Addr) (fd length : Int) : Prop :=
  0 ≤ length → length ≤ messageStringMaxLength → ∀ q, a.queueByFd r fd = some q →
    ((a.msgs q).length : Int) ≠ mForMq → ∀ m ∈ a.freeMs.head?, clean m

/-- The action loses no message block. -/
def KeepsLinked (clean : Addr → Prop) (a : Model) : Action → Prop
  | .syscall (.mqWrite fd _ length) =>
      ∀ r ∈ a.running, a.WriteLinks clean r fd.toInt length.toInt
  | _ => True

theorem AllLinked.congr (h : a.AllLinked) (hmsgs : a'.msgs = a.msgs)
    (hfree : a'.freeMs = a.freeMs) : a'.AllLinked := by
  intro m hm hout
  rw [hfree] at hout
  rw [hmsgs]
  exact h m hm hout

theorem AllLinked.store (h : a.AllLinked) (hs : SameStore a a') : a'.AllLinked :=
  h.congr hs.msgs hs.freeMs

/-! ## Opening, closing and destroying -/

theorem AddResource.allLinked {id type : Int} {res : ResourceRef}
    (h : AddResource a id type res a') (hL : a.AllLinked) (hM : a.MsgInv) (hR : a.ResInv) :
    a'.AllLinked := by
  cases h with
  | standard _ _ => exact hL.congr rfl rfl
  | @mq b bs _ hb =>
      have hempty : a.msgs b = [] := hM.dead b (hR.mq_fresh hb)
      refine hL.congr ?_ rfl
      show Function.update a.msgs b [] = a.msgs
      rw [← hempty, Function.update_eq_self]

theorem OpenStep.allLinked {id type mode : Int} (h : OpenStep a r id type mode a')
    (hL : a.AllLinked) (hM : a.MsgInv) (hR : a.ResInv) : a'.AllLinked := by
  cases h with
  | alreadyExists _ _ => exact hL
  | created _ _ hadd hopen => exact (hadd.allLinked hL hM hR).store hopen.sameStore
  | unavailable _ _ => exact hL
  | found _ _ _ hopen => exact hL.store hopen.sameStore

/-- The messages of a queue that is destroyed become free. -/
theorem DestroyStep.allLinked {id : Int} (h : DestroyStep a r id a') (hL : a.AllLinked) :
    a'.AllLinked := by
  cases h with
  | notFound _ => exact hL
  | inUse _ _ => exact hL
  | @destroyed res _ _ =>
      cases res with
      | standard b => exact hL.congr rfl rfl
      | mq q =>
          intro m hm hout
          have hout' : m ∉ (a.msgs q).reverse ++ a.freeMs := hout
          rw [List.mem_append, List.mem_reverse, not_or] at hout'
          obtain ⟨q', hq'⟩ := hL m hm hout'.2
          have hne : q' ≠ q := fun heq => hout'.1 (heq ▸ hq')
          refine ⟨q', ?_⟩
          show m ∈ Function.update a.msgs q [] q'
          rwa [Function.update_of_ne hne]

/-! ## Reading and writing -/

/-- A message that is read becomes free. -/
theorem ReadStep.allLinked {fd buf length : Int} (h : ReadStep a r fd buf length a')
    (hL : a.AllLinked) : a'.AllLinked := by
  cases h with
  | notFound _ => exact hL
  | wrongType _ _ => exact hL
  | waiting _ _ _ => exact hL
  | empty _ _ _ => exact hL
  | tooLong _ _ _ => exact hL
  | @read q m ms _ hms _ =>
      intro m' hm' hout
      have hout' : m' ∉ m :: a.freeMs := hout
      rw [List.mem_cons, not_or] at hout'
      obtain ⟨q', hq'⟩ := hL m' hm' hout'.2
      refine ⟨q', ?_⟩
      show m' ∈ Function.update a.msgs q ms q'
      rw [Function.update_apply]
      split
      · rename_i heq
        rw [heq, hms] at hq'
        exact (List.mem_cons.1 hq').resolve_left hout'.1
      · exact hq'

/-- `mq_write` keeps all blocks linked if and only if it can link the one that it takes. -/
theorem WriteStep.allLinked_iff {fd msg length : Int} (h : WriteStep clean a r fd msg length a')
    (hL : a.AllLinked) (hM : a.MsgInv) (hD : a.Distinct) :
    a'.AllLinked ↔ a.WriteLinks clean r fd length := by
  cases h with
  | badLength hbad =>
      apply iff_of_true hL
      intro h0 h1
      omega
  | notFound _ _ hnone =>
      apply iff_of_true hL
      intro _ _ q hq
      rw [queueByFd, hnone] at hq
      cases hq
  | wrongType _ _ _ hnone =>
      apply iff_of_true hL
      intro _ _ q hq
      rw [hnone] at hq
      cases hq
  | full _ _ hfd hfull =>
      apply iff_of_true (hL.congr rfl rfl)
      intro _ _ q hq hroom
      rw [hfd] at hq
      cases hq
      exact absurd hfull hroom
  | @linked q m ms _ _ hfd _ hfree hclean =>
      refine iff_of_true (fun m' hm' hout => ?_) fun _ _ _ _ _ m' hm' => ?_
      · have hout' : m' ∉ ms := hout
        by_cases hmm : m' = m
        · refine ⟨q, ?_⟩
          show m' ∈ Function.update a.msgs q (a.msgs q ++ [m]) q
          rw [Function.update_self, hmm]
          exact List.mem_append_right _ List.mem_cons_self
        · obtain ⟨q', hq'⟩ := hL m' hm' (by rw [hfree, List.mem_cons, not_or]; exact ⟨hmm, hout'⟩)
          refine ⟨q', ?_⟩
          show m' ∈ Function.update a.msgs q (a.msgs q ++ [m]) q'
          rw [Function.update_apply]
          split
          · rename_i heq
            exact List.mem_append_left _ (heq ▸ hq')
          · exact hq'
      · rw [hfree] at hm'
        obtain rfl : m = m' := Option.some.inj hm'
        exact hclean
  | @refused q m ms h0 h1 hfd hroom hfree hdirty =>
      refine iff_of_false (fun hL' => ?_) fun hall => ?_
      -- the block is neither free nor linked
      · have hnd := hD.freeMs.1
        rw [hfree, List.nodup_cons] at hnd
        have hmem : m ∈ a.freeMs := by rw [hfree]; exact List.mem_cons_self
        obtain ⟨q', hq'⟩ := hL' m (hD.freeMs.2 m hmem) hnd.1
        exact (hM.used q' m hq').2 hmem
      · exact hdirty (hall h0 h1 q hfd hroom m (by simp [hfree]))

/-! ## The system -/

theorem HandlerStep.allLinked_iff (h : HandlerStep clean (a.enter r c) r c a') (hL : a.AllLinked)
    (hI : a.Inv) (hD : a.Distinct) (hr : a.running = some r) :
    a'.AllLinked ↔ a.KeepsLinked clean (.syscall c) := by
  have hL₁ : (a.enter r c).AllLinked := hL
  have hI₁ := hI.enter hr c
  cases hc : c.onProcesses with
  | true =>
      have hsame := h.sameResources hc
      apply iff_of_true (hL₁.congr hsame.msgs hsame.freeMs)
      cases c <;> trivial
  | false =>
      cases h with
      | openResource h => exact iff_of_true (h.allLinked hL₁ hI₁.msg hI₁.res) trivial
      | closeResource h => exact iff_of_true (hL₁.store h.sameStore) trivial
      | destroyResource h => exact iff_of_true (h.allLinked hL₁) trivial
      | mqRead h => exact iff_of_true (h.allLinked hL₁) trivial
      | @mqWrite fd length _ _ h =>
          rw [h.allLinked_iff hL₁ hI₁.msg { hD with }]
          exact (forall_running (Q := fun p => a.WriteLinks clean p fd.toInt length.toInt) hr).symm
      | _ => cases hc

/-- A transition keeps all message blocks linked if and only if it is not a call of `mq_write` that
takes a block with stale links. -/
theorem Step.allLinked_iff (h : Step clean a act a') (hL : a.AllLinked) (hI : a.Inv)
    (hD : a.Distinct) : a'.AllLinked ↔ a.KeepsLinked clean act := by
  cases h with
  | tick _ h =>
      have hsame := h.sameResources
      exact iff_of_true (hL.congr hsame.msgs hsame.freeMs) trivial
  | syscall hr h => exact h.allLinked_iff hL hI hD hr
  | store _ => exact iff_of_true hL trivial

end DisastrOS.Model
