import DisastrOS.Abstract.Openings

/-!
# The blocks that a call takes

A call takes at most one block of each pool, and only `fork`, `spawn`, `openResource` and `mq_write`
take any. So a run with few of these calls does not exhaust a pool.
-/

set_option autoImplicit false

namespace DisastrOS

/-- The action may take a block of a pool of processes, resources or messages. -/
def Action.allocates : Action → Bool
  | .syscall .fork | .syscall (.spawn ..) | .syscall (.openResource ..) => true
  | .syscall (.mqWrite ..) => true
  | _ => false

namespace Model

variable {clean : Addr → Prop} {a a₁ a' : Model} {r : Addr} {c : Syscall} {act : Action} {n : Nat}
  {res : ResourceRef} {id type mode fd : Int}

/-- At least `n` blocks of the pools other than those of the timers and the standard resources are
free. -/
structure HasFree (a : Model) (n : Nat) : Prop where
  pcbs : n ≤ a.freePcbs.length
  pcbPtrs : n ≤ a.freePcbPtrs.length
  mqs : n ≤ a.freeMqs.length
  ms : n ≤ a.freeMs.length
  descriptors : n ≤ a.freeDescriptors.length
  descriptorPtrs : n ≤ a.freeDescriptorPtrs.length

theorem HasFree.mono {m : Nat} (h : a.HasFree n) (hm : m ≤ n) : a.HasFree m :=
  ⟨hm.trans h.pcbs, hm.trans h.pcbPtrs, hm.trans h.mqs, hm.trans h.ms, hm.trans h.descriptors,
    hm.trans h.descriptorPtrs⟩

/-- None of these pools is exhausted. -/
structure NoneEmpty (a : Model) : Prop where
  pcbs : a.freePcbs ≠ []
  pcbPtrs : a.freePcbPtrs ≠ []
  mqs : a.freeMqs ≠ []
  ms : a.freeMs ≠ []
  descriptors : a.freeDescriptors ≠ []

/-- If one block is free in each pool, no pool is empty. -/
theorem HasFree.noneEmpty (h : a.HasFree n) (hn : 0 < n) : a.NoneEmpty where
  pcbs := List.ne_nil_of_length_pos (hn.trans_le h.pcbs)
  pcbPtrs := List.ne_nil_of_length_pos (hn.trans_le h.pcbPtrs)
  mqs := List.ne_nil_of_length_pos (hn.trans_le h.mqs)
  ms := List.ne_nil_of_length_pos (hn.trans_le h.ms)
  descriptors := List.ne_nil_of_length_pos (hn.trans_le h.descriptors)

theorem HasFree.schedule (h : a.HasFree n) (hs : ScheduleStep a a') : a'.HasFree n := by
  obtain ⟨_, _, _, _, _, _, rfl⟩ := hs.eq
  exact { h with }

/-- Creating a process takes at most one block of each pool. -/
theorem HasFree.create (h : a.HasFree (n + 1)) (hs : CreateStep a r a') : a'.HasFree n := by
  obtain ⟨hpcbs, hptrs, hmqs, hms, hds, hdps⟩ := h
  cases hs with
  | created hx he =>
      rw [hx, List.length_cons] at hpcbs
      rw [he, List.length_cons] at hptrs
      exact ⟨Nat.le_of_succ_le_succ hpcbs, Nat.le_of_succ_le_succ hptrs, Nat.le_of_succ_le hmqs,
        Nat.le_of_succ_le hms, Nat.le_of_succ_le hds, Nat.le_of_succ_le hdps⟩

/-- `wait` only gives blocks back. -/
theorem HasFree.wait (h : a.HasFree n) (hs : WaitStep a r a') : a'.HasFree n := by
  cases hs with
  | noChildren _ => exact { h with }
  | block _ _ _ => exact { h with }
  | @reap e _ _ =>
      rw [reap_eq]
      refine { h with pcbs := ?_, pcbPtrs := Nat.le_succ_of_le h.pcbPtrs }
      show n ≤ List.length (if a.ptrPcb e ∈ a.freePcbs then _ else _)
      split
      · exact h.pcbs
      · exact Nat.le_succ_of_le h.pcbs

theorem HasFree.dropDescriptors {p : Addr} {ds : List Addr} (h : a.HasFree n) :
    (dropDescriptors p ds a).HasFree n := by
  induction ds generalizing a with
  | nil => exact h
  | cons d ds ih =>
      refine ih { h with descriptors := ?_, descriptorPtrs := ?_ }
      · exact Nat.le_succ_of_le h.descriptors
      · exact Nat.le_succ_of_le h.descriptorPtrs

/-- `exit` only gives blocks back. -/
theorem HasFree.exit (h : a.HasFree n) (hs : ExitStep a r a') : a'.HasFree n := by
  cases hs with
  | retire _ _ _ _ _ => exact { h with }
  | @wakeParent init parent e _ _ _ _ _ =>
      have hdeliver : ((a.leave r init parent).deliver r parent e).HasFree n := by
        rw [deliver_eq]
        exact { h with }
      have hdrop : (Model.dropDescriptors r ((a.leave r init parent).descriptors r)
          ((a.leave r init parent).deliver r parent e)).HasFree n := hdeliver.dropDescriptors
      exact { hdrop with pcbs := Nat.le_succ_of_le hdrop.pcbs }

/-- Registering with a resource, or creating it, takes at most one block of each pool. -/
theorem HasFree.prepare {mode : Int} (h : a.HasFree (n + 1))
    (hs : Prepared a r id type mode res a₁) : a₁.HasFree n := by
  have hless := h.mono (Nat.le_succ n)
  cases hs with
  | existing _ _ _ _ hreg =>
      cases hreg with
      | none _ => exact hless
      | reading _ _ _ he | writing _ _ _ he =>
          have hptrs := h.pcbPtrs
          rw [he, List.length_cons] at hptrs
          exact { hless with pcbPtrs := Nat.le_of_succ_le_succ hptrs }
  | created _ _ hadd =>
      cases hadd with
      | standard _ _ => exact { hless with }
      | mq _ hb =>
          have hmqs := h.mqs
          rw [hb, List.length_cons] at hmqs
          exact { hless with mqs := Nat.le_of_succ_le_succ hmqs }

/-- `openResource` takes at most one block of each pool. -/
theorem HasFree.openResource {mode : Int} (h : a.HasFree (n + 1))
    (hs : OpenStep a r id type mode a') : a'.HasFree n := by
  rcases hs.outcome with ⟨-, v, -, rfl⟩ | ⟨res, a₁, hprep, hattach⟩
  · exact { h.mono (Nat.le_succ n) with }
  · have hprepared := h.prepare hprep
    cases hattach with
    | noDescriptor _ => exact { hprepared with }
    | opened hd he =>
        have hds := h.descriptors
        have hdps := h.descriptorPtrs
        rw [hd, List.length_cons] at hds
        rw [he, List.length_cons] at hdps
        exact { hprepared with
          descriptors := Nat.le_of_succ_le_succ hds
          descriptorPtrs := Nat.le_of_succ_le_succ hdps }

/-- `closeResource` only gives blocks back. -/
theorem HasFree.close {mode : Int} (h : a.HasFree n) (hs : CloseStep a r fd mode a') :
    a'.HasFree n := by
  cases hs with
  | notFound _ => exact { h with }
  | @closed d _ =>
      obtain ⟨_, _, hunreg⟩ := unregister_eq a (a.desResource d) mode
      rw [hunreg]
      exact { h with
        descriptors := Nat.le_succ_of_le h.descriptors
        descriptorPtrs := Nat.le_succ_of_le h.descriptorPtrs }

/-- `destroyResource` only gives blocks back. -/
theorem HasFree.destroy (h : a.HasFree n) (hs : DestroyStep a r id a') : a'.HasFree n := by
  cases hs with
  | notFound _ => exact { h with }
  | inUse _ _ => exact { h with }
  | @destroyed res _ _ =>
      cases res with
      | standard b => exact { h with }
      | mq q =>
          refine { h with mqs := Nat.le_succ_of_le h.mqs, ms := ?_ }
          show n ≤ ((a.msgs q).reverse ++ a.freeMs).length
          rw [List.length_append]
          exact Nat.le_add_left_of_le h.ms

/-- `mq_read` only gives blocks back. -/
theorem HasFree.read {buf length : Int} (h : a.HasFree n) (hs : ReadStep a r fd buf length a') :
    a'.HasFree n := by
  cases hs with
  | read _ _ _ => exact { h with ms := Nat.le_succ_of_le h.ms }
  | _ => exact { h with }

/-- `mq_write` takes at most one block. -/
theorem HasFree.write {msg length : Int} (h : a.HasFree (n + 1))
    (hs : WriteStep clean a r fd msg length a') : a'.HasFree n := by
  have hless := h.mono (Nat.le_succ n)
  cases hs with
  | linked _ _ _ _ hm _ | refused _ _ _ _ hm _ =>
      have hms := h.ms
      rw [hm, List.length_cons] at hms
      exact { hless with ms := Nat.le_of_succ_le_succ hms }
  | _ => exact { hless with }

/-- A call that may allocate takes at most one block of each pool, the others none. -/
theorem HandlerStep.hasFree (hs : HandlerStep clean a r c a')
    (h : a.HasFree (n + (Action.syscall c).allocates.toNat)) : a'.HasFree n := by
  cases hs with
  | preempt hs => exact h.schedule hs
  | fork hs => exact h.create hs
  | spawn hs => exact h.create hs
  | wait hs => exact h.wait hs
  | exit hs => exact h.exit hs
  | sleep hs =>
      obtain ⟨_, _, _, _, _, _, _, _, rfl⟩ := hs.eq
      exact { HasFree.mono h (Nat.le_refl n) with }
  | openResource hs => exact h.openResource hs
  | closeResource hs => exact h.close hs
  | destroyResource hs => exact h.destroy hs
  | shutdown => exact { HasFree.mono h (Nat.le_refl n) with }
  | mqRead hs => exact h.read hs
  | mqWrite hs => exact h.write hs

/-- A transition takes one block of each pool or none. -/
theorem Step.hasFree (hs : Step clean a act a') (h : a.HasFree (n + act.allocates.toNat)) :
    a'.HasFree n := by
  cases hs with
  | tick _ hs =>
      have hticked : HasFree { a with time := wrapInt (a.time + 1) } n :=
        { HasFree.mono h (Nat.le_refl n) with }
      exact hticked.schedule hs
  | syscall _ hs => exact hs.hasFree { h with }
  | store _ => exact { HasFree.mono h (Nat.le_refl n) with }

/-- A call that is not refused gets a descriptor with the next number, if there is one. -/
theorem OpenStep.answers_fd {mode : Int} (h : OpenStep a r id type mode a')
    (hpass : ¬ a.OpenRefused id type mode) (hd : a.freeDescriptors ≠ []) :
    a'.syscallRetvalue r = a.lastFd r ∧ a'.lastFd r = wrapInt (a.lastFd r + 1) := by
  rcases h.outcome with ⟨hrefused, -⟩ | ⟨res, a₁, hprep, hattach⟩
  · exact absurd hrefused hpass
  · cases hattach with
    | noDescriptor hnil => exact absurd hnil hd
    | opened _ _ =>
        rw [attach_retvalue, ← hprep.descriptors_eq.2]
        exact ⟨rfl, Function.update_self ..⟩

/-- The blocks of the messages in a queue are not free. -/
theorem MsgInv.msgs_length_le (hM : a.MsgInv) (hD : a.Distinct) (q : Addr) :
    (a.msgs q).length + a.freeMs.length ≤ maxNumResources := by
  have hnd : (a.msgs q ++ a.freeMs).Nodup := by
    refine List.nodup_append.2 ⟨hD.msgs.nodup' q, hD.freeMs.1, fun m hm m' hm' heq => ?_⟩
    exact (hM.used q m hm).2 (heq ▸ hm')
  rw [← List.length_append]
  refine length_le_of_blocks hnd fun m hm => (?_ : IsBlock _ sizeofMessage m)
  rcases List.mem_append.1 hm with hm | hm
  · exact (hM.used q m hm).1
  · exact hD.freeMs.2 m hm

end Model

end DisastrOS
