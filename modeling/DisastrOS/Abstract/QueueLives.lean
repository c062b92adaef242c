import DisastrOS.Abstract.Sessions

/-!
# The lives of a queue block

A queue block is created, used and destroyed, and then created again. While it is free its
registrations stay as the last life has left them, and a creation does not reset them.
-/

set_option autoImplicit false

namespace DisastrOS.Model

variable {clean : Addr → Prop} {a a' : Model} {r q : Addr} {act : Action} {mode id : Int}

/-- Only registrations with queues that exist change. -/
theorem Step.registration_dead (h : Step clean a act a') (hI : a.Inv)
    (hdead : .mq q ∉ a.resourcesList) : a'.registration q mode = a.registration q mode := by
  cases h.registrations with
  | same hsame => exact hsame q mode
  | enlisted r id type mode' q' k _ _ hq' hk =>
      have hne : ¬ (q = q' ∧ mode = mode'.toInt) := by
        rintro ⟨rfl, -⟩
        exact hdead (mem_of_queueById hq').2.1
      exact (hk.registration q mode).trans (if_neg hne)
  | delisted r fd mode' d q' _ _ hd hq' hdrop =>
      have hne : ¬ (q = q' ∧ mode = mode'.toInt) := by
        rintro ⟨rfl, -⟩
        have hlinked := (hI.desc.linked r d (mem_of_descriptorByFd hd).1).2
        exact hdead (hq' ▸ hlinked.resource)
      exact (hdrop.registration q mode).trans (if_neg hne)

/-- A queue is destroyed with its registrations as they are. -/
theorem Step.registration_destroyed (h : Step clean a act a') (hI : a.Inv)
    (hlive : .mq q ∈ a.resourcesList) (hdead : .mq q ∉ a'.resourcesList) :
    a'.registration q mode = a.registration q mode := by
  have hdestroy : ∃ id, act = .syscall (.destroyResource id) := by
    by_contra hno
    apply hdead
    apply (h.keeps_resource hI hlive _).1
    intro id hact
    exact absurd ⟨id, hact⟩ hno
  obtain ⟨id, rfl⟩ := hdestroy
  exact h.registration_eq (by simp) (by simp)

/-- A creation that gives the process a descriptor makes a queue block live. -/
theorem OpenStep.creates (h : OpenStep a r id messageQueueType dsosCreate a') (hR : a.ResInv)
    (hd : a'.descriptors r ≠ a.descriptors r) :
    ∃ q, .mq q ∉ a.resourcesList ∧ .mq q ∈ a'.resourcesList ∧ a'.resourceId (.mq q) = id := by
  cases h with
  | alreadyExists _ _ => exact absurd rfl hd
  | unavailable hmode _ => exact absurd rfl hmode
  | found hmode _ _ _ => exact absurd rfl hmode
  | @created a₁ _ res _ _ hadd hopen =>
      obtain ⟨hlist₁, hids₁, -, -⟩ := hadd.resourcesList_eq
      have hfresh := hadd.fresh hR
      rw [hopen.sameStore.resourcesList, hopen.sameStore.resourceId, hlist₁, hids₁]
      cases hadd with
      | standard htype _ => exact absurd htype (by decide)
      | mq _ _ => exact ⟨_, hfresh, List.mem_append_right _ List.mem_cons_self, Function.update_self ..⟩

/-- A registration that is free is set by an open in its mode only. -/
theorem Step.registration_none (h : Step clean a act a') (hnone : a.registration q mode = none)
    (hact : ∀ id type mode', act = .syscall (.openResource id type mode') →
      a.queueById id.toInt = some q → mode'.toInt ≠ mode) : a'.registration q mode = none := by
  cases h.registrations with
  | same hsame => exact (hsame q mode).trans hnone
  | enlisted r id type mode' q' k _ hopen hq' hk =>
      have hne : ¬ (q = q' ∧ mode = mode'.toInt) := by
        rintro ⟨rfl, rfl⟩
        exact hact id type mode' hopen hq' rfl
      rw [hk.registration, if_neg hne]
      exact hnone
  | delisted r fd mode' d q' _ _ _ _ hdrop =>
      rw [hdrop.registration]
      split
      · rfl
      · exact hnone

end DisastrOS.Model
