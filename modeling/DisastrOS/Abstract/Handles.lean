import DisastrOS.Abstract.Openings
import DisastrOS.Abstract.Sessions

/-!
# Open descriptors

A descriptor that a process has opened stays in its list, for the same resource, until the process
closes it or leaves. As long as it is there the resource cannot be destroyed, so it keeps its id as
well.
-/

set_option autoImplicit false

namespace DisastrOS

namespace Model

variable {clean : Addr → Prop} {a a' a₁ : Model} {r p d : Addr} {res : ResourceRef} {c : Syscall}
  {act : Action} {id type mode fd : Int}

/-- The process `p` has the descriptor `d` with the number `fd`, for the resource `res` that exists
with this id. -/
structure HasOpen (a : Model) (p d : Addr) (fd : Int) (res : ResourceRef) (id : Int) : Prop where
  alive : a.Alive p
  descriptor : d ∈ a.descriptors p
  number : a.desFd d = fd
  resource : a.desResource d = res
  id : a.resourceId res = id

/-- The resource of a descriptor is in use. -/
theorem HasOpen.in_use (h : a.HasOpen p d fd res id) (hI : a.DescInv) :
    res ∈ a.resourcesList ∧ a.descriptorsPtrs res ≠ [] := by
  obtain ⟨-, hlinked⟩ := hI.linked p d h.descriptor
  obtain ⟨e, -, -, -, hmem⟩ := hlinked.ptr
  rw [← h.resource]
  exact ⟨hlinked.resource, List.ne_nil_of_mem hmem⟩

/-! ## Opening -/

/-- What is prepared for the call exists with its id and has its type. -/
theorem Prepared.resource (h : Prepared a r id type mode res a₁) (hR : a.ResInv) :
    a₁.resourceId res = id ∧ type = res.type := by
  cases h with
  | existing _ hfound htype _ hreg =>
      obtain ⟨hmem, hid⟩ := mem_of_resourceById hfound
      obtain ⟨_, _, _, _, rfl, -, -⟩ := hreg.eq
      exact ⟨hid, htype.symm.trans (hR.type _ hmem)⟩
  | created _ _ hadd =>
      cases hadd with
      | standard htype _ => exact ⟨Function.update_self .., htype⟩
      | mq htype _ => exact ⟨Function.update_self .., htype⟩

/-- An `openResource` with an answer that is not negative. -/
theorem OpenStep.hasOpen (h : OpenStep a r id type mode a') (hI : a.Inv) (hr : a.running = some r)
    (hfd : 0 ≤ a'.syscallRetvalue r) :
    ∃ d res, a'.HasOpen r d (a'.syscallRetvalue r) res id ∧ type = res.type := by
  have hrun : a'.running = some r := h.sameProcesses.running.trans hr
  rcases h.outcome with ⟨-, v, hv, rfl⟩ | ⟨res, a₁, hprep, hattach⟩
  · rw [answer_retvalue] at hfd
    have hneg : v < 0 := by
      simp only [openErrors, List.mem_cons, List.not_mem_nil, or_false] at hv
      rcases hv with rfl | rfl | rfl | rfl <;> decide
    omega
  · obtain ⟨hid, htype⟩ := hprep.resource hI.res
    cases hattach with
    | noDescriptor _ =>
        rw [answer_retvalue] at hfd
        exact absurd hfd (by decide)
    | @opened d e ds es _ _ =>
        refine ⟨d, res, ⟨Or.inl hrun, ?_, ?_, Function.update_self .., hid⟩, htype⟩
        · rw [attach_descriptors]
          exact List.mem_append_right _ (List.mem_singleton_self d)
        · rw [attach_retvalue]
          exact Function.update_self ..

/-! ## Steps -/

/-- A resource in use is not destroyed. -/
theorem HandlerStep.keeps_used (h : HandlerStep clean a r c a') (hI : a.Inv)
    (hres : res ∈ a.resourcesList) (huse : a.descriptorsPtrs res ≠ []) :
    a'.resourceId res = a.resourceId res := by
  by_cases hdestroy : ∃ id, c = .destroyResource id ∧ id.toInt = a.resourceId res
  · obtain ⟨id, rfl, hid⟩ := hdestroy
    cases h with
    | destroyResource h =>
        cases h with
        | notFound _ => rfl
        | inUse _ _ => rfl
        | @destroyed res' hfound hnil =>
            rw [hid, hI.res.byId hres] at hfound
            obtain rfl := Option.some.inj hfound
            exact absurd hnil huse
  · refine (h.keeps_resource hI hres fun id hc heq => hdestroy ⟨id, hc, heq⟩).2

theorem Step.keeps_used (h : Step clean a act a') (hI : a.Inv) (hres : res ∈ a.resourcesList)
    (huse : a.descriptorsPtrs res ≠ []) : a'.resourceId res = a.resourceId res := by
  cases h with
  | tick _ h => rw [h.sameResources.resources]
  | @syscall r c _ hr h => exact h.keeps_used (hI.enter hr c) hres huse
  | store _ => rfl

/-- A process keeps its descriptor until it closes it or exits. -/
theorem Step.hasOpen (h : Step clean a act a') (ho : a.HasOpen p d fd res id) (hI : a.Inv)
    (hI' : a'.Inv) (hD : a.Distinct) (hexit : ∀ v, act = .syscall (.exit v) → a.running ≠ some p)
    (hclose : ∀ n mode, a.running = some p → act = .syscall (.closeResource n mode) →
      n.toInt ≠ fd) : a'.HasOpen p d fd res id := by
  obtain ⟨hres, huse⟩ := ho.in_use hI.desc
  -- a close that finds the descriptor is one of `p` with its number
  have hclose' : ∀ q n mode', a.running = some q → act = .syscall (.closeResource n mode') →
      a.descriptorByFd q n.toInt ≠ some d := by
    intro q n mode' hq hact hfound
    obtain ⟨hlist, hfd⟩ := mem_of_descriptorByFd hfound
    obtain rfl := hD.descriptors.eq hlist ho.descriptor
    exact hclose n mode' hq hact (hfd.symm.trans ho.number)
  obtain ⟨hmem, hresource, hnumber⟩ := h.keeps_descriptor hI hI' hD ho.alive ho.descriptor hexit
    hclose'
  exact ⟨h.alive_mono hI hI' ho.alive hexit, hmem, hnumber.trans ho.number,
    hresource.trans ho.resource, (h.keeps_used hI hres huse).trans ho.id⟩

end Model

end DisastrOS
