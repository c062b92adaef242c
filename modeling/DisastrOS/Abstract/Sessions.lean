import DisastrOS.Abstract.MessageQueues
import DisastrOS.Abstract.Registrations

/-!
# Sessions with a queue

A process opens a queue for reading or writing, uses it and closes it. From the open to the close it
keeps its descriptor, the descriptor number and its registration, whatever the others do, as long as
nobody else closes a descriptor of the queue in the same mode.
-/

set_option autoImplicit false

namespace DisastrOS

/-- The action changes the descriptors of the running process. -/
def Action.onDescriptors : Action → Bool
  | .syscall (.openResource ..) | .syscall (.closeResource ..) | .syscall (.exit _) => true
  | _ => false

/-- How far a process is with a queue: it will open it, it has it open under a descriptor number, or
it has closed it. -/
inductive Stage where
  | before
  | during (fd : Int)
  | after

namespace Model

variable {clean : Addr → Prop} {a a' : Model} {r p d q : Addr} {c : Syscall} {act : Action}
  {res : ResourceRef} {st : Stage} {id type mode fd : Int}

/-- The process `p` is at this stage with the queue `q`, which it opens for `mode`. -/
def Enrolled (a : Model) (p q : Addr) (mode : Int) : Stage → Prop
  | .before => a.descriptors p = []
  | .during fd => ∃ d k, a.Holds p d q mode k ∧ a.descriptorByFd p fd = some d
  | .after => True

/-! ## What the others do -/

/-- Nobody but `p` changes the descriptors of `p`. -/
theorem Step.keeps_descriptors (h : Step clean a act a') (hI : a.Inv) (hI' : a'.Inv)
    (hD : a.Distinct) (hown : act.onDescriptors → a.running ≠ some p)
    (hp : a.Used p ∨ a.descriptors p = []) :
    a'.descriptors p = a.descriptors p ∧ ∀ d ∈ a.descriptors p, a'.desFd d = a.desFd d := by
  cases h.descriptors hI hI' hD with
  | same _ _ hsame =>
      rw [hsame.descriptors, hsame.data]
      exact ⟨rfl, fun _ _ => rfl⟩
  | created x _ hx =>
      rw [hx.descriptors, hx.data]
      refine ⟨?_, fun _ _ => rfl⟩
      by_cases hpx : p = x
      · subst hpx
        rw [Function.update_self, hp.resolve_left hx.fresh]
      · rw [Function.update_of_ne hpx]
  | opened r id type mode res d u hr hact hA =>
      have hpr : p ≠ r := fun heq => hown (by rw [hact]; rfl) (heq ▸ hr)
      rw [hA.descriptors, Function.update_of_ne hpr, hA.fd]
      refine ⟨rfl, fun d' hd' => Function.update_of_ne (fun heq => ?_) ..⟩
      exact (hI.desc.linked p d' hd').2.used.2 (heq ▸ hA.fresh)
  | closed r fd mode d hr hact _ hc =>
      have hpr : p ≠ r := fun heq => hown (by rw [hact]; rfl) (heq ▸ hr)
      rw [hc.descriptors, Function.update_of_ne hpr, hc.data]
      exact ⟨rfl, fun _ _ => rfl⟩
  | left r v hr hact _ hc =>
      have hpr : p ≠ r := fun heq => hown (by rw [hact]; rfl) (heq ▸ hr)
      rw [hc.descriptors, Function.update_of_ne hpr, hc.data]
      exact ⟨rfl, fun _ _ => rfl⟩

theorem find_congr {ds : List Addr} {f g : Addr → Int} (h : ∀ d ∈ ds, g d = f d) :
    ds.find? (fun d => g d = fd) = ds.find? (fun d => f d = fd) := by
  induction ds with
  | nil => rfl
  | cons d ds ih =>
      simp only [List.find?_cons, h d List.mem_cons_self,
        ih fun d' hd' => h d' (List.mem_cons_of_mem d hd')]

/-- A process stays at its stage if it does not change its descriptors and nobody closes a
descriptor of the queue with its mode. -/
theorem Enrolled.keep (hE : a.Enrolled p q mode st) (h : Step clean a act a') (hI : a.Inv)
    (hI' : a'.Inv) (hD : a.Distinct) (hown : act.onDescriptors → a.running ≠ some p)
    (hother : ∀ r fd mode' d, a.running = some r → act = .syscall (.closeResource fd mode') →
      a.descriptorByFd r fd.toInt = some d → a.desResource d = .mq q → mode'.toInt ≠ mode) :
    a'.Enrolled p q mode st := by
  cases st with
  | before =>
      exact (h.keeps_descriptors hI hI' hD hown (Or.inr hE)).1.trans hE
  | during fd =>
      obtain ⟨d, k, hH, hd⟩ := hE
      obtain ⟨hlist, hfds⟩ := h.keeps_descriptors hI hI' hD hown (Or.inl hH.alive.used)
      refine ⟨d, k, ?_, ?_⟩
      · refine h.holds hH hI hI' hD (fun v hact => hown (by rw [hact]; rfl))
          (fun r fd' mode' hr hact hd' => ?_) fun r fd' mode' d' hr hact hd' hq hm => ?_
        · have hpr := hD.descriptors.eq (mem_of_descriptorByFd hd').1 hH.descriptor
          exact hown (by rw [hact]; rfl) (hpr ▸ hr)
        · exact absurd hm (hother r fd' mode' d' hr hact hd' hq)
      · rw [descriptorByFd, hlist, find_congr hfds]
        exact hd
  | after => trivial

theorem mem_append_of_mem {res' : ResourceRef} (h : AddResource a id type res a')
    (hres' : res' ∈ a.resourcesList) (hR : a.ResInv) :
    res' ∈ a'.resourcesList ∧ a'.resourceId res' = a.resourceId res' := by
  obtain ⟨hlist, hids, -, -⟩ := h.resourcesList_eq
  have hne : res' ≠ res := fun heq => h.fresh hR (heq ▸ hres')
  rw [hlist, hids, Function.update_of_ne hne]
  exact ⟨List.mem_append_left _ hres', rfl⟩

/-- A resource exists, under its id, until it is destroyed. -/
theorem HandlerStep.keeps_resource (h : HandlerStep clean a r c a') (hI : a.Inv)
    (hres : res ∈ a.resourcesList)
    (hdestroy : ∀ id, c = .destroyResource id → id.toInt ≠ a.resourceId res) :
    res ∈ a'.resourcesList ∧ a'.resourceId res = a.resourceId res := by
  cases hp : c.onProcesses with
  | true =>
      have hsame := h.sameResources hp
      rw [hsame.resourcesList, hsame.resources]
      exact ⟨hres, rfl⟩
  | false =>
      cases h with
      | openResource h =>
          cases h with
          | alreadyExists _ _ => exact ⟨hres, rfl⟩
          | created _ _ hadd hopen =>
              rw [hopen.sameStore.resourcesList, hopen.sameStore.resourceId]
              exact mem_append_of_mem hadd hres hI.res
          | unavailable _ _ => exact ⟨hres, rfl⟩
          | found _ _ _ hopen =>
              rw [hopen.sameStore.resourcesList, hopen.sameStore.resourceId]
              exact ⟨hres, rfl⟩
      | closeResource h =>
          rw [h.sameStore.resourcesList, h.sameStore.resourceId]
          exact ⟨hres, rfl⟩
      | @destroyResource id _ h =>
          cases h with
          | notFound _ => exact ⟨hres, rfl⟩
          | inUse _ _ => exact ⟨hres, rfl⟩
          | @destroyed res' hfound _ =>
              have hne : res ≠ res' := fun heq =>
                hdestroy id rfl (by rw [heq, (mem_of_resourceById hfound).2])
              have hmem : res ∈ a.resourcesList.erase res' := (List.mem_erase_of_ne hne).2 hres
              cases res' <;> exact ⟨hmem, rfl⟩
      | mqRead h => cases h <;> exact ⟨hres, rfl⟩
      | mqWrite h => cases h <;> exact ⟨hres, rfl⟩
      | _ => cases hp

theorem Step.keeps_resource (h : Step clean a act a') (hI : a.Inv) (hres : res ∈ a.resourcesList)
    (hdestroy : ∀ id, act = .syscall (.destroyResource id) → id.toInt ≠ a.resourceId res) :
    res ∈ a'.resourcesList ∧ a'.resourceId res = a.resourceId res := by
  cases h with
  | tick _ h =>
      have hsame := h.sameResources
      rw [hsame.resourcesList, hsame.resources]
      exact ⟨hres, rfl⟩
  | @syscall r c _ hr h =>
      exact h.keeps_resource (hI.enter hr c) hres fun id hc => hdestroy id (by rw [hc])
  | store _ => exact ⟨hres, rfl⟩

/-! ## What the process does -/

theorem ResInv.byId (hI : a.ResInv) (hres : res ∈ a.resourcesList) :
    a.resourceById (a.resourceId res) = some res := by
  cases hfind : a.resourceById (a.resourceId res) with
  | none => simpa using List.find?_eq_none.1 hfind res hres
  | some res' =>
      obtain ⟨hmem, hid⟩ := mem_of_resourceById hfind
      exact congrArg some (List.inj_on_of_nodup_map hI.ids hmem hres hid)

/-- An open with an answer that is not negative gives the process a descriptor with that number. -/
theorem OpenStep.opened (h : OpenStep a r id type mode a') (hmode : Exclusive mode)
    (hpos : 0 ≤ a'.syscallRetvalue r) : ∃ res d, a.resourceById id = some res ∧
      a'.descriptors r = a.descriptors r ++ [d] ∧ a'.desResource d = res ∧
      a'.desFd d = a'.syscallRetvalue r := by
  cases h with
  | alreadyExists _ _ =>
      rw [answer_retvalue] at hpos
      exact absurd hpos (by decide)
  | created hcreate _ _ _ => exact absurd hcreate hmode.ne_create
  | unavailable _ _ =>
      rw [answer_retvalue] at hpos
      exact absurd hpos (by decide)
  | @found _ res _ hfound _ hopen =>
      cases hopen with
      | notExclusive _ _ =>
          rw [answer_retvalue] at hpos
          exact absurd hpos (by decide)
      | taken _ =>
          rw [answer_retvalue] at hpos
          exact absurd hpos (by decide)
      | noDescriptor _ _ _ =>
          rw [answer_retvalue] at hpos
          exact absurd hpos (by decide)
      | @opened a₁ d e ds es _ hreg _ _ =>
          -- the only answer that is not negative is the number of the new descriptor
          have hsame := hreg.sameDescriptors
          refine ⟨res, d, hfound, ?_, Function.update_self .., ?_⟩
          · rw [← hsame.descriptors]
            exact Function.update_self ..
          · simp only [attach, Function.update_self]

/-- `mq_read` answers that the queue is empty for good if it is empty and nobody is registered as a
writer, and only then. -/
theorem ReadStep.empty_answer_iff {buf length : Int} (h : ReadStep a r fd buf length a')
    (hq : a.queueByFd r fd = some q) (hM : a.MsgInv) :
    a'.syscallRetvalue r = dsosMessageQueueEmpty ↔ a.msgs q = [] ∧ a.writingPid q = none := by
  cases h with
  | notFound hd => simp [queueByFd, hd] at hq
  | wrongType _ hnone =>
      rw [hnone] at hq
      cases hq
  | @waiting q' hq' _ hwriter =>
      obtain rfl : q' = q := Option.some.inj (hq'.symm.trans hq)
      rw [answer_retvalue]
      exact iff_of_false (by decide) fun h => hwriter h.2
  | @empty q' hq' hmsgs hnone =>
      obtain rfl : q' = q := Option.some.inj (hq'.symm.trans hq)
      rw [answer_retvalue]
      exact iff_of_true rfl ⟨hmsgs, hnone⟩
  | @tooLong q' m ms hq' hmsgs _ =>
      obtain rfl : q' = q := Option.some.inj (hq'.symm.trans hq)
      rw [answer_retvalue, hmsgs]
      exact iff_of_false (by decide) fun h => absurd h.1 (List.cons_ne_nil m ms)
  | @read q' m ms hq' hmsgs _ =>
      obtain rfl : q' = q := Option.some.inj (hq'.symm.trans hq)
      have hbound := (hM.bound q' m (by rw [hmsgs]; exact List.mem_cons_self)).1
      rw [hmsgs]
      refine iff_of_false (fun hempty => ?_) fun h => absurd h.1 (List.cons_ne_nil m ms)
      have hlength : a.msgLength m = dsosMessageQueueEmpty := (answer_retvalue a r _).symm.trans hempty
      rw [hlength] at hbound
      exact absurd hbound (by decide)

/-- While a process has a queue open, the descriptor number stands for the queue. -/
theorem Enrolled.queueByFd (hE : a.Enrolled p q mode (.during fd)) :
    a.queueByFd p fd = some q := by
  obtain ⟨d, k, hH, hd⟩ := hE
  simp only [Model.queueByFd, hd, Option.map_some, hH.resource]

end Model

end DisastrOS
