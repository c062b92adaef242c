import DisastrOS.Abstract.Families

/-!
# What the transitions do to descriptors

Every transition leaves the descriptors alone, or it creates a process without descriptors, or it
opens or closes one descriptor, or it closes all descriptors of a process that exits. The properties
of descriptors follow from this case distinction.
-/

set_option autoImplicit false

namespace DisastrOS

/-- The parent of `r` is blocked in a `wait` for it. -/
def Data.parentAwaits (d : Data) (r : Addr) : Bool :=
  (d.parent r).any fun p => d.awaits p (d.pid r)

namespace Model

variable {clean : Addr → Prop} {a a' a'' : Model} {r p d x : Addr} {ds : List Addr} {c : Syscall}
  {act : Action} {res : ResourceRef} {id type mode : Int}

/-! ## Cases -/

/-- The descriptors of `a'` are those of `a`. -/
structure SameDescriptors (a a' : Model) : Prop where
  data : a'.toDescriptors = a.toDescriptors
  descriptors : a'.descriptors = a.descriptors
  entries : a'.descriptorsPtrs = a.descriptorsPtrs
  lastFd : a'.lastFd = a.lastFd

theorem SameDescriptors.trans (h : SameDescriptors a a') (h' : SameDescriptors a' a'') :
    SameDescriptors a a'' :=
  ⟨h'.data.trans h.data, h'.descriptors.trans h.descriptors, h'.entries.trans h.entries,
    h'.lastFd.trans h.lastFd⟩

/-- The process `x` is new and has no descriptors. -/
structure Created (a : Model) (x : Addr) (a' : Model) : Prop where
  used : ∀ y, a'.Used y ↔ a.Used y ∨ y = x
  fresh : ¬ a.Used x
  data : a'.toDescriptors = a.toDescriptors
  descriptors : a'.descriptors = Function.update a.descriptors x []
  entries : a'.descriptorsPtrs = a.descriptorsPtrs
  lastFd : a'.lastFd = Function.update a.lastFd x 0

/-- The process `r` has the new descriptor `d`, with the entry `e` on the list of `res`. -/
structure Attached (a : Model) (r : Addr) (res : ResourceRef) (d e : Addr) (a' : Model) : Prop where
  fresh : d ∈ a.freeDescriptors
  freshEntry : e ∈ a.freeDescriptorPtrs
  fd : a'.desFd = Function.update a.desFd d (a.lastFd r)
  resource : a'.desResource = Function.update a.desResource d res
  pcb : a'.desPcb = Function.update a.desPcb d r
  back : a'.desptrDescriptor = Function.update a.desptrDescriptor e d
  descriptors : a'.descriptors = Function.update a.descriptors r (a.descriptors r ++ [d])
  entries : a'.descriptorsPtrs =
    Function.update a.descriptorsPtrs res (a.descriptorsPtrs res ++ [e])
  lastFd : a'.lastFd = Function.update a.lastFd r (wrapInt (a.lastFd r + 1))

theorem Attached.of_same {e : Addr} (h : Attached a' r res d e a'') (hsame : SameDescriptors a a')
    (hfree : a'.freeDescriptors = a.freeDescriptors)
    (hfree' : a'.freeDescriptorPtrs = a.freeDescriptorPtrs) : Attached a r res d e a'' where
  fresh := hfree ▸ h.fresh
  freshEntry := hfree' ▸ h.freshEntry
  fd := by rw [h.fd, hsame.data, hsame.lastFd]
  resource := by rw [h.resource, hsame.data]
  pcb := by rw [h.pcb, hsame.data]
  back := by rw [h.back, hsame.data]
  descriptors := by rw [h.descriptors, hsame.descriptors]
  entries := by rw [h.entries, hsame.entries]
  lastFd := by rw [h.lastFd, hsame.lastFd]

/-- The process `r` has the descriptors `rest` left, the others are closed. -/
structure Closed (a : Model) (r : Addr) (rest : List Addr) (a' : Model) : Prop where
  data : a'.toDescriptors = a.toDescriptors
  descriptors : a'.descriptors = Function.update a.descriptors r rest
  entries : ∀ res, ∀ e ∈ a'.descriptorsPtrs res, e ∈ a.descriptorsPtrs res ∧
    (a.desptrDescriptor e ∈ a.descriptors r → a.desptrDescriptor e ∈ rest)
  lastFd : a'.lastFd = a.lastFd

/-- What a transition does to the descriptors. -/
inductive DescriptorCases (a : Model) (act : Action) (a' : Model) : Prop where
  | same : act.creates = false →
      ((∃ v, act = .syscall (.exit v)) → ∀ r, a.running = some r → ¬ a.parentAwaits r) →
      SameDescriptors a a' → DescriptorCases a act a'
  | created (x : Addr) : act.creates → Created a x a' → DescriptorCases a act a'
  | opened (r : Addr) (id type mode : Int32) (res : ResourceRef) (d e : Addr) :
      a.running = some r → act = .syscall (.openResource id type mode) →
      Attached a r res d e a' → DescriptorCases a act a'
  | closed (r : Addr) (fd mode : Int32) (d : Addr) :
      a.running = some r → act = .syscall (.closeResource fd mode) →
      a.descriptorByFd r fd.toInt = some d → Closed a r ((a.descriptors r).erase d) a' →
      DescriptorCases a act a'
  | left (r : Addr) (v : Int32) :
      a.running = some r → act = .syscall (.exit v) → a.parentAwaits r → Closed a r [] a' →
      DescriptorCases a act a'

/-! ## Opening -/

/-- A new resource has no descriptors, and those of the others stay. -/
theorem AddResource.sameDescriptors (h : AddResource a id type res a') (hR : a.ResInv)
    (hI : a.DescInv) : SameDescriptors a a' := by
  have hkeep := hI.update_entries (h.fresh hR)
  cases h with
  | standard _ _ => exact ⟨rfl, rfl, hkeep, rfl⟩
  | mq _ _ => exact ⟨rfl, rfl, hkeep, rfl⟩

theorem Register.sameDescriptors (h : Register a r res mode a') : SameDescriptors a a' := by
  obtain ⟨_, _, _, _, rfl, -, -⟩ := h.eq
  exact ⟨rfl, rfl, rfl, rfl⟩

/-- Opening a resource that exists attaches at most one descriptor to the caller. -/
theorem OpenFound.descriptors (h : OpenFound a r res mode a') :
    SameDescriptors a a' ∨ ∃ d e, Attached a r res d e a' := by
  cases h with
  | notExclusive _ _ => exact Or.inl ⟨rfl, rfl, rfl, rfl⟩
  | taken _ => exact Or.inl ⟨rfl, rfl, rfl, rfl⟩
  | noDescriptor _ hreg _ => exact Or.inl { hreg.sameDescriptors with }
  | @opened a₁ d e ds es _ hreg hd he =>
      obtain ⟨_, _, _, _, rfl, -, -⟩ := hreg.eq
      refine Or.inr ⟨d, e, ?_, ?_, rfl, rfl, rfl, rfl, rfl, rfl, rfl⟩
      · rw [show a.freeDescriptors = d :: ds from hd]
        exact List.mem_cons_self
      · rw [show a.freeDescriptorPtrs = e :: es from he]
        exact List.mem_cons_self

theorem AddResource.free_eq (h : AddResource a id type res a') :
    a'.freeDescriptors = a.freeDescriptors ∧ a'.freeDescriptorPtrs = a.freeDescriptorPtrs := by
  cases h with
  | standard _ _ => exact ⟨rfl, rfl⟩
  | mq _ _ => exact ⟨rfl, rfl⟩

/-- `openResource` attaches at most one descriptor to the caller. -/
theorem OpenStep.descriptors (h : OpenStep a r id type mode a') (hR : a.ResInv) (hI : a.DescInv) :
    SameDescriptors a a' ∨ ∃ res d e, Attached a r res d e a' := by
  cases h with
  | alreadyExists _ _ => exact Or.inl ⟨rfl, rfl, rfl, rfl⟩
  | @created a₁ _ res _ _ hadd hopen =>
      have hsame := hadd.sameDescriptors hR hI
      obtain ⟨hfree, hfree'⟩ := hadd.free_eq
      exact hopen.descriptors.imp hsame.trans fun ⟨d, e, hA⟩ =>
        ⟨res, d, e, hA.of_same hsame hfree hfree'⟩
  | unavailable _ _ => exact Or.inl ⟨rfl, rfl, rfl, rfl⟩
  | found _ _ _ hopen => exact hopen.descriptors.imp (fun h => h) fun h => ⟨_, h⟩

/-! ## Closing -/

/-- Dropping all descriptors of a process empties its list and frees them. -/
theorem dropDescriptors_spec (hdn : ∀ p, (a.descriptors p).Nodup) (hds : a.descriptors p = ds) :
    (dropDescriptors p ds a).descriptors = Function.update a.descriptors p [] ∧
      (∀ res, (dropDescriptors p ds a).descriptorsPtrs res ⊆ a.descriptorsPtrs res) ∧
      ∀ d, d ∈ ds ∨ d ∈ a.freeDescriptors → d ∈ (dropDescriptors p ds a).freeDescriptors := by
  induction ds generalizing a with
  | nil =>
      refine ⟨?_, fun _ => List.Subset.refl _, fun d hd => hd.resolve_left List.not_mem_nil⟩
      show a.descriptors = _
      rw [← hds, Function.update_eq_self]
  | cons d ds ih =>
      have hrest := dropDescriptor_descriptors hds
      obtain ⟨hlists, hentries, hfree⟩ := ih (dropDescriptor_descriptors_nodup hdn) hrest
      refine ⟨?_, fun res => ?_, fun d' hd' => hfree d' ?_⟩
      · show (dropDescriptors p ds (a.dropDescriptor p d)).descriptors = _
        rw [hlists]
        exact Function.update_idem ..
      · apply List.Subset.trans (hentries res)
        intro e he
        exact ChildLists.mem_of_mem_remove he
      · rcases hd' with hd' | hd'
        · rcases List.mem_cons.1 hd' with rfl | hd'
          · exact Or.inr List.mem_cons_self
          · exact Or.inl hd'
        · exact Or.inr (List.mem_cons_of_mem d hd')

/-- The entries that are left belong to descriptors that are not free. -/
theorem DescInv.entry_used {e : Addr} (hI : a.DescInv) (he : e ∈ a.descriptorsPtrs res) :
    a.desptrDescriptor e ∉ a.freeDescriptors :=
  (hI.entry res e he).2.2.used.2

/-- `closeResource` closes at most one descriptor of the caller, the one that is named. -/
theorem CloseStep.descriptors {fd : Int} (h : CloseStep a r fd mode a') (hI' : a'.DescInv) :
    SameDescriptors a a' ∨ ∃ d, a.descriptorByFd r fd = some d ∧
      Closed a r ((a.descriptors r).erase d) a' := by
  cases h with
  | notFound _ => exact Or.inl ⟨rfl, rfl, rfl, rfl⟩
  | @closed d hd =>
      refine Or.inr ⟨d, hd, ?_⟩
      obtain ⟨readingPid, writingPid, heq⟩ := unregister_eq a (a.desResource d) mode
      rw [heq] at hI' ⊢
      refine ⟨rfl, rfl, fun res e he => ⟨ChildLists.mem_of_mem_remove he, fun hmem => ?_⟩, rfl⟩
      have hne : a.desptrDescriptor e ≠ d := fun hed =>
        hI'.entry_used he (show a.desptrDescriptor e ∈ d :: a.freeDescriptors by
          rw [hed]
          exact List.mem_cons_self)
      exact (List.mem_erase_of_ne hne).2 hmem

/-- `exit` closes all descriptors of the caller if its parent waits for it, and none otherwise. -/
theorem ExitStep.descriptors (h : ExitStep a r a') (hD : a.Distinct) (hI' : a'.DescInv) :
    (¬ a.parentAwaits r ∧ SameDescriptors a a') ∨ (a.parentAwaits r ∧ Closed a r [] a') := by
  cases h with
  | @wakeParent init parent e _ _ hparent hawaits _ =>
      refine Or.inr ⟨by rw [Data.parentAwaits, hparent]; exact hawaits, ?_⟩
      -- `b` is the state in which the descriptors of `r` are closed one after the other
      obtain ⟨b, hb⟩ : ∃ b, b = (a.leave r init parent).deliver r parent e := ⟨_, rfl⟩
      have hdata : b.toDescriptors = a.toDescriptors ∧ b.descriptors = a.descriptors ∧
          b.descriptorsPtrs = a.descriptorsPtrs ∧ b.lastFd = a.lastFd := by
        rw [hb, deliver_eq]
        exact ⟨rfl, rfl, rfl, rfl⟩
      obtain ⟨hdata, hlists, hentries, hlast⟩ := hdata
      have hover : (a.leave r init parent).handOver r parent e =
          { dropDescriptors r (a.descriptors r) b with
            procs := Function.update (dropDescriptors r (a.descriptors r) b).procs .zombie
              (((dropDescriptors r (a.descriptors r) b).procs .zombie).erase r)
            freePcbs := r :: (dropDescriptors r (a.descriptors r) b).freePcbs
            running := some parent } := by
        rw [hb]
        rfl
      have hspec := dropDescriptors_spec (a := b) (p := r)
        (fun p => by rw [hlists]; exact hD.descriptors.nodup' p) (by rw [hlists])
      obtain ⟨hdropped, hsub, hfree⟩ := hspec
      rw [hover] at hI' ⊢
      obtain ⟨f, g, u, v, heq⟩ := dropDescriptors_eq r (a.descriptors r) b
      rw [heq] at hI' hdropped hsub hfree ⊢
      refine ⟨hdata, hdropped.trans (by rw [hlists]), fun res e he => ⟨?_, fun hmem => ?_⟩, hlast⟩
      · rw [← hentries]
        exact hsub res he
      -- an entry of a descriptor that was closed would be in use and free
      · have hused := hI'.entry_used he
        replace hused : b.desptrDescriptor e ∉ u := hused
        rw [hdata] at hused
        exact absurd (hfree _ (Or.inl hmem)) hused
  | retire _ _ hparent hawaits _ =>
      exact Or.inl ⟨by rw [Data.parentAwaits, hparent]; exact hawaits, rfl, rfl, rfl, rfl⟩

/-! ## Other steps -/

/-- A new process has no descriptors. -/
theorem CreateStep.descriptors (h : CreateStep a r a') (hP : a.ProcInv) (hP' : a'.ProcInv) :
    ∃ x, Created a x a' := by
  cases h with
  | @created x e xs es hfree _ =>
      exact ⟨x, fun y => used_create hP hP' hfree,
        hP.free_fresh (by rw [hfree]; exact List.mem_cons_self), rfl, rfl, rfl, rfl⟩

theorem DestroyStep.sameDescriptors (h : DestroyStep a r id a') : SameDescriptors a a' := by
  cases h with
  | notFound _ => exact ⟨rfl, rfl, rfl, rfl⟩
  | inUse _ _ => exact ⟨rfl, rfl, rfl, rfl⟩
  | @destroyed res _ _ => cases res <;> exact ⟨rfl, rfl, rfl, rfl⟩

theorem ReadStep.sameDescriptors {fd buf length : Int} (h : ReadStep a r fd buf length a') :
    SameDescriptors a a' := by
  cases h <;> exact ⟨rfl, rfl, rfl, rfl⟩

theorem WriteStep.sameDescriptors {fd msg length : Int}
    (h : WriteStep clean a r fd msg length a') : SameDescriptors a a' := by
  cases h <;> exact ⟨rfl, rfl, rfl, rfl⟩

/-! ## The system -/

/-- What a call does to the descriptors. -/
theorem HandlerStep.descriptors (h : HandlerStep clean a r c a') (hI : a.Inv) (hI' : a'.Inv)
    (hD : a.Distinct) (hr : a.running = some r) : DescriptorCases a (.syscall c) a' := by
  cases h with
  | preempt h =>
      obtain ⟨_, _, _, _, _, _, rfl⟩ := h.eq
      exact .same rfl nofun ⟨rfl, rfl, rfl, rfl⟩
  | fork h =>
      obtain ⟨x, hx⟩ := h.descriptors hI.proc hI'.proc
      exact .created x rfl hx
  | spawn h =>
      obtain ⟨x, hx⟩ := h.descriptors hI.proc hI'.proc
      exact .created x rfl hx
  | wait h =>
      obtain ⟨_, _, _, _, _, _, _, _, rfl⟩ := h.eq
      exact .same rfl nofun ⟨rfl, rfl, rfl, rfl⟩
  | @exit v _ h =>
      rcases h.descriptors hD hI'.desc with ⟨hnot, hsame⟩ | ⟨hawaits, hclosed⟩
      · refine .same rfl (fun _ r' hr' => ?_) hsame
        rwa [← Option.some.inj (hr.symm.trans hr')]
      · exact .left r v hr rfl hawaits hclosed
  | sleep h =>
      obtain ⟨_, _, _, _, _, _, _, _, rfl⟩ := h.eq
      exact .same rfl nofun ⟨rfl, rfl, rfl, rfl⟩
  | @openResource id type mode _ h =>
      rcases h.descriptors hI.res hI.desc with hsame | ⟨res, d, e, hA⟩
      · exact .same rfl nofun hsame
      · exact .opened r id type mode res d e hr rfl hA
  | @closeResource fd mode _ h =>
      rcases h.descriptors hI'.desc with hsame | ⟨d, hd, hclosed⟩
      · exact .same rfl nofun hsame
      · exact .closed r fd mode d hr rfl hd hclosed
  | destroyResource h => exact .same rfl nofun h.sameDescriptors
  | shutdown => exact .same rfl nofun ⟨rfl, rfl, rfl, rfl⟩
  | mqRead h => exact .same rfl nofun h.sameDescriptors
  | mqWrite h => exact .same rfl nofun h.sameDescriptors

theorem parentAwaits_enter (hP : a.ProcInv) (hr : a.running = some r) :
    (a.enter r c).parentAwaits r ↔ a.parentAwaits r := by
  simp only [Data.parentAwaits, Option.any_eq_true]
  exact exists_congr fun p => and_congr_right fun _ => awaits_enter hP hr

theorem DescriptorCases.of_enter (h : DescriptorCases (a.enter r c) act a') (hP : a.ProcInv)
    (hr : a.running = some r) : DescriptorCases a act a' := by
  cases h with
  | same hact hexit h =>
      refine .same hact (fun hv r' hr' hawaits => hexit hv r' hr' ?_) { h with }
      obtain rfl : r = r' := Option.some.inj (hr.symm.trans hr')
      exact (parentAwaits_enter hP hr).2 hawaits
  | created x hact h => exact .created x hact { h with }
  | opened r' id type mode res d e hr' hact h =>
      exact .opened r' id type mode res d e hr' hact { h with }
  | closed r' fd mode d hr' hact hd h => exact .closed r' fd mode d hr' hact hd { h with }
  | left r' v hr' hact hawaits h =>
      obtain rfl : r = r' := Option.some.inj (hr.symm.trans hr')
      exact .left r v hr' hact ((parentAwaits_enter hP hr).1 hawaits) { h with }

/-- The case distinction for the transitions of the system. -/
theorem Step.descriptors (h : Step clean a act a') (hI : a.Inv) (hI' : a'.Inv) (hD : a.Distinct) :
    DescriptorCases a act a' := by
  cases h with
  | tick _ h =>
      obtain ⟨_, _, _, _, _, _, rfl⟩ := h.eq
      exact .same rfl nofun ⟨rfl, rfl, rfl, rfl⟩
  | @syscall r c _ hr h =>
      exact (h.descriptors (hI.enter hr c) hI' (hD.enter c) hr).of_enter hI.proc hr
  | store _ => exact .same rfl nofun ⟨rfl, rfl, rfl, rfl⟩

end Model

end DisastrOS
