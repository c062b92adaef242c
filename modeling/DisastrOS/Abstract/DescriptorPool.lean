import DisastrOS.Abstract.Descriptors
import DisastrOS.Abstract.Openings

/-!
# The pool of the descriptors

A block of the pool for the descriptor entries is free or on the list of a resource, in every
transition; the processes play no part in that, so a process that leaves its descriptors open does
not lose a block. So the lists of all resources together and the free blocks make up the pool.
-/

set_option autoImplicit false

namespace DisastrOS

open ChildLists

namespace Model

variable {clean : Addr → Prop} {a a' : Model} {r p d x : Addr} {ds : List Addr} {c : Syscall}
  {act : Action} {res : ResourceRef} {id type mode : Int}

/-- Every block for an entry is free or on the list of a resource. -/
def CoversEntries (a : Model) : Prop :=
  ∀ e, IsBlock maxNumProcesses sizeofDescriptorPtr e →
    e ∈ a.freeDescriptorPtrs ∨ ∃ res, e ∈ a.descriptorsPtrs res

theorem CoversEntries.congr (h : a.CoversEntries)
    (hfree : a'.freeDescriptorPtrs = a.freeDescriptorPtrs)
    (hentries : a'.descriptorsPtrs = a.descriptorsPtrs) : a'.CoversEntries := by
  intro e he
  rw [hfree, hentries]
  exact h e he

/-- An entry that leaves its list is freed. -/
theorem CoversEntries.drop (h : a.CoversEntries) (p d : Addr) :
    (a.dropDescriptor p d).CoversEntries := by
  intro e he
  by_cases hed : e = (a.desPtr d).getD 0
  · exact Or.inl (hed ▸ List.mem_cons_self)
  · rcases h e he with hfree | ⟨res, hmem⟩
    · exact Or.inl (List.mem_cons_of_mem _ hfree)
    · refine Or.inr ⟨res, ?_⟩
      show e ∈ Function.update a.descriptorsPtrs (a.desResource d) _ res
      by_cases hres : res = a.desResource d
      · subst hres
        rw [Function.update_self]
        exact (List.mem_erase_of_ne hed).2 hmem
      · rwa [Function.update_of_ne hres]

theorem CoversEntries.dropAll (h : a.CoversEntries) (p : Addr) (ds : List Addr) :
    (dropDescriptors p ds a).CoversEntries := by
  induction ds generalizing a with
  | nil => exact h
  | cons d ds ih => exact ih (h.drop p d)

/-- A block that is handed out goes to the list of the resource. -/
theorem CoversEntries.attach {e : Addr} {es : List Addr} (h : a.CoversEntries)
    (hfree : a.freeDescriptorPtrs = e :: es) : (a.attach r res d e ds es).CoversEntries := by
  intro u hu
  rcases h u hu with hmem | ⟨res', hmem⟩
  · rw [hfree, List.mem_cons] at hmem
    rcases hmem with rfl | hmem
    · exact Or.inr ⟨res, mem_add.2 (Or.inr ⟨rfl, rfl⟩)⟩
    · exact Or.inl hmem
  · exact Or.inr ⟨res', mem_add.2 (Or.inl hmem)⟩

/-! ## Handlers -/

theorem OpenStep.coversEntries (h : OpenStep a r id type mode a') (hC : a.CoversEntries)
    (hR : a.ResInv) (hI : a.DescInv) : a'.CoversEntries := by
  rcases h.outcome with ⟨-, v, -, rfl⟩ | ⟨res, a₁, hprep, hattach⟩
  · exact hC
  · -- creating the resource or registering the caller leaves the entries alone
    have hsame : a₁.freeDescriptorPtrs = a.freeDescriptorPtrs ∧
        a₁.descriptorsPtrs = a.descriptorsPtrs := by
      cases hprep with
      | existing _ _ _ _ hreg =>
          obtain ⟨_, _, _, _, rfl, -⟩ := hreg.eq
          exact ⟨rfl, rfl⟩
      | created _ _ hadd => exact ⟨hadd.free_eq.2, (hadd.sameDescriptors hR hI).entries⟩
    have hC₁ := hC.congr hsame.1 hsame.2
    cases hattach with
    | noDescriptor _ => exact hC₁
    | opened _ he => exact hC₁.attach (hsame.1.trans he)

theorem CloseStep.coversEntries {fd : Int} (h : CloseStep a r fd mode a') (hC : a.CoversEntries) :
    a'.CoversEntries := by
  cases h with
  | notFound _ => exact hC
  | @closed d _ =>
      obtain ⟨_, _, heq⟩ := unregister_eq a (a.desResource d) mode
      rw [heq]
      exact hC.drop r d

theorem ExitStep.coversEntries (h : ExitStep a r a') (hC : a.CoversEntries) : a'.CoversEntries := by
  cases h with
  | @wakeParent init parent e _ _ _ _ _ =>
      have hdeliver : ((a.leave r init parent).deliver r parent e).CoversEntries := by
        rw [deliver_eq]
        exact hC
      exact hdeliver.dropAll r (a.descriptors r)
  | retire _ _ _ _ _ => exact hC

theorem HandlerStep.coversEntries (h : HandlerStep clean a r c a') (hC : a.CoversEntries)
    (hI : a.Inv) : a'.CoversEntries := by
  cases h with
  | preempt h =>
      obtain ⟨_, _, _, _, _, _, rfl⟩ := h.eq
      exact hC
  | fork h => cases h with | created _ _ => exact hC
  | spawn h => cases h with | created _ _ => exact hC
  | wait h =>
      obtain ⟨_, _, _, _, _, _, _, _, rfl⟩ := h.eq
      exact hC
  | exit h => exact h.coversEntries hC
  | sleep h =>
      obtain ⟨_, _, _, _, _, _, _, _, rfl⟩ := h.eq
      exact hC
  | openResource h => exact h.coversEntries hC hI.res hI.desc
  | closeResource h => exact h.coversEntries hC
  | destroyResource h =>
      cases h with
      | notFound _ => exact hC
      | inUse _ _ => exact hC
      | @destroyed res _ _ => cases res <;> exact hC
  | shutdown => exact hC
  | mqRead h => cases h <;> exact hC
  | mqWrite h => cases h <;> exact hC

theorem Step.coversEntries (h : Step clean a act a') (hC : a.CoversEntries) (hI : a.Inv) :
    a'.CoversEntries := by
  cases h with
  | tick _ hs =>
      obtain ⟨_, _, _, _, _, _, rfl⟩ := hs.eq
      exact hC
  | @syscall r c _ hr hs => exact hs.coversEntries hC (hI.enter hr c)
  | store _ => exact hC

/-! ## Counting -/

/-- The number of entries on the lists of all resources. -/
def openEntries (a : Model) : Nat := (a.resourcesList.flatMap a.descriptorsPtrs).length

/-- The lists of the resources and the free blocks make up the pool. -/
theorem CoversEntries.perm (h : a.CoversEntries) (hI : a.DescInv) (hD : a.Distinct) :
    (a.resourcesList.flatMap a.descriptorsPtrs ++ a.freeDescriptorPtrs).Perm
      (allBlocks maxNumProcesses sizeofDescriptorPtr) := by
  have hused : ∀ res, ∀ e ∈ a.descriptorsPtrs res,
      (IsBlock maxNumProcesses sizeofDescriptorPtr e ∧ e ∉ a.freeDescriptorPtrs) ∧
        res ∈ a.resourcesList := by
    intro res e he
    obtain ⟨hptr, rfl, hlinked⟩ := hI.entry res e he
    obtain ⟨e', hptr', -, hused, -⟩ := hlinked.ptr
    obtain rfl : e = e' := Option.some.inj (hptr.symm.trans hptr')
    exact ⟨hused, hlinked.resource⟩
  have hlists : (a.resourcesList.flatMap a.descriptorsPtrs).Nodup := by
    refine List.nodup_flatMap.2 ⟨fun res _ => hD.descriptorsPtrs.nodup' res, ?_⟩
    refine hD.resourcesList.imp fun {res res'} hne e he he' => ?_
    exact hne (hD.descriptorsPtrs.eq he he')
  have hnodup : (a.resourcesList.flatMap a.descriptorsPtrs ++ a.freeDescriptorPtrs).Nodup := by
    refine List.nodup_append'.2 ⟨hlists, hD.freeDescriptorPtrs.1, fun e he hfree => ?_⟩
    obtain ⟨res, -, hmem⟩ := List.mem_flatMap.1 he
    exact (hused res e hmem).1.2 hfree
  refine (List.perm_ext_iff_of_nodup hnodup (allBlocks_nodup (by decide))).2 fun e => ?_
  rw [List.mem_append, List.mem_flatMap, mem_allBlocks]
  constructor
  · rintro (⟨res, -, hmem⟩ | hfree)
    · exact (hused res e hmem).1.1
    · exact hD.freeDescriptorPtrs.2 e hfree
  · intro he
    rcases h e he with hfree | ⟨res, hmem⟩
    · exact Or.inr hfree
    · exact Or.inl ⟨res, (hused res e hmem).2, hmem⟩

theorem CoversEntries.count (h : a.CoversEntries) (hI : a.DescInv) (hD : a.Distinct) :
    a.openEntries + a.freeDescriptors.length = maxNumProcesses := by
  have hlen := (h.perm hI hD).length_eq
  rwa [List.length_append, allBlocks_length, ← hI.balance] at hlen

/-- A process has no more descriptors than are handed out. -/
theorem DescInv.length_le (hI : a.DescInv) (hD : a.Distinct) (p : Addr) :
    (a.descriptors p).length + a.freeDescriptors.length ≤ maxNumProcesses := by
  have hnodup : (a.descriptors p ++ a.freeDescriptors).Nodup :=
    List.nodup_append'.2 ⟨hD.descriptors.nodup' p, hD.freeDescriptors.1, fun d hd hfree =>
      (hI.linked p d hd).2.used.2 hfree⟩
  have hblocks : ∀ d ∈ a.descriptors p ++ a.freeDescriptors,
      IsBlock maxNumProcesses sizeofDescriptor d := fun d hd =>
    (List.mem_append.1 hd).elim (fun hd => (hI.linked p d hd).2.used.1) (hD.freeDescriptors.2 d)
  have hlen := length_le_of_blocks hnodup hblocks
  rwa [List.length_append] at hlen

end Model

end DisastrOS
