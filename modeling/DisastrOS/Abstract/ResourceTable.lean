import DisastrOS.Abstract.ProcessTable

/-!
# Resources, descriptors and messages along the transitions

The invariants of the resources, of the descriptors and of the messages are kept by every transition
that opens, closes, creates, destroys, reads or writes; closing also happens when a process exits.
-/

set_option autoImplicit false

namespace DisastrOS

namespace Model

variable {a a' : Model} {r p d e q m : Addr} {ds es ms : List Addr} {res : ResourceRef}
  {id type mode : Int}

/-! ## Descriptors -/

/-- The entry of a descriptor points back to it and stands in the list of its resource. -/
theorem Linked.ptr_eq (h : a.Linked d) : ∃ e, a.desPtr d = some e ∧ (a.desPtr d).getD 0 = e ∧
    a.desptrDescriptor e = d ∧ e ∈ a.descriptorsPtrs (a.desResource d) := by
  obtain ⟨e, hptr, hback, -, hmem⟩ := h.ptr
  exact ⟨e, hptr, by rw [hptr]; rfl, hback, hmem⟩

/-- Dropping `d` keeps the links of the other descriptors. -/
theorem Linked.drop {d' : Addr} (h : a.Linked d') (hd : a.Linked d) (hne : d' ≠ d) :
    (a.dropDescriptor p d).Linked d' := by
  obtain ⟨e, hptr, hget, hback, hmem⟩ := hd.ptr_eq
  obtain ⟨e', hptr', hback', hused', hmem'⟩ := h.ptr
  have hee : e' ≠ e := fun heq => hne (by rw [← hback', heq, hback])
  refine ⟨⟨h.used.1, ?_⟩, ⟨e', hptr', hback', ⟨hused'.1, ?_⟩, ?_⟩, h.resource⟩
  · show d' ∉ d :: a.freeDescriptors
    rw [List.mem_cons, not_or]
    exact ⟨hne, h.used.2⟩
  · show e' ∉ (a.desPtr d).getD 0 :: a.freeDescriptorPtrs
    rw [hget, List.mem_cons, not_or]
    exact ⟨hee, hused'.2⟩
  · show e' ∈ Function.update a.descriptorsPtrs (a.desResource d) _ (a.desResource d')
    rw [hget, Function.update_apply]
    split
    · rename_i heq
      rw [List.mem_erase_of_ne hee, ← heq]
      exact hmem'
    · exact hmem'

/-- Closing a descriptor keeps the others linked. -/
theorem DescInv.drop (hI : a.DescInv) (hdn : ∀ p, (a.descriptors p).Nodup)
    (hen : ∀ r, (a.descriptorsPtrs r).Nodup) (hd : d ∈ a.descriptors p) :
    (a.dropDescriptor p d).DescInv := by
  obtain ⟨hpcb, hlinked⟩ := hI.linked p d hd
  obtain ⟨e, hptr, hget, hback, hmem⟩ := hlinked.ptr_eq
  constructor
  · intro p' d' hd'
    -- a list that still has `d'` is the old one, without `d` if it is the one of `p`
    have hout : d' ∈ a.descriptors p' ∧ d' ≠ d := by
      have hmem' : d' ∈ Function.update a.descriptors p ((a.descriptors p).erase d) p' := hd'
      rw [Function.update_apply] at hmem'
      split at hmem'
      · rename_i heq
        rw [heq]
        exact ((hdn p).mem_erase_iff.1 hmem').symm
      · rename_i hne
        refine ⟨hmem', fun heq => hne ?_⟩
        rw [← (hI.linked p' d' hmem').1, heq, hpcb]
    exact ⟨(hI.linked p' d' hout.1).1, (hI.linked p' d' hout.1).2.drop hlinked hout.2⟩
  · intro r e' he'
    have hout : e' ∈ a.descriptorsPtrs r ∧ e' ≠ e := by
      have hmem' : e' ∈ Function.update a.descriptorsPtrs (a.desResource d)
        ((a.descriptorsPtrs (a.desResource d)).erase ((a.desPtr d).getD 0)) r := he'
      rw [hget, Function.update_apply] at hmem'
      split at hmem'
      · rename_i heq
        rw [heq]
        exact ((hen _).mem_erase_iff.1 hmem').symm
      · rename_i hne
        refine ⟨hmem', fun heq => hne ?_⟩
        rw [← (hI.entry r e' hmem').2.1, heq, hback]
    obtain ⟨hptr', hres', hlinked'⟩ := hI.entry r e' hout.1
    refine ⟨hptr', hres', hlinked'.drop hlinked fun heq => hout.2 ?_⟩
    rw [heq, hptr] at hptr'
    exact (Option.some.inj hptr').symm
  · show (d :: a.freeDescriptors).length = ((a.desPtr d).getD 0 :: a.freeDescriptorPtrs).length
    rw [List.length_cons, List.length_cons, hI.balance]

theorem dropDescriptor_descriptors_nodup (hdn : ∀ p, (a.descriptors p).Nodup) :
    ∀ p', ((a.dropDescriptor p d).descriptors p').Nodup := by
  intro p'
  show (Function.update a.descriptors p ((a.descriptors p).erase d) p').Nodup
  rw [Function.update_apply]
  split
  · exact (hdn p).erase d
  · exact hdn p'

theorem dropDescriptor_descriptorsPtrs_nodup (hen : ∀ r, (a.descriptorsPtrs r).Nodup) :
    ∀ r, ((a.dropDescriptor p d).descriptorsPtrs r).Nodup := by
  intro r
  show (Function.update a.descriptorsPtrs _ _ r).Nodup
  rw [Function.update_apply]
  split
  · exact (hen _).erase _
  · exact hen r

/-- Dropping the first descriptor leaves the others in the list. -/
theorem dropDescriptor_descriptors (hds : a.descriptors p = d :: ds) :
    (a.dropDescriptor p d).descriptors p = ds := by
  simp only [dropDescriptor, Function.update_self, hds, List.erase_cons_head]

/-- Closing all descriptors of a process, one after the other. -/
theorem DescInv.drops (hI : a.DescInv) (hdn : ∀ p, (a.descriptors p).Nodup)
    (hen : ∀ r, (a.descriptorsPtrs r).Nodup) (hds : a.descriptors p = ds) :
    (dropDescriptors p ds a).DescInv ∧ (dropDescriptors p ds a).descriptors p = [] := by
  induction ds generalizing a with
  | nil => exact ⟨hI, hds⟩
  | cons d ds ih =>
      have hd : d ∈ a.descriptors p := by rw [hds]; exact List.mem_cons_self
      exact ih (hI.drop hdn hen hd) (dropDescriptor_descriptors_nodup hdn)
        (dropDescriptor_descriptorsPtrs_nodup hen) (dropDescriptor_descriptors hds)

/-- A new descriptor is linked. -/
theorem linked_attach (hdf : FreeOf maxNumProcesses sizeofDescriptor a.freeDescriptors)
    (hef : FreeOf maxNumProcesses sizeofDescriptorPtr a.freeDescriptorPtrs)
    (hres : res ∈ a.resourcesList) (hd : a.freeDescriptors = d :: ds)
    (he : a.freeDescriptorPtrs = e :: es) : (a.attach r res d e ds es).Linked d := by
  obtain ⟨hdnd, hdb⟩ := hdf
  obtain ⟨hend, heb⟩ := hef
  rw [hd] at hdnd hdb
  rw [he] at hend heb
  refine ⟨⟨hdb d List.mem_cons_self, (List.nodup_cons.1 hdnd).1⟩, ⟨e, ?_, ?_, ?_, ?_⟩, ?_⟩
  · exact Function.update_self ..
  · exact Function.update_self ..
  · exact ⟨heb e List.mem_cons_self, (List.nodup_cons.1 hend).1⟩
  · simp [Model.attach]
  · simpa [Model.attach] using hres

/-- Linking a new descriptor keeps the links of the others. -/
theorem Linked.attach {d' : Addr} (h : a.Linked d') (hd : a.freeDescriptors = d :: ds)
    (he : a.freeDescriptorPtrs = e :: es) :
    d' ≠ d ∧ (a.attach r res d e ds es).Linked d' := by
  have hfree := h.used.2
  rw [hd, List.mem_cons, not_or] at hfree
  obtain ⟨e', hptr', hback', hused', hmem'⟩ := h.ptr
  rw [he, List.mem_cons, not_or] at hused'
  refine ⟨hfree.1, ⟨⟨h.used.1, hfree.2⟩, ⟨e', ?_, ?_, ⟨hused'.1, hused'.2.2⟩, ?_⟩, ?_⟩⟩
  · exact (Function.update_of_ne hfree.1 ..).trans hptr'
  · exact (Function.update_of_ne hused'.2.1 ..).trans hback'
  · simp only [Model.attach, Function.update_apply, hfree.1, if_false]
    split
    · rename_i heq
      rw [← heq]
      exact List.mem_append_left _ hmem'
    · exact hmem'
  · simp only [Model.attach, Function.update_apply, hfree.1, if_false]
    exact h.resource

/-- A new descriptor goes to the list of its process, its pointer to the list of the resource. -/
theorem DescInv.attach (hI : a.DescInv)
    (hdf : FreeOf maxNumProcesses sizeofDescriptor a.freeDescriptors)
    (hef : FreeOf maxNumProcesses sizeofDescriptorPtr a.freeDescriptorPtrs)
    (hres : res ∈ a.resourcesList) (hd : a.freeDescriptors = d :: ds)
    (he : a.freeDescriptorPtrs = e :: es) : (a.attach r res d e ds es).DescInv := by
  have hnew := linked_attach (r := r) hdf hef hres hd he
  have hold : ∀ d', a.Linked d' → d' ≠ d ∧ (a.attach r res d e ds es).Linked d' :=
    fun d' h => h.attach hd he
  constructor
  · intro p' d' hd'
    simp only [Model.attach, Function.update_apply] at hd' ⊢
    by_cases hdd : d' = d
    · subst hdd
      refine ⟨?_, hnew⟩
      rw [if_pos rfl]
      -- in the list of another process `d` would be linked already
      by_contra hpr
      rw [if_neg (Ne.symm hpr)] at hd'
      exact (hold d' (hI.linked p' d' hd').2).1 rfl
    · have hmem : d' ∈ a.descriptors p' := by
        split at hd'
        · rename_i heq
          rw [heq]
          simpa [hdd] using hd'
        · exact hd'
      rw [if_neg hdd]
      exact ⟨(hI.linked p' d' hmem).1, (hold d' (hI.linked p' d' hmem).2).2⟩
  · intro r' e' he'
    by_cases hee : e' = e
    · subst hee
      have hback : (a.attach r res d e' ds es).desptrDescriptor e' = d := Function.update_self ..
      rw [hback]
      refine ⟨Function.update_self .., ?_, hnew⟩
      simp only [Model.attach, Function.update_self]
      -- in the list of another resource `e` would be in use already
      by_contra hne
      have hmem : e' ∈ a.descriptorsPtrs r' := by
        simpa [Model.attach, Function.update_of_ne (Ne.symm hne)] using he'
      obtain ⟨hptr', -, hlinked'⟩ := hI.entry r' e' hmem
      obtain ⟨e₂, hptr₂, -, hused₂, -⟩ := hlinked'.ptr
      rw [hptr'] at hptr₂
      obtain rfl := Option.some.inj hptr₂
      exact hused₂.2 (by rw [he]; exact List.mem_cons_self)
    · have hmem : e' ∈ a.descriptorsPtrs r' := by
        simp only [Model.attach, Function.update_apply] at he'
        split at he'
        · rename_i heq
          rw [heq]
          simpa [hee] using he'
        · exact he'
      obtain ⟨hptr', hres', hlinked'⟩ := hI.entry r' e' hmem
      obtain ⟨hne, hlinked⟩ := hold _ hlinked'
      have hback : (a.attach r res d e ds es).desptrDescriptor e' = a.desptrDescriptor e' :=
        Function.update_of_ne hee ..
      rw [hback]
      refine ⟨?_, ?_, hlinked⟩
      · exact (Function.update_of_ne hne ..).trans hptr'
      · exact (Function.update_of_ne hne ..).trans hres'
  · have hbal := hI.balance
    rw [hd, he, List.length_cons, List.length_cons] at hbal
    exact Nat.succ.inj hbal

/-- The descriptors are kept when descriptor lists shrink and no resource in use goes away. -/
theorem DescInv.mono (hI : a.DescInv) (hdata : a'.toDescriptors = a.toDescriptors)
    (hsub : ∀ p, a'.descriptors p ⊆ a.descriptors p)
    (hptrs : a'.descriptorsPtrs = a.descriptorsPtrs)
    (hfree : a'.freeDescriptors = a.freeDescriptors)
    (hfree' : a'.freeDescriptorPtrs = a.freeDescriptorPtrs)
    (hres : ∀ d, a.Linked d → a.desResource d ∈ a'.resourcesList) : a'.DescInv := by
  have hlinked : ∀ d, a.Linked d → a'.Linked d := by
    intro d h
    constructor
    · rw [hfree]
      exact h.used
    · rw [hdata, hptrs, hfree']
      exact h.ptr
    · rw [hdata]
      exact hres d h
  constructor
  · intro p d hd
    rw [hdata]
    exact ⟨(hI.linked p d (hsub p hd)).1, hlinked d (hI.linked p d (hsub p hd)).2⟩
  · intro r e he
    rw [hptrs] at he
    rw [hdata]
    exact ⟨(hI.entry r e he).1, (hI.entry r e he).2.1, hlinked _ (hI.entry r e he).2.2⟩
  · rw [hfree, hfree']
    exact hI.balance

/-- A transition that leaves descriptors, entries and resources alone keeps their links. -/
theorem DescInv.keep (hI : a.DescInv) (hdata : a'.toDescriptors = a.toDescriptors)
    (hlist : a'.descriptors = a.descriptors) (hptrs : a'.descriptorsPtrs = a.descriptorsPtrs)
    (hfree : a'.freeDescriptors = a.freeDescriptors)
    (hfree' : a'.freeDescriptorPtrs = a.freeDescriptorPtrs)
    (hres : a'.resourcesList = a.resourcesList) : a'.DescInv := by
  refine hI.mono hdata (fun p => ?_) hptrs hfree hfree' fun d hd => ?_
  · rw [hlist]
    exact List.Subset.refl _
  · rw [hres]
    exact hd.resource

/-- Only resources in the list have entries. -/
theorem DescInv.no_entries (hI : a.DescInv) (hres : res ∉ a.resourcesList) :
    a.descriptorsPtrs res = [] := by
  refine List.eq_nil_iff_forall_not_mem.2 fun e he => hres ?_
  obtain ⟨-, hr, hl⟩ := hI.entry res e he
  rw [← hr]
  exact hl.resource

/-- A block outside the list of resources has no entries to lose. -/
theorem DescInv.update_entries (hI : a.DescInv) (hres : res ∉ a.resourcesList) :
    Function.update a.descriptorsPtrs res [] = a.descriptorsPtrs := by
  rw [← hI.no_entries hres, Function.update_eq_self]

theorem DescInv.create {x : Addr} {xs : List Addr} (hI : a.DescInv) :
    (a.create r x e xs es).DescInv := by
  refine hI.mono rfl (fun p => ?_) rfl rfl rfl fun d hd => hd.resource
  show Function.update a.descriptors x [] p ⊆ _
  rw [Function.update_apply]
  split
  · exact List.nil_subset _
  · exact List.Subset.refl _

theorem DescInv.deliver (hI : a.DescInv) (r parent e : Addr) : (a.deliver r parent e).DescInv := by
  rw [deliver_eq]
  exact hI.keep rfl rfl rfl rfl rfl rfl

/-- A process that leaves while its parent waits has no descriptors afterwards. -/
theorem DescInv.handOver (hI : a.DescInv) (r parent e : Addr)
    (hdn : ∀ p, (a.descriptors p).Nodup) (hen : ∀ r, (a.descriptorsPtrs r).Nodup) :
    (a.handOver r parent e).DescInv ∧ (a.handOver r parent e).descriptors r = [] := by
  have hlists : (a.deliver r parent e).descriptors = a.descriptors ∧
      (a.deliver r parent e).descriptorsPtrs = a.descriptorsPtrs := by
    rw [deliver_eq]
    exact ⟨rfl, rfl⟩
  have hdrops := (hI.deliver r parent e).drops (by rwa [hlists.1]) (by rwa [hlists.2])
    (congrFun hlists.1 r)
  exact ⟨hdrops.1.keep rfl rfl rfl rfl rfl rfl, hdrops.2⟩

/-! ## Resources -/

/-- Every block of the two pools of resources is free or in the list, and only once. -/
theorem ResInv.nodup (hI : a.ResInv) : a.resourceBlocks.Nodup := by
  refine hI.partition.nodup_iff.2 (List.nodup_append.2 ⟨?_, ?_, ?_⟩)
  · exact (allBlocks_nodup (by decide)).map fun _ _ h => ResourceRef.standard.inj h
  · exact (allBlocks_nodup (by decide)).map fun _ _ h => ResourceRef.mq.inj h
  · intro r hr r' hr' heq
    obtain ⟨b, -, rfl⟩ := List.mem_map.1 hr
    obtain ⟨b', -, rfl⟩ := List.mem_map.1 hr'
    cases heq

/-- A free resource block is not in the list. -/
theorem ResInv.free_fresh (hI : a.ResInv) (res : ResourceRef)
    (hfree : res ∈ a.freeStandard.map .standard ++ a.freeMqs.map .mq) :
    res ∉ a.resourcesList := fun hmem =>
  (List.nodup_append.1 hI.nodup).2.2 res hmem res hfree rfl

/-- A free block is not the block of a standard resource that exists. -/
theorem ResInv.standard_fresh {b : Addr} {bs : List Addr} (hI : a.ResInv)
    (hb : a.freeStandard = b :: bs) : .standard b ∉ a.resourcesList :=
  hI.free_fresh _ (by simp [hb])

/-- A free block is not the block of a queue that exists. -/
theorem ResInv.mq_fresh {b : Addr} {bs : List Addr} (hI : a.ResInv)
    (hb : a.freeMqs = b :: bs) : .mq b ∉ a.resourcesList :=
  hI.free_fresh _ (by simp [hb])

/-- A standard resource that exists has a block that is not free. -/
theorem ResInv.standard_used {b : Addr} (hI : a.ResInv) (hb : .standard b ∈ a.resourcesList) :
    IsBlock maxNumResources sizeofStandardResource b ∧ b ∉ a.freeStandard := by
  refine ⟨?_, fun hfree => hI.free_fresh (.standard b) ?_ hb⟩
  · have hmem := hI.partition.mem_iff.1 (List.mem_append_left _ hb)
    rw [← mem_allBlocks]
    simpa using hmem
  · simpa using hfree

/-- A queue that exists has a block that is not free. -/
theorem ResInv.mq_used {q : Addr} (hI : a.ResInv) (hq : .mq q ∈ a.resourcesList) :
    IsBlock maxNumResources sizeofMessageQueue q ∧ q ∉ a.freeMqs := by
  refine ⟨?_, fun hfree => hI.free_fresh (.mq q) ?_ hq⟩
  · have hmem := hI.partition.mem_iff.1 (List.mem_append_left _ hq)
    rw [← mem_allBlocks]
    simpa using hmem
  · simpa using hfree

/-- `AddResource` takes a free block that is not in the list. -/
theorem AddResource.fresh (h : AddResource a id type res a') (hI : a.ResInv) :
    res ∉ a.resourcesList := by
  cases h with
  | standard _ hb => exact hI.standard_fresh hb
  | mq _ hb => exact hI.mq_fresh hb

/-- The new resource stands last in the list, with its id and its type. -/
theorem AddResource.resourcesList_eq (h : AddResource a id type res a') :
    a'.resourcesList = a.resourcesList ++ [res] ∧
      a'.resourceId = Function.update a.resourceId res id ∧
      a'.resourceType = Function.update a.resourceType res res.type ∧
      type = res.type := by
  cases h with
  | standard htype _ => exact ⟨rfl, rfl, by rw [htype]; rfl, htype⟩
  | mq htype _ => exact ⟨rfl, rfl, by rw [htype]; rfl, htype⟩

/-- A new resource gets an id that no other one has. -/
theorem AddResource.resInv (h : AddResource a id type res a') (hI : a.ResInv)
    (hid : a.resourceById id = none) : a'.ResInv := by
  have hfresh := h.fresh hI
  obtain ⟨hlist, hids, htypes, -⟩ := h.resourcesList_eq
  constructor
  · refine List.Perm.trans (List.perm_iff_count.2 fun x => ?_) hI.partition
    cases h with
    | standard _ hb =>
        simp only [resourceBlocks, hb, List.count_append, List.map_cons, List.count_cons,
          List.count_nil]
        omega
    | mq _ hb =>
        simp only [resourceBlocks, hb, List.count_append, List.map_cons, List.count_cons,
          List.count_nil]
        omega
  · have hold : ∀ r ∈ a.resourcesList, a'.resourceId r = a.resourceId r := by
      intro r hr
      have hne : r ≠ res := fun heq => hfresh (heq ▸ hr)
      rw [hids, Function.update_of_ne hne]
    rw [hlist, List.map_append, List.map_congr_left hold, List.nodup_append]
    refine ⟨hI.ids, List.nodup_singleton _, ?_⟩
    intro n hn n' hn' heq
    obtain ⟨r, hr, rfl⟩ := List.mem_map.1 hn
    rw [List.map_singleton, List.mem_singleton, hids, Function.update_self] at hn'
    have := List.find?_eq_none.1 hid r hr
    simp [heq, hn'] at this
  · intro r hr
    rw [hlist, List.mem_append, List.mem_singleton] at hr
    rw [htypes]
    by_cases heq : r = res
    · rw [heq, Function.update_self]
    · rw [Function.update_of_ne heq]
      exact hI.type r (hr.resolve_right heq)

theorem AddResource.descInv (h : AddResource a id type res a') (hR : a.ResInv)
    (hI : a.DescInv) : a'.DescInv := by
  have hfresh := h.fresh hR
  have hkeep := hI.update_entries hfresh
  cases h with
  | standard _ _ =>
      exact hI.mono rfl (fun _ => List.Subset.refl _) hkeep rfl rfl fun d hd =>
        List.mem_append_left _ hd.resource
  | mq _ _ =>
      exact hI.mono rfl (fun _ => List.Subset.refl _) hkeep rfl rfl fun d hd =>
        List.mem_append_left _ hd.resource

/-- A new queue holds no messages. -/
theorem AddResource.msgInv (h : AddResource a id type res a') (hR : a.ResInv)
    (hI : a.MsgInv) : a'.MsgInv := by
  have hfresh := h.fresh hR
  cases h with
  | standard _ _ =>
      refine ⟨hI.used, hI.bound, hI.size, fun q hq => hI.dead q fun hmem => hq ?_⟩
      exact List.mem_append_left _ hmem
  | @mq b bs _ _ =>
      have hkeep : Function.update a.msgs b [] = a.msgs := by
        rw [← hI.dead b hfresh, Function.update_eq_self]
      constructor
      · simp only [hkeep]
        exact hI.used
      · simp only [hkeep]
        exact hI.bound
      · simp only [hkeep]
        exact hI.size
      · simp only [hkeep]
        exact fun q hq => hI.dead q fun hmem => hq (List.mem_append_left _ hmem)

/-- `Register` takes at most one entry from the pool of PCB pointers. -/
theorem Register.eq (h : Register a r res mode a') : ∃ ptrPcb readingPid writingPid freePcbPtrs,
    a' = { a with ptrPcb, readingPid, writingPid, freePcbPtrs } ∧
      (∀ e, e ∉ a.freePcbPtrs → ptrPcb e = a.ptrPcb e) ∧ freePcbPtrs ⊆ a.freePcbPtrs := by
  cases h with
  | none _ => exact ⟨_, _, _, _, rfl, fun _ _ => rfl, List.Subset.refl _⟩
  | @reading q e es _ _ _ he =>
      refine ⟨_, _, _, _, rfl, fun u hu => Function.update_of_ne (fun heq => hu ?_) .., ?_⟩
      · rw [heq, he]
        exact List.mem_cons_self
      · rw [he]
        exact List.subset_cons_self ..
  | @writing q e es _ _ _ he =>
      refine ⟨_, _, _, _, rfl, fun u hu => Function.update_of_ne (fun heq => hu ?_) .., ?_⟩
      · rw [heq, he]
        exact List.mem_cons_self
      · rw [he]
        exact List.subset_cons_self ..

/-- The entry that a registration takes from the pool is in no list of children. -/
theorem KidInv.register (hK : a.KidInv) (h : Register a r res mode a') : a'.KidInv := by
  obtain ⟨ptrPcb, _, _, free, rfl, hptr, hsub⟩ := h.eq
  constructor
  · intro q e he
    exact ⟨(hK.used q e he).1, fun hmem => (hK.used q e he).2 (hsub hmem)⟩
  · intro q e he
    show IsBlock maxNumProcesses sizeofPCB (ptrPcb e)
    rw [hptr e (hK.used q e he).2]
    exact hK.pcb q e he

/-- Answering a syscall keeps the invariants. -/
theorem Inv.answer (hI : a.Inv) (r : Addr) (v : Int) : (a.answer r v).Inv :=
  ⟨{ hI.proc with }, { hI.timer with }, { hI.kid with }, { hI.res with },
    hI.desc.keep rfl rfl rfl rfl rfl rfl,
    { hI.msg with }⟩

theorem Inv.register (hI : a.Inv) (h : Register a r res mode a') : a'.Inv := by
  have hK := hI.kid.register h
  obtain ⟨_, _, _, _, rfl, -, -⟩ := h.eq
  exact ⟨{ hI.proc with }, { hI.timer with }, hK, { hI.res with },
    hI.desc.keep rfl rfl rfl rfl rfl rfl,
    { hI.msg with }⟩

theorem AddResource.inv (h : AddResource a id type res a') (hI : a.Inv)
    (hid : a.resourceById id = none) : a'.Inv := by
  have hR := h.resInv hI.res hid
  have hD := h.descInv hI.res hI.desc
  have hM := h.msgInv hI.res hI.msg
  cases h with
  | standard _ _ => exact ⟨{ hI.proc with }, { hI.timer with }, { hI.kid with }, hR, hD, hM⟩
  | mq _ _ => exact ⟨{ hI.proc with }, { hI.timer with }, { hI.kid with }, hR, hD, hM⟩

/-- An open of a resource in the list keeps the invariants. -/
theorem OpenFound.inv (h : OpenFound a r res mode a') (hI : a.Inv)
    (hdf : FreeOf maxNumProcesses sizeofDescriptor a.freeDescriptors)
    (hef : FreeOf maxNumProcesses sizeofDescriptorPtr a.freeDescriptorPtrs)
    (hres : res ∈ a.resourcesList) : a'.Inv := by
  cases h with
  | notExclusive _ _ => exact hI.answer ..
  | taken _ => exact hI.answer ..
  | noDescriptor _ hreg _ => exact (hI.register hreg).answer ..
  | opened _ hreg hd he =>
      have hI₁ := hI.register hreg
      obtain ⟨_, _, _, _, rfl, -, -⟩ := hreg.eq
      exact ⟨{ hI₁.proc with }, { hI₁.timer with }, { hI₁.kid with }, { hI₁.res with },
        hI₁.desc.attach hdf hef hres hd he, { hI₁.msg with }⟩

/-- The search by id finds a resource of the list with that id. -/
theorem mem_of_resourceById (h : a.resourceById id = some res) :
    res ∈ a.resourcesList ∧ a.resourceId res = id := by
  refine ⟨List.mem_of_find?_eq_some h, ?_⟩
  simpa using List.find?_some h

/-- `openResource` keeps the invariants in all its branches. -/
theorem OpenStep.inv (h : OpenStep a r id type mode a') (hI : a.Inv) (hD : a.Distinct) :
    a'.Inv := by
  cases h with
  | alreadyExists _ _ => exact hI.answer ..
  | unavailable _ _ => exact hI.answer ..
  | found _ hid _ hopen =>
      exact hopen.inv hI hD.freeDescriptors hD.freeDescriptorPtrs (mem_of_resourceById hid).1
  | created _ hid hadd hopen =>
      have hI₁ := hadd.inv hI hid
      have hmem := hadd.resourcesList_eq.1
      cases hadd with
      | standard _ _ =>
          exact hopen.inv hI₁ hD.freeDescriptors hD.freeDescriptorPtrs (by simp)
      | mq _ _ =>
          exact hopen.inv hI₁ hD.freeDescriptors hD.freeDescriptorPtrs (by simp)

/-! ## Closing and destroying -/

/-- Dropping a registration changes the two registration fields only. -/
theorem unregister_eq (a : Model) (res : ResourceRef) (mode : Int) :
    ∃ readingPid writingPid, a.unregister res mode = { a with readingPid, writingPid } := by
  unfold unregister
  split
  · exact ⟨_, _, rfl⟩
  · split
    · exact ⟨_, _, rfl⟩
    · split
      · exact ⟨_, _, rfl⟩
      · exact ⟨_, _, rfl⟩

theorem freePcbPtrs_unregister (a : Model) (res : ResourceRef) (mode : Int) :
    (a.unregister res mode).freePcbPtrs = a.freePcbPtrs := by
  obtain ⟨_, _, heq⟩ := unregister_eq a res mode
  rw [heq]

/-- The search by number finds a descriptor of the process with that number. -/
theorem mem_of_descriptorByFd {fd : Int} (h : a.descriptorByFd p fd = some d) :
    d ∈ a.descriptors p ∧ a.desFd d = fd := by
  refine ⟨List.mem_of_find?_eq_some h, ?_⟩
  simpa using List.find?_some h

/-- Giving up a registration touches nothing that the invariants speak about. -/
theorem Inv.unregister (hI : a.Inv) (res : ResourceRef) (mode : Int) :
    (a.unregister res mode).Inv := by
  obtain ⟨_, _, heq⟩ := unregister_eq a res mode
  rw [heq]
  exact ⟨{ hI.proc with }, { hI.timer with }, { hI.kid with }, { hI.res with },
    hI.desc.keep rfl rfl rfl rfl rfl rfl,
    { hI.msg with }⟩

/-- `closeResource` keeps the invariants. -/
theorem CloseStep.inv {fd : Int} (h : CloseStep a r fd mode a') (hI : a.Inv)
    (hD : a.Distinct) : a'.Inv := by
  cases h with
  | notFound _ => exact hI.answer ..
  | @closed d hd =>
      have hmem := (mem_of_descriptorByFd hd).1
      have hI₁ := hI.unregister (a.desResource d) mode
      obtain ⟨_, _, heq⟩ := unregister_eq a (a.desResource d) mode
      have hdrop : ((a.unregister (a.desResource d) mode).dropDescriptor r d).Inv := by
        rw [heq] at hI₁ ⊢
        exact ⟨{ hI₁.proc with }, { hI₁.timer with }, { hI₁.kid with }, { hI₁.res with },
          hI₁.desc.drop hD.descriptors.nodup' hD.descriptorsPtrs.nodup' hmem, { hI₁.msg with }⟩
      exact hdrop.answer r 0

/-- The block of a removed resource is free again. -/
theorem ResInv.remove (hI : a.ResInv) (hres : res ∈ a.resourcesList) :
    (a.removeResource res).ResInv := by
  have hlist : (a.removeResource res).resourcesList = a.resourcesList.erase res ∧
      (a.removeResource res).resourceId = a.resourceId ∧
      (a.removeResource res).resourceType = a.resourceType := by
    cases res <;> exact ⟨rfl, rfl, rfl⟩
  refine ⟨List.Perm.trans (List.perm_iff_count.2 fun x => ?_) hI.partition, ?_, ?_⟩
  · have herase := (List.perm_cons_erase hres).count_eq x
    cases res with
    | standard b =>
        simp only [resourceBlocks, removeResource, List.count_append, List.map_cons,
          List.count_cons] at herase ⊢
        omega
    | mq q =>
        simp only [resourceBlocks, removeResource, List.count_append, List.map_cons,
          List.count_cons] at herase ⊢
        omega
  · rw [hlist.1, hlist.2.1]
    exact hI.ids.sublist (List.Sublist.map _ (List.erase_sublist ..))
  · rw [hlist.1, hlist.2.2]
    exact fun r hr => hI.type r (List.mem_of_mem_erase hr)

/-- A resource without entries can be removed, since no descriptor refers to it. -/
theorem DescInv.remove (hI : a.DescInv) (hres : a.descriptorsPtrs res = []) :
    (a.removeResource res).DescInv := by
  have hmem : ∀ d, a.Linked d → a.desResource d ∈ a.resourcesList.erase res := by
    intro d hd
    have hne : a.desResource d ≠ res := by
      intro heq
      obtain ⟨e, -, -, -, he⟩ := hd.ptr_eq
      rw [heq, hres] at he
      exact absurd he List.not_mem_nil
    exact (List.mem_erase_of_ne hne).2 hd.resource
  cases res with
  | standard b => exact hI.mono rfl (fun _ => List.Subset.refl _) rfl rfl rfl hmem
  | mq q => exact hI.mono rfl (fun _ => List.Subset.refl _) rfl rfl rfl hmem

/-- The messages of a removed queue go back to their pool. -/
theorem MsgInv.remove (hI : a.MsgInv) (res : ResourceRef) (hD : a.Distinct) :
    (a.removeResource res).MsgInv := by
  cases res with
  | standard b =>
      refine ⟨hI.used, hI.bound, hI.size, fun q hq => hI.dead q fun hmem => hq ?_⟩
      exact (List.mem_erase_of_ne (by simp)).2 hmem
  | mq q =>
      -- the blocks that are freed are those of the queue that goes
      have hmem : ∀ q', ∀ m ∈ Function.update a.msgs q [] q', q' ≠ q ∧ m ∈ a.msgs q' := by
        intro q' m hm
        rw [Function.update_apply] at hm
        split at hm
        · exact absurd hm List.not_mem_nil
        · exact ⟨‹_›, hm⟩
      constructor
      · intro q' m hm
        obtain ⟨hne, hm⟩ := hmem q' m hm
        refine ⟨(hI.used q' m hm).1, ?_⟩
        show m ∉ (a.msgs q).reverse ++ a.freeMs
        rw [List.mem_append, List.mem_reverse, not_or]
        exact ⟨fun hm' => hne (hD.msgs.eq hm hm'), (hI.used q' m hm).2⟩
      · intro q' m hm
        exact hI.bound q' m (hmem q' m hm).2
      · intro q'
        show ((Function.update a.msgs q [] q').length : Int) ≤ mForMq
        rw [Function.update_apply]
        split
        · decide
        · exact hI.size q'
      · intro q' hq'
        show Function.update a.msgs q [] q' = []
        rw [Function.update_apply]
        split
        · rfl
        · rename_i hne
          refine hI.dead q' fun hmem => hq' ((List.mem_erase_of_ne ?_).2 hmem)
          simpa using hne

/-- `destroyResource` keeps the invariants. -/
theorem DestroyStep.inv (h : DestroyStep a r id a') (hI : a.Inv) (hD : a.Distinct) :
    a'.Inv := by
  cases h with
  | notFound _ => exact hI.answer ..
  | inUse _ _ => exact hI.answer ..
  | @destroyed res hid hnil =>
      have hR := hI.res.remove (mem_of_resourceById hid).1
      have hd := hI.desc.remove hnil
      have hm := hI.msg.remove res hD
      refine Inv.answer ?_ ..
      cases res with
      | standard b => exact ⟨{ hI.proc with }, { hI.timer with }, { hI.kid with }, hR, hd, hm⟩
      | mq q => exact ⟨{ hI.proc with }, { hI.timer with }, { hI.kid with }, hR, hd, hm⟩

/-! ## Messages -/

/-- A queue found by number is the resource of a descriptor. -/
theorem mem_of_queueByFd {fd : Int} (h : a.queueByFd p fd = some q) :
    ∃ d, a.descriptorByFd p fd = some d ∧ a.desResource d = .mq q := by
  unfold queueByFd at h
  cases hd : a.descriptorByFd p fd with
  | none => simp [hd] at h
  | some d =>
      cases hr : a.desResource d with
      | standard b => simp [hd, hr] at h
      | mq q' =>
          simp only [hd, Option.map_some, hr, Option.some.injEq] at h
          exact ⟨d, rfl, by rw [hr, h]⟩

/-- Queues behind descriptors exist. -/
theorem DescInv.queue_live {fd : Int} (hI : a.DescInv) (h : a.queueByFd p fd = some q) :
    .mq q ∈ a.resourcesList := by
  obtain ⟨d, hd, hr⟩ := mem_of_queueByFd h
  rw [← hr]
  exact (hI.linked p d (mem_of_descriptorByFd hd).1).2.resource

/-- `mq_read` keeps the invariants: the block of a message that is read becomes free. -/
theorem ReadStep.inv {fd buf length : Int} (h : ReadStep a r fd buf length a') (hI : a.Inv)
    (hD : a.Distinct) : a'.Inv := by
  cases h with
  | notFound _ => exact hI.answer ..
  | wrongType _ _ => exact hI.answer ..
  | waiting _ _ _ => exact hI.answer ..
  | empty _ _ _ => exact hI.answer ..
  | tooLong _ _ _ => exact hI.answer ..
  | @read q m ms hq hms _ =>
      have hnd := hD.msgs.nodup' q
      rw [hms, List.nodup_cons] at hnd
      have hmem : ∀ q', ∀ u ∈ Function.update a.msgs q ms q', u ≠ m ∧ u ∈ a.msgs q' := by
        intro q' u hu
        rw [Function.update_apply] at hu
        split at hu
        · rename_i heq
          rw [heq, hms]
          exact ⟨fun heq => hnd.1 (heq ▸ hu), List.mem_cons_of_mem m hu⟩
        · rename_i hne
          exact ⟨fun heq => hne (hD.msgs.eq (heq ▸ hu) (by rw [hms]; exact List.mem_cons_self)),
            hu⟩
      refine ⟨{ hI.proc with }, { hI.timer with }, { hI.kid with }, { hI.res with },
        hI.desc.keep rfl rfl rfl rfl rfl rfl,
        fun q' u hu => ?_, fun q' u hu => hI.msg.bound q' u (hmem q' u hu).2, fun q' => ?_,
        fun q' hq' => ?_⟩
      · obtain ⟨hne, hu⟩ := hmem q' u hu
        refine ⟨(hI.msg.used q' u hu).1, ?_⟩
        show u ∉ m :: a.freeMs
        rw [List.mem_cons, not_or]
        exact ⟨hne, (hI.msg.used q' u hu).2⟩
      · show ((Function.update a.msgs q ms q').length : Int) ≤ mForMq
        rw [Function.update_apply]
        split
        · have := hI.msg.size q
          rw [hms, List.length_cons] at this
          omega
        · exact hI.msg.size q'
      · show Function.update a.msgs q ms q' = []
        have hne : q' ≠ q := by
          rintro rfl
          exact hq' (hI.desc.queue_live hq)
        rw [Function.update_of_ne hne]
        exact hI.msg.dead q' hq'

/-- A free block is in no queue, and filling it changes no message of one. -/
theorem MsgInv.fill (hI : a.MsgInv) (msg length : Int) (hfree : a.freeMs = m :: ms) :
    (a.fillMessage m ms msg length).MsgInv ∧ ∀ q, m ∉ a.msgs q := by
  have hne : ∀ q, ∀ u ∈ a.msgs q, u ≠ m ∧ u ∉ ms := by
    intro q u hu
    have := (hI.used q u hu).2
    rwa [hfree, List.mem_cons, not_or] at this
  refine ⟨⟨fun q u hu => ?_, fun q u hu => ?_, hI.size, hI.dead⟩, fun q hm => (hne q m hm).1 rfl⟩
  · exact ⟨(hI.used q u hu).1, (hne q u hu).2⟩
  · show 0 ≤ Function.update a.msgLength m length u ∧ _
    simp only [fillMessage]
    rw [Function.update_of_ne (hne q u hu).1]
    exact hI.bound q u hu

/-- `mq_write` keeps the invariants, whether the message is linked or its block is lost. -/
theorem WriteStep.inv {clean : Addr → Prop} {fd msg length : Int}
    (h : WriteStep clean a r fd msg length a') (hI : a.Inv) (hD : a.Distinct) : a'.Inv := by
  -- the block that is filled has left the free list, linked or not
  have hfill : ∀ m ms, a.freeMs = m :: ms → (a.fillMessage m ms msg length).Inv := by
    intro m ms hfree
    exact ⟨{ hI.proc with }, { hI.timer with }, { hI.kid with }, { hI.res with },
      hI.desc.keep rfl rfl rfl rfl rfl rfl,
      (hI.msg.fill msg length hfree).1⟩
  cases h with
  | badLength _ => exact hI.answer ..
  | notFound _ _ _ => exact hI.answer ..
  | wrongType _ _ _ _ => exact hI.answer ..
  | full _ _ _ _ =>
      exact ⟨{ hI.proc with }, { hI.timer with }, { hI.kid with }, { hI.res with },
        hI.desc.keep rfl rfl rfl rfl rfl rfl,
        { hI.msg with }⟩
  | refused _ _ _ _ hfree _ => exact (hfill _ _ hfree).answer ..
  | @linked q m ms h0 h1 hq hlen hfree _ =>
      have hI₁ := (hfill m ms hfree).answer r length
      have hout := (hI.msg.fill msg length hfree).2
      have hmem : ∀ q', ∀ u ∈ Function.update a.msgs q (a.msgs q ++ [m]) q',
          u = m ∨ u ∈ a.msgs q' := by
        intro q' u hu
        rw [Function.update_apply] at hu
        split at hu
        · rename_i heq
          rw [heq]
          simpa [or_comm] using hu
        · exact Or.inr hu
      obtain ⟨hnd, hblock⟩ := hD.freeMs
      rw [hfree] at hnd hblock
      refine ⟨{ hI₁.proc with }, { hI₁.timer with }, { hI₁.kid with }, { hI₁.res with },
        hI₁.desc.keep rfl rfl rfl rfl rfl rfl,
        fun q' u hu => ?_, fun q' u hu => ?_, fun q' => ?_, fun q' hq' => ?_⟩
      -- a block of a queue is the new one or an old one
      · rcases hmem q' u hu with rfl | hu
        · exact ⟨hblock u List.mem_cons_self, (List.nodup_cons.1 hnd).1⟩
        · exact hI₁.msg.used q' u hu
      · rcases hmem q' u hu with rfl | hu
        · show 0 ≤ Function.update a.msgLength u length u ∧
            Function.update a.msgLength u length u ≤ messageStringMaxLength
          rw [Function.update_self]
          exact ⟨h0, h1⟩
        · exact hI₁.msg.bound q' u hu
      · show ((Function.update a.msgs q (a.msgs q ++ [m]) q').length : Int) ≤ mForMq
        rw [Function.update_apply]
        split
        -- there was room, so the list is not longer than `M_FOR_MQ`
        · have := hI.msg.size q
          rw [List.length_append, List.length_singleton]
          omega
        · exact hI.msg.size q'
      · show Function.update a.msgs q (a.msgs q ++ [m]) q' = []
        have hne : q' ≠ q := by
          rintro rfl
          exact hq' (hI.desc.queue_live hq)
        rw [Function.update_of_ne hne]
        exact hI.msg.dead q' hq'

/-! ## The arguments of a syscall -/

/-- The stored arguments are the first `n`, in front of what was there. -/
theorem storeArgs_apply (args : Nat → Int) (n : Nat) (stored : Nat → Int) (i : Nat) :
    Kernel.storeArgs args n stored i = if i < n then args i else stored i := by
  induction n with
  | zero => rfl
  | succ n ih =>
      rw [Kernel.storeArgs, Function.update_apply, ih]
      by_cases hi : i = n
      · subst hi
        simp
      · have hiff : i < n + 1 ↔ i < n := by omega
        rw [if_neg hi]
        simp only [hiff]

/-- The interface functions pass as many arguments as the table of the kernel says. -/
theorem syscallNumarg_eq (call : Syscall) :
    Kernel.syscallNumarg call.num = call.args.length := by
  cases call <;> rfl

/-- The arguments that the handler of a syscall finds. -/
theorem enter_args (a : Model) (r : Addr) (call : Syscall) {i : Nat}
    (hi : i < call.args.length) :
    (a.enter r call).syscallArgs r i = call.args.getD i 0 := by
  simp only [enter, Function.update_self, storeArgs_apply, syscallNumarg_eq, hi, if_true]

/-! ## The system -/

theorem ScheduleStep.keep (h : ScheduleStep a a') (hI : a.Inv) : a'.Inv := by
  obtain ⟨hP, hT⟩ := h.inv hI.proc hI.timer
  obtain ⟨_, _, _, _, _, _, rfl⟩ := h.eq
  exact ⟨hP, hT, { hI.kid with }, { hI.res with },
    hI.desc.keep rfl rfl rfl rfl rfl rfl,
    { hI.msg with }⟩

theorem SleepStep.keep (h : SleepStep a r a') (hI : a.Inv) (hr : a.running = some r)
    (hnum : a.syscallNum r = dsosCallSleep) : a'.Inv := by
  obtain ⟨hP, hT⟩ := h.inv hI.proc hI.timer hr hnum
  obtain ⟨_, _, _, _, _, _, _, _, rfl⟩ := h.eq
  exact ⟨hP, hT, { hI.kid with }, { hI.res with },
    hI.desc.keep rfl rfl rfl rfl rfl rfl,
    { hI.msg with }⟩

theorem CreateStep.keep (h : CreateStep a r a') (hI : a.Inv) (hD : a.Distinct) : a'.Inv := by
  obtain ⟨hP, hT, hK⟩ := h.inv hI.proc hI.timer hI.kid hD
  cases h with
  | created _ _ => exact ⟨hP, hT, hK, { hI.res with }, hI.desc.create, { hI.msg with }⟩

theorem WaitStep.keep (h : WaitStep a r a') (hI : a.Inv) (hD : a.Distinct)
    (hr : a.running = some r) (hnum : a.syscallNum r = dsosCallWait) : a'.Inv := by
  obtain ⟨hP, hT, hK⟩ := h.inv hI.proc hI.timer hI.kid hD hr hnum
  obtain ⟨_, _, _, _, _, _, _, _, rfl⟩ := h.eq
  exact ⟨hP, hT, hK, { hI.res with },
    hI.desc.keep rfl rfl rfl rfl rfl rfl,
    { hI.msg with }⟩

/-- `exit` keeps the invariants, also those of the resources that it releases. -/
theorem ExitStep.keep (h : ExitStep a r a') (hI : a.Inv) (hD : a.Distinct)
    (hr : a.running = some r) : a'.Inv := by
  obtain ⟨hP, hT, hK⟩ := h.inv hI.proc hI.timer hI.kid hr
  have hleave : ∀ init parent, (a.leave r init parent).DescInv := fun init parent =>
    hI.desc.keep rfl rfl rfl rfl rfl rfl
  cases h with
  | @wakeParent init parent e _ _ _ _ _ =>
      have hd := (hleave init parent).handOver r parent e
        hD.descriptors.nodup' hD.descriptorsPtrs.nodup'
      obtain ⟨_, _, _, _, heq⟩ := handOver_eq (a.leave r init parent) r parent e
      rw [heq] at hP hT hK hd ⊢
      exact ⟨hP, hT, hK, { hI.res with }, hd.1, { hI.msg with }⟩
  | @retire init parent next rest _ _ _ _ _ =>
      refine ⟨hP, hT, hK, { hI.res with }, ?_, { hI.msg with }⟩
      exact (hleave init parent).keep rfl rfl rfl rfl rfl rfl

/-- Storing the arguments of a syscall in the PCB of the running process keeps the invariants. -/
theorem Inv.enter (hI : a.Inv) (hr : a.running = some r) (c : Syscall) : (a.enter r c).Inv := by
  have hnum : ∀ x ∈ a.procs .waiting, (a.enter r c).syscallNum x = a.syscallNum x := by
    intro x hx
    refine Function.update_of_ne (fun heq => ?_) ..
    exact (hI.proc.running_fresh hr).1 .waiting (heq ▸ hx)
  refine ⟨{ hI.proc with blocked := ?_ }, { hI.timer with sleeping := ?_, timed := ?_ },
    { hI.kid with }, { hI.res with },
    hI.desc.keep rfl rfl rfl rfl rfl rfl,
    { hI.msg with }⟩
  · intro x hx
    rw [hnum x hx]
    exact hI.proc.blocked x hx
  · intro t ht
    obtain ⟨hmem, hsleep⟩ := hI.timer.sleeping t ht
    refine ⟨hmem, ?_⟩
    show (a.enter r c).syscallNum (a.timerPcb t) = _
    rw [hnum _ hmem, hsleep]
  · intro x hx hsleep
    rw [hnum x hx] at hsleep
    exact hI.timer.timed x hx hsleep

theorem Distinct.enter (hD : a.Distinct) (c : Syscall) : (a.enter r c).Distinct := { hD with }

/-- Every handler keeps the invariants. -/
theorem HandlerStep.keep {clean : Addr → Prop} {c : Syscall} (h : HandlerStep clean a r c a')
    (hI : a.Inv) (hD : a.Distinct) (hr : a.running = some r) (hnum : a.syscallNum r = c.num) :
    a'.Inv := by
  cases h with
  | preempt h => exact h.keep hI
  | fork h => exact h.keep hI hD
  | spawn h => exact h.keep hI hD
  | wait h => exact h.keep hI hD hr hnum
  | exit h => exact h.keep hI hD hr
  | sleep h => exact h.keep hI hr hnum
  | openResource h => exact h.inv hI hD
  | closeResource h => exact h.inv hI hD
  | destroyResource h => exact h.inv hI hD
  | shutdown =>
      exact ⟨{ hI.proc with }, { hI.timer with }, { hI.kid with }, { hI.res with },
        hI.desc.keep rfl rfl rfl rfl rfl rfl,
        { hI.msg with }⟩
  | mqRead h => exact h.inv hI hD
  | mqWrite h => exact h.inv hI hD

/-- Every transition of the system keeps the invariants. -/
theorem Step.keep {clean : Addr → Prop} {act : Action} (h : Step clean a act a') (hI : a.Inv)
    (hD : a.Distinct) : a'.Inv := by
  cases h with
  | tick hr hs =>
      refine hs.keep ⟨{ hI.proc with }, { hI.timer with }, { hI.kid with }, { hI.res with },
        ?_, { hI.msg with }⟩
      exact hI.desc.keep rfl rfl rfl rfl rfl rfl
  | @syscall r c _ hr hs =>
      exact hs.keep (hI.enter hr c) (hD.enter c) hr (Function.update_self ..)
  | store hr =>
      exact ⟨{ hI.proc with }, { hI.timer with }, { hI.kid with }, { hI.res with },
        hI.desc.keep rfl rfl rfl rfl rfl rfl,
        { hI.msg with }⟩

end Model

end DisastrOS
