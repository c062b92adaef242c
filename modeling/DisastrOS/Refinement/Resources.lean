import DisastrOS.Refinement.Processes

/-!
# Opening, closing and destroying resources refines the abstract transitions

`internalOpenResource`, `internalCloseResource` and `internalDestroyResource`.
-/

set_option autoImplicit false

namespace DisastrOS

open LinkedSequence LinkedSequence.ListHeap Model

variable {counted : ProcList → Prop} {c c' : Kernel} {a : Model} {r : Addr} {res : ResourceRef}
  {mode : Int}

/-! ## Opening -/

/-- Registering the running process for the opening mode: the pool of entries is empty, the place is
taken, or the process is registered. -/
theorem Refines.openMode (hR : Refines counted c a) (hI : a.Inv) (hr : a.running = some r)
    (hres : res ∈ a.resourcesList) (mode : Int) :
    (a.NeedsEntry res mode ∧ a.freePcbPtrs = [] ∧ c.openMode res mode = .error .nullPointer) ∨
      (Taken a res mode ∧ c.openMode res mode = .ok (c, 0)) ∨
      ∃ c₁ a₁, c.openMode res mode = .ok (c₁, 1) ∧ Register a r res mode a₁ ∧
        Refines counted c₁ a₁ := by
  have hdata := hR.data
  have hrun : c.running = some r := by rw [hdata, hr]
  have htype : c.resourceType res = res.type := by
    rw [hdata]
    exact hI.res.type res hres
  cases res with
  | standard b =>
      have hle : ¬ standardResourceType > standardResourceType := by decide
      simp only [Kernel.openMode, htype, type_standard, hle, false_and, if_false]
      exact Or.inr (Or.inr ⟨c, a, rfl, .none (fun q hq => by cases hq), hR⟩)
  | mq q =>
      have hgt : messageQueueType > standardResourceType := by decide
      have hread : dsosRead ≠ dsosCreate := by decide
      have hwrite : dsosWrite ≠ dsosCreate := by decide
      have hrw : dsosWrite ≠ dsosRead := by decide
      simp only [Kernel.openMode, htype, type_mq, hgt, true_and, Kernel.resourceOpen, if_true,
        Kernel.mqSetMode, ne_eq, not_true_eq_false, if_false, hrun, deref_some, ok_bind,
        Kernel.pcbPtrAlloc]
      obtain ⟨d, sq, fb⟩ := a
      obtain rfl := hdata
      by_cases hmr : mode = dsosRead
      · subst hmr
        simp only [hread, not_false_eq_true, if_true]
        cases hreg : c.readingPid q with
        | some e => exact Or.inr (Or.inl ⟨⟨q, rfl, Or.inl ⟨rfl, by simp [hreg]⟩⟩, by simp⟩)
        | none =>
            rcases hR.pcbPtrs.getBlock_cases with
              ⟨hnil, hblock⟩ | ⟨e, es, pool, he, hblock, hpool⟩
            -- with an empty pool the registration goes through a null pointer
            · exact Or.inl ⟨⟨q, rfl, Or.inl ⟨rfl, hreg⟩⟩, hnil, by simp [hblock, deref]⟩
            · simp only [Option.isSome_none, Bool.false_eq_true, if_false, hblock, deref_some,
                ok_bind, pure_eq_ok]
              exact Or.inr (Or.inr ⟨_, _, rfl, .reading rfl rfl hreg he, { hR with
                data := rfl
                children := hR.children.clearItem (hI.kid.free_unlisted he)
                pcbPtrs := hpool }⟩)
      · by_cases hmw : mode = dsosWrite
        · subst hmw
          simp only [hwrite, hrw, not_false_eq_true, if_true, if_false]
          cases hreg : c.writingPid q with
          | some e => exact Or.inr (Or.inl ⟨⟨q, rfl, Or.inr ⟨rfl, by simp [hreg]⟩⟩, by simp⟩)
          | none =>
              rcases hR.pcbPtrs.getBlock_cases with
                ⟨hnil, hblock⟩ | ⟨e, es, pool, he, hblock, hpool⟩
              · exact Or.inl ⟨⟨q, rfl, Or.inr ⟨rfl, hreg⟩⟩, hnil, by simp [hblock, deref]⟩
              · simp only [Option.isSome_none, Bool.false_eq_true, if_false, hblock, deref_some,
                  ok_bind, pure_eq_ok]
                exact Or.inr (Or.inr ⟨_, _, rfl, .writing rfl rfl hreg he, { hR with
                  data := rfl
                  children := hR.children.clearItem (hI.kid.free_unlisted he)
                  pcbPtrs := hpool }⟩)
        · simp only [hmr, hmw, if_false, ite_self]
          exact Or.inr (Or.inr ⟨_, _, rfl, .none (fun _ _ => ⟨hmr, hmw⟩), hR⟩)

/-- The new descriptor of the running process, if the pool has one. -/
theorem Refines.openDescriptor (hR : Refines counted c a) (hI : a.DescInv) (r : Addr)
    (res : ResourceRef) :
    ∃ c', c.openDescriptor r res = .ok c' ∧
      ((a.freeDescriptors = [] ∧ Refines counted c' (a.answer r dsosEResourceNoFd)) ∨
        ∃ d ds e es, a.freeDescriptors = d :: ds ∧ a.freeDescriptorPtrs = e :: es ∧
          Refines counted c' (a.attach r res d e ds es)) := by
  have hdata := hR.data
  obtain ⟨dt, sq, fb⟩ := a
  obtain rfl := hdata
  rcases hR.freeDescriptors.getBlock_cases with ⟨hnil, hblock⟩ | ⟨d, ds, pool, hd, hblock, hpool⟩
  · simp only [Kernel.openDescriptor, Kernel.descriptorAlloc, hblock]
    exact ⟨_, rfl, Or.inl ⟨hnil, { hR with data := rfl }⟩⟩
  · have hbalance := hI.balance
    rcases hR.freeDescriptorPtrs.getBlock_cases with
      ⟨hnil, -⟩ | ⟨e, es, pool', he, hblock', hpool'⟩
    -- both pools run empty together
    · rw [hd, hnil] at hbalance
      cases hbalance
    · have hout : Unlisted (fun _ => True) sq.descriptors d := fun p _ hmem =>
        (hI.linked p d hmem).2.used.2 (by rw [hd]; exact List.mem_cons_self)
      have hclear := hR.descriptors.clearItem hout
      have hinsert := listInsert_last hclear.toFamily (i := r) trivial hout
        (clearItem_unlinked ..)
      have hout' : Unlisted (fun _ => True) sq.descriptorsPtrs e := by
        intro res' _ hmem
        obtain ⟨hptr, -, hlinked⟩ := hI.entry res' e hmem
        obtain ⟨e', hptr', -, hused, -⟩ := hlinked.ptr
        obtain rfl : e = e' := Option.some.inj (hptr.symm.trans hptr')
        exact hused.2 (by rw [he]; exact List.mem_cons_self)
      have hclear' := hR.descriptorsPtrs.clearItem hout'
      have hinsert' := listInsert_last hclear'.toFamily (i := res) trivial hout'
        (clearItem_unlinked ..)
      simp only [Kernel.openDescriptor, Kernel.descriptorAlloc, hblock, Kernel.descriptorPtrAlloc,
        hblock', hinsert, ok_bind, hinsert', Kernel.setRetvalue, Function.update_self, pure_eq_ok]
      refine ⟨_, rfl, Or.inr ⟨d, ds, e, es, hd, he, ?_⟩⟩
      exact { hR with
        data := rfl
        descriptors := hclear.append trivial hout
        descriptorsPtrs := hclear'.append trivial hout'
        freeDescriptors := hpool
        freeDescriptorPtrs := hpool' }

/-- `internalOpenResource` from the point where the resource is known. -/
theorem Refines.openFound (hR : Refines counted c a) (hI : a.Inv) (hr : a.running = some r)
    (hres : res ∈ a.resourcesList) (mode : Int) :
    (a.NeedsEntry res mode ∧ a.freePcbPtrs = [] ∧
        c.openFound r (some res) (c.resourceType res) mode = .error .nullPointer) ∨
      ∃ c' a', c.openFound r (some res) (c.resourceType res) mode = .ok c' ∧
        OpenFound a r res mode a' ∧ Refines counted c' a' := by
  have hdata := hR.data
  have hsize := hR.descriptorsPtrs.count res trivial
  have hnil : c.descriptorsPtrs.size res = 0 ↔ a.descriptorsPtrs res = [] := by
    rw [hsize, Int.natCast_eq_zero, List.length_eq_zero_iff]
  simp only [Kernel.openFound, Option.filter_some, decide_true, if_true]
  by_cases hexcl : mode = dsosExcl ∧ c.descriptorsPtrs.size res ≠ 0
  · rw [if_pos hexcl]
    exact Or.inr ⟨_, _, rfl, .notExclusive hexcl.1 fun heq => hexcl.2 (hnil.2 heq),
      hR.setRetvalue ..⟩
  · rw [if_neg hexcl]
    have hfree : mode = dsosExcl → a.descriptorsPtrs res = [] := fun hm => by
      by_contra hne
      exact hexcl ⟨hm, fun heq => hne (hnil.1 heq)⟩
    -- the registration comes first, the descriptor only if it was not refused
    rcases hR.openMode hI hr hres mode with
      ⟨hneeds, hempty, hreg⟩ | ⟨htaken, hreg⟩ | ⟨c₁, a₁, hreg, hstep, hR₁⟩
    · exact Or.inl ⟨hneeds, hempty, by rw [hreg, error_bind]⟩
    · rw [hreg]
      exact Or.inr ⟨_, _, rfl, .taken htaken, hR.setRetvalue ..⟩
    · have hone : ¬ (1 : Int) = 0 := by decide
      obtain ⟨c', hopen, hcases⟩ := hR₁.openDescriptor (hI.register hstep).desc r res
      simp only [hreg, ok_bind, hone, if_false, hopen]
      rcases hcases with ⟨hempty, hR₂⟩ | ⟨d, ds, e, es, hd, he, hR₂⟩
      · exact Or.inr ⟨_, _, rfl, .noDescriptor hfree hstep hempty, hR₂⟩
      · exact Or.inr ⟨_, _, rfl, .opened hfree hstep hd he, hR₂⟩

theorem Refines.resourceListById_eq (hR : Refines counted c a) (hI : a.ResInv) (id : Int) :
    c.resourceListById id = .ok (a.resourceById id) := by
  have hlen : a.resourcesList.length < loopBound := by
    have hlength := hI.partition.length_eq
    simp only [resourceBlocks, List.length_append, List.length_map, allBlocks_length,
      maxNumResources] at hlength
    simp only [loopBound]
    omega
  have hid : c.resourceId = a.resourceId := by rw [hR.data]
  rw [Kernel.resourceListById, hid]
  exact listSearch_eq (hR.resourcesList.represents () trivial) _ hlen

/-- A fresh resource is appended to the list of resources. -/
theorem Refines.insert_resource {h : ListHeap ResourceRef Unit} (hfresh : res ∉ a.resourcesList)
    (hW : h.WellFormed (fun _ => True) (fun _ => True) fun _ => a.resourcesList) :
    ∃ h', listInsert (h.clearItem res) () ((h.clearItem res).last ()) (some res) =
        .ok (h', some res) ∧
      h'.WellFormed (fun _ => True) (fun _ => True) fun _ => a.resourcesList ++ [res] := by
  have hclear := hW.clearItem (unlisted_single hfresh)
  have happend := hclear.append (i := ()) trivial (unlisted_single hfresh)
  rw [update_single] at happend
  exact ⟨_, listInsert_last hclear.toFamily trivial (unlisted_single hfresh)
    (clearItem_unlinked ..), happend⟩

/-- Creating a resource and linking it into the list. -/
theorem Refines.resourceAlloc (hR : Refines counted c a) (hI : a.Inv) (id type : Int) :
    (¬ a.CanAdd type ∧ ∀ c₁ res, c.resourceAlloc id type ≠ .ok (c₁, some res)) ∨
      ∃ c₁ res resourcesList a₁, c.resourceAlloc id type = .ok (c₁, some res) ∧
        listInsert c₁.resourcesList () (c₁.resourcesList.last ()) (some res) =
          .ok (resourcesList, some res) ∧
        AddResource a id type res a₁ ∧ Refines counted { c₁ with resourcesList } a₁ ∧
        c₁.resourceType res = type := by
  have hdata := hR.data
  obtain ⟨d, sq, fb⟩ := a
  obtain rfl := hdata
  by_cases hstd : type = standardResourceType
  · subst hstd
    have hsmall : ¬ wrapInt (standardResourceType + 1) > maxTypeResources := by decide
    simp only [Kernel.resourceAlloc, hsmall, Kernel.allocFunc, if_true, if_false, Kernel.srAlloc,
      ok_bind]
    rcases hR.standard.getBlock_cases with ⟨hnil, hblock⟩ | ⟨b, bs, pool, hb, hblock, hpool⟩
    · refine Or.inl ⟨fun hcan => ?_, by simp [hblock]⟩
      rcases hcan with ⟨-, hne⟩ | ⟨heq, -⟩
      · exact hne hnil
      · exact absurd heq (by decide)
    · obtain ⟨h', hins, hW⟩ := Refines.insert_resource (hI.res.standard_fresh hb)
        hR.resourcesList
      simp only [hblock, Option.map_some, pure_eq_ok]
      refine Or.inr ⟨_, _, h', _, rfl, hins, .standard rfl hb, ?_, Function.update_self ..⟩
      exact { hR with
        data := rfl
        resourcesList := hW
        descriptorsPtrs := hR.descriptorsPtrs.initHead (.standard b)
          (fun _ _ => Or.inr trivial) fun _ _ => Or.inr trivial
        msgs := by simpa using hR.msgs
        standard := hpool }
  · by_cases hmq : type = messageQueueType
    · subst hmq
      have hsmall : ¬ wrapInt (messageQueueType + 1) > maxTypeResources := by decide
      simp only [Kernel.resourceAlloc, hsmall, Kernel.allocFunc, hstd, if_false, if_true,
        Kernel.mqAlloc, ok_bind]
      rcases hR.mqs.getBlock_cases with ⟨hnil, hblock⟩ | ⟨b, bs, pool, hb, hblock, hpool⟩
      · refine Or.inl ⟨fun hcan => ?_, by simp [hblock]⟩
        rcases hcan with ⟨heq, -⟩ | ⟨-, hne⟩
        · exact hstd heq
        · exact hne hnil
      · obtain ⟨h', hins, hW⟩ := Refines.insert_resource (hI.res.mq_fresh hb)
          hR.resourcesList
        simp only [hblock, pure_eq_ok]
        refine Or.inr ⟨_, _, h', _, rfl, hins, .mq rfl hb, ?_, Function.update_self ..⟩
        have hlive : ∀ q, ResourceRef.mq q ∈ sq.resourcesList ++ [.mq b] → q = b ∨
            ResourceRef.mq q ∈ sq.resourcesList := by
          intro q hq
          simpa [or_comm] using hq
        exact { hR with
          data := rfl
          resourcesList := hW
          descriptorsPtrs := hR.descriptorsPtrs.initHead (.mq b)
            (fun _ _ => Or.inr trivial) fun _ _ => Or.inr trivial
          msgs := hR.msgs.initHead b hlive hlive
          mqs := hpool }
    -- another type gives a null pointer, or an access outside the table
    · refine Or.inl ⟨fun hcan => ?_, fun c₁ res heq => ?_⟩
      · rcases hcan with ⟨heq, -⟩ | ⟨heq, -⟩
        · exact hstd heq
        · exact hmq heq
      · unfold Kernel.resourceAlloc at heq
        split at heq
        · cases heq
        · simp [Kernel.allocFunc, hstd, hmq] at heq

/-- `openResource` of the running process `r` faults or completes. -/
theorem Refines.internalOpenResource (hR : Refines counted c a) (hI : a.Inv)
    (hr : a.running = some r) :
    (a.OpenStuck (wrapInt (a.syscallArgs r 0)) (wrapInt (a.syscallArgs r 1))
        (wrapInt (a.syscallArgs r 2)) ∧ ∃ f, c.internalOpenResource = .error f) ∨
      ∃ c' a', c.internalOpenResource = .ok c' ∧
        OpenStep a r (wrapInt (a.syscallArgs r 0)) (wrapInt (a.syscallArgs r 1))
          (wrapInt (a.syscallArgs r 2)) a' ∧ Refines counted c' a' := by
  have hdata := hR.data
  have hrun : c.running = some r := by rw [hdata, hr]
  have hargs : c.syscallArgs = a.syscallArgs := by rw [hdata]
  have htypes : c.resourceType = a.resourceType := by rw [hdata]
  simp only [Kernel.internalOpenResource, hrun, deref_some, ok_bind, hargs,
    hR.resourceListById_eq hI.res]
  cases hid : a.resourceById (wrapInt (a.syscallArgs r 0)) with
  | some res =>
      have hmem := (mem_of_resourceById hid).1
      simp only [Option.isSome_some, if_true, pure_eq_ok]
      by_cases hmode : wrapInt (a.syscallArgs r 2) = dsosCreate
      · rw [if_pos hmode]
        exact Or.inr ⟨_, _, rfl, .alreadyExists hmode (by simp [hid]), hR.setRetvalue ..⟩
      · rw [if_neg hmode]
        by_cases htype : a.resourceType res = wrapInt (a.syscallArgs r 1)
        · rw [← htype, ← htypes]
          rcases hR.openFound hI hr hmem (wrapInt (a.syscallArgs r 2)) with
            ⟨hneeds, hempty, hfault⟩ | ⟨c', a', heq, hopen, hR'⟩
          · exact Or.inl ⟨Or.inr ⟨hmode, hempty, res, hid, by rw [htypes], hneeds⟩, _, hfault⟩
          · exact Or.inr ⟨c', a', heq, .found hmode hid (by rw [htypes]) hopen, hR'⟩
        · simp only [Kernel.openFound, Option.filter_some, htypes, htype, decide_false,
            Bool.false_eq_true, if_false]
          exact Or.inr ⟨_, _, rfl, .unavailable hmode (by simpa [hid] using htype),
            hR.setRetvalue ..⟩
  | none =>
      simp only [Option.isSome_none, Bool.false_eq_true, if_false]
      by_cases hmode : wrapInt (a.syscallArgs r 2) = dsosCreate
      -- a new resource, which is then opened like one that was found
      · rw [if_pos hmode]
        rcases hR.resourceAlloc hI (wrapInt (a.syscallArgs r 0))
            (wrapInt (a.syscallArgs r 1)) with
          ⟨hcan, hnone⟩ | ⟨c₁, res, resourcesList, a₁, halloc, hinsert, hadd, hR₁, htype⟩
        · refine Or.inl ⟨Or.inl ⟨hmode, hid, hcan⟩, ?_⟩
          cases halloc : c.resourceAlloc (wrapInt (a.syscallArgs r 0))
              (wrapInt (a.syscallArgs r 1)) with
          | error f => exact ⟨f, rfl⟩
          | ok res =>
              obtain ⟨c₁, new⟩ := res
              cases new with
              | some res => exact absurd halloc (hnone c₁ res)
              | none => exact ⟨.nullPointer, rfl⟩
        · have hI₁ := hadd.inv hI hid
          have hr₁ : a₁.running = some r := by cases hadd <;> exact hr
          have hmem : res ∈ a₁.resourcesList := by
            rw [hadd.resourcesList_eq.1]
            exact List.mem_append_right _ (List.mem_singleton_self res)
          simp only [halloc, ok_bind, hinsert]
          rw [← htype]
          rcases hR₁.openFound hI₁ hr₁ hmem (wrapInt (a.syscallArgs r 2)) with
            ⟨⟨q, -, hneeds⟩, -, -⟩ | ⟨c', a', heq, hopen, hR'⟩
          · rw [hmode] at hneeds
            rcases hneeds with ⟨hread, -⟩ | ⟨hwrite, -⟩
            · exact absurd hread (by decide)
            · exact absurd hwrite (by decide)
          · exact Or.inr ⟨c', a', heq, .created hmode hid (htype ▸ hadd) hopen, hR'⟩
      · rw [if_neg hmode]
        simp only [Kernel.openFound, Option.filter_none]
        exact Or.inr ⟨_, _, rfl, .unavailable hmode (by simp [hid]), hR.setRetvalue ..⟩

theorem refine_internalOpenResource (hR : Refines counted c a) (hI : a.Inv)
    (hr : a.running = some r) (h : c.internalOpenResource = .ok c') :
    ∃ a', OpenStep a r (wrapInt (a.syscallArgs r 0)) (wrapInt (a.syscallArgs r 1))
      (wrapInt (a.syscallArgs r 2)) a' ∧ Refines counted c' a' := by
  rcases hR.internalOpenResource hI hr with ⟨-, f, hfault⟩ | ⟨c₁, a', heq, hs⟩
  · rw [hfault] at h
    cases h
  · obtain rfl : c₁ = c' := Except.ok.inj (heq.symm.trans h)
    exact ⟨a', hs⟩

/-! ## Closing -/

theorem Refines.descriptorListByFd_eq (hR : Refines counted c a) (hI : a.DescInv) (p : Addr)
    (fd : Int) : c.descriptorListByFd p fd = .ok (a.descriptorByFd p fd) := by
  have hfd : c.desFd = a.desFd := by rw [hR.data]
  rw [Kernel.descriptorListByFd, hfd]
  exact listSearch_eq (hR.descriptors.represents p trivial) _ (hR.descriptors_short hI p)

/-- Dropping the registration for a mode. -/
theorem closeMode_eq (mode : Int) (hdata : c.toResources = a.toResources) (hI : a.ResInv)
    (hres : res ∈ a.resourcesList) : ∃ readingPid writingPid,
      c.closeMode res mode = .ok ({ c with readingPid, writingPid }, 1) ∧
        a.unregister res mode = { a with readingPid, writingPid } := by
  have htype : c.resourceType res = res.type := by
    rw [hdata]
    exact hI.type res hres
  have hreading : c.readingPid = a.readingPid := by rw [hdata]
  have hwriting : c.writingPid = a.writingPid := by rw [hdata]
  cases res with
  | standard b =>
      have hle : ¬ standardResourceType > standardResourceType := by decide
      refine ⟨c.readingPid, c.writingPid, ?_, ?_⟩
      · simp only [Kernel.closeMode, htype, type_standard, hle, if_false]
      · rw [hreading, hwriting]
        rfl
  | mq q =>
      have hgt : messageQueueType > standardResourceType := by decide
      simp only [Kernel.closeMode, htype, type_mq, hgt, if_true, Kernel.resourceRelease,
        Kernel.mqDeleteMode, ne_eq, not_true_eq_false, if_false, unregister, ← hreading,
        ← hwriting]
      split
      · exact ⟨_, _, rfl, by rw [hwriting]⟩
      · split
        · exact ⟨_, _, rfl, by rw [hreading]⟩
        · exact ⟨_, _, rfl, by rw [hreading, hwriting]⟩

/-- `closeResource` of the running process `r` completes. -/
theorem Refines.internalCloseResource (hR : Refines counted c a) (hI : a.Inv)
    (hr : a.running = some r) :
    ∃ c' a', c.internalCloseResource = .ok c' ∧
      CloseStep a r (wrapInt (a.syscallArgs r 0)) (wrapInt (a.syscallArgs r 1)) a' ∧
      Refines counted c' a' := by
  have hdata := hR.data
  have hrun : c.running = some r := by rw [hdata, hr]
  have hargs : c.syscallArgs = a.syscallArgs := by rw [hdata]
  have hfind := hR.descriptorListByFd_eq hI.desc r (wrapInt (a.syscallArgs r 0))
  simp only [Kernel.internalCloseResource, hrun, deref_some, ok_bind, hargs, hfind]
  cases hd : a.descriptorByFd r (wrapInt (a.syscallArgs r 0)) with
  | none => exact ⟨_, _, rfl, .notFound hd, hR.setRetvalue ..⟩
  | some d =>
      have hmem := (mem_of_descriptorByFd hd).1
      have hlinked := (hI.desc.linked r d hmem).2
      obtain ⟨rp, wp, hclose, hunreg⟩ := closeMode_eq (wrapInt (a.syscallArgs r 1))
        (c := { c with descriptors := c.descriptors.unlink r d }) (a := a) (by rw [hdata])
        hI.res hlinked.resource
      obtain ⟨e, pool, pool', hptr, hrelease, hrelease', hRD⟩ := hR.onDescriptors.drop hI.desc hmem
      have hres : c.desResource d = a.desResource d := by rw [hdata]
      -- `Resource_release` answers 1 for every mode, so the close always goes on
      have hone : ¬ (1 : Int) = 0 := by decide
      simp only [listDetach_eq, ok_bind, hres, hclose, hone, if_false, hptr,
        Kernel.descriptorFree, Kernel.descriptorPtrFree, hrelease, hrelease', pure_eq_ok]
      refine ⟨_, _, rfl, .closed hd, ?_⟩
      rw [hunreg]
      obtain ⟨dt, sq, fb⟩ := a
      obtain rfl := hdata
      exact { hR with
        data := rfl
        descriptors := hRD.descriptors
        descriptorsPtrs := hRD.descriptorsPtrs
        freeDescriptors := hRD.freeDescriptors
        freeDescriptorPtrs := hRD.freeDescriptorPtrs }

theorem refine_internalCloseResource (hR : Refines counted c a) (hI : a.Inv)
    (hr : a.running = some r) (h : c.internalCloseResource = .ok c') :
    ∃ a', CloseStep a r (wrapInt (a.syscallArgs r 0)) (wrapInt (a.syscallArgs r 1)) a' ∧
      Refines counted c' a' := by
  obtain ⟨c₁, a', heq, hs⟩ := hR.internalCloseResource hI hr
  obtain rfl : c₁ = c' := Except.ok.inj (heq.symm.trans h)
  exact ⟨a', hs⟩

/-! ## Destroying -/

theorem Refines.msgs_short (hR : Refines counted c a) (hM : a.MsgInv) (q : Addr) :
    (a.msgs q).length < loopBound := by
  have hlen := length_le_of_blocks ((hR.distinct hM).msgs.nodup' q)
    fun m hm => (hM.used q m hm).1
  simp only [maxNumResources] at hlen
  simp only [loopBound]
  omega

/-- The loop of `mq_free` releases all messages of a list. -/
theorem mqFreeMessages_eq {p : Option Addr} {ms free : List Addr} {n : Nat}
    (hs : c.msgs.Segment p ms none) (hnd : ms.Nodup)
    (hT : Tracks c.mAllocator maxNumResources sizeofMessage free)
    (hused : ∀ m ∈ ms, IsBlock maxNumResources sizeofMessage m ∧ m ∉ free)
    (hn : ms.length < n) :
    ∃ pool, Kernel.mqFreeMessages n c ms.head? = .ok { c with mAllocator := pool } ∧
      Tracks pool maxNumResources sizeofMessage (ms.reverse ++ free) := by
  induction ms generalizing c p free n with
  | nil =>
      obtain ⟨m, rfl⟩ := Nat.exists_eq_add_one_of_ne_zero (Nat.ne_zero_of_lt hn)
      exact ⟨c.mAllocator, rfl, hT⟩
  | cons m ms ih =>
      obtain ⟨k, rfl⟩ : ∃ k, n = k + 1 := ⟨n - 1, by simp at hn; omega⟩
      obtain ⟨hm, hnd⟩ := List.nodup_cons.1 hnd
      obtain ⟨-, hnext, hrest⟩ := hs
      rw [Option.or_none] at hnext
      obtain ⟨hblock, hfree⟩ := hused m List.mem_cons_self
      obtain ⟨pool, hrelease, hpool⟩ := hT.releaseBlock_used hblock hfree
      -- the messages that follow are still in use after the release of `m`
      have hused' : ∀ u ∈ ms, IsBlock maxNumResources sizeofMessage u ∧ u ∉ m :: free := by
        intro u hu
        obtain ⟨hb, hf⟩ := hused u (List.mem_cons_of_mem m hu)
        refine ⟨hb, ?_⟩
        rw [List.mem_cons, not_or]
        exact ⟨fun heq => hm (heq ▸ hu), hf⟩
      obtain ⟨pool', hloop, hpool'⟩ := ih (c := { c with mAllocator := pool }) hrest hnd hpool
        hused' (by simpa using hn)
      refine ⟨pool', ?_, by simpa using hpool'⟩
      simp only [List.head?_cons, Kernel.mqFreeMessages, Kernel.mFree, hrelease, if_true, hnext]
      exact hloop

/-- A resource without entries is taken out of the list and freed; its block is not refused. -/
theorem Refines.resourceFree (hR : Refines counted c a) (hI : a.Inv) (hres : res ∈ a.resourcesList)
    (hnil : a.descriptorsPtrs res = []) :
    ∃ c', { c with resourcesList := c.resourcesList.unlink () res }.resourceFree res = .ok (c', 0) ∧
      Refines counted c' (a.removeResource res) := by
  have hdata := hR.data
  have htype : c.resourceType res = res.type := by
    rw [hdata]
    exact hI.res.type res hres
  have hrep := hR.descriptorsPtrs.represents res trivial
  rw [hnil] at hrep
  have hfirst : c.descriptorsPtrs.first res = none := hrep.first
  have hlast : c.descriptorsPtrs.last res = none := hrep.last
  have hlist := hR.resourcesList.unlink (i := ()) trivial hres
  rw [update_single] at hlist
  -- the queues that stay keep their messages
  have hmsgs := hR.msgs.restrict (fun q => .mq q ∈ a.resourcesList.erase res)
    (fun q => .mq q ∈ a.resourcesList.erase res) (fun _ hq => List.mem_of_mem_erase hq)
    (fun _ hq => List.mem_of_mem_erase hq) (fun _ _ => rfl)
  simp only [Kernel.resourceFree, htype, hfirst, hlast, Option.isSome_none, Bool.false_eq_true,
    or_self, if_false, Kernel.deallocFunc]
  cases res with
  | standard b =>
      have hsmall : ¬ wrapInt (standardResourceType + 1) > maxTypeResources := by decide
      obtain ⟨hblock, hfree⟩ := hI.res.standard_used hres
      obtain ⟨pool, hrelease, hpool⟩ := hR.standard.releaseBlock_used hblock hfree
      simp only [type_standard, hsmall, if_false, if_true, Kernel.srFree, hrelease]
      refine ⟨_, rfl, ?_⟩
      obtain ⟨dt, sq, fb⟩ := a
      obtain rfl := hdata
      exact { hR with
        data := rfl
        resourcesList := hlist
        msgs := hmsgs
        standard := hpool }
  | mq q =>
      have hsmall : ¬ wrapInt (messageQueueType + 1) > maxTypeResources := by decide
      have hne : ¬ messageQueueType = standardResourceType := by decide
      obtain ⟨hblock, hfree⟩ := hI.res.mq_used hres
      obtain ⟨pool, hrelease, hpool⟩ := hR.mqs.releaseBlock_used hblock hfree
      -- the messages that are left go back to their pool before the queue does
      have hqueue := hR.msgs.represents q hres
      obtain ⟨pool', hloop, hpool'⟩ := mqFreeMessages_eq
        (c := { c with resourcesList := c.resourcesList.unlink () (.mq q) })
        hqueue.chain hqueue.nodup hR.ms (hI.msg.used q) (hR.msgs_short hI.msg q)
      rw [← hqueue.first] at hloop
      simp only [type_mq, hsmall, hne, if_false, if_true, Kernel.mqFree, hloop, hrelease,
        ok_bind, pure_eq_ok]
      refine ⟨_, rfl, ?_⟩
      obtain ⟨dt, sq, fb⟩ := a
      obtain rfl := hdata
      have hout : ResourceRef.mq q ∉ sq.resourcesList.erase (.mq q) :=
        (hR.resourcesList.toFamily.nodup (i := ()) trivial).not_mem_erase
      have hkeep : ∀ q', ResourceRef.mq q' ∈ sq.resourcesList.erase (.mq q) →
          Function.update sq.msgs q [] q' = sq.msgs q' := by
        intro q' hq'
        have hne : q' ≠ q := fun heq => hout (heq ▸ hq')
        exact Function.update_of_ne hne ..
      have hmsgs' := hmsgs.restrict _ _ (fun _ hq => hq) (fun _ hq => hq)
        fun q' hq' => hkeep q' (hq'.elim id id)
      exact { hR with
        data := rfl
        resourcesList := hlist
        msgs := hmsgs'
        mqs := hpool
        ms := hpool' }

/-- `destroyResource` of the running process `r` completes. -/
theorem Refines.internalDestroyResource (hR : Refines counted c a) (hI : a.Inv)
    (hr : a.running = some r) :
    ∃ c' a', c.internalDestroyResource = .ok c' ∧
      DestroyStep a r (wrapInt (a.syscallArgs r 0)) a' ∧ Refines counted c' a' := by
  have hdata := hR.data
  have hrun : c.running = some r := by rw [hdata, hr]
  have hargs : c.syscallArgs = a.syscallArgs := by rw [hdata]
  simp only [Kernel.internalDestroyResource, hrun, deref_some, ok_bind, hargs,
    hR.resourceListById_eq hI.res]
  cases hid : a.resourceById (wrapInt (a.syscallArgs r 0)) with
  | none => exact ⟨_, _, rfl, .notFound hid, hR.setRetvalue ..⟩
  | some res =>
      have hmem := (mem_of_resourceById hid).1
      have hsize := hR.descriptorsPtrs.count res trivial
      cases hentries : a.descriptorsPtrs res with
      | cons e es =>
          rw [hentries] at hsize
          have hne : c.descriptorsPtrs.size res ≠ 0 := by
            rw [hsize, List.length_cons]
            omega
          simp only [hne, ne_eq, not_false_eq_true, if_true, pure_eq_ok]
          exact ⟨_, _, rfl, .inUse hid (by simp [hentries]), hR.setRetvalue ..⟩
      | nil =>
          rw [hentries] at hsize
          have hzero : c.descriptorsPtrs.size res = 0 := hsize
          obtain ⟨c₁, hfree, hR₁⟩ := hR.resourceFree hI hmem hentries
          simp only [hzero, ne_eq, not_true_eq_false, if_false, listDetach_eq, ok_bind, hfree,
            pure_eq_ok]
          exact ⟨_, _, rfl, .destroyed hid hentries, hR₁.setRetvalue r 0⟩

theorem refine_internalDestroyResource (hR : Refines counted c a) (hI : a.Inv)
    (hr : a.running = some r) (h : c.internalDestroyResource = .ok c') :
    ∃ a', DestroyStep a r (wrapInt (a.syscallArgs r 0)) a' ∧ Refines counted c' a' := by
  obtain ⟨c₁, a', heq, hs⟩ := hR.internalDestroyResource hI hr
  obtain rfl : c₁ = c' := Except.ok.inj (heq.symm.trans h)
  exact ⟨a', hs⟩

end DisastrOS
