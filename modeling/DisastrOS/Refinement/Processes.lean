import DisastrOS.Refinement.Scheduling

/-!
# Creating, collecting and ending processes refines the abstract transitions

`createProcess`, `internalWait` and `internalExit`, with the loops of `internalExit` over the
children, the timers and the descriptors of the process that exits.
-/

set_option autoImplicit false

namespace DisastrOS

open LinkedSequence LinkedSequence.ListHeap Model

variable {counted : ProcList → Prop} {c c' : Kernel} {a : Model} {r : Addr}

/-! ## Creation -/

/-- `spawn` and `fork` of the running process `r` use a null pointer if a pool is empty, and
complete otherwise. -/
theorem Refines.createProcess (hR : Refines counted c a) (hI : a.Inv) (hr : a.running = some r) :
    ((a.freePcbs = [] ∨ a.freePcbPtrs = []) ∧ c.createProcess = .error .nullPointer) ∨
      ∃ c' a', c.createProcess = .ok c' ∧ CreateStep a r a' ∧ Refines counted c' a' := by
  have hdata := hR.data
  have hrun : c.running = some r := by rw [hdata, hr]
  rcases hR.pcbs.getBlock_cases with ⟨hnil, hblock⟩ | ⟨x, xs, pool, hx, hblock, hpool⟩
  · exact Or.inl ⟨Or.inl hnil, by simp [Kernel.createProcess, Kernel.pcbAlloc, hrun, hblock, deref]⟩
  rcases hR.pcbPtrs.getBlock_cases with ⟨hnil, hblock'⟩ | ⟨e, es, pool', he, hblock', hpool'⟩
  · exact Or.inl ⟨Or.inr hnil, by
      simp [Kernel.createProcess, Kernel.pcbAlloc, Kernel.pcbPtrAlloc, hrun, hblock, hblock',
        deref]⟩
  have hfresh := hI.proc.free_fresh (x := x) (by rw [hx]; exact List.mem_cons_self)
  have hxr : r ≠ x := fun heq => hfresh (heq ▸ Or.inl hr)
  have hentry : Unlisted (fun _ => True) (Function.update a.children x []) e := by
    refine Unlisted.congr (L := a.children) (fun q _ hmem => ?_) fun q _ y hy => ?_
    · exact (hI.kid.used q e hmem).2 (by rw [he]; exact List.mem_cons_self)
    · rw [Function.update_apply] at hy
      split at hy
      · exact absurd hy List.not_mem_nil
      · exact hy
  have hinit : (c.children.initHead x).WellFormed (fun _ => True) (fun _ => True)
      (Function.update a.children x []) :=
    hR.children.initHead x (fun _ _ => Or.inr trivial) fun _ _ => Or.inr trivial
  have hchildren := hinit.clearItem hentry
  have hinsert := listInsert_last hchildren.toFamily (i := r) trivial hentry
    (clearItem_unlinked ..)
  have happend := hchildren.append (i := r) trivial hentry
  rw [Function.update_of_ne hxr] at happend
  have hout : Unlisted (fun _ => True) a.procs x := fun l _ hmem => hfresh (Used.of_mem hmem)
  have hprocs := hR.procs.clearItem hout
  have hinsert' := listInsert_last hprocs.toFamily (i := .ready) trivial hout
    (clearItem_unlinked ..)
  simp only [Kernel.createProcess, Kernel.pcbAlloc, Kernel.pcbPtrAlloc, hblock, hblock', hrun,
    deref_some, ok_bind, pure_eq_ok, hinsert, hinsert', Kernel.setRetvalue]
  obtain ⟨d, sq, fb⟩ := a
  obtain rfl := hdata
  refine Or.inr ⟨_, _, rfl, .created hx he, { hR with
    data := ?_
    procs := hprocs.append trivial hout
    tidy := (hR.tidy.clearItem x).append trivial
    children := ?_
    descriptors := hR.descriptors.initHead x (fun _ _ => Or.inr trivial)
      fun _ _ => Or.inr trivial
    pcbs := hpool
    pcbPtrs := hpool' }⟩
  · simp [Model.create, hrun]
  · simpa [Model.create, hxr] using happend

theorem refine_createProcess (hR : Refines counted c a) (hI : a.Inv)
    (hr : a.running = some r) (h : c.createProcess = .ok c') :
    ∃ a', CreateStep a r a' ∧ Refines counted c' a' := by
  rcases hR.createProcess hI hr with ⟨-, hfault⟩ | ⟨c₁, a', heq, hs⟩
  · rw [hfault] at h
    cases h
  · obtain rfl : c₁ = c' := Except.ok.inj (heq.symm.trans h)
    exact ⟨a', hs⟩

/-! ## Waiting -/

/-- The scan of `wait` stops at the first match, or else at the last entry. -/
theorem waitScan_eq (pidToWait : Int) (previous : Option Addr) {p : Option Addr} {xs : List Addr}
    (hs : c.children.Segment p xs none) {n : Nat} (hn : xs.length < n) :
    c.waitScan pidToWait n previous xs.head? =
      .ok ((xs.find? fun e => (pidToWait = 0 ∧ c.status (c.ptrPcb e) = .zombie) ∨
        (pidToWait ≠ 0 ∧ c.pid (c.ptrPcb e) = pidToWait)).or (xs.getLast?.or previous)) := by
  induction xs generalizing p previous n with
  | nil =>
      obtain ⟨m, rfl⟩ := Nat.exists_eq_add_one_of_ne_zero (Nat.ne_zero_of_lt hn)
      rfl
  | cons x xs ih =>
      obtain ⟨m, rfl⟩ := Nat.exists_eq_add_one_of_ne_zero (Nat.ne_zero_of_lt hn)
      obtain ⟨-, hnext, hrest⟩ := hs
      rw [Option.or_none] at hnext
      rw [List.head?_cons, Kernel.waitScan, hnext, ih _ hrest (by simpa using hn), List.find?_cons,
        List.getLast?_cons]
      by_cases hany : pidToWait = 0 ∧ c.status (c.ptrPcb x) = .zombie
      · simp [hany]
      · by_cases hpid : pidToWait ≠ 0 ∧ c.pid (c.ptrPcb x) = pidToWait
        · simp [hpid]
        · simp only [hany, hpid, if_false, or_self, decide_false]
          cases xs.getLast? <;> rfl

theorem Refines.children_length_le (hR : Refines counted c a) (hK : a.KidInv) (q : Addr) :
    (a.children q).length ≤ maxNumProcesses :=
  length_le_of_blocks (hR.children.toFamily.nodup (i := q) trivial) fun e he => (hK.used q e he).1

theorem Refines.children_short (hR : Refines counted c a) (hK : a.KidInv) (q : Addr) :
    (a.children q).length < loopBound :=
  Nat.lt_of_le_of_lt (hR.children_length_le hK q) (by decide)

/-- A zombie is freed; one that is free already only spoils the counter of the zombie list. -/
theorem Refines.free_zombie {x : Addr} (hR : Refines counted c a) (hP : a.ProcInv)
    (hblock : IsBlock maxNumProcesses sizeofPCB x) (hz : a.status x = .zombie)
    (hcount : counted .zombie → x ∉ a.freePcbs) :
    (c.procs.unlink .zombie x).WellFormed (fun _ => True) counted
        (Function.update a.procs .zombie ((a.procs .zombie).erase x)) ∧
      (c.procs.unlink .zombie x).Tidy (fun _ => True)
        (Function.update a.procs .zombie ((a.procs .zombie).erase x)) ∧
      ∃ result pool, c.pcbAllocator.releaseBlock x = (result, pool) ∧
        Tracks pool maxNumProcesses sizeofPCB
          (if x ∈ a.freePcbs then a.freePcbs else x :: a.freePcbs) := by
  rcases hP.zombie_or_free hblock hz with hmem | hmem
  · have hfree : x ∉ a.freePcbs := fun hf => hP.free_fresh hf (Used.of_mem hmem)
    obtain ⟨pool, hrelease, hpool⟩ := hR.pcbs.releaseBlock_used hblock hfree
    rw [if_neg hfree]
    exact ⟨hR.procs.unlink trivial hmem, hR.tidy.unlink hR.procs.toFamily trivial hmem,
      _, pool, hrelease, hpool⟩
  · have hused := hP.free_fresh hmem
    have hout : Unlisted (fun _ => True) a.procs x := fun l _ hm => hused (Used.of_mem hm)
    have hnull := hR.tidy x hout
    rw [if_pos hmem, List.erase_of_not_mem (hout .zombie trivial), Function.update_eq_self]
    refine ⟨hR.procs.unlink_of_unlinked trivial (fun hc => hcount hc hmem)
      (hout .zombie trivial) hnull, hR.tidy.unlink_of_unlinked hnull,
      _, _, hR.pcbs.releaseBlock_free hmem, hR.pcbs⟩

/-- `wait` of the running process `r` completes, unless it blocks while no process is ready. -/
theorem Refines.internalWait (hR : Refines counted c a) (hI : a.Inv) (hr : a.running = some r)
    (hcount : counted .zombie → ∀ e ∈ a.children r, a.ptrPcb e ∉ a.freePcbs) :
    ((∃ e ∈ a.awaited r (wrapInt (a.syscallArgs r 0)), a.status (a.ptrPcb e) ≠ .zombie) ∧
        a.procs .ready = [] ∧ c.internalWait = .error .nullPointer) ∨
      ∃ c' a', c.internalWait = .ok c' ∧ WaitStep a r a' ∧ Refines counted c' a' := by
  have hdata := hR.data
  have hrun : c.running = some r := by rw [hdata, hr]
  obtain ⟨d, sq, fb⟩ := a
  obtain rfl := hdata
  have hrep := hR.children.represents r trivial
  have hfirst := hrep.first
  cases hkids : sq.children r with
  | nil =>
      rw [hkids] at hfirst
      simp only [Kernel.internalWait, hrun, deref_some, ok_bind, hfirst, List.head?_nil,
        Option.isNone_none, if_true, pure_eq_ok]
      exact Or.inr ⟨_, _, rfl, .noChildren hkids, { hR with data := rfl }⟩
  | cons u us =>
      -- the loop over the children ends at the entry `e` that `wait` looks for
      have hscan := waitScan_eq (wrapInt (c.syscallArgs r 0)) none hrep.chain
        (hR.children_short hI.kid r)
      rw [← hfirst, Option.or_none] at hscan
      obtain ⟨e, he⟩ : ∃ e, Model.awaited ⟨c.toData, sq, fb⟩ r (wrapInt (c.syscallArgs r 0)) =
          some e := by
        simp only [awaited, hkids, List.getLast?_cons, ← Option.isSome_iff_exists]
        simp
      have hsome : (c.children.first r).isNone = false := by
        rw [hfirst, hkids]
        rfl
      have hmem := mem_of_awaited he
      change c.waitScan _ _ _ _ = .ok (Model.awaited ⟨c.toData, sq, fb⟩ r _) at hscan
      rw [he] at hscan
      simp only [Kernel.internalWait, hrun, deref_some, ok_bind, hsome, Bool.false_eq_true,
        if_false, hscan, Option.isNone_some, and_false, Option.filter_some]
      by_cases hz : c.status (c.ptrPcb e) = .zombie
      -- a zombie: its entry and its PCB are freed
      · obtain ⟨hprocs, htidy, result, pool, hrelease, hpool⟩ :=
          hR.free_zombie hI.proc (hI.kid.pcb r e hmem) hz fun hc => hcount hc e hmem
        obtain ⟨pool', hrelease', hpool'⟩ :=
          hR.pcbPtrs.releaseBlock_used (hI.kid.used r e hmem).1 (hI.kid.used r e hmem).2
        simp only [hz, decide_true, if_true, listDetach_eq, ok_bind, Kernel.pcbPtrFree,
          hrelease', Kernel.setRetvalue, Kernel.storeInt_eq, Kernel.pcbFree, hrelease,
          pure_eq_ok]
        refine Or.inr ⟨_, _, rfl, .reap he hz, ?_⟩
        rw [reap_eq]
        exact { hR with
          data := rfl
          procs := hprocs
          tidy := htidy
          children := hR.children.unlink trivial hmem
          pcbs := hpool
          pcbPtrs := hpool' }
      -- otherwise the caller waits and the head of the ready list runs
      · obtain ⟨procs, hwait, hprocs, htidy⟩ := hR.insert_running hI.proc hr .waiting
        have hready := (hprocs.represents .ready trivial).first
        rw [Function.update_of_ne (by decide)] at hready
        simp only [hz, decide_false, Bool.false_eq_true, if_false, hwait, ok_bind, hready]
        cases hlist : sq.procs .ready with
        | nil => exact Or.inl ⟨⟨e, he, hz⟩, rfl, by simp [listDetach, deref]⟩
        | cons next rest =>
            rw [hlist] at hready
            simp only [List.head?_cons, listDetach_eq, ok_bind, pure_eq_ok]
            have hsplit : Function.update sq.procs .waiting (sq.procs .waiting ++ [r])
                .ready = next :: rest := by
              rw [Function.update_of_ne (by decide), hlist]
            have hdetach := hprocs.unlink_head (i := .ready) trivial hsplit
            have htidy' := htidy.unlink_head hprocs.toFamily (i := .ready) trivial hsplit
            exact Or.inr ⟨_, _, rfl, .block he hz hlist, { hR with
              data := rfl
              procs := hdetach
              tidy := htidy' }⟩

theorem refine_internalWait (hR : Refines counted c a) (hI : a.Inv) (hr : a.running = some r)
    (hcount : counted .zombie → ∀ e ∈ a.children r, a.ptrPcb e ∉ a.freePcbs)
    (h : c.internalWait = .ok c') : ∃ a', WaitStep a r a' ∧ Refines counted c' a' := by
  rcases hR.internalWait hI hr hcount with ⟨-, -, hfault⟩ | ⟨c₁, a', heq, hs⟩
  · rw [hfault] at h
    cases h
  · obtain rfl : c₁ = c' := Except.ok.inj (heq.symm.trans h)
    exact ⟨a', hs⟩

/-! ## Termination -/

/-- One round of the loop of `exit` over the children of `r`. -/
theorem reparentChildren_round {L : Addr → List Addr} {e : Addr} {es : List Addr} (init : Addr)
    (hW : c.children.WellFormed (fun _ => True) (fun _ => True) L) (hes : L r = e :: es) :
    ∃ children, (∀ m, Kernel.reparentChildren r init (m + 1) c =
        Kernel.reparentChildren r init m { c with
          children
          signals := Function.update c.signals (c.ptrPcb e)
            (c.signals (c.ptrPcb e) ||| (dsosSighup &&& c.signalsMask (c.ptrPcb e))) }) ∧
      children.WellFormed (fun _ => True) (fun _ => True)
        (Function.update (Function.update L r es) init (Function.update L r es init ++ [e])) := by
  have hfirst := (hW.represents r trivial).first
  have hmem : e ∈ L r := by rw [hes]; exact List.mem_cons_self
  have hout := hW.toFamily.unlisted_erase (i := r) trivial hmem
  have hdetach := hW.unlink_head (i := r) trivial hes
  rw [hes, List.erase_cons_head] at hout
  have hinsert := listInsert_last hdetach.toFamily (i := init) trivial hout (unlink_unlinked ..)
  refine ⟨_, fun m => ?_, hdetach.append (i := init) trivial hout⟩
  simp only [Kernel.reparentChildren, hfirst, hes, List.head?_cons, listDetach_eq, ok_bind, hinsert]

/-- The loop takes one round for each child of `r`. The children move to the list of `init`, each
with a signal. -/
theorem reparentChildren_eq {L : Addr → List Addr} {init : Addr} {es : List Addr}
    (hW : c.children.WellFormed (fun _ => True) (fun _ => True) L) (hne : r ≠ init)
    (hes : L r = es) :
    ∃ children, (∀ n, Kernel.reparentChildren r init n c =
        if n ≤ es.length then .error .endlessLoop
        else .ok { c with children, signals := hangUp c.ptrPcb c.signalsMask es c.signals }) ∧
      children.WellFormed (fun _ => True) (fun _ => True)
        (Function.update (Function.update L init (L init ++ es)) r []) := by
  induction es generalizing c L with
  | nil =>
      have hfirst := (hW.represents r trivial).first
      rw [hes] at hfirst
      refine ⟨c.children, fun n => ?_, ?_⟩
      · cases n with
        | zero => rfl
        | succ n => simp [Kernel.reparentChildren, hfirst, hangUp]
      · rwa [List.append_nil, Function.update_eq_self, ← hes, Function.update_eq_self]
  | cons e es ih =>
      obtain ⟨children₁, hround, hW₁⟩ := reparentChildren_round init hW hes
      obtain ⟨c₁, hc₁⟩ : ∃ c₁ : Kernel, c₁ = { c with
          children := children₁
          signals := Function.update c.signals (c.ptrPcb e)
            (c.signals (c.ptrPcb e) ||| (dsosSighup &&& c.signalsMask (c.ptrPcb e))) } := ⟨_, rfl⟩
      rw [← hc₁] at hround
      have hW₁' : c₁.children.WellFormed (fun _ => True) (fun _ => True)
          (Function.update (Function.update L r es) init (L init ++ [e])) := by
        rw [hc₁]
        rwa [Function.update_of_ne hne.symm] at hW₁
      obtain ⟨children, hrest, hchildren⟩ := ih hW₁' (by simp [hne])
      refine ⟨children, fun n => ?_, ?_⟩
      · cases n with
        | zero => simp [Kernel.reparentChildren]
        | succ n =>
            rw [hround, hrest, hc₁]
            simp only [List.length_cons, Nat.add_le_add_iff_right]
            rfl
      · have hL : ∀ q, Function.update (Function.update L init (L init ++ e :: es)) r [] q =
            Function.update (Function.update (Function.update (Function.update L r es) init
              (L init ++ [e])) init (Function.update (Function.update L r es) init
                (L init ++ [e]) init ++ es)) r [] q := by
          intro q
          by_cases hqr : q = r
          · simp [hqr]
          · by_cases hqi : q = init <;> simp [Function.update_apply, hqr, hqi]
        exact (funext hL : _ = _) ▸ hchildren

/-- If `init` itself exits with children, the loop never ends. -/
theorem reparentChildren_self {L : Addr → List Addr} {n : Nat}
    (hW : c.children.WellFormed (fun _ => True) (fun _ => True) L) (hne : L r ≠ []) :
    Kernel.reparentChildren r r n c = .error .endlessLoop := by
  induction n generalizing c L with
  | zero => rfl
  | succ n ih =>
      obtain ⟨e, es, hes⟩ := List.exists_cons_of_ne_nil hne
      obtain ⟨children, hround, hW'⟩ := reparentChildren_round r hW hes
      rw [hround]
      exact ih hW' (by simp)

/-- There is no timer of `r` to remove. -/
theorem releaseTimers_eq {p : Option Addr} {ts : List Addr} {n : Nat}
    (hs : c.timerList.Segment p ts none) (hr : ∀ t ∈ ts, c.timerPcb t ≠ r) (hn : ts.length < n) :
    Kernel.releaseTimers r n c ts.head? = .ok c := by
  induction ts generalizing p n with
  | nil =>
      obtain ⟨m, rfl⟩ := Nat.exists_eq_add_one_of_ne_zero (Nat.ne_zero_of_lt hn)
      rfl
  | cons t ts ih =>
      obtain ⟨m, rfl⟩ := Nat.exists_eq_add_one_of_ne_zero (Nat.ne_zero_of_lt hn)
      obtain ⟨-, hnext, hrest⟩ := hs
      rw [Option.or_none] at hnext
      have hne := hr t List.mem_cons_self
      simp only [List.head?_cons, Kernel.releaseTimers, hne, if_false, hnext]
      exact ih hrest (fun u hu => hr u (List.mem_cons_of_mem t hu)) (by simpa using hn)

/-- The part of `Refines` about descriptors. -/
structure RefinesDescriptors (c : Kernel) (a : Model) : Prop where
  data : c.toDescriptors = a.toDescriptors
  descriptors : c.descriptors.WellFormed (fun _ => True) (fun _ => True) a.descriptors
  descriptorsPtrs : c.descriptorsPtrs.WellFormed (fun _ => True) (fun _ => True)
    a.descriptorsPtrs
  freeDescriptors : Tracks c.descriptorAllocator maxNumProcesses sizeofDescriptor
    a.freeDescriptors
  freeDescriptorPtrs : Tracks c.descriptorPtrAllocator maxNumProcesses sizeofDescriptorPtr
    a.freeDescriptorPtrs

theorem Refines.onDescriptors (hR : Refines counted c a) : RefinesDescriptors c a :=
  ⟨by rw [hR.data], hR.descriptors, hR.descriptorsPtrs, hR.freeDescriptors,
    hR.freeDescriptorPtrs⟩

/-- Closing the descriptor `d` of the process `p`. -/
theorem RefinesDescriptors.drop {p d : Addr} (hR : RefinesDescriptors c a) (hI : a.DescInv)
    (hd : d ∈ a.descriptors p) :
    ∃ e pool pool', c.desPtr d = some e ∧
      (c.descriptorAllocator.releaseBlock d).2 = pool ∧
      (c.descriptorPtrAllocator.releaseBlock e).2 = pool' ∧
      RefinesDescriptors
        { c with
          descriptors := c.descriptors.unlink p d
          descriptorsPtrs := c.descriptorsPtrs.unlink (c.desResource d) e
          descriptorAllocator := pool
          descriptorPtrAllocator := pool' } (a.dropDescriptor p d) := by
  obtain ⟨-, hlinked⟩ := hI.linked p d hd
  obtain ⟨e, hptr, hget, hback, hmem⟩ := hlinked.ptr_eq
  obtain ⟨e', hptr', -, hused, -⟩ := hlinked.ptr
  obtain rfl : e = e' := Option.some.inj (hptr.symm.trans hptr')
  obtain ⟨pool, hrelease, hpool⟩ :=
    hR.freeDescriptors.releaseBlock_used hlinked.used.1 hlinked.used.2
  obtain ⟨pool', hrelease', hpool'⟩ := hR.freeDescriptorPtrs.releaseBlock_used hused.1 hused.2
  have hres : c.desResource = a.desResource := by rw [hR.data]
  refine ⟨e, pool, pool', by rw [hR.data, hptr], by rw [hrelease], by rw [hrelease'], ?_⟩
  refine ⟨hR.data, hR.descriptors.unlink trivial hd, ?_, hpool, ?_⟩
  · have hunlink := hR.descriptorsPtrs.unlink (i := a.desResource d) trivial hmem
    simpa only [dropDescriptor, hget, hres] using hunlink
  · simpa only [dropDescriptor, hget] using hpool'

/-- The loop of `exit` over the descriptors of `r`. -/
theorem releaseDescriptors_eq {ds : List Addr} {n : Nat} (hR : RefinesDescriptors c a)
    (hI : a.DescInv) (hdn : ∀ p, (a.descriptors p).Nodup)
    (hen : ∀ res, (a.descriptorsPtrs res).Nodup) (hds : a.descriptors r = ds)
    (hn : ds.length < n) :
    ∃ descriptors descriptorsPtrs descriptorAllocator descriptorPtrAllocator,
      Kernel.releaseDescriptors r n c = .ok { c with
        descriptors, descriptorsPtrs, descriptorAllocator, descriptorPtrAllocator } ∧
      RefinesDescriptors { c with
        descriptors, descriptorsPtrs, descriptorAllocator, descriptorPtrAllocator }
        (dropDescriptors r ds a) := by
  have hfirst := (hR.descriptors.represents r trivial).first
  rw [hds] at hfirst
  induction ds generalizing c a n with
  | nil =>
      obtain ⟨m, rfl⟩ := Nat.exists_eq_add_one_of_ne_zero (Nat.ne_zero_of_lt hn)
      refine ⟨_, _, _, _, ?_, hR⟩
      simp [Kernel.releaseDescriptors, hfirst]
  | cons d ds ih =>
      obtain ⟨m, rfl⟩ := Nat.exists_eq_add_one_of_ne_zero (Nat.ne_zero_of_lt hn)
      have hd : d ∈ a.descriptors r := by rw [hds]; exact List.mem_cons_self
      obtain ⟨e, pool, pool', hptr, hrelease, hrelease', hR'⟩ := hR.drop hI hd
      obtain ⟨c₁, hc₁⟩ : ∃ c₁ : Kernel, c₁ = { c with
          descriptors := c.descriptors.unlink r d
          descriptorsPtrs := c.descriptorsPtrs.unlink (c.desResource d) e
          descriptorAllocator := pool
          descriptorPtrAllocator := pool' } := ⟨_, rfl⟩
      have hround : Kernel.releaseDescriptors r (m + 1) c = Kernel.releaseDescriptors r m c₁ := by
        simp only [Kernel.releaseDescriptors, hfirst, List.head?_cons, listDetach_eq, ok_bind,
          hptr, Kernel.descriptorFree, Kernel.descriptorPtrFree, hrelease, hrelease', hc₁]
      rw [← hc₁] at hR'
      have hdn' := dropDescriptor_descriptors_nodup (p := r) (d := d) hdn
      have hen' := dropDescriptor_descriptorsPtrs_nodup (p := r) (d := d) hen
      have hds' := dropDescriptor_descriptors hds
      have hfirst₁ := (hR'.descriptors.represents r trivial).first
      rw [hds'] at hfirst₁
      obtain ⟨descriptors, descriptorsPtrs, descriptorAllocator, descriptorPtrAllocator, hrest,
        hR''⟩ := ih hR' (hI.drop hdn hen hd) hdn' hen' hds' (by simpa using hn) hfirst₁
      refine ⟨descriptors, descriptorsPtrs, descriptorAllocator, descriptorPtrAllocator, ?_, ?_⟩
      · rw [hround, hrest, hc₁]
      · exact ⟨by have := hR''.data; rwa [hc₁] at this, hR''.descriptors, hR''.descriptorsPtrs,
          hR''.freeDescriptors, hR''.freeDescriptorPtrs⟩

theorem Refines.descriptors_short (hR : Refines counted c a) (hI : a.DescInv) (p : Addr) :
    (a.descriptors p).length < loopBound := by
  have hlen := length_le_of_blocks (hR.descriptors.toFamily.nodup (i := p) trivial)
    fun d hd => (hI.linked p d hd).2.used.1
  simp only [maxNumProcesses] at hlen
  simp only [loopBound]
  omega

/-- The branch of `exit` that wakes the parent. It looks up the entry of `r` by its pid, and without
one the kernel follows a null pointer. -/
theorem Refines.wakeParent {parent : Addr} (hR : Refines counted c a) (hK : a.KidInv)
    (hI : a.DescInv) (htimers : ∀ t ∈ a.timerList, a.timerPcb t ≠ r)
    (hshort : a.timerList.length < loopBound) (hr : r ∈ a.procs .zombie)
    (hblock : IsBlock maxNumProcesses sizeofPCB r) (hfree : r ∉ a.freePcbs)
    (hparent : parent ∈ a.procs .waiting) :
    ((a.children parent).find? (fun e => a.pid (a.ptrPcb e) = a.pid r) = none ∧
        c.wakeParent r parent = .error .nullPointer) ∨
      ∃ c' e, (a.children parent).find? (fun e => a.pid (a.ptrPcb e) = a.pid r) = some e ∧
        c.wakeParent r parent = .ok c' ∧ Refines counted c' (a.handOver r parent e) := by
  have hdata := hR.data
  obtain ⟨d, sq, fb⟩ := a
  obtain rfl := hdata
  have hsearch := listSearch_eq (hR.children.represents parent trivial)
    (fun e => c.pid (c.ptrPcb e) = c.pid r) (hR.children_short hK parent)
  simp only [Kernel.wakeParent, listDetach_eq, ok_bind, Kernel.pcbPtrByPID, hsearch]
  cases hfind : (sq.children parent).find? (fun e => c.pid (c.ptrPcb e) = c.pid r) with
  | none => exact Or.inl ⟨rfl, by simp [listDetach, deref]⟩
  | some e =>
      right
      have hmem : e ∈ sq.children parent := List.mem_of_find?_eq_some hfind
      have hwait := hR.procs.unlink (i := .waiting) trivial hparent
      have hzombie : r ∈ Function.update sq.procs .waiting ((sq.procs .waiting).erase parent)
          .zombie := by
        rw [Function.update_of_ne (by decide)]
        exact hr
      have hprocs := hwait.unlink (i := .zombie) trivial hzombie
      have htidy := (hR.tidy.unlink hR.procs.toFamily (i := .waiting) trivial hparent).unlink
        hwait.toFamily (i := .zombie) trivial hzombie
      obtain ⟨pool, hrelease, hpool⟩ := hR.pcbs.releaseBlock_used hblock hfree
      have hnotimers : ∀ c₁ : Kernel, c₁.timerPcb = c.timerPcb → c₁.timerList = c.timerList →
          Kernel.releaseTimers r loopBound c₁ (c.timerList.first ()) = .ok c₁ := by
        intro c₁ hptr hlist
        rw [(hR.timerList.represents () trivial).first]
        refine releaseTimers_eq (p := none) ?_ (fun t ht => ?_) hshort
        · rw [hlist]
          exact (hR.timerList.represents () trivial).chain
        · rw [hptr]
          exact htimers t ht
      obtain ⟨c₀, hc₀⟩ : ∃ c₀ : Kernel, c₀ = { c with
          status := Function.update c.status parent .running
          syscallRetvalue := Function.update c.syscallRetvalue parent (c.pid r)
          ints := if c.syscallArgs parent 1 ≠ 0 then
            Function.update c.ints (c.syscallArgs parent 1) (c.returnValue r) else c.ints
          procs := c.procs.unlink .waiting parent
          children := c.children.unlink parent e } := ⟨_, rfl⟩
      have hRD : RefinesDescriptors c₀ (Model.deliver ⟨c.toData, sq, fb⟩ r parent e) := by
        rw [hc₀, deliver_eq]
        exact ⟨rfl, hR.descriptors, hR.descriptorsPtrs, hR.freeDescriptors,
          hR.freeDescriptorPtrs⟩
      have hlists : (Model.deliver ⟨c.toData, sq, fb⟩ r parent e).descriptors = sq.descriptors ∧
          (Model.deliver ⟨c.toData, sq, fb⟩ r parent e).descriptorsPtrs = sq.descriptorsPtrs := by
        rw [deliver_eq]
        exact ⟨rfl, rfl⟩
      obtain ⟨D, P, A, B, hdrop, hRD⟩ := releaseDescriptors_eq hRD (hI.deliver r parent e)
        (fun p => by rw [hlists.1]; exact hR.descriptors.toFamily.nodup trivial)
        (fun res => by rw [hlists.2]; exact hR.descriptorsPtrs.toFamily.nodup trivial)
        (congrFun hlists.1 r) (hR.descriptors_short hI r)
      obtain ⟨f, g, u, v, hdropped⟩ := dropDescriptors_eq r (sq.descriptors r)
        (Model.deliver ⟨c.toData, sq, fb⟩ r parent e)
      rw [hc₀] at hdrop hRD
      simp only [listDetach_eq, ok_bind, Kernel.setRetvalue, Kernel.storeInt_eq, hnotimers, hdrop,
        Kernel.pcbFree, hrelease, pure_eq_ok]
      refine ⟨_, e, rfl, rfl, ?_⟩
      rw [handOver, hdropped, deliver_eq]
      rw [hdropped] at hRD
      exact { hR with
        data := rfl
        procs := hprocs
        tidy := htidy
        children := hR.children.unlink trivial hmem
        descriptors := hRD.descriptors
        descriptorsPtrs := hRD.descriptorsPtrs
        freeDescriptors := hRD.freeDescriptors
        freeDescriptorPtrs := hRD.freeDescriptorPtrs
        pcbs := hpool }

/-- The branch of `exit` that dispatches the head of the ready list. -/
theorem Refines.dispatchNext (hR : Refines counted c a) :
    (a.procs .ready = [] ∧ c.dispatchNext = .error .nullPointer) ∨
      ∃ c' next rest, c.dispatchNext = .ok c' ∧ a.procs .ready = next :: rest ∧
        Refines counted c' (a.retire next rest) := by
  have hdata := hR.data
  obtain ⟨d, sq, fb⟩ := a
  obtain rfl := hdata
  have hready := (hR.procs.represents .ready trivial).first
  cases hlist : sq.procs .ready with
  -- nothing is ready: the kernel reads through a null pointer
  | nil =>
      rw [hlist] at hready
      exact Or.inl ⟨rfl, by simp [Kernel.dispatchNext, hready, listDetach, deref]⟩
  | cons next rest =>
      rw [hlist] at hready
      simp only [Kernel.dispatchNext, hready, List.head?_cons, listDetach_eq, ok_bind, pure_eq_ok]
      exact Or.inr ⟨_, next, rest, rfl, rfl, { hR with
        data := rfl
        procs := hR.procs.unlink_head (i := .ready) trivial hlist
        tidy := hR.tidy.unlink_head hR.procs.toFamily (i := .ready) trivial hlist }⟩

/-- An `exit` of `init` does not complete: `init` has no parent, and if it has children then the
loop that hands them over to it does not end. -/
theorem internalExit_init (hR : Refines counted c a) (hI : a.Inv) (hr : a.running = some r)
    (hinit : a.initPcb = some r) (hnoparent : a.parent r = none) : c.internalExit ≠ .ok c' := by
  intro h
  have hdata := hR.data
  have hrun : c.running = some r := by rw [hdata, hr]
  have hinit' : c.initPcb = some r := by rw [hdata, hinit]
  have hparent : c.parent = a.parent := by rw [hdata]
  obtain ⟨procs, hinsert, -⟩ := hR.insert_running hI.proc hr .zombie
  simp only [Kernel.internalExit, hrun, deref_some, ok_bind, hinit', assertNonNull] at h
  rw [bind_eq_ok] at h
  obtain ⟨c₁, hloop, h⟩ := h
  cases hkids : a.children r with
  | nil =>
      have hfirst := (hR.children.represents r trivial).first
      rw [hkids] at hfirst
      simp only [Kernel.reparentChildren, loopBound, hfirst, List.head?_nil,
        Except.ok.injEq] at hloop
      subst hloop
      simp [hinsert, hparent, hnoparent, deref] at h
  | cons e es =>
      rw [reparentChildren_self (c := { c with
        returnValue := Function.update c.returnValue r (wrapInt (c.syscallArgs r 0)) })
        hR.children (by rw [hkids]; exact List.cons_ne_nil e es)] at hloop
      cases hloop

/-- `exit` of the running process `r` up to the point where its parent is looked at. -/
theorem Refines.internalExit_eq {init : Addr} (hR : Refines counted c a) (hI : a.Inv)
    (hr : a.running = some r) (hinit : a.initPcb = some init) (hne : r ≠ init) :
    match a.parent r with
    | none => c.internalExit = .error .nullPointer
    | some parent => ∃ c₁, Refines counted c₁ (a.leave r init parent) ∧
        c.internalExit =
          if a.awaits parent (a.pid r) then c₁.wakeParent r parent else c₁.dispatchNext := by
  have hdata := hR.data
  have hrun : c.running = some r := by rw [hdata, hr]
  have hinit' : c.initPcb = some init := by rw [hdata, hinit]
  have hparent : c.parent = a.parent := by rw [hdata]
  obtain ⟨procs, hinsert, hprocs, htidy⟩ := hR.insert_running hI.proc hr .zombie
  obtain ⟨children, hloop, hchildren⟩ := reparentChildren_eq (c := { c with
    returnValue := Function.update c.returnValue r (wrapInt (c.syscallArgs r 0)) })
    hR.children hne rfl
  simp only [Kernel.internalExit, hrun, deref_some, ok_bind, hinit', assertNonNull]
  rw [hloop, if_neg (Nat.not_le.2 (hR.children_short hI.kid r))]
  cases hpar : a.parent r with
  | none => simp [hinsert, hparent, hpar, deref]
  | some parent =>
      simp only [ok_bind, hinsert, hparent, hpar, deref_some]
      obtain ⟨d, sq, fb⟩ := a
      obtain rfl := hdata
      -- `r` itself does not wait, so its new status does not change who awaits it
      have hawaits : ∀ n, PCBs.awaits { c.toPCBs with
            status := Function.update c.status r .zombie } parent n = c.awaits parent n := by
        intro n
        by_cases hpr : parent = r
        · have hrun := hI.proc.running r hr
          have hs : c.status r ≠ .waiting := by
            rcases hrun with hs | hs <;>
              exact fun heq => absurd (heq.symm.trans hs) (by decide)
          simp [PCBs.awaits, hpr, hs]
        · simp [PCBs.awaits, hpr]
      refine ⟨{ c with
          returnValue := Function.update c.returnValue r (wrapInt (c.syscallArgs r 0))
          status := Function.update c.status r .zombie
          signals := (Model.leave ⟨c.toData, sq, fb⟩ r init parent).signals
          procs
          children }, { hR with
        data := rfl
        procs := hprocs
        tidy := htidy
        children := hchildren }, ?_⟩
      simp only [← hawaits (c.pid r)]
      rfl

/-- `exit` of the running process `r`. -/
theorem Refines.internalExit (hR : Refines counted c a) (hI : a.Inv) (hr : a.running = some r) :
    (a.ExitStuck r ∧ ∃ f, c.internalExit = .error f) ∨
      ∃ c' a', c.internalExit = .ok c' ∧ ExitStep a r a' ∧ Refines counted c' a' := by
  obtain ⟨init, hinit, hnoparent, -⟩ := hI.proc.init
  have hfresh := hI.proc.running_fresh hr
  by_cases hri : r = init
  · subst hri
    refine Or.inl ⟨Or.inl hinit, ?_⟩
    cases hexit : c.internalExit with
    | error f => exact ⟨f, rfl⟩
    | ok c' => exact absurd hexit (internalExit_init hR hI hr hinit hnoparent)
  · have hexit := hR.internalExit_eq hI hr hinit hri
    cases hpar : a.parent r with
    | none =>
        rw [hpar] at hexit
        refine Or.inl ⟨Or.inr fun parent hmem => ?_, _, hexit⟩
        rw [hpar] at hmem
        cases hmem
    | some parent =>
        rw [hpar] at hexit
        obtain ⟨c₁, hR₁, heq⟩ := hexit
        by_cases hcond : a.awaits parent (a.pid r)
        · rw [if_pos hcond] at heq
          have hwait := (hI.proc.awaits_waiting hcond).1
          have hpr : parent ≠ r := by
            rintro rfl
            exact hfresh.1 .waiting hwait
          have htimers : ∀ t ∈ a.timerList, a.timerPcb t ≠ r := fun t ht heq =>
            hfresh.1 .waiting (heq ▸ (hI.timer.sleeping t ht).1)
          rcases hR₁.wakeParent (hI.kid.leave parent hri) (hI.desc.keep rfl rfl rfl rfl rfl rfl)
              htimers (hR.timerList_short hI.timer) (by simp [leave])
              (hI.proc.isBlock_iff.2 (Or.inl (Or.inl hr))) hfresh.2 hwait with
            ⟨hnone, hfault⟩ | ⟨c₂, e, hfind, hok, hR'⟩
          · refine Or.inl ⟨Or.inr fun p hp => ?_, _, heq.trans hfault⟩
            obtain rfl : parent = p := Option.some.inj (hpar.symm.trans hp)
            rw [if_pos hcond, ← leave_children_of_ne hinit hpr]
            intro e he
            exact fun heq => List.find?_eq_none.1 hnone e he (decide_eq_true heq)
          · exact Or.inr ⟨c₂, _, heq.trans hok, .wakeParent hinit hri hpar hcond hfind, hR'⟩
        · rw [if_neg hcond] at heq
          rcases hR₁.dispatchNext with ⟨hnil, hfault⟩ | ⟨c₂, next, rest, hnext, hready, hR'⟩
          · refine Or.inl ⟨Or.inr fun p hp => ?_, _, heq.trans hfault⟩
            obtain rfl : parent = p := Option.some.inj (hpar.symm.trans hp)
            rw [if_neg hcond]
            exact hnil
          · exact Or.inr ⟨c₂, _, heq.trans hnext, .retire hinit hri hpar hcond hready, hR'⟩

/-- A completed `exit` of the running process `r`. -/
theorem refine_internalExit (hR : Refines counted c a) (hI : a.Inv) (hr : a.running = some r)
    (h : c.internalExit = .ok c') : ∃ a', ExitStep a r a' ∧ Refines counted c' a' := by
  rcases hR.internalExit hI hr with ⟨-, f, hfault⟩ | ⟨c₂, a', hok, hs, hR'⟩
  · rw [hfault] at h
    cases h
  · obtain rfl : c₂ = c' := Except.ok.inj (hok.symm.trans h)
    exact ⟨a', hs, hR'⟩

end DisastrOS
