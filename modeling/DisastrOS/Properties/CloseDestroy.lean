import DisastrOS.Properties.Descriptors
import DisastrOS.Properties.OpenFailures

/-!
# Closing and destroying

A call that names a descriptor of the caller, or a resource that is not in use, takes away exactly
that and gives the blocks back to their pools. Every other call answers with an error code and does
nothing else.
-/

set_option autoImplicit false

namespace DisastrOS

open Runs LinkedSequence LinkedSequence.ListHeap Model

variable {counted : ProcList → Prop} {es : List (Event Kernel Action)} {s s' t : Kernel}
  {a a' : Model} {r d : Addr} {fd mode id : Int32} {res : ResourceRef}

/-- The call `c` of `r` has changed nothing but the fields of the call, and answers `v`. -/
def Answers (s : Kernel) (r : Addr) (c : Syscall) (v : Int) : Prop :=
  s.call c = .ok ((s.enter r c).setRetvalue r v, some v)

/-- The process `r` has lost its descriptor `d`, and the resource the entry `e` for it; the two
blocks are free. -/
structure Closes (s : Kernel) (r d e : Addr) (s' : Kernel) : Prop where
  running : s'.running = some r
  descriptors : s'.descriptorsOf = Function.update s.descriptorsOf r ((s.descriptorsOf r).erase d)
  once : (s.descriptorsOf r).count d = 1
  entries : s'.descriptorsPtrsOf = Function.update s.descriptorsPtrsOf (s.desResource d)
    ((s.descriptorsPtrsOf (s.desResource d)).erase e)
  entryOnce : (s.descriptorsPtrsOf (s.desResource d)).count e = 1
  free : s'.freeLists = { s.freeLists with
    freeDescriptors := d :: s.freeLists.freeDescriptors
    freeDescriptorPtrs := e :: s.freeLists.freeDescriptorPtrs }
  resources : s'.resources = s.resources
  /-- Only the registrations of the queue behind `d` may change. -/
  registrations : ∀ q, s.desResource d ≠ .mq q →
    s'.readingPid q = s.readingPid q ∧ s'.writingPid q = s.writingPid q

/-- `closeResource(fd, mode)` of the process `r` is exact, in a state that the events `es` lead to.
-/
structure CloseExact (es : List (Event Kernel Action)) (s : Kernel) (r : Addr) (fd mode : Int32) :
    Prop where
  unknown : (∀ d ∈ s.descriptorsOf r, s.desFd d ≠ fd.toInt) →
    Answers s r (.closeResource fd mode) dsosEResourceClose
  known : ∀ d ∈ s.descriptorsOf r, s.desFd d = fd.toInt → ∃ s' e,
    s.call (.closeResource fd mode) = .ok (s', some 0) ∧ s.desPtr d = some e ∧ Closes s r d e s'
  /-- From then on `r` cannot close `fd` again, until its PCB is handed out to another process. -/
  later : ∀ d ∈ s.descriptorsOf r, s.desFd d = fd.toInt → ∀ s' fs t,
    SystemRun (es ++ ⟨s, .syscall (.closeResource fd mode), s'⟩ :: fs) t →
    FewOpens (es ++ ⟨s, .syscall (.closeResource fd mode), s'⟩ :: fs) →
    (∀ f ∈ fs, ¬ CreatedIn f r) → t.running = some r →
    ∀ mode', Answers t r (.closeResource fd mode') dsosEResourceClose

/-- All blocks are released, one after the other. -/
def PoolAllocator.releaseAll (p : PoolAllocator) (xs : List Addr) : PoolAllocator :=
  xs.foldl (fun p x => (p.releaseBlock x).2) p

/-- The free lists after the block of a resource has been released, for a message queue after the
blocks of its messages. -/
def Kernel.freedWith (s : Kernel) : ResourceRef → FreeBlocks
  | .standard b => { s.freeLists with freeStandard := b :: s.freeLists.freeStandard }
  | .mq q => { s.freeLists with
      freeMqs := q :: s.freeLists.freeMqs
      freeMs := (s.messagesOf q).reverse ++ s.freeLists.freeMs }

/-- The releases of the blocks of a resource all answer `Success`. -/
def Kernel.ReleasesSucceed (s : Kernel) : ResourceRef → Prop
  | .standard b => (s.standardResourcesAllocator.releaseBlock b).1 = .success
  | .mq q => (s.mqAllocator.releaseBlock q).1 = .success ∧
      ∀ ms m ns, s.messagesOf q = ms ++ m :: ns →
        ((s.mAllocator.releaseAll ms).releaseBlock m).1 = .success

/-- The resource `res` is gone and its blocks are free; all other resources are as before. -/
structure Destroys (s : Kernel) (r : Addr) (res : ResourceRef) (s' : Kernel) : Prop where
  running : s'.running = some r
  resources : s'.resources = s.resources.erase res
  once : s.resources.count res = 1
  free : s'.freeLists = s.freedWith res
  released : s.ReleasesSucceed res
  contents : s'.toResources = s.toResources
  entries : s'.descriptorsPtrsOf = s.descriptorsPtrsOf
  descriptors : s'.descriptorsOf = s.descriptorsOf
  messages : ∀ q, .mq q ∈ s.resources → .mq q ≠ res → s'.messagesOf q = s.messagesOf q

/-- `destroyResource(id)` of the process `r` is exact. -/
structure DestroyExact (s : Kernel) (r : Addr) (id : Int32) : Prop where
  unknown : s.resourceById id.toInt = none →
    Answers s r (.destroyResource id) dsosEResourceClose
  inUse : ∀ res ∈ s.resourceById id.toInt, s.descriptorsPtrsOf res ≠ [] →
    Answers s r (.destroyResource id) dsosEResourceInUse
  destroyed : ∀ res ∈ s.resourceById id.toInt, s.descriptorsPtrsOf res = [] → ∃ s',
    s.call (.destroyResource id) = .ok (s', some 0) ∧ Destroys s r res s'

/-! ## Releasing a list of blocks -/

theorem Tracks.releaseAll {p : PoolAllocator} {n : Nat} {size : Int} {free xs : List Addr}
    (h : Tracks p n size free) (hnd : xs.Nodup) (hused : ∀ x ∈ xs, IsBlock n size x ∧ x ∉ free) :
    Tracks (p.releaseAll xs) n size (xs.reverse ++ free) := by
  induction xs generalizing p free with
  | nil => exact h
  | cons x xs ih =>
      obtain ⟨hx, hnd⟩ := List.nodup_cons.1 hnd
      obtain ⟨hblock, hfree⟩ := hused x List.mem_cons_self
      obtain ⟨p', hrelease, hp'⟩ := h.releaseBlock_used hblock hfree
      have hrest : ∀ y ∈ xs, IsBlock n size y ∧ y ∉ x :: free := by
        intro y hy
        obtain ⟨hb, hf⟩ := hused y (List.mem_cons_of_mem x hy)
        exact ⟨hb, List.not_mem_cons_of_ne_of_not_mem (fun heq => hx (heq ▸ hy)) hf⟩
      have hall := ih hp' hnd hrest
      rw [PoolAllocator.releaseAll, List.foldl_cons, hrelease, List.reverse_cons, List.append_assoc]
      exact hall

/-- Of different blocks in use, every release succeeds. -/
theorem Tracks.release_each {p : PoolAllocator} {n : Nat} {size : Int} {free ms ns : List Addr}
    {m : Addr} (h : Tracks p n size free) (hnd : (ms ++ m :: ns).Nodup)
    (hused : ∀ x ∈ ms ++ m :: ns, IsBlock n size x ∧ x ∉ free) :
    ((p.releaseAll ms).releaseBlock m).1 = .success := by
  obtain ⟨hms, -, hapart⟩ := List.nodup_append.1 hnd
  have hall := h.releaseAll hms fun x hx => hused x (List.mem_append_left _ hx)
  obtain ⟨hblock, hfree⟩ := hused m (List.mem_append_right _ List.mem_cons_self)
  have hout : m ∉ ms.reverse ++ free := by
    rw [List.mem_append, List.mem_reverse, not_or]
    exact ⟨fun hmem => hapart m hmem m List.mem_cons_self rfl, hfree⟩
  obtain ⟨p', hrelease, -⟩ := hall.releaseBlock_used hblock hout
  rw [hrelease]

/-! ## Closing -/

theorem Model.descriptorByFd_none {fd : Int} :
    a.descriptorByFd r fd = none ↔ ∀ d ∈ a.descriptors r, a.desFd d ≠ fd := by
  simp [descriptorByFd]

/-- With distinct numbers a descriptor is found by its own. -/
theorem Model.descriptorByFd_self {fd : Int} (hnd : ((a.descriptors r).map a.desFd).Nodup)
    (hd : d ∈ a.descriptors r) (hfd : a.desFd d = fd) : a.descriptorByFd r fd = some d := by
  cases hfound : a.descriptorByFd r fd with
  | none => exact absurd hfd (descriptorByFd_none.1 hfound d hd)
  | some d' =>
      obtain ⟨hmem, hfd'⟩ := mem_of_descriptorByFd hfound
      exact congrArg some (List.inj_on_of_nodup_map hnd hmem hd (hfd'.trans hfd.symm))

/-- A close that finds a descriptor. -/
theorem Model.HandlerStep.close_found {clean : Addr → Prop}
    (h : HandlerStep clean (a.enter r (.closeResource fd mode)) r (.closeResource fd mode) a')
    (hd : a.descriptorByFd r fd.toInt = some d) :
    a' = ((((a.enter r (.closeResource fd mode)).unregister (a.desResource d)
      mode.toInt).dropDescriptor r d).answer r 0) := by
  cases h with
  | closeResource hs =>
      cases hs with
      | notFound hnone =>
          have hnone' : a.descriptorByFd r fd.toInt = none := hnone
          rw [hd] at hnone'
          cases hnone'
      | @closed d' hd' =>
          obtain rfl : d = d' := Option.some.inj (hd.symm.trans hd')
          rfl

theorem Model.HandlerStep.close_descriptors {clean : Addr → Prop}
    (h : HandlerStep clean (a.enter r (.closeResource fd mode)) r (.closeResource fd mode) a')
    (hd : a.descriptorByFd r fd.toInt = some d) :
    a'.descriptors = Function.update a.descriptors r ((a.descriptors r).erase d) := by
  obtain rfl := h.close_found hd
  obtain ⟨_, _, hunreg⟩ := unregister_eq (a.enter r (.closeResource fd mode))
    (a.desResource d) mode.toInt
  rw [hunreg]
  rfl

/-- A dropped registration is one with the queue. -/
theorem Model.unregister_other (a : Model) {res : ResourceRef} (mode : Int) {q : Addr}
    (hne : res ≠ .mq q) : (a.unregister res mode).readingPid q = a.readingPid q ∧
      (a.unregister res mode).writingPid q = a.writingPid q := by
  cases res with
  | standard b => exact ⟨rfl, rfl⟩
  | mq q' =>
      have hq : q ≠ q' := fun heq => hne (by rw [heq])
      unfold unregister
      dsimp only
      split
      · exact ⟨Function.update_of_ne hq .., rfl⟩
      · split
        · exact ⟨rfl, Function.update_of_ne hq ..⟩
        · exact ⟨rfl, rfl⟩

theorem Refines.closes (hR : Refines exceptZombies s a) (hI : a.Inv) (hr : a.running = some r)
    (hd : a.descriptorByFd r fd.toInt = some d) : ∃ s' e,
      s.call (.closeResource fd mode) = .ok (s', some 0) ∧ s.desPtr d = some e ∧
        Closes s r d e s' := by
  obtain ⟨s', a', hcalled⟩ := hR.call_closeResource hI hr fd mode
  have hdescriptors := hcalled.step.close_descriptors hd
  obtain rfl := hcalled.step.close_found hd
  have hmem := (mem_of_descriptorByFd hd).1
  obtain ⟨e, hptr, -, -, hentry⟩ := (hI.desc.linked r d hmem).2.ptr
  have hD := hR.distinct hI.msg
  obtain ⟨reading, writing, hunreg⟩ := unregister_eq (a.enter r (.closeResource fd mode))
    (a.desResource d) mode.toInt
  obtain ⟨hcall, hrun⟩ := hcalled.returns rfl hr
  rw [answer_retvalue] at hcall
  have hR' := hcalled.post
  have hI' := hcalled.inv
  refine ⟨s', e, hcall, by rw [hR.data]; exact hptr, hrun, ?_, ?_, ?_, ?_, ?_, ?_, ?_⟩
  · rw [funext (hR'.descriptorsOf_eq hI'.desc), funext (hR.descriptorsOf_eq hI.desc), hdescriptors]
  · rw [hR.descriptorsOf_eq hI.desc]
    exact List.count_eq_one_of_mem (hD.descriptors.nodup' r) hmem
  · rw [funext (hR'.descriptorsPtrsOf_eq hI'.desc), funext (hR.descriptorsPtrsOf_eq hI.desc),
      hunreg, hR.data]
    have hgetD : (a.desPtr d).getD 0 = e := by rw [hptr, Option.getD_some]
    rw [← hgetD]
    rfl
  · rw [hR.descriptorsPtrsOf_eq hI.desc, hR.data]
    exact List.count_eq_one_of_mem (hD.descriptorsPtrs.nodup' _) hentry
  · rw [hR'.freeLists_eq, hR.freeLists_eq, hunreg]
    have hgetD : (a.desPtr d).getD 0 = e := by rw [hptr, Option.getD_some]
    rw [← hgetD]
    rfl
  · rw [hR'.resources_eq hI'.res, hR.resources_eq hI.res, hunreg]
    rfl
  · intro q hq
    rw [hR.data] at hq ⊢
    rw [hR'.data]
    exact unregister_other (a.enter r (.closeResource fd mode)) mode.toInt hq

/-! ## A closed fd stays closed -/

/-- The process `r` has no descriptor with the number `n`, and will not get one. -/
def Model.FdGone (a : Model) (r : Addr) (n : Int) : Prop :=
  n < a.lastFd r ∧ ∀ d ∈ a.descriptors r, a.desFd d ≠ n

theorem Simulated.fdGone {e : Event Kernel Action} {n : Int} {m : Addr → Nat}
    (h : Simulated exceptZombies e a a') (hG : a.FdGone r n) (hF' : a'.FdInv m)
    (hcreated : ¬ CreatedIn e r) : a'.FdGone r n := by
  obtain ⟨hlast, hgone⟩ := hG
  cases h.step.descriptors h.inv h.inv' h.distinct with
  | same _ _ hsame =>
      rw [FdGone, hsame.lastFd, hsame.descriptors, hsame.data]
      exact ⟨hlast, hgone⟩
  | created x hact hx =>
      have hne : r ≠ x := by
        rintro rfl
        exact hcreated (h.createdIn_iff.2 ⟨hact, hx.fresh, (hx.used r).2 (Or.inr rfl)⟩)
      rw [FdGone, hx.lastFd, hx.descriptors, hx.data, Function.update_of_ne hne,
        Function.update_of_ne hne]
      exact ⟨hlast, hgone⟩
  | opened p _ _ _ res d u _ _ hA =>
      have hold : ∀ d' ∈ a.descriptors r, a'.desFd d' = a.desFd d' := by
        intro d' hd'
        rw [hA.fd, Function.update_of_ne]
        rintro rfl
        exact (h.inv.desc.linked r d' hd').2.used.2 hA.fresh
      by_cases hp : r = p
      · subst hp
        have hnew : a'.desFd d = a.lastFd r := by rw [hA.fd, Function.update_self]
        have hmem : d ∈ a'.descriptors r := by
          rw [hA.descriptors, Function.update_self]
          exact List.mem_append_right _ (List.mem_singleton_self d)
        -- the new number is the counter, which is above `n`
        have habove := (hF'.bound r d hmem).2
        rw [hnew] at habove
        refine ⟨by omega, fun d' hd' => ?_⟩
        rw [hA.descriptors, Function.update_self] at hd'
        rcases List.mem_append.1 hd' with hd' | hd'
        · rw [hold d' hd']
          exact hgone d' hd'
        · rw [List.mem_singleton.1 hd', hnew]
          omega
      · refine ⟨?_, fun d' hd' => ?_⟩
        · rwa [hA.lastFd, Function.update_of_ne hp]
        · rw [hA.descriptors, Function.update_of_ne hp] at hd'
          rw [hold d' hd']
          exact hgone d' hd'
  | closed p _ _ d _ _ _ hc =>
      refine ⟨by rwa [hc.lastFd], fun d' hd' => ?_⟩
      rw [hc.data]
      by_cases hp : r = p
      · subst hp
        rw [hc.descriptors, Function.update_self] at hd'
        exact hgone d' (List.mem_of_mem_erase hd')
      · rw [hc.descriptors, Function.update_of_ne hp] at hd'
        exact hgone d' hd'
  | left p _ _ _ _ hc =>
      refine ⟨by rwa [hc.lastFd], fun d' hd' => ?_⟩
      rw [hc.data]
      by_cases hp : r = p
      · rw [hp, hc.descriptors, Function.update_self] at hd'
        cases hd'
      · rw [hc.descriptors, Function.update_of_ne hp] at hd'
        exact hgone d' hd'

/-- The process `r` does not get the number `n` back in a run in which it stays the same process. -/
theorem Refines.fd_stays_gone {fs : List (Event Kernel Action)} {n : Int}
    (hR : Refines exceptZombies s a) (hI : a.Inv) (hF : a.FdInv (opened es)) (hG : a.FdGone r n)
    (hrun : Run Kernel.Completes s fs t) (hn : FewOpens (es ++ fs))
    (hfs : ∀ f ∈ fs, ¬ CreatedIn f r) :
    ∃ b, Refines exceptZombies t b ∧ b.Inv ∧ b.FdGone r n := by
  have hstep : ∀ gs f b b', b.FdInv (opened (es ++ gs)) ∧ b.FdGone r n →
      Simulated exceptZombies f b b' →
      (∀ p, opened (es ++ gs ++ [f]) p < 2 ^ 31) ∧ ¬ CreatedIn f r →
      b'.FdInv (opened (es ++ (gs ++ [f]))) ∧ b'.FdGone r n := by
    rintro gs f b b' ⟨hF, hG⟩ hsim ⟨hbound, hcreated⟩
    have hF' := hsim.fdInv hF hbound
    rw [List.append_assoc] at hF'
    exact ⟨hF', hsim.fdGone hG hF' hcreated⟩
  obtain ⟨b, hR', hI', -, hG'⟩ := hR.invariant
    (J := fun gs b => b.FdInv (opened (es ++ gs)) ∧ b.FdGone r n)
    (P := fun gs f => (∀ p, opened (es ++ gs ++ [f]) p < 2 ^ 31) ∧ ¬ CreatedIn f r) hI
    ⟨by rwa [List.append_nil], hG⟩ hrun
    (fun gs f hs heq => ⟨hn.right gs f hs heq, hfs f (by simp [heq])⟩) hstep
  exact ⟨b, hR', hI', hG'⟩

/-- A close takes its descriptor away. -/
theorem Model.HandlerStep.fdGone {clean : Addr → Prop} {m : Addr → Nat}
    (h : HandlerStep clean (a.enter r (.closeResource fd mode)) r (.closeResource fd mode) a')
    (hF : a.FdInv m) (hD : a.Distinct) (hd : d ∈ a.descriptors r) (hfd : a.desFd d = fd.toInt) :
    a'.FdGone r fd.toInt := by
  have hdescriptors := h.close_descriptors (descriptorByFd_self (hF.distinct r) hd hfd)
  obtain rfl := h.close_found (descriptorByFd_self (hF.distinct r) hd hfd)
  obtain ⟨_, _, hunreg⟩ := unregister_eq (a.enter r (.closeResource fd mode))
    (a.desResource d) mode.toInt
  have hlast : fd.toInt < a.lastFd r := hfd ▸ (hF.bound r d hd).2
  have hrest : ∀ d' ∈ (a.descriptors r).erase d, a.desFd d' ≠ fd.toInt := by
    intro d' hd' heq
    obtain rfl := List.inj_on_of_nodup_map (hF.distinct r) (List.mem_of_mem_erase hd') hd
      (heq.trans hfd.symm)
    exact (hD.descriptors.nodup' r).not_mem_erase hd'
  rw [FdGone, hdescriptors, Function.update_self, hunreg]
  exact ⟨hlast, hrest⟩

/-- After a close of `fd` by `r`, in every run that goes on from there. -/
theorem SystemRun.fd_gone {fs : List (Event Kernel Action)}
    (h : SystemRun (es ++ ⟨s, .syscall (.closeResource fd mode), s'⟩ :: fs) t)
    (hn : FewOpens (es ++ ⟨s, .syscall (.closeResource fd mode), s'⟩ :: fs))
    (hr : s.running = some r) (hd : d ∈ s.descriptorsOf r) (hfd : s.desFd d = fd.toInt)
    (hfs : ∀ f ∈ fs, ¬ CreatedIn f r) :
    ∃ a, Refines exceptZombies t a ∧ a.Inv ∧ a.FdGone r fd.toInt := by
  obtain ⟨hpre, hstep, -⟩ := h.split
  rw [List.append_cons] at hn
  obtain ⟨hnpre, hnlast⟩ := throughout_concat.1 hn.left
  obtain ⟨a, hR, hI, hF⟩ := hpre.fdInv hnpre
  obtain ⟨a', hsim⟩ := hR.simulated hI hstep
  obtain ⟨-, hs⟩ := hsim.handler rfl hr
  rw [hR.descriptorsOf_eq hI.desc] at hd
  rw [hR.data] at hfd
  exact hsim.post.fd_stays_gone hsim.inv' (hsim.fdInv hF hnlast)
    (hs.fdGone hF hsim.distinct hd hfd) h.rest hn hfs

/-! ## Destroying -/

/-- A destroy that finds a resource that nobody has open. -/
theorem Model.HandlerStep.destroy_found {clean : Addr → Prop}
    (h : HandlerStep clean (a.enter r (.destroyResource id)) r (.destroyResource id) a')
    (hid : a.resourceById id.toInt = some res) (hnil : a.descriptorsPtrs res = []) :
    a' = ((a.enter r (.destroyResource id)).removeResource res).answer r 0 := by
  cases h with
  | destroyResource hs =>
      cases hs with
      | notFound hnone => cases hid.symm.trans hnone
      | inUse hid' hne =>
          obtain rfl := Option.some.inj (hid.symm.trans hid')
          exact absurd hnil hne
      | destroyed hid' _ =>
          obtain rfl := Option.some.inj (hid.symm.trans hid')
          rfl

/-- The blocks of a resource are different blocks in use. -/
theorem Refines.releasesSucceed (hR : Refines exceptZombies s a) (hI : a.Inv)
    (hmem : res ∈ a.resourcesList) : s.ReleasesSucceed res := by
  cases res with
  | standard b =>
      obtain ⟨hblock, hfree⟩ := hI.res.standard_used hmem
      obtain ⟨p', hrelease, -⟩ := hR.standard.releaseBlock_used hblock hfree
      exact congrArg Prod.fst hrelease
  | mq q =>
      obtain ⟨hblock, hfree⟩ := hI.res.mq_used hmem
      obtain ⟨p', hrelease, -⟩ := hR.mqs.releaseBlock_used hblock hfree
      refine ⟨congrArg Prod.fst hrelease, fun ms m ns heq => ?_⟩
      rw [hR.messagesOf_eq hI.msg hmem] at heq
      exact hR.ms.release_each (heq ▸ (hR.distinct hI.msg).msgs.nodup' q)
        fun x hx => hI.msg.used q x (heq ▸ hx)

theorem Refines.destroys (hR : Refines exceptZombies s a) (hI : a.Inv) (hr : a.running = some r)
    (hid : a.resourceById id.toInt = some res) (hnil : a.descriptorsPtrs res = []) :
    ∃ s', s.call (.destroyResource id) = .ok (s', some 0) ∧ Destroys s r res s' := by
  obtain ⟨s', a', hcalled⟩ := hR.call_destroyResource hI hr id
  obtain rfl := hcalled.step.destroy_found hid hnil
  have hmem := (mem_of_resourceById hid).1
  have hD := hR.distinct hI.msg
  obtain ⟨hcall, hrun⟩ := hcalled.returns rfl hr
  rw [answer_retvalue] at hcall
  have hR' := hcalled.post
  have hI' := hcalled.inv
  refine ⟨s', hcall, hrun, ?_, ?_, ?_, ?_, ?_, ?_, ?_, ?_⟩
  · rw [hR'.resources_eq hI'.res, hR.resources_eq hI.res]
    cases res <;> rfl
  · rw [hR.resources_eq hI.res]
    exact List.count_eq_one_of_mem hD.resourcesList hmem
  · rw [hR'.freeLists_eq]
    cases res with
    | standard b =>
        rw [Kernel.freedWith, hR.freeLists_eq]
        rfl
    | mq q =>
        rw [Kernel.freedWith, hR.messagesOf_eq hI.msg hmem, hR.freeLists_eq]
        rfl
  · exact hR.releasesSucceed hI hmem
  · rw [hR'.data, hR.data]
    cases res <;> rfl
  · rw [funext (hR'.descriptorsPtrsOf_eq hI'.desc), funext (hR.descriptorsPtrsOf_eq hI.desc)]
    cases res <;> rfl
  · rw [funext (hR'.descriptorsOf_eq hI'.desc), funext (hR.descriptorsOf_eq hI.desc)]
    cases res <;> rfl
  · intro q hq hne
    rw [hR.resources_eq hI.res] at hq
    rw [hR.messagesOf_eq hI.msg hq]
    cases res with
    | standard b =>
        have hq' : .mq q ∈ a.resourcesList.erase (.standard b) := (List.mem_erase_of_ne hne).2 hq
        rw [hR'.messagesOf_eq hI'.msg hq']
        rfl
    | mq q' =>
        have hq' : .mq q ∈ a.resourcesList.erase (.mq q') := (List.mem_erase_of_ne hne).2 hq
        have hother : q ≠ q' := fun heq => hne (by rw [heq])
        rw [hR'.messagesOf_eq hI'.msg hq']
        exact Function.update_of_ne hother ..

/-! ## The calls -/

/-- In a reachable state of a run in which no process opens `2 ^ 31` descriptors, `closeResource`
and `destroyResource` of the running process are exact. -/
theorem close_destroy_exact (h : SystemRun es s) (hn : FewOpens es) (hr : s.running = some r) :
    (∀ fd mode, CloseExact es s r fd mode) ∧ ∀ id, DestroyExact s r id := by
  obtain ⟨a, hR, hI, hF⟩ := h.fdInv hn
  have hr' : a.running = some r := hR.running_eq.symm.trans hr
  refine ⟨fun fd mode => ⟨fun hno => ?_, fun d hd hfd => ?_,
    fun d hd hfd s' fs t hrun hn' hfs ht mode' => ?_⟩, fun id => ⟨fun hno => ?_,
    fun res hid hne => ?_, fun res hid hnil => ?_⟩⟩
  · rw [hR.descriptorsOf_eq hI.desc, hR.data] at hno
    exact hR.call_close_unknown hI hr' fd mode (descriptorByFd_none.2 hno)
  · rw [hR.descriptorsOf_eq hI.desc] at hd
    rw [hR.data] at hfd
    exact hR.closes hI hr' (descriptorByFd_self (hF.distinct r) hd hfd)
  · obtain ⟨b, hRb, hIb, -, hgone⟩ := hrun.fd_gone hn' hr hd hfd hfs
    exact hRb.call_close_unknown hIb (hRb.running_eq.symm.trans ht) fd mode'
      (descriptorByFd_none.2 hgone)
  · rw [hR.resourceById_eq hI.res] at hno
    exact hR.call_destroy_unknown hI hr' id hno
  · rw [hR.resourceById_eq hI.res] at hid
    rw [hR.descriptorsPtrsOf_eq hI.desc] at hne
    exact hR.call_destroy_inUse hI hr' id hid hne
  · rw [hR.resourceById_eq hI.res] at hid
    rw [hR.descriptorsPtrsOf_eq hI.desc] at hnil
    exact hR.destroys hI hr' hid hnil

/-- A process with two descriptors closes the second one and destroys a queue with two messages. -/
theorem close_destroy_exact_two : ∃ (es : List (Event Kernel Action)) (s : Kernel),
    ((s.descriptorsOf 0).map s.desFd = [1, 2] ∧ s.messagesOf 0 ≠ []) ∧
      CloseExact es s 0 2 0 ∧ DestroyExact s 0 7 := by
  obtain ⟨es, s, hrun, hp⟩ := exists_of_executes
    [.syscall (.openResource 7 1 1), .syscall (.mqWrite 0 100 1), .syscall (.mqWrite 0 100 1),
      .syscall (.openResource 8 0 1), .syscall (.openResource 8 0 0),
      .syscall (.closeResource 0 0)]
    (fun es s => es.length = 6 ∧ s.running = some 0 ∧
      (s.descriptorsOf 0).map s.desFd = [1, 2] ∧ s.messagesOf 0 ≠ []) (by decide +kernel)
  obtain ⟨hlen, hr, hfds, hmsgs⟩ := of_decide_eq_true hp
  have hexact := close_destroy_exact hrun (fewOpens_of_length (by rw [hlen]; decide)) hr
  exact ⟨es, s, ⟨hfds, hmsgs⟩, hexact.1 2 0, hexact.2 7⟩

end DisastrOS
