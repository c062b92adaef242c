import DisastrOS.Properties.CloseDestroy
import Mathlib.Data.List.Find

/-!
# Closing what has just been opened

A close takes back what the open has done, except that the PCB pointer of a registration does not
return to its pool.
-/

set_option autoImplicit false

namespace DisastrOS

open Runs LinkedSequence LinkedSequence.ListHeap Model

variable {s s₁ s₂ : Kernel} {a a₁ a₂ : Model} {r : Addr} {id type mode fd : Int32}

/-- The state `s'` is the state `s`, but for the last fd and the fields of the calls of `r` and the
contents of free blocks. -/
structure Restored (s : Kernel) (r : Addr) (s' : Kernel) : Prop where
  resources : s'.resources = s.resources
  descriptors : s'.descriptorsOf = s.descriptorsOf
  entries : s'.descriptorsPtrsOf = s.descriptorsPtrsOf
  processes : s'.processes = s.processes
  children : s'.childrenOf = s.childrenOf
  timers : s'.timers = s.timers
  messages : ∀ q, .mq q ∈ s.resources → s'.messagesOf q = s.messagesOf q
  free : s'.freeLists = s.freeLists
  /-- The registrations are among these fields. -/
  contents : s'.toResources = s.toResources
  items : s'.toProcessItems = s.toProcessItems
  globals : s'.toGlobals = s.toGlobals
  memory : s'.toUserMemory = s.toUserMemory
  blocks : ∀ d, s.descriptorAllocator.handedOut d → s'.desPcb d = s.desPcb d ∧
    s'.desResource d = s.desResource d ∧ s'.desFd d = s.desFd d ∧ s'.desPtr d = s.desPtr d
  entryBlocks : ∀ e, s.descriptorPtrAllocator.handedOut e →
    s'.desptrDescriptor e = s.desptrDescriptor e
  pcbs : { s'.toPCBs with
    lastFd := s.lastFd
    syscallNum := s.syscallNum
    syscallArgs := s.syscallArgs
    syscallRetvalue := s.syscallRetvalue } = s.toPCBs
  others : ∀ p, p ≠ r → s'.lastFd p = s.lastFd p ∧ s'.syscallNum p = s.syscallNum p ∧
    s'.syscallArgs p = s.syscallArgs p ∧ s'.syscallRetvalue p = s.syscallRetvalue p

/-- A close of `fd` in the state `s₁` leads back to the state `s`. -/
def CloseRestores (s : Kernel) (r : Addr) (s₁ : Kernel) (fd mode : Int32) : Prop :=
  ∃ s₂, s₁.call (.closeResource fd mode) = .ok (s₂, some 0) ∧ Restored s r s₂

theorem call_of_answer {x : Except Fault (Kernel × Option Int)} {v : Option Int}
    (h : x.toOption.map (·.2) = some v) : ∃ s', x = .ok (s', v) := by
  cases x with
  | error f => cases h
  | ok p =>
      obtain ⟨s', v'⟩ := p
      obtain rfl : v' = v := Option.some.inj h
      exact ⟨s', rfl⟩

/-! ## The open -/

/-- An open with a mode other than `DSOS_CREATE` that answers a number. -/
theorem Called.opened (h : Called s a r (.openResource id type mode) s₁ a₁)
    (hmode : mode.toInt ≠ dsosCreate) (hpos : 0 ≤ a₁.syscallRetvalue r) :
    ∃ res b d e ds es, a.resourceById id.toInt = some res ∧
      Register (a.enter r (.openResource id type mode)) r res mode.toInt b ∧
      a.freeDescriptors = d :: ds ∧ a.freeDescriptorPtrs = e :: es ∧
      a₁ = b.attach r res d e ds es := by
  rcases h.open_outcome with ⟨-, v, hv, rfl⟩ | ⟨res, b, hprep, hattach⟩
  · rw [answer_retvalue] at hpos
    have hneg : ∀ v ∈ openErrors, v < 0 := by decide
    exact absurd hpos (Int.not_le.2 (hneg v hv))
  · cases hattach with
    | noDescriptor _ =>
        rw [answer_retvalue] at hpos
        exact absurd hpos (by decide)
    | @opened d e ds es hd he =>
        cases hprep with
        | existing _ hid _ _ hreg => exact ⟨res, b, d, e, ds, es, hid, hreg, hd, he, rfl⟩
        | created hcreate _ _ => exact absurd hcreate hmode

/-! ## The close -/

/-- Without a registration nothing is dropped. -/
theorem Model.unregister_none (a : Model) {res : ResourceRef} {mode : Int}
    (hno : ∀ q, res = .mq q → mode ≠ dsosRead ∧ mode ≠ dsosWrite) : a.unregister res mode = a := by
  cases res with
  | standard b => rfl
  | mq q =>
      obtain ⟨hread, hwrite⟩ := hno q rfl
      simp only [unregister, hread, hwrite, if_false]

theorem Model.freePcbPtrs_close {clean : Addr → Prop}
    (h : HandlerStep clean a r (.closeResource fd mode) a₂) : a₂.freePcbPtrs = a.freePcbPtrs := by
  cases h with
  | closeResource hs =>
      cases hs with
      | notFound _ => rfl
      | closed _ => exact freePcbPtrs_unregister ..

/-- The new descriptor is the one that its number finds, if no other has the number. -/
theorem Model.descriptorByFd_attach {b : Model} {res : ResourceRef} {d e : Addr} {ds es : List Addr}
    (hd : d ∉ b.descriptors r) :
    (b.attach r res d e ds es).descriptorByFd r (b.lastFd r) =
      (b.descriptorByFd r (b.lastFd r)).or (some d) := by
  have hlist := attach_descriptors b r res d e ds es
  have hnew : (b.attach r res d e ds es).desFd d = b.lastFd r := Function.update_self ..
  have hold : ∀ d' ∈ b.descriptors r, (b.attach r res d e ds es).desFd d' = b.desFd d' :=
    fun d' hd' => Function.update_of_ne (fun heq : d' = d => hd (heq ▸ hd')) ..
  have hfind : (b.descriptors r).find?
      (fun d' => (b.attach r res d e ds es).desFd d' = b.lastFd r) =
        b.descriptorByFd r (b.lastFd r) :=
    List.find?_congr fun d' hd' => by rw [hold d' hd']
  rw [descriptorByFd, hlist, List.find?_append, hfind, List.find?_singleton, hnew,
    decide_eq_true rfl, if_pos rfl]

/-- After an open, the number of the new descriptor finds an old one with the number, or else the
new one. -/
theorem Model.Register.find_attach {b : Model} {res : ResourceRef} {d e : Addr} {ds es : List Addr}
    {c : Syscall} {m : Int} (h : Register (a.enter r c) r res m b) (hd : d ∉ a.descriptors r) :
    (b.attach r res d e ds es).descriptorByFd r (b.lastFd r) =
      (a.descriptorByFd r (a.lastFd r)).or (some d) := by
  have hsame := h.sameDescriptors
  have hlist : b.descriptors r = a.descriptors r := congrFun hsame.descriptors r
  have hlast : b.lastFd r = a.lastFd r := congrFun hsame.lastFd r
  have hold : b.descriptorByFd r (a.lastFd r) = a.descriptorByFd r (a.lastFd r) := by
    rw [descriptorByFd, hlist, hsame.data]
    rfl
  rw [descriptorByFd_attach (hlist ▸ hd), hlast, hold]

/-- Without a registration the close takes back the descriptor and the entry. -/
theorem Model.close_attach {c c' : Syscall} {res : ResourceRef} {d e : Addr} {ds es : List Addr}
    (hd : a.freeDescriptors = d :: ds) (he : a.freeDescriptorPtrs = e :: es)
    (hdr : d ∉ a.descriptors r) (her : e ∉ a.descriptorsPtrs res)
    (h : a₂ = (((((a.enter r c).attach r res d e ds es).enter r c').dropDescriptor r d).answer r 0)) :
    a₂.toSequences = a.toSequences ∧ a₂.toFreeBlocks = a.toFreeBlocks := by
  subst h
  have hres : Function.update a.desResource d res d = res := Function.update_self ..
  have hptr : Function.update a.desPtr d (some e) d = some e := Function.update_self ..
  constructor
  · simp only [answer, dropDescriptor, attach, enter, hres, hptr, Option.getD_some,
      ChildLists.remove_add hdr, ChildLists.remove_add her]
  · simp only [answer, dropDescriptor, attach, enter, hptr, Option.getD_some, ← hd, ← he]

/-! ## Both calls -/

/-- The states before the open and after the close, when nothing was registered. -/
theorem Refines.restored {c c' : Syscall} {res : ResourceRef} {d e : Addr} {ds es : List Addr}
    (hR : Refines exceptZombies s a) (hI : a.Inv) (hR₂ : Refines exceptZombies s₂ a₂) (hI₂ : a₂.Inv)
    (hd : a.freeDescriptors = d :: ds) (he : a.freeDescriptorPtrs = e :: es)
    (h : a₂ = (((((a.enter r c).attach r res d e ds es).enter r c').dropDescriptor r d).answer r 0)) :
    Restored s r s₂ := by
  have hdr : d ∉ a.descriptors r := fun hmem =>
    (hI.desc.linked r d hmem).2.used.2 (by rw [hd]; exact List.mem_cons_self)
  have her : e ∉ a.descriptorsPtrs res := by
    intro hmem
    obtain ⟨hptr, -, hL⟩ := hI.desc.entry res e hmem
    obtain ⟨e', hptr', -, hused, -⟩ := hL.ptr
    obtain rfl : e = e' := Option.some.inj (hptr.symm.trans hptr')
    exact hused.2 (by rw [he]; exact List.mem_cons_self)
  obtain ⟨hseq, hfree⟩ := close_attach hd he hdr her h
  have hresources : a₂.resourcesList = a.resourcesList := congrArg Sequences.resourcesList hseq
  have hblock : ∀ x, s.descriptorAllocator.handedOut x → x ≠ d := by
    rintro x hx rfl
    rw [hR.freeDescriptors.handedOut_iff, hd] at hx
    exact hx.2 List.mem_cons_self
  have hentry : ∀ x, s.descriptorPtrAllocator.handedOut x → x ≠ e := by
    rintro x hx rfl
    rw [hR.freeDescriptorPtrs.handedOut_iff, he] at hx
    exact hx.2 List.mem_cons_self
  refine ⟨?_, ?_, ?_, ?_, ?_, ?_, fun q hq => ?_, ?_, ?_, ?_, ?_, ?_, fun x hx => ?_,
    fun x hx => ?_, ?_, fun p hp => ?_⟩
  · rw [hR₂.resources_eq hI₂.res, hR.resources_eq hI.res, hresources]
  · rw [funext (hR₂.descriptorsOf_eq hI₂.desc), funext (hR.descriptorsOf_eq hI.desc)]
    exact congrArg Sequences.descriptors hseq
  · rw [funext (hR₂.descriptorsPtrsOf_eq hI₂.desc), funext (hR.descriptorsPtrsOf_eq hI.desc)]
    exact congrArg Sequences.descriptorsPtrs hseq
  · rw [funext (hR₂.processes_eq hI₂.proc), funext (hR.processes_eq hI.proc)]
    exact congrArg Sequences.procs hseq
  · rw [funext (hR₂.childrenOf_eq hI₂.kid), funext (hR.childrenOf_eq hI.kid)]
    exact congrArg Sequences.children hseq
  · rw [hR₂.timers_eq hI₂.timer, hR.timers_eq hI.timer]
    exact congrArg Sequences.timerList hseq
  · rw [hR.resources_eq hI.res] at hq
    rw [hR.messagesOf_eq hI.msg hq, hR₂.messagesOf_eq hI₂.msg (by rwa [hresources])]
    exact congrFun (congrArg Sequences.msgs hseq) q
  · rw [hR₂.freeLists_eq, hR.freeLists_eq, hfree]
  · rw [hR₂.data, hR.data, h]
    simp only [answer, dropDescriptor, attach]
    rfl
  · rw [hR₂.data, hR.data, h]
    simp only [answer, dropDescriptor, attach]
    rfl
  · rw [hR₂.data, hR.data, h]
    simp only [answer, dropDescriptor, attach]
    rfl
  · rw [hR₂.data, hR.data, h]
    simp only [answer, dropDescriptor, attach]
    rfl
  · rw [hR₂.data, hR.data, h]
    have hne := hblock x hx
    exact ⟨Function.update_of_ne hne .., Function.update_of_ne hne .., Function.update_of_ne hne ..,
      Function.update_of_ne hne ..⟩
  · rw [hR₂.data, hR.data, h]
    exact Function.update_of_ne (hentry x hx) ..
  · rw [hR₂.data, hR.data, h]
    simp only [answer, dropDescriptor, attach]
    rfl
  · rw [hR₂.data, hR.data, h]
    -- both calls wrote to the fields of `r`
    have htwice : ∀ {β : Type} (f : Addr → β) (x y : β),
        Function.update (Function.update f r x) r y p = f p := fun f x y =>
      (Function.update_of_ne hp ..).trans (Function.update_of_ne hp ..)
    exact ⟨Function.update_of_ne hp .., htwice .., htwice .., htwice ..⟩

/-- A registration has taken an entry, and a close does not bring it back. -/
theorem Restored.registers_nobody {clean : Addr → Prop} {res : ResourceRef} {c : Syscall}
    {b b' : Model} (h : Restored s r s₂) (hR : Refines exceptZombies s a)
    (hR₂ : Refines exceptZombies s₂ a₂) (hreg : Register (a.enter r c) r res mode.toInt b)
    (hclose : HandlerStep clean b' r (.closeResource fd mode) a₂)
    (hpool : b'.freePcbPtrs = b.freePcbPtrs) :
    ∀ q, res = .mq q → mode.toInt ≠ dsosRead ∧ mode.toInt ≠ dsosWrite := by
  rcases hreg.pool_cases with ⟨-, hno⟩ | ⟨-, u, hu⟩
  · exact hno
  · have hfree := h.free
    rw [hR₂.freeLists_eq, hR.freeLists_eq] at hfree
    have hsame : a₂.freePcbPtrs = a.freePcbPtrs := congrArg FreeBlocks.freePcbPtrs hfree
    rw [freePcbPtrs_close hclose, hpool, show a.freePcbPtrs = u :: b.freePcbPtrs from hu] at hsame
    exact absurd hsame.symm (List.cons_ne_self u _)

/-- An older descriptor with the number would be closed instead of the new one `d`. -/
theorem Restored.number_free {clean : Addr → Prop} {b : Model} {d : Addr} {older : Option Addr}
    (h : Restored s r s₂) (hR : Refines exceptZombies s a) (hI : a.Inv)
    (hR₂ : Refines exceptZombies s₂ a₂) (hI₂ : a₂.Inv) (hd : d ∉ a.descriptors r)
    (hlist : b.descriptors r = a.descriptors r ++ [d])
    (holder : ∀ d' ∈ older, d' ∈ a.descriptors r)
    (hfound : b.descriptorByFd r fd.toInt = older.or (some d))
    (hclose : HandlerStep clean (b.enter r (.closeResource fd mode)) r (.closeResource fd mode) a₂) :
    older = none := by
  cases older with
  | none => rfl
  | some d' =>
      rw [Option.some_or] at hfound
      have hne : d ≠ d' := fun heq => hd (heq ▸ holder d' rfl)
      have hdesc := congrFun h.descriptors r
      rw [hR₂.descriptorsOf_eq hI₂.desc, hR.descriptorsOf_eq hI.desc,
        hclose.close_descriptors hfound, Function.update_self, hlist] at hdesc
      have hin : d ∈ (a.descriptors r ++ [d]).erase d' :=
        (List.mem_erase_of_ne hne).2 (List.mem_append_right _ (List.mem_singleton_self d))
      rw [hdesc] at hin
      exact absurd hin hd

/-- In a reachable state, an open of the running process with a mode other than `DSOS_CREATE` that
answers an fd is undone by a close with the same mode if and only if it registers nobody and no
other descriptor of the process has the number. -/
theorem close_restores_iff (h : Reachable s) (hr : s.running = some r)
    (hmode : mode.toInt ≠ dsosCreate)
    (hopen : s.call (.openResource id type mode) = .ok (s₁, some fd.toInt)) (hfd : 0 ≤ fd.toInt) :
    CloseRestores s r s₁ fd mode ↔
      (∀ q, s.resourceById id.toInt = some (.mq q) →
        mode.toInt ≠ dsosRead ∧ mode.toInt ≠ dsosWrite) ∧
      ∀ d ∈ s.descriptorsOf r, s.desFd d ≠ s.lastFd r := by
  obtain ⟨es, hrun⟩ := h
  obtain ⟨a, hR, hI⟩ := hrun.refines
  have hr' : a.running = some r := hR.running_eq.symm.trans hr
  obtain ⟨a₁, hcalled, hret⟩ := hR.called hI hr' hopen
  have hr₁ : a₁.running = some r := (hcalled.step.sameProcesses rfl).running.trans hr'
  rw [hr₁, Option.map_some, Option.some_inj] at hret
  obtain ⟨res, b, d, e, ds, es, hid, hreg, hd, he, rfl⟩ := hcalled.opened hmode (hret ▸ hfd)
  have hlist : b.descriptors r = a.descriptors r := congrFun hreg.sameDescriptors.descriptors r
  have hdr : d ∉ a.descriptors r := fun hmem =>
    (hI.desc.linked r d hmem).2.used.2 (by rw [hd]; exact List.mem_cons_self)
  have hfound : (b.attach r res d e ds es).descriptorByFd r fd.toInt =
      (a.descriptorByFd r (a.lastFd r)).or (some d) := by
    rw [show fd.toInt = b.lastFd r from hret.trans (attach_retvalue ..)]
    exact hreg.find_attach hdr
  obtain ⟨s₂, a₂, hclose⟩ := hcalled.post.call_closeResource hcalled.inv hr₁ fd mode
  rw [hR.resourceById_eq hI.res, hid, hR.descriptorsOf_eq hI.desc, hR.data]
  have hqueue : (∀ q, some res = some (.mq q) → mode.toInt ≠ dsosRead ∧ mode.toInt ≠ dsosWrite) ↔
      ∀ q, res = .mq q → mode.toInt ≠ dsosRead ∧ mode.toInt ≠ dsosWrite := by
    simp only [Option.some_inj]
  rw [hqueue, ← descriptorByFd_none]
  constructor
  · rintro ⟨s₂', hcall, hrest⟩
    obtain rfl : s₂ = s₂' := (Prod.mk.inj (Except.ok.inj (hclose.call.symm.trans hcall))).1
    have hlist' := attach_descriptors b r res d e ds es
    rw [hlist] at hlist'
    exact ⟨hrest.registers_nobody hR hclose.post hreg hclose.step rfl,
      hrest.number_free hR hI hclose.post hclose.inv hdr hlist'
        (fun d' hd' => (mem_of_descriptorByFd hd').1) hfound hclose.step⟩
  · rintro ⟨hno, hother⟩
    rw [hother, Option.none_or] at hfound
    obtain rfl : b = a.enter r (.openResource id type mode) := by
      rcases hreg.pool_cases with ⟨heq, -⟩ | ⟨⟨q, hq, hm⟩, -⟩
      · exact heq
      · exact absurd hm (not_or.2 (hno q hq))
    have ha₂ := hclose.step.close_found hfound
    have hres : (((a.enter r (.openResource id type mode)).attach r res d e ds es).desResource d) =
        res := Function.update_self ..
    rw [hres, unregister_none _ hno] at ha₂
    have hcall := (hclose.returns rfl hr₁).1
    rw [ha₂, answer_retvalue] at hcall
    exact ⟨s₂, hcall, hR.restored hI hclose.post hclose.inv hd he ha₂⟩

/-- A standard resource is opened and closed. -/
theorem close_restores_iff_standard : ∃ s s₁ : Kernel,
    s.call (.openResource 1 0 0) = .ok (s₁, some 1) ∧ CloseRestores s 0 s₁ 1 0 := by
  obtain ⟨es, s, hrun, hp⟩ := exists_of_executes [.syscall (.openResource 1 0 1)]
    (fun _ s => s.running = some 0 ∧ s.resourceById 1 = some (.standard 0) ∧
      (s.descriptorsOf 0).map s.desFd = [0] ∧ s.lastFd 0 = 1 ∧
      (s.call (.openResource 1 0 0)).toOption.map (·.2) = some (some 1)) (by decide +kernel)
  obtain ⟨hr, hid, hfds, hlast, hret⟩ := of_decide_eq_true hp
  obtain ⟨s₁, hopen⟩ := call_of_answer hret
  refine ⟨s, s₁, hopen, (close_restores_iff ⟨es, hrun⟩ hr (by decide) hopen (by decide)).2
    ⟨fun q hq => ?_, fun d hd heq => ?_⟩⟩
  · cases hid.symm.trans hq
  · have hmem := List.mem_map_of_mem (f := s.desFd) hd
    rw [hfds, heq, hlast] at hmem
    exact absurd hmem (by decide)

/-- A queue is opened for reading and closed. The entry of the registration is lost. -/
theorem close_keeps_entry : ∃ s s₁ : Kernel, Reachable s ∧ s.running = some 0 ∧
    s.call (.openResource 1 1 2) = .ok (s₁, some 1) ∧ ¬ CloseRestores s 0 s₁ 1 2 := by
  obtain ⟨es, s, hrun, hp⟩ := exists_of_executes [.syscall (.openResource 1 1 1)]
    (fun _ s => s.running = some 0 ∧ s.freeLists.freePcbPtrs.head? = some 0 ∧
      (s.call (.openResource 1 1 2)).toOption.map (·.2) = some (some 1) ∧
      ∀ p ∈ (s.call (.openResource 1 1 2)).toOption,
        ∀ q ∈ (p.1.call (.closeResource 1 2)).toOption,
          q.1.freeLists.freePcbPtrs.head? = some sizeofPCBPtr) (by decide +kernel)
  obtain ⟨hr, hhead, hret, hclose⟩ := of_decide_eq_true hp
  obtain ⟨s₁, hopen⟩ := call_of_answer hret
  refine ⟨s, s₁, ⟨es, hrun⟩, hr, hopen, ?_⟩
  rintro ⟨s₂, hcall, hrest⟩
  have hhead₂ := hclose (s₁, some 1) (by rw [hopen]; rfl) (s₂, some 0) (by rw [hcall]; rfl)
  rw [hrest.free, hhead] at hhead₂
  exact absurd hhead₂ (by decide)

end DisastrOS
