import DisastrOS.Abstract.Descriptors

/-!
# Readers and writers of a queue

A queue has at most one registered reader and one registered writer. An `openResource` in the mode
of a registration sets it and fails if it is taken; a `closeResource` with the mode of a
registration drops it, whichever descriptor of the queue is closed. Nothing else changes
registrations.
-/

set_option autoImplicit false

namespace DisastrOS

/-- The registration with queue `q` for `mode`. -/
def Resources.registration (s : Resources) (q : Addr) (mode : Int) : Option Addr :=
  if mode = dsosRead then s.readingPid q else if mode = dsosWrite then s.writingPid q else none

@[simp] theorem Resources.registration_read (s : Resources) (q : Addr) :
    s.registration q dsosRead = s.readingPid q := rfl

@[simp] theorem Resources.registration_write (s : Resources) (q : Addr) :
    s.registration q dsosWrite = s.writingPid q := rfl

/-- The registrations with a resource that are set. -/
def Resources.registrationsOf (s : Resources) : ResourceRef → List Addr
  | .standard _ => []
  | .mq q => (s.readingPid q).toList ++ (s.writingPid q).toList

/-- The modes for which queues have registrations. -/
def Exclusive (mode : Int) : Prop := mode = dsosRead ∨ mode = dsosWrite

/-- The two modes that register are not the mode that creates. -/
theorem Exclusive.ne_create {mode : Int} (h : Exclusive mode) : mode ≠ dsosCreate := by
  rcases h with rfl | rfl <;> decide

/-- The registrations of a queue are its reader and its writer. -/
theorem Resources.mem_registrationsOf {s : Resources} {q k : Addr} :
    k ∈ s.registrationsOf (.mq q) ↔ ∃ mode, s.registration q mode = some k := by
  simp only [registrationsOf, List.mem_append, Option.mem_toList]
  constructor
  · rintro (hk | hk)
    · exact ⟨dsosRead, hk⟩
    · exact ⟨dsosWrite, hk⟩
  · rintro ⟨mode, hk⟩
    rw [registration] at hk
    split at hk
    · exact Or.inl hk
    · split at hk
      · exact Or.inr hk
      · cases hk

/-- A queue without registrations has neither a reader nor a writer. -/
theorem Resources.registrationsOf_eq_nil {s : Resources} {q : Addr} :
    s.registrationsOf (.mq q) = [] ↔ ∀ mode, s.registration q mode = none := by
  constructor
  · intro hnil mode
    by_contra hset
    obtain ⟨k, hk⟩ := Option.ne_none_iff_exists'.1 hset
    have hmem : k ∈ s.registrationsOf (.mq q) := mem_registrationsOf.2 ⟨mode, hk⟩
    rw [hnil] at hmem
    cases hmem
  · intro hnone
    apply List.eq_nil_iff_forall_not_mem.2
    intro k hk
    obtain ⟨mode, hk⟩ := mem_registrationsOf.1 hk
    rw [hnone mode] at hk
    cases hk

namespace Model

variable {clean : Addr → Prop} {a a' : Model} {r p d q k x : Addr} {c : Syscall} {act : Action}
  {res : ResourceRef} {id type mode mode' fd : Int}

/-- The message queue with this id. -/
def queueById (a : Model) (id : Int) : Option Addr :=
  match a.resourceById id with
  | some (.mq q) => some q
  | _ => none

/-- A queue found by id is in the list of resources. -/
theorem mem_of_queueById (h : a.queueById id = some q) :
    a.resourceById id = some (.mq q) ∧ .mq q ∈ a.resourcesList ∧ a.resourceId (.mq q) = id := by
  unfold queueById at h
  split at h
  · rename_i q' hfound
    obtain rfl := Option.some.inj h
    exact ⟨hfound, mem_of_resourceById hfound⟩
  · cases h

/-! ## Changes of registrations -/

/-- The registrations of `a'` and the pool of their entries are those of `a`. -/
structure SameRegistrations (a a' : Model) : Prop where
  registration : ∀ q mode, a'.registration q mode = a.registration q mode
  free : a'.freePcbPtrs = a.freePcbPtrs

/-- The process `r` takes the entry `k` from the pool and registers with the queue `q` for `mode`.
-/
structure Enlists (a : Model) (r q : Addr) (mode : Int) (k : Addr) (a' : Model) : Prop where
  exclusive : Exclusive mode
  vacant : a.registration q mode = none
  free : a.freePcbPtrs = k :: a'.freePcbPtrs
  ptrPcb : a'.ptrPcb = Function.update a.ptrPcb k r
  registration : ∀ q' mode', a'.registration q' mode' =
    if q' = q ∧ mode' = mode then some k else a.registration q' mode'

/-- The registration with the queue `q` for `mode` is dropped, its entry is not returned. -/
structure Delists (a : Model) (q : Addr) (mode : Int) (a' : Model) : Prop where
  free : a'.freePcbPtrs = a.freePcbPtrs
  registration : ∀ q' mode', a'.registration q' mode' =
    if q' = q ∧ mode' = mode then none else a.registration q' mode'

/-- What a transition does to the registrations. -/
inductive RegistrationCases (a : Model) (act : Action) (a' : Model) : Prop where
  | same : (∀ q mode, a'.registration q mode = a.registration q mode) → RegistrationCases a act a'
  | enlisted (r : Addr) (id type mode : Int32) (q k : Addr) :
      a.running = some r → act = .syscall (.openResource id type mode) →
      a.queueById id.toInt = some q → Enlists a r q mode.toInt k a' → RegistrationCases a act a'
  | delisted (r : Addr) (fd mode : Int32) (d q : Addr) :
      a.running = some r → act = .syscall (.closeResource fd mode) →
      a.descriptorByFd r fd.toInt = some d → a.desResource d = .mq q →
      Delists a q mode.toInt a' → RegistrationCases a act a'

theorem AddResource.sameRegistrations (h : AddResource a id type res a') :
    SameRegistrations a a' := by
  cases h with
  | standard _ _ => exact ⟨fun _ _ => rfl, rfl⟩
  | mq _ _ => exact ⟨fun _ _ => rfl, rfl⟩

/-- Setting one of the two registrations of a queue. -/
theorem registration_reading (a : Model) (q q' : Addr) (v : Option Addr) (mode : Int) :
    { a with readingPid := Function.update a.readingPid q v }.registration q' mode =
      if q' = q ∧ mode = dsosRead then v else a.registration q' mode := by
  simp only [Resources.registration, Function.update_apply]
  grind

theorem registration_writing (a : Model) (q q' : Addr) (v : Option Addr) (mode : Int) :
    { a with writingPid := Function.update a.writingPid q v }.registration q' mode =
      if q' = q ∧ mode = dsosWrite then v else a.registration q' mode := by
  have hread : dsosWrite ≠ dsosRead := by decide
  simp only [Resources.registration, Function.update_apply]
  grind

/-- Registering changes nothing, or enlists the caller in the mode asked for. -/
theorem Register.registrations (h : Register a r res mode a') :
    (a' = a ∧ ∀ q, res = .mq q → ¬ Exclusive mode) ∨ ∃ q k, res = .mq q ∧ Enlists a r q mode k a' := by
  cases h with
  | none hnot =>
      refine Or.inl ⟨rfl, fun q hq hmode => ?_⟩
      exact hmode.elim (hnot q hq).1 (hnot q hq).2
  | @reading q e es hres hm hnone he =>
      refine Or.inr ⟨q, e, hres, Or.inl hm, ?_, he, rfl, fun q' mode' => ?_⟩
      · rw [Resources.registration, if_pos hm]
        exact hnone
      · rw [hm]
        exact registration_reading a q q' (some e) mode'
  | @writing q e es hres hm hnone he =>
      have hread : mode ≠ dsosRead := by
        rw [hm]
        decide
      refine Or.inr ⟨q, e, hres, Or.inr hm, ?_, he, rfl, fun q' mode' => ?_⟩
      · rw [Resources.registration, if_neg hread, if_pos hm]
        exact hnone
      · rw [hm]
        exact registration_writing a q q' (some e) mode'

/-- Opening a resource that exists enlists the caller at most in the mode asked for. -/
theorem OpenFound.registrations (h : OpenFound a r res mode a') :
    SameRegistrations a a' ∨ ∃ q k, res = .mq q ∧ Enlists a r q mode k a' := by
  cases h with
  | notExclusive _ _ => exact Or.inl ⟨fun _ _ => rfl, rfl⟩
  | taken _ => exact Or.inl ⟨fun _ _ => rfl, rfl⟩
  | noDescriptor _ hreg _ =>
      rcases hreg.registrations with ⟨rfl, -⟩ | ⟨q, k, hq, h⟩
      · exact Or.inl ⟨fun _ _ => rfl, rfl⟩
      · exact Or.inr ⟨q, k, hq, { h with }⟩
  | opened _ hreg _ _ =>
      rcases hreg.registrations with ⟨rfl, -⟩ | ⟨q, k, hq, h⟩
      · exact Or.inl ⟨fun _ _ => rfl, rfl⟩
      · exact Or.inr ⟨q, k, hq, { h with }⟩

/-- An `openResource` that creates the resource registers nobody. -/
theorem OpenStep.registrations (h : OpenStep a r id type mode a') :
    SameRegistrations a a' ∨ ∃ q k, a.queueById id = some q ∧ Enlists a r q mode k a' := by
  cases h with
  | alreadyExists _ _ => exact Or.inl ⟨fun _ _ => rfl, rfl⟩
  | created hcreate _ hadd hopen =>
      have hsame := hadd.sameRegistrations
      rcases hopen.registrations with hopen | ⟨q, k, -, hopen⟩
      · exact Or.inl ⟨fun q m => (hopen.registration q m).trans (hsame.registration q m),
          hopen.free.trans hsame.free⟩
      · exact absurd hcreate hopen.exclusive.ne_create
  | unavailable _ _ => exact Or.inl ⟨fun _ _ => rfl, rfl⟩
  | found _ hfound _ hopen =>
      apply hopen.registrations.imp (fun h => h)
      rintro ⟨q, k, rfl, h⟩
      exact ⟨q, k, by rw [queueById, hfound], h⟩

/-- A close drops the registration for the mode that is passed, whoever holds it. -/
theorem registration_unregister (a : Model) (res : ResourceRef) (mode' : Int) (q : Addr)
    (mode : Int) : (a.unregister res mode').registration q mode =
    if res = .mq q ∧ mode' = mode then none else a.registration q mode := by
  cases res with
  | standard b => simp [unregister]
  | mq q' =>
      simp only [unregister, ResourceRef.mq.injEq, eq_comm (a := q'), eq_comm (a := mode')]
      split
      · rename_i hm
        rw [registration_reading, hm]
      · split
        · rename_i hm
          rw [registration_writing, hm]
        · simp only [Resources.registration]
          grind

/-- Closing a descriptor of `q` drops the registration for the mode that is passed. -/
theorem CloseStep.delists (h : CloseStep a r fd mode a') (hd : a.descriptorByFd r fd = some d)
    (hq : a.desResource d = .mq q) : Delists a q mode a' := by
  cases h with
  | notFound hnone =>
      rw [hnone] at hd
      cases hd
  | @closed d' hd' =>
      obtain rfl : d' = d := Option.some.inj (hd'.symm.trans hd)
      refine ⟨freePcbPtrs_unregister .., fun q' mode' => ?_⟩
      apply (registration_unregister a (a.desResource d') mode q' mode').trans
      simp only [hq, ResourceRef.mq.injEq, eq_comm]

/-- A close changes at most one registration of the queue behind the descriptor. -/
theorem CloseStep.registrations (h : CloseStep a r fd mode a') :
    SameRegistrations a a' ∨ ∃ d q, a.descriptorByFd r fd = some d ∧ a.desResource d = .mq q ∧
      Delists a q mode a' := by
  cases hfd : a.descriptorByFd r fd with
  | none =>
      cases h with
      | notFound _ => exact Or.inl ⟨fun _ _ => rfl, rfl⟩
      | closed hd => exact absurd (hfd.symm.trans hd) (by simp)
  | some d =>
      cases hres : a.desResource d with
      | mq q => exact Or.inr ⟨d, q, rfl, hres, h.delists hfd hres⟩
      | standard b =>
          cases h with
          | notFound _ => exact Or.inl ⟨fun _ _ => rfl, rfl⟩
          | @closed d' hd' =>
              obtain rfl : d = d' := Option.some.inj (hfd.symm.trans hd')
              rw [hres]
              exact Or.inl ⟨fun _ _ => rfl, rfl⟩

theorem DestroyStep.sameRegistrations (h : DestroyStep a r id a') : SameRegistrations a a' := by
  cases h with
  | notFound _ => exact ⟨fun _ _ => rfl, rfl⟩
  | inUse _ _ => exact ⟨fun _ _ => rfl, rfl⟩
  | @destroyed res _ _ => cases res <;> exact ⟨fun _ _ => rfl, rfl⟩

/-- What a call does to the registrations. -/
theorem HandlerStep.registrations (h : HandlerStep clean (a.enter r c) r c a')
    (hr : a.running = some r) : RegistrationCases a (.syscall c) a' := by
  cases hp : c.onProcesses with
  | true =>
      refine .same fun q mode => ?_
      rw [(h.sameResources hp).resources]
      rfl
  | false =>
      cases h with
      | @openResource id type mode _ h =>
          rcases h.registrations with hsame | ⟨q, k, hq, h⟩
          · exact .same hsame.registration
          · exact .enlisted r id type mode q k hr rfl hq { h with }
      | @closeResource fd mode _ h =>
          rcases h.registrations with hsame | ⟨d, q, hd, hq, h⟩
          · exact .same hsame.registration
          · exact .delisted r fd mode d q hr rfl hd hq { h with }
      | destroyResource h => exact .same h.sameRegistrations.registration
      | mqRead h => cases h <;> exact .same fun _ _ => rfl
      | mqWrite h => cases h <;> exact .same fun _ _ => rfl
      | _ => cases hp

theorem Step.registrations (h : Step clean a act a') : RegistrationCases a act a' := by
  cases h with
  | tick _ h =>
      obtain ⟨_, _, _, _, _, _, rfl⟩ := h.eq
      exact .same fun _ _ => rfl
  | syscall hr h => exact h.registrations hr
  | store _ => exact .same fun _ _ => rfl

/-- Only `openResource` and `closeResource` change registrations. -/
theorem Step.registration_eq (h : Step clean a act a')
    (hopen : ∀ id type mode, act ≠ .syscall (.openResource id type mode))
    (hclose : ∀ fd mode, act ≠ .syscall (.closeResource fd mode)) :
    a'.registration q mode = a.registration q mode := by
  cases h.registrations with
  | same hsame => exact hsame q mode
  | enlisted r id type mode' q' k _ hact _ _ => exact absurd hact (hopen id type mode')
  | delisted r fd mode' d q' _ hact _ _ _ => exact absurd hact (hclose fd mode')

/-- A registration that is set is dropped by a `closeResource` with its mode, and only so. -/
theorem Step.registration (h : Step clean a act a') (hset : a.registration q mode ≠ none) :
    a'.registration q mode = a.registration q mode ∨
      ∃ r fd mode' d, a.running = some r ∧ act = .syscall (.closeResource fd mode') ∧
        a.descriptorByFd r fd.toInt = some d ∧ a.desResource d = .mq q ∧ mode'.toInt = mode := by
  cases h.registrations with
  | same hsame => exact Or.inl (hsame q mode)
  | enlisted r id type mode' q' k _ _ _ hk =>
      have hne : ¬ (q = q' ∧ mode = mode'.toInt) := by
        rintro ⟨rfl, rfl⟩
        exact hset hk.vacant
      exact Or.inl ((hk.registration q mode).trans (if_neg hne))
  | delisted r fd mode' d q' hr hact hd hq hdrop =>
      by_cases heq : q = q' ∧ mode = mode'.toInt
      · exact Or.inr ⟨r, fd, mode', d, hr, hact, hd, heq.1 ▸ hq, heq.2.symm⟩
      · exact Or.inl ((hdrop.registration q mode).trans (if_neg heq))

/-! ## Opening -/

/-- An `openResource` that gives `r` the descriptor `d` of `q` takes a free registration. -/
theorem OpenStep.registers (h : OpenStep a r id type mode a') (hmode : Exclusive mode)
    (hfree : FreeOf maxNumProcesses sizeofPCBPtr a.freePcbPtrs)
    (hd : a'.descriptors r = a.descriptors r ++ [d]) (hq : a'.desResource d = .mq q) :
    a.registration q mode = none ∧ ∃ k ∈ a.freePcbPtrs, a'.registration q mode = some k ∧
      a'.ptrPcb k = r ∧ k ∉ a'.freePcbPtrs ∧ a'.children = a.children := by
  have hgrows : a'.descriptors r ≠ a.descriptors r := by
    rw [hd]
    simp
  cases h with
  | alreadyExists _ _ => exact absurd rfl hgrows
  | created hcreate _ _ _ => exact absurd hcreate hmode.ne_create
  | unavailable _ _ => exact absurd rfl hgrows
  | @found _ res _ _ _ hopen =>
      cases hopen with
      | notExclusive _ _ => exact absurd rfl hgrows
      | taken _ => exact absurd rfl hgrows
      | noDescriptor _ hreg _ =>
          obtain ⟨_, _, _, _, rfl, -, -⟩ := hreg.eq
          exact absurd rfl hgrows
      | @opened a₁ d' e ds es _ hreg _ _ =>
          have hd' : Function.update a₁.descriptors r (a₁.descriptors r ++ [d']) r =
            a.descriptors r ++ [d] := hd
          have hq' : Function.update a₁.desResource d' res d = .mq q := hq
          have hsame := hreg.sameDescriptors
          rw [Function.update_self, hsame.descriptors] at hd'
          obtain rfl : d' = d := by simpa using hd'
          rw [Function.update_self] at hq'
          rcases hreg.registrations with ⟨-, hnot⟩ | ⟨q', k, hres, hk⟩
          -- the mode is exclusive, so the open has registered
          · exact absurd hmode (hnot q hq')
          · obtain rfl : q' = q := ResourceRef.mq.inj (hres.symm.trans hq')
            have hnd := hfree.1
            rw [hk.free, List.nodup_cons] at hnd
            refine ⟨hk.vacant, k, by rw [hk.free]; exact List.mem_cons_self, ?_, ?_, hnd.1,
              hreg.sameProcesses.children⟩
            · exact (hk.registration q' mode).trans (if_pos ⟨rfl, rfl⟩)
            · show a₁.ptrPcb k = r
              rw [hk.ptrPcb, Function.update_self]

/-! ## Entries of registrations -/

/-- The entry `k` stands for the process `p`; it is not free and not on a list of children. -/
structure StandsFor (a : Model) (k p : Addr) : Prop where
  pcb : a.ptrPcb k = p
  used : k ∉ a.freePcbPtrs
  unlisted : ∀ x, k ∉ a.children x

theorem SameProcesses.standsFor (h : SameProcesses a r a') (hk : a.StandsFor k p) :
    a'.StandsFor k p := by
  refine ⟨(h.ptrPcb k hk.used).trans hk.pcb, fun hmem => hk.used (h.freePcbPtrs hmem), fun x => ?_⟩
  rw [h.children]
  exact hk.unlisted x

/-- A new process takes a free entry, so an entry in use stands for whom it did. -/
theorem CreateStep.standsFor (h : CreateStep a r a') (hk : a.StandsFor k p) : a'.StandsFor k p := by
  cases h with
  | @created x e xs es _ hptr =>
      have hused := hk.used
      rw [hptr, List.mem_cons, not_or] at hused
      refine ⟨(Function.update_of_ne hused.1 ..).trans hk.pcb, hused.2, fun y hmem => ?_⟩
      replace hmem : k ∈ Function.update (Function.update a.children x []) r
        (a.children r ++ [e]) y := hmem
      simp only [Function.update_apply] at hmem
      split at hmem
      · rcases List.mem_append.1 hmem with hmem | hmem
        · exact hk.unlisted r hmem
        · exact hused.1 (List.mem_singleton.1 hmem)
      · split at hmem
        · cases hmem
        · exact hk.unlisted y hmem

theorem WaitStep.standsFor (h : WaitStep a r a') (hk : a.StandsFor k p) : a'.StandsFor k p := by
  cases h with
  | noChildren _ => exact { hk with }
  | @reap e he _ =>
      rw [reap_eq]
      have hne : k ≠ e := fun heq => hk.unlisted r (heq ▸ mem_of_awaited he)
      refine ⟨hk.pcb, fun hmem => ?_, fun x hmem => ?_⟩
      · exact (List.mem_cons.1 hmem).elim hne hk.used
      · exact hk.unlisted x (ChildLists.mem_of_mem_remove hmem)
  | block _ _ _ => exact { hk with }

theorem ExitStep.standsFor (h : ExitStep a r a') (hk : a.StandsFor k p) : a'.StandsFor k p := by
  have hleave : ∀ init parent, r ≠ init → ∀ x, k ∉ (a.leave r init parent).children x := by
    intro init parent hne x hmem
    rcases ((mem_leave_children _ hne).1 hmem).2 with hmem | ⟨-, hmem⟩
    · exact hk.unlisted x hmem
    · exact hk.unlisted r hmem
  cases h with
  | @wakeParent init parent e _ hne _ _ _ =>
      obtain ⟨_, _, _, _, heq⟩ := handOver_eq (a.leave r init parent) r parent e
      rw [heq]
      exact ⟨hk.pcb, hk.used, fun x hmem =>
        hleave init parent hne x (ChildLists.mem_of_mem_remove hmem)⟩
  | @retire init parent _ _ _ hne _ _ _ => exact ⟨hk.pcb, hk.used, hleave init parent hne⟩

theorem HandlerStep.standsFor (h : HandlerStep clean a r c a') (hk : a.StandsFor k p) :
    a'.StandsFor k p := by
  cases hp : c.onProcesses with
  | false => exact (h.sameProcesses hp).standsFor hk
  | true =>
      cases h with
      | preempt h =>
          obtain ⟨_, _, _, _, _, _, rfl⟩ := h.eq
          exact { hk with }
      | fork h => exact h.standsFor hk
      | spawn h => exact h.standsFor hk
      | wait h => exact h.standsFor hk
      | exit h => exact h.standsFor hk
      | sleep h =>
          obtain ⟨_, _, _, _, _, _, _, _, rfl⟩ := h.eq
          exact { hk with }
      | shutdown => exact { hk with }
      | _ => cases hp

/-! ## The system -/

/-- The process `p` has not left, holds the descriptor `d` of the queue `q`, and is registered with
`q` for `mode` through the entry `k`. -/
structure Holds (a : Model) (p d q : Addr) (mode : Int) (k : Addr) : Prop where
  alive : a.Alive p
  descriptor : d ∈ a.descriptors p
  resource : a.desResource d = .mq q
  registration : a.registration q mode = some k
  entry : a.StandsFor k p

/-- An entry that is in use stands for the same process after every step. -/
theorem Step.standsFor (h : Step clean a act a') (hk : a.StandsFor k p) : a'.StandsFor k p := by
  cases h with
  | tick _ h =>
      obtain ⟨_, _, _, _, _, _, rfl⟩ := h.eq
      exact { hk with }
  | syscall _ h => exact h.standsFor { hk with }
  | store _ => exact { hk with }

/-- A process keeps its descriptor until it closes it or exits. -/
theorem Step.keeps_descriptor (h : Step clean a act a') (hI : a.Inv) (hI' : a'.Inv)
    (hD : a.Distinct) (halive : a.Alive p) (hmem : d ∈ a.descriptors p)
    (hexit : ∀ v, act = .syscall (.exit v) → a.running ≠ some p)
    (hclose : ∀ r fd mode', a.running = some r → act = .syscall (.closeResource fd mode') →
      a.descriptorByFd r fd.toInt ≠ some d) :
    d ∈ a'.descriptors p ∧ a'.desResource d = a.desResource d ∧ a'.desFd d = a.desFd d := by
  cases h.descriptors hI hI' hD with
  | same _ _ hsame =>
      rw [hsame.descriptors, hsame.data]
      exact ⟨hmem, rfl, rfl⟩
  | created x _ hx =>
      have hpx : p ≠ x := fun heq => hx.fresh (heq ▸ halive.used)
      rw [hx.descriptors, Function.update_of_ne hpx, hx.data]
      exact ⟨hmem, rfl, rfl⟩
  | opened r _ _ _ res d' u _ _ hA =>
      have hne : d ≠ d' := by
        rintro rfl
        exact (hI.desc.linked p d hmem).2.used.2 hA.fresh
      rw [hA.descriptors, hA.resource, hA.fd, Function.update_of_ne hne, Function.update_of_ne hne]
      exact ⟨ChildLists.mem_add.2 (Or.inl hmem), rfl, rfl⟩
  | closed r fd mode' d' hr hact hd' hc =>
      have hne : d ≠ d' := fun heq => hclose r fd mode' hr hact (heq ▸ hd')
      rw [hc.descriptors, hc.data]
      by_cases hpr : p = r
      · subst hpr
        rw [Function.update_self]
        exact ⟨(List.mem_erase_of_ne hne).2 hmem, rfl, rfl⟩
      · rw [Function.update_of_ne hpr]
        exact ⟨hmem, rfl, rfl⟩
  | left r v hr hact _ hc =>
      have hpr : p ≠ r := by
        rintro rfl
        exact hexit v hact hr
      rw [hc.descriptors, hc.data, Function.update_of_ne hpr]
      exact ⟨hmem, rfl, rfl⟩

/-- A process keeps its descriptor and its registration until it closes the one or exits, if nobody
closes another descriptor of the queue with the mode of the registration. -/
theorem Step.holds (h : Step clean a act a') (hH : a.Holds p d q mode k) (hI : a.Inv)
    (hI' : a'.Inv) (hD : a.Distinct)
    (hexit : ∀ v, act = .syscall (.exit v) → a.running ≠ some p)
    (hclose : ∀ r fd mode', a.running = some r → act = .syscall (.closeResource fd mode') →
      a.descriptorByFd r fd.toInt ≠ some d)
    (hother : ∀ r fd mode' d', a.running = some r → act = .syscall (.closeResource fd mode') →
      a.descriptorByFd r fd.toInt = some d' → a.desResource d' = .mq q → mode'.toInt = mode →
      d' = d) : a'.Holds p d q mode k := by
  obtain ⟨hmem, hres, -⟩ :=
    h.keeps_descriptor hI hI' hD hH.alive hH.descriptor hexit hclose
  refine ⟨h.alive_mono hI hI' hH.alive hexit, hmem, hres.trans hH.resource, ?_,
    h.standsFor hH.entry⟩
  -- only a `closeResource` with this mode drops the registration
  have hset : a.registration q mode ≠ none := by
    rw [hH.registration]
    exact nofun
  rcases h.registration hset with heq | ⟨r, fd, mode', d', hr, hact, hd', hq, hm⟩
  · exact heq.trans hH.registration
  · exact absurd (hother r fd mode' d' hr hact hd' hq hm ▸ hd') (hclose r fd mode' hr hact)

end Model

end DisastrOS
