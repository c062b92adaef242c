import DisastrOS.Abstract.Descriptors
import Mathlib.Tactic.MkIffOfInductiveProp

/-!
# The outcomes of `openResource`

A call is refused by one of its checks and then changes nothing, or it prepares the resource: it
creates it, or registers the caller with it. Only after that does it ask for a descriptor, and when
there is none it keeps what it has prepared.
-/

set_option autoImplicit false

namespace DisastrOS

/-- The error codes of `openResource`. -/
def openErrors : List Int :=
  [dsosEResourceCreate, dsosEResourceOpen, dsosEResourceNoExcl, dsosEResourceNoFd]

namespace Model

variable {a a₁ a' : Model} {r : Addr} {id type mode : Int} {res : ResourceRef}

/-- The id is taken, or there is no such resource, or it is not free for this mode. -/
def OpenRefused (a : Model) (id type mode : Int) : Prop :=
  (mode = dsosCreate ∧ a.resourceById id ≠ none) ∨
    (mode ≠ dsosCreate ∧ ∀ res ∈ a.resourceById id, a.resourceType res = type →
      (mode = dsosExcl ∧ a.descriptorsPtrs res ≠ []) ∨ Taken a res mode)

/-- The call creates no resource and registers nobody. -/
def PreparesNothing (a : Model) (id mode : Int) : Prop :=
  mode ≠ dsosCreate ∧ ∀ q, a.resourceById id = some (.mq q) → mode ≠ dsosRead ∧ mode ≠ dsosWrite

/-- The resource `res` that the call is about exists, and the caller is registered with it if the
mode asks for that. -/
inductive Prepared (a : Model) (r : Addr) (id type mode : Int) : ResourceRef → Model → Prop where
  | existing {res : ResourceRef} {a₁ : Model} : mode ≠ dsosCreate →
      a.resourceById id = some res → a.resourceType res = type →
      (mode = dsosExcl → a.descriptorsPtrs res = []) → Register a r res mode a₁ →
      Prepared a r id type mode res a₁
  | created {res : ResourceRef} {a₁ : Model} : mode = dsosCreate → a.resourceById id = none →
      AddResource a id type res a₁ → Prepared a r id type mode res a₁

/-! ## What is prepared -/

/-- A registration that succeeds was not taken. -/
theorem Register.taken (h : Register a r res mode a₁) : ¬ Taken a res mode := by
  rintro ⟨q, rfl, hq⟩
  cases h with
  | none hno =>
      obtain ⟨hread, hwrite⟩ := hno q rfl
      exact hq.elim (fun h => hread h.1) fun h => hwrite h.1
  | reading heq hmode hfree _ =>
      obtain rfl := ResourceRef.mq.inj heq
      rcases hq with ⟨-, hne⟩ | ⟨hwrite, -⟩
      · exact hne hfree
      · exact absurd (hmode.symm.trans hwrite) (by decide)
  | writing heq hmode hfree _ =>
      obtain rfl := ResourceRef.mq.inj heq
      rcases hq with ⟨hread, -⟩ | ⟨-, hne⟩
      · exact absurd (hmode.symm.trans hread) (by decide)
      · exact hne hfree

/-- A registration takes an entry from the pool. -/
theorem Register.entry (h : Register a r res mode a₁) (hneeds : a.NeedsEntry res mode) :
    ∃ e, a.freePcbPtrs = e :: a₁.freePcbPtrs := by
  obtain ⟨q, rfl, hq⟩ := hneeds
  cases h with
  | none hno =>
      obtain ⟨hread, hwrite⟩ := hno q rfl
      exact absurd hq (not_or.2 ⟨fun h => hread h.1, fun h => hwrite h.1⟩)
  | reading _ _ _ he => exact ⟨_, he⟩
  | writing _ _ _ he => exact ⟨_, he⟩

/-- `DSOS_CREATE` registers nobody. -/
theorem Register.of_create (h : Register a r res mode a₁) (hmode : mode = dsosCreate) : a₁ = a := by
  cases h with
  | none _ => rfl
  | reading _ hm _ _ => exact absurd (hmode.symm.trans hm) (by decide)
  | writing _ hm _ _ => exact absurd (hmode.symm.trans hm) (by decide)

theorem Prepared.free_eq (h : Prepared a r id type mode res a₁) :
    a₁.freeDescriptors = a.freeDescriptors ∧ a₁.freeDescriptorPtrs = a.freeDescriptorPtrs := by
  cases h with
  | existing _ _ _ _ hreg =>
      obtain ⟨_, _, _, _, rfl, -, -⟩ := hreg.eq
      exact ⟨rfl, rfl⟩
  | created _ _ hadd => exact hadd.free_eq

/-- Before the descriptor is attached, no list of descriptors has changed. -/
theorem Prepared.descriptors_eq (h : Prepared a r id type mode res a₁) :
    a₁.descriptors = a.descriptors ∧ a₁.lastFd = a.lastFd := by
  cases h with
  | existing _ _ _ _ hreg => exact ⟨hreg.sameDescriptors.descriptors, hreg.sameDescriptors.lastFd⟩
  | created _ _ hadd => cases hadd <;> exact ⟨rfl, rfl⟩

/-- A call that has got as far as its resource is not refused. -/
theorem Prepared.not_refused (h : Prepared a r id type mode res a₁) :
    ¬ a.OpenRefused id type mode := by
  cases h with
  | existing hmode hid htype hexcl hreg =>
      rintro (⟨hcreate, -⟩ | ⟨-, hall⟩)
      · exact hmode hcreate
      · rcases hall _ hid htype with ⟨hm, hne⟩ | htaken
        · exact hne (hexcl hm)
        · exact hreg.taken htaken
  | created hmode hid _ =>
      rintro (⟨-, hsome⟩ | ⟨hne, -⟩)
      · exact hsome hid
      · exact hne hmode

/-- A call that has got as far as its resource was not stuck before. -/
theorem Prepared.not_stuck (h : Prepared a r id type mode res a₁) :
    ¬ a.OpenStuck id type mode := by
  cases h with
  | existing hmode hid _ _ hreg =>
      rintro (⟨hcreate, -, -⟩ | ⟨-, hnil, res', hid', -, hneeds⟩)
      · exact hmode hcreate
      · obtain rfl := Option.some.inj (hid.symm.trans hid')
        obtain ⟨e, he⟩ := hreg.entry hneeds
        rw [hnil] at he
        cases he
  | created hmode _ hadd =>
      rintro (⟨-, -, hcan⟩ | ⟨hne, -, -⟩)
      · apply hcan
        cases hadd with
        | standard htype hb => exact Or.inl ⟨htype, by rw [hb]; exact List.cons_ne_nil _ _⟩
        | mq htype hb => exact Or.inr ⟨htype, by rw [hb]; exact List.cons_ne_nil _ _⟩
      · exact hne hmode

/-- A refused call does not get as far as the pools. -/
theorem OpenRefused.not_stuck (h : a.OpenRefused id type mode) : ¬ a.OpenStuck id type mode := by
  rintro (⟨hmode, hid, -⟩ | ⟨hmode, -, res, hid, htype, q, rfl, hneeds⟩)
  · rcases h with ⟨-, hsome⟩ | ⟨hne, -⟩
    · exact hsome hid
    · exact hne hmode
  · rcases h with ⟨hcreate, -⟩ | ⟨-, hall⟩
    · exact hmode hcreate
    · rcases hall _ hid htype with ⟨hexcl, -⟩ | ⟨q', heq, htaken⟩
      · rcases hneeds with ⟨hm, -⟩ | ⟨hm, -⟩
        · exact absurd (hm.symm.trans hexcl) (by decide)
        · exact absurd (hm.symm.trans hexcl) (by decide)
      · obtain rfl := ResourceRef.mq.inj heq
        rcases hneeds with ⟨hm, hfree⟩ | ⟨hm, hfree⟩
        · rcases htaken with ⟨-, hne⟩ | ⟨hw, -⟩
          · exact hne hfree
          · exact absurd (hm.symm.trans hw) (by decide)
        · rcases htaken with ⟨hr, -⟩ | ⟨-, hne⟩
          · exact absurd (hm.symm.trans hr) (by decide)
          · exact hne hfree

/-! ## The outcomes -/

theorem attach_retvalue (a : Model) (r : Addr) (res : ResourceRef) (d e : Addr)
    (ds es : List Addr) : (a.attach r res d e ds es).syscallRetvalue r = a.lastFd r :=
  Function.update_self ..

/-- A prepared resource gets a descriptor if there is one. -/
inductive Attaches (a a₁ : Model) (r : Addr) (res : ResourceRef) : Model → Prop where
  | noDescriptor : a.freeDescriptors = [] → Attaches a a₁ r res (a₁.answer r dsosEResourceNoFd)
  | opened {d e : Addr} {ds es : List Addr} : a.freeDescriptors = d :: ds →
      a.freeDescriptorPtrs = e :: es → Attaches a a₁ r res (a₁.attach r res d e ds es)

theorem attach_descriptors (a : Model) (r : Addr) (res : ResourceRef) (d e : Addr)
    (ds es : List Addr) :
    (a.attach r res d e ds es).descriptors r = a.descriptors r ++ [d] := Function.update_self ..

/-- A call is refused, or it prepares the resource and asks for a descriptor. -/
theorem OpenStep.outcome (h : OpenStep a r id type mode a') :
    (a.OpenRefused id type mode ∧ ∃ v ∈ openErrors, a' = a.answer r v) ∨
      ∃ res a₁, Prepared a r id type mode res a₁ ∧ Attaches a a₁ r res a' := by
  cases h with
  | alreadyExists hmode hid =>
      exact Or.inl ⟨Or.inl ⟨hmode, hid⟩, _, by simp [openErrors], rfl⟩
  | unavailable hmode hno =>
      refine Or.inl ⟨Or.inr ⟨hmode, fun res hres htype => absurd htype (hno res hres)⟩, _, ?_, rfl⟩
      simp [openErrors]
  | @found _ res hmode hid htype hopen =>
      have hrefused : (mode = dsosExcl ∧ a.descriptorsPtrs res ≠ []) ∨ Taken a res mode →
          a.OpenRefused id type mode := by
        refine fun hno => Or.inr ⟨hmode, fun res' hres' _ => ?_⟩
        obtain rfl := Option.some.inj (hid.symm.trans hres')
        exact hno
      cases hopen with
      | notExclusive hm hne =>
          exact Or.inl ⟨hrefused (Or.inl ⟨hm, hne⟩), _, by simp [openErrors], rfl⟩
      | taken htaken => exact Or.inl ⟨hrefused (Or.inr htaken), _, by simp [openErrors], rfl⟩
      | noDescriptor hexcl hreg hnil =>
          have hprep : Prepared a r id type mode res _ := .existing hmode hid htype hexcl hreg
          exact Or.inr ⟨res, _, hprep, .noDescriptor (hprep.free_eq.1.symm.trans hnil)⟩
      | opened hexcl hreg hd he =>
          have hprep : Prepared a r id type mode res _ := .existing hmode hid htype hexcl hreg
          exact Or.inr ⟨res, _, hprep, .opened (hprep.free_eq.1.symm.trans hd)
            (hprep.free_eq.2.symm.trans he)⟩
  | @created a₁ _ res hmode hid hadd hopen =>
      have hprep : Prepared a r id type mode res a₁ := .created hmode hid hadd
      cases hopen with
      | notExclusive hm _ => exact absurd (hmode.symm.trans hm) (by decide)
      | taken htaken =>
          obtain ⟨-, -, ⟨hm, -⟩ | ⟨hm, -⟩⟩ := htaken
          · exact absurd (hmode.symm.trans hm) (by decide)
          · exact absurd (hmode.symm.trans hm) (by decide)
      | noDescriptor _ hreg hnil =>
          have hsame := hreg.of_create hmode
          subst hsame
          exact Or.inr ⟨res, _, hprep, .noDescriptor (hprep.free_eq.1.symm.trans hnil)⟩
      | opened _ hreg hd he =>
          have hsame := hreg.of_create hmode
          subst hsame
          exact Or.inr ⟨res, _, hprep, .opened (hprep.free_eq.1.symm.trans hd)
            (hprep.free_eq.2.symm.trans he)⟩

/-! ## The tables -/

/-- The tables of resources and descriptors, the registrations and the pools of `a'` are those of
`a`. -/
@[mk_iff]
structure SameTables (a a' : Model) : Prop where
  resourcesList : a'.resourcesList = a.resourcesList
  descriptors : a'.descriptors = a.descriptors
  entries : a'.descriptorsPtrs = a.descriptorsPtrs
  readingPid : a'.readingPid = a.readingPid
  writingPid : a'.writingPid = a.writingPid
  lastFd : a'.lastFd = a.lastFd
  free : a'.toFreeBlocks = a.toFreeBlocks

theorem sameTables_answer (a : Model) (r : Addr) (v : Int) : SameTables a (a.answer r v) :=
  ⟨rfl, rfl, rfl, rfl, rfl, rfl, rfl⟩

theorem sameTables_enter {c : Syscall} : SameTables (a.enter r c) a' ↔ SameTables a a' :=
  ⟨fun h => { h with }, fun h => { h with }⟩

/-- A new descriptor is visible. -/
theorem not_sameTables_attach {d e : Addr} {ds es : List Addr}
    (h : a₁.descriptors = a.descriptors) : ¬ SameTables a (a₁.attach r res d e ds es) := by
  intro hsame
  have hlist := congrFun hsame.descriptors r
  rw [← h] at hlist
  simp [attach] at hlist

/-- Registering takes an entry, unless there is nothing to register. -/
theorem Register.pool_cases (h : Register a r res mode a₁) :
    (a₁ = a ∧ ∀ q, res = .mq q → mode ≠ dsosRead ∧ mode ≠ dsosWrite) ∨
      (∃ q, res = .mq q ∧ (mode = dsosRead ∨ mode = dsosWrite)) ∧
        ∃ e, a.freePcbPtrs = e :: a₁.freePcbPtrs := by
  cases h with
  | none hno => exact Or.inl ⟨rfl, hno⟩
  | reading heq hmode _ he => exact Or.inr ⟨⟨_, heq, Or.inl hmode⟩, _, he⟩
  | writing heq hmode _ he => exact Or.inr ⟨⟨_, heq, Or.inr hmode⟩, _, he⟩

/-- Opening changes the registrations exactly where the mode registers with a queue. -/
theorem Register.sameTables_iff (h : Register a r res mode a₁) :
    SameTables a a₁ ↔ ∀ q, res = .mq q → mode ≠ dsosRead ∧ mode ≠ dsosWrite := by
  rcases h.pool_cases with ⟨rfl, hno⟩ | ⟨⟨q, heq, hmode⟩, e, he⟩
  · exact iff_of_true ⟨rfl, rfl, rfl, rfl, rfl, rfl, rfl⟩ hno
  · refine iff_of_false (fun hsame => ?_) fun hno => ?_
    · have hfree : a₁.freePcbPtrs = a.freePcbPtrs := congrArg FreeBlocks.freePcbPtrs hsame.free
      rw [he] at hfree
      exact List.cons_ne_self _ _ hfree.symm
    · exact hmode.elim (hno q heq).1 (hno q heq).2

/-- A new resource changes the tables. -/
theorem AddResource.not_sameTables (h : AddResource a id type res a₁) : ¬ SameTables a a₁ := by
  intro hsame
  have hlist := hsame.resourcesList
  cases h with
  | standard _ _ => simp at hlist
  | mq _ _ => simp at hlist

/-- What has been prepared stays visible, unless it is nothing. -/
theorem Prepared.sameTables_iff (h : Prepared a r id type mode res a₁) :
    SameTables a a₁ ↔ a.PreparesNothing id mode := by
  cases h with
  | existing hmode hid _ _ hreg =>
      rw [hreg.sameTables_iff]
      constructor
      · refine fun hno => ⟨hmode, fun q hq => hno q ?_⟩
        exact Option.some.inj (hid.symm.trans hq)
      · exact fun hno q hq => hno.2 q (by rw [hid, hq])
  | created hmode _ hadd =>
      exact ⟨fun hsame => absurd hsame hadd.not_sameTables, fun hno => absurd hmode hno.1⟩

end Model

end DisastrOS
