import DisastrOS.Abstract.Descriptors
import DisastrOS.Refinement.SystemRun

/-!
# Resources of processes that have left

`exit` closes the descriptors of a process only if its parent is blocked in a `wait` for it. A
process that becomes a zombie keeps its descriptors, and `wait` frees its PCB with them. So the
resources of a process are released if it has closed them itself or is awaited when it exits.
-/

set_option autoImplicit false

namespace DisastrOS

open Runs Model

variable {clean : Addr → Prop} {counted : ProcList → Prop} {es : List (Event Kernel Action)}
  {s : Kernel} {e : Event Kernel Action} {a a' : Model} {r : Addr} {act : Action}

/-- The entries of all resources belong to descriptors of processes that have not left. -/
def EntriesAlive (s : Kernel) : Prop :=
  ∀ res, ∀ k ∈ s.descriptorsPtrsOf res, ∃ p, s.Alive p ∧ s.desptrDescriptor k ∈ s.descriptorsOf p

/-- If this is a `destroyResource` that is refused because the resource is in use, then a process
that has not left has it open. -/
def InUseJustified (e : Event Kernel Action) : Prop :=
  ∀ r id, e.pre.running = some r → e.act = .syscall (.destroyResource id) →
    e.post.syscallRetvalue r = dsosEResourceInUse →
    ∃ res ∈ e.pre.resources, e.pre.resourceId res = id.toInt ∧
      ∃ p, e.pre.Alive p ∧ ∃ d ∈ e.pre.descriptorsOf p, e.pre.desResource d = res

/-- If this is an exit, then the parent waits for the process, or it has no descriptors. -/
def ReleaseCondition (e : Event Kernel Action) : Prop :=
  match e.act with
  | .syscall (.exit _) => ∀ r ∈ e.pre.running, e.pre.parentAwaits r ∨ e.pre.descriptorsOf r = []
  | _ => True

/-- `ReleaseCondition` as a test. -/
def releaseTest (e : Event Kernel Action) : Bool :=
  match e.act with
  | .syscall (.exit _) =>
      decide (∀ r ∈ e.pre.running, e.pre.parentAwaits r ∨ e.pre.descriptorsOf r = [])
  | _ => true

theorem ReleaseCondition.of_test (h : releaseTest e = true) : ReleaseCondition e := by
  unfold ReleaseCondition
  split
  · rename_i hact
    simpa only [releaseTest, hact, decide_eq_true_eq] using h
  · trivial

namespace Model

/-! ## The invariant -/

/-- The entries of all resources belong to descriptors of processes that have not left. -/
def Released (a : Model) : Prop :=
  ∀ res, ∀ k ∈ a.descriptorsPtrs res, ∃ p, a.Alive p ∧ a.desptrDescriptor k ∈ a.descriptors p

/-- The entries stay with their processes if descriptors and processes do. -/
theorem Released.keep (hL : a.Released) (h : SameDescriptors a a')
    (halive : ∀ p, a.Alive p → a.descriptors p ≠ [] → a'.Alive p) : a'.Released := by
  intro res k hk
  rw [h.entries] at hk
  obtain ⟨p, hp, hmem⟩ := hL res k hk
  rw [h.descriptors, h.data]
  exact ⟨p, halive p hp (List.ne_nil_of_mem hmem), hmem⟩

theorem Released.created {x : Addr} (hL : a.Released) (h : Created a x a')
    (halive : ∀ p, a.Alive p → a'.Alive p) : a'.Released := by
  intro res k hk
  rw [h.entries] at hk
  obtain ⟨p, hp, hmem⟩ := hL res k hk
  have hpx : p ≠ x := fun heq => h.fresh (heq ▸ hp.used)
  refine ⟨p, halive p hp, ?_⟩
  rwa [h.descriptors, Function.update_of_ne hpx, h.data]

theorem Released.attached {d u : Addr} {res : ResourceRef} (hL : a.Released)
    (h : Attached a r res d u a') (hI : a.DescInv) (hr : a.running = some r)
    (halive : ∀ p, a.Alive p → a'.Alive p) : a'.Released := by
  intro res' k hk
  rw [h.entries] at hk
  rw [h.back, h.descriptors]
  rcases ChildLists.mem_add.1 hk with hold | ⟨rfl, rfl⟩
  · obtain ⟨p, hp, hmem⟩ := hL res' k hold
    have hku : k ≠ u := by
      rintro rfl
      obtain ⟨hptr, -, hlinked⟩ := hI.entry res' k hold
      obtain ⟨k', hptr', -, hused, -⟩ := hlinked.ptr
      obtain rfl : k = k' := Option.some.inj (hptr.symm.trans hptr')
      exact hused.2 h.freshEntry
    rw [Function.update_of_ne hku]
    exact ⟨p, halive p hp, ChildLists.mem_add.2 (Or.inl hmem)⟩
  · rw [Function.update_self]
    exact ⟨r, halive r (Or.inl hr), ChildLists.mem_add.2 (Or.inr ⟨rfl, rfl⟩)⟩

theorem Released.closed {rest : List Addr} (hL : a.Released) (h : Closed a r rest a')
    (halive : ∀ p, a.Alive p → p ≠ r ∨ rest ≠ [] → a'.Alive p) : a'.Released := by
  intro res k hk
  obtain ⟨hk, hrest⟩ := h.entries res k hk
  obtain ⟨p, hp, hmem⟩ := hL res k hk
  rw [h.data, h.descriptors]
  by_cases hpr : p = r
  · subst hpr
    have hmem' := hrest hmem
    refine ⟨p, halive p hp (Or.inr (List.ne_nil_of_mem hmem')), ?_⟩
    rwa [Function.update_self]
  · refine ⟨p, halive p hp (Or.inl hpr), ?_⟩
    rwa [Function.update_of_ne hpr]

/-- A transition keeps the invariant, if a process that exits is awaited or has no descriptors. -/
theorem Step.released (h : Step clean a act a') (hL : a.Released) (hI : a.Inv) (hI' : a'.Inv)
    (hD : a.Distinct)
    (hsafe : ∀ r v, a.running = some r → act = .syscall (.exit v) →
      a.parentAwaits r ∨ a.descriptors r = []) : a'.Released := by
  have halive : ∀ p, a.Alive p → (∀ v, act = .syscall (.exit v) → a.running ≠ some p) →
      a'.Alive p := fun p hp hne => h.alive_mono hI hI' hp hne
  cases h.descriptors hI hI' hD with
  | same _ hexit hsame =>
      refine hL.keep hsame fun p hp hne => halive p hp fun v hv hrun => ?_
      -- nobody awaits the process that exits, so it has no descriptors
      exact hne ((hsafe p v hrun hv).resolve_left (hexit ⟨v, hv⟩ p hrun))
  | created x hact hx =>
      refine hL.created hx fun p hp => halive p hp fun v hv => ?_
      rw [hv] at hact
      cases hact
  | opened r id type mode res d u hr hact hA =>
      refine hL.attached hA hI.desc hr fun p hp => halive p hp fun v hv => ?_
      rw [hv] at hact
      cases hact
  | closed r fd mode d hr hact _ hc =>
      refine hL.closed hc fun p hp _ => halive p hp fun v hv => ?_
      rw [hv] at hact
      cases hact
  | left r v hr hact _ hc =>
      refine hL.closed hc fun p hp hne => halive p hp fun v' _ hrun => ?_
      rcases hne with hne | hne
      · exact hne (Option.some.inj (hrun.symm.trans hr))
      · exact hne rfl

/-- The answer that a resource is in use. -/
theorem DestroyStep.in_use {id : Int} (h : DestroyStep a r id a')
    (hanswer : a'.syscallRetvalue r = dsosEResourceInUse) :
    ∃ res, a.resourceById id = some res ∧ a.descriptorsPtrs res ≠ [] := by
  cases h with
  | notFound _ =>
      rw [answer_retvalue] at hanswer
      exact absurd hanswer (by decide)
  | @inUse res hfound hne => exact ⟨res, hfound, hne⟩
  | destroyed _ _ =>
      rw [answer_retvalue] at hanswer
      exact absurd hanswer (by decide)

end Model

/-! ## Runs -/

theorem Simulated.inUseJustified (h : Simulated counted e a a') (hL : a.Released) :
    InUseJustified e := by
  intro r id hrun hact hanswer
  obtain ⟨-, hs⟩ := h.handler hact hrun
  rw [h.post.data] at hanswer
  rw [h.pre.data, h.pre.resources_eq h.inv.res]
  cases hs with
  | destroyResource hs =>
      obtain ⟨res, hfound, hne⟩ := hs.in_use hanswer
      obtain ⟨hmem, hid⟩ := mem_of_resourceById hfound
      obtain ⟨k, hk⟩ := List.exists_mem_of_ne_nil _ hne
      obtain ⟨p, hp, hd⟩ := hL res k hk
      refine ⟨res, hmem, hid, p, (h.pre.alive_iff h.inv.proc).2 hp, a.desptrDescriptor k, ?_,
        (h.inv.desc.entry res k hk).2.1⟩
      rw [h.pre.descriptorsOf_eq h.inv.desc]
      exact hd

theorem SystemRun.released (h : SystemRun es s) (hsafe : ∀ e ∈ es, ReleaseCondition e) :
    ∃ a, Refines exceptZombies s a ∧ a.Inv ∧ a.Released := by
  refine h.invariant (J := fun _ a => a.Released) (P := fun _ e => ReleaseCondition e)
    (fun fs e gs heq => hsafe e (by simp [heq])) (fun chars ints res k hk => ?_)
    (fun _ _ _ _ hc => absurd rfl hc) fun es e a a' _ hL hsim hsafe => ?_
  · rw [start_descriptorsPtrs] at hk
    cases hk
  · apply hsim.step.released hL hsim.inv hsim.inv' hsim.distinct
    intro r v hr hact
    simp only [ReleaseCondition, hact] at hsafe
    have hsafe' := hsafe r (hsim.pre.running_eq.trans hr)
    rwa [hsim.pre.descriptorsOf_eq hsim.inv.desc, hsim.pre.data] at hsafe'

/-- In a run in which every process that exits is awaited or has no descriptors, the resources are
in use by processes that have not left only. -/
theorem termination_releases (h : SystemRun es s) (hsafe : ∀ e ∈ es, ReleaseCondition e) :
    EntriesAlive s ∧ ∀ e ∈ es, InUseJustified e := by
  obtain ⟨a, hR, hI, hL⟩ := h.released hsafe
  constructor
  · intro res k hk
    rw [hR.descriptorsPtrsOf_eq hI.desc] at hk
    obtain ⟨p, hp, hd⟩ := hL res k hk
    refine ⟨p, (hR.alive_iff hI.proc).2 hp, ?_⟩
    rw [hR.descriptorsOf_eq hI.desc, hR.data]
    exact hd
  · intro e he
    obtain ⟨fs, gs, rfl⟩ := List.append_of_mem he
    obtain ⟨hpre, hstep, -⟩ := h.split
    obtain ⟨a, hR, hI, hL⟩ := hpre.released fun f hf => hsafe f (List.mem_append_left _ hf)
    obtain ⟨a', hsim⟩ := hR.simulated hI hstep
    exact hsim.inUseJustified hL

/-- A child exits with a descriptor while its parent waits; the resource is then destroyed. -/
theorem termination_releases_awaited : ∃ (es : List (Event Kernel Action)) (s : Kernel),
    (es.length = 6 ∧ s.resources = []) ∧ EntriesAlive s ∧ ∀ e ∈ es, InUseJustified e := by
  obtain ⟨es, s, hrun, hp⟩ := exists_of_executes
    [.syscall (.spawn 1 0), .syscall (.wait 0 0), .syscall (.openResource 1 1 1),
      .syscall (.destroyResource 1), .syscall (.exit 0), .syscall (.destroyResource 1)]
    (fun es s => (∀ e ∈ es, releaseTest e) ∧ es.length = 6 ∧ s.resources = [])
    (by decide +kernel)
  obtain ⟨hsafe, hrest⟩ := of_decide_eq_true hp
  exact ⟨es, s, hrest, termination_releases hrun fun e he => .of_test (hsafe e he)⟩

/-- A child exits with a descriptor before its parent waits for it, and the resource stays in use
after the child has been collected. -/
theorem termination_keeps : ∃ (es : List (Event Kernel Action)) (s : Kernel), SystemRun es s ∧
    ¬ EntriesAlive s := by
  obtain ⟨es, s, hrun, hp⟩ := exists_of_executes
    [.syscall (.spawn 1 0), .syscall .preempt, .syscall (.openResource 1 1 1), .syscall (.exit 0),
      .syscall (.wait 0 0)]
    (fun _ s => s.running = some 0 ∧ s.processes .ready = [] ∧ s.processes .waiting = [] ∧
      s.descriptorsPtrsOf (.mq 0) ≠ [] ∧ s.descriptorsOf 0 = []) (by decide +kernel)
  obtain ⟨hr, hready, hwaiting, hentries, hnone⟩ := of_decide_eq_true hp
  refine ⟨es, s, hrun, fun h => ?_⟩
  obtain ⟨k, hk⟩ := List.exists_mem_of_ne_nil _ hentries
  obtain ⟨p, hp | hp | hp, hd⟩ := h (.mq 0) k hk
  · obtain rfl : 0 = p := Option.some.inj (hr.symm.trans hp)
    rw [hnone] at hd
    cases hd
  · rw [hready] at hp
    cases hp
  · rw [hwaiting] at hp
    cases hp

end DisastrOS
