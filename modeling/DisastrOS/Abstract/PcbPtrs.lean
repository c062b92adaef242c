import DisastrOS.Abstract.Sessions

/-!
# Entries for children and for registrations

The entries of the children lists and those of the registrations come from one pool. An entry of a
children list is returned when a `wait` collects the child, and only then. So an entry is lost when
an exit wakes the parent, when a registration is dropped, and when a registered queue is destroyed.
-/

set_option autoImplicit false

namespace DisastrOS.Model

open ChildLists

variable {clean : Addr → Prop} {a a' : Model} {r q k x : Addr} {c : Syscall} {act : Action}
  {id mode fd : Int}

/-! ## Entries of registrations -/

/-- Every registration, of any queue in any mode, has an entry of its own: a block that is in use
and on no list of children. -/
structure RegInv (a : Model) : Prop where
  block : ∀ q mode k, a.registration q mode = some k → IsBlock maxNumProcesses sizeofPCBPtr k
  entry : ∀ q mode k, a.registration q mode = some k → a.StandsFor k (a.ptrPcb k)
  own : ∀ q q' mode mode' k, a.registration q mode = some k → a.registration q' mode' = some k →
    q = q' ∧ mode = mode'

/-- A new entry for a registration belongs to no other registration. -/
theorem Enlists.regInv (h : Enlists a r q mode k a') (hG : a.RegInv) (hK : a.KidInv)
    (hfree : FreeOf maxNumProcesses sizeofPCBPtr a.freePcbPtrs) (hchildren : a'.children = a.children)
    (hkeep : ∀ k p, a.StandsFor k p → a'.StandsFor k p) : a'.RegInv := by
  obtain ⟨hnd, hblock⟩ := hfree
  have hmem : k ∈ a.freePcbPtrs := by rw [h.free]; exact List.mem_cons_self
  rw [h.free, List.nodup_cons] at hnd
  have hold : ∀ q' mode' k', a'.registration q' mode' = some k' →
      (q' = q ∧ mode' = mode ∧ k' = k) ∨ a.registration q' mode' = some k' := by
    intro q' mode' k' hk'
    rw [h.registration] at hk'
    split at hk'
    · rename_i heq
      exact Or.inl ⟨heq.1, heq.2, (Option.some.inj hk').symm⟩
    · exact Or.inr hk'
  -- `k` comes from the pool, so no old registration has it
  have hne : ∀ q' mode', a.registration q' mode' ≠ some k := fun q' mode' hk' =>
    (hG.entry q' mode' k hk').used hmem
  constructor
  · intro q' mode' k' hk'
    rcases hold q' mode' k' hk' with ⟨-, -, rfl⟩ | hk'
    · exact hblock k' hmem
    · exact hG.block q' mode' k' hk'
  · intro q' mode' k' hk'
    rcases hold q' mode' k' hk' with ⟨-, -, rfl⟩ | hk'
    · refine ⟨rfl, hnd.1, fun x hx => ?_⟩
      rw [hchildren] at hx
      exact (hK.used x k' hx).2 hmem
    · have hstands := hkeep k' _ (hG.entry q' mode' k' hk')
      exact ⟨rfl, hstands.used, hstands.unlisted⟩
  · intro q₁ q₂ m₁ m₂ k' h₁ h₂
    rcases hold q₁ m₁ k' h₁ with ⟨rfl, rfl, rfl⟩ | h₁
    · rcases hold q₂ m₂ k' h₂ with ⟨rfl, rfl, -⟩ | h₂
      · exact ⟨rfl, rfl⟩
      · exact absurd h₂ (hne q₂ m₂)
    · rcases hold q₂ m₂ k' h₂ with ⟨rfl, rfl, rfl⟩ | h₂
      · exact absurd h₁ (hne q₁ m₁)
      · exact hG.own q₁ q₂ m₁ m₂ k' h₁ h₂

/-- Registrations that are kept or dropped keep their entries. -/
theorem RegInv.mono (hG : a.RegInv)
    (hreg : ∀ q mode k, a'.registration q mode = some k → a.registration q mode = some k)
    (hkeep : ∀ k p, a.StandsFor k p → a'.StandsFor k p) : a'.RegInv := by
  constructor
  · intro q mode k hk
    exact hG.block q mode k (hreg q mode k hk)
  · intro q mode k hk
    have hstands := hkeep k _ (hG.entry q mode k (hreg q mode k hk))
    exact ⟨rfl, hstands.used, hstands.unlisted⟩
  · intro q q' mode mode' k hk hk'
    exact hG.own q q' mode mode' k (hreg q mode k hk) (hreg q' mode' k hk')

theorem Step.regInv (h : Step clean a act a') (hG : a.RegInv) (hI : a.Inv) (hD : a.Distinct) :
    a'.RegInv := by
  have hkeep : ∀ k p, a.StandsFor k p → a'.StandsFor k p := fun k p hk => h.standsFor hk
  cases h.registrations with
  | same hsame =>
      refine hG.mono (fun q mode k hk => ?_) hkeep
      rw [← hsame]
      exact hk
  | enlisted r id type mode q k hr hact _ hk =>
      subst hact
      have hchildren : a'.children = a.children := ((h.handler hr).sameProcesses rfl).children
      exact hk.regInv hG hI.kid hD.freePcbPtrs hchildren hkeep
  | delisted r fd mode d q _ _ _ _ hdrop =>
      refine hG.mono (fun q' mode' k hk => ?_) hkeep
      rw [hdrop.registration] at hk
      split at hk
      · cases hk
      · exact hk

/-! ## References -/

/-- A list of children or a registration of a queue that exists refers to the entry `k`. -/
def Referred (a : Model) (k : Addr) : Prop :=
  (∃ x, a.Used x ∧ k ∈ a.children x) ∨
    ∃ q mode, .mq q ∈ a.resourcesList ∧ a.registration q mode = some k

/-- Every entry that is not free is referred to. -/
def AllReferred (a : Model) : Prop :=
  ∀ k, IsBlock maxNumProcesses sizeofPCBPtr k → k ∉ a.freePcbPtrs → a.Referred k

/-- The action loses no entry. -/
def KeepsReferred (a : Model) : Action → Prop
  | .syscall (.exit _) => ∀ r ∈ a.running, ¬ a.parentAwaits r
  | .syscall (.closeResource fd mode) => ∀ r ∈ a.running, ∀ q ∈ a.queueByFd r fd.toInt,
      a.registration q mode.toInt = none
  | .syscall (.destroyResource id) => ∀ q ∈ a.queueById id.toInt, a.descriptorsPtrs (.mq q) = [] →
      ∀ mode, a.registration q mode = none
  | _ => True

theorem Referred.mono (h : a.Referred k)
    (hchild : ∀ x, a.Used x → k ∈ a.children x → ∃ y, a'.Used y ∧ k ∈ a'.children y)
    (hreg : ∀ q mode, .mq q ∈ a.resourcesList → a.registration q mode = some k →
      .mq q ∈ a'.resourcesList ∧ a'.registration q mode = some k) : a'.Referred k := by
  rcases h with ⟨x, hx, hk⟩ | ⟨q, mode, hq, hk⟩
  · exact Or.inl (hchild x hx hk)
  · exact Or.inr ⟨q, mode, hreg q mode hq hk⟩

/-- All entries stay referred to if the families and the registrations stay. -/
theorem AllReferred.keep (hA : a.AllReferred) (hused : ∀ x, a.Used x → a'.Used x)
    (hchildren : a'.children = a.children) (hfree : a'.freePcbPtrs = a.freePcbPtrs)
    (hreg : ∀ q mode k, .mq q ∈ a.resourcesList → a.registration q mode = some k →
      .mq q ∈ a'.resourcesList ∧ a'.registration q mode = some k) : a'.AllReferred := by
  intro k hk hout
  rw [hfree] at hout
  refine (hA k hk hout).mono (fun x hx hkx => ⟨x, hused x hx, ?_⟩) fun q mode => hreg q mode k
  rw [hchildren]
  exact hkx

/-! ## Children -/

theorem CreateStep.allReferred (h : CreateStep a r a') (hA : a.AllReferred) (hF : a.FamInv)
    (hP : a.ProcInv) (hP' : a'.ProcInv) (hr : a.running = some r) : a'.AllReferred := by
  cases h with
  | @created x e xs es hfree hptr =>
      have hx : ¬ a.Used x := hP.free_fresh (by rw [hfree]; exact List.mem_cons_self)
      have hmem : ∀ {y u}, u ∈ a.children y ∨ (y = r ∧ u = e) →
          u ∈ (a.create r x e xs es).children y := by
        intro y u hu
        rw [hF.create_children hx]
        exact mem_add.2 hu
      intro k hk hout
      by_cases hke : k = e
      · exact Or.inl ⟨r, (used_create hP hP' hfree).2 (Or.inl (Or.inl hr)), hmem (Or.inr ⟨rfl, hke⟩)⟩
      · have hold : k ∉ a.freePcbPtrs := by
          rw [hptr, List.mem_cons, not_or]
          exact ⟨hke, hout⟩
        refine (hA k hk hold).mono (fun y hy hky => ?_) fun q mode hq hreg => ⟨hq, hreg⟩
        exact ⟨y, (used_create hP hP' hfree).2 (Or.inl hy), hmem (Or.inl hky)⟩

/-- A `wait` that collects a child returns its entry. -/
theorem WaitStep.allReferred (h : WaitStep a r a') (hA : a.AllReferred) (hF : a.FamInv)
    (hP : a.ProcInv) (hP' : a'.ProcInv) : a'.AllReferred := by
  cases h with
  | noChildren hnil =>
      have hsame : SameFamilies a (a.answer r dsosEWait) :=
        ⟨rfl, rfl, rfl, rfl, rfl, rfl, rfl, fun _ _ => rfl⟩
      exact hA.keep (fun x hx => (hsame.used_iff hP hP').2 hx) rfl rfl
        fun q mode k hq hreg => ⟨hq, hreg⟩
  | @block e next rest he hz hready =>
      have hsame : SameFamilies a (a.block r next rest) :=
        ⟨rfl, rfl, rfl, rfl, rfl, rfl, rfl, fun _ _ => rfl⟩
      exact hA.keep (fun x hx => (hsame.used_iff hP hP').2 hx) rfl rfl
        fun q mode k hq hreg => ⟨hq, hreg⟩
  | @reap e he hz =>
      have hmem := mem_of_awaited he
      -- a zombie has handed its children over, so no entry is lost with it
      have hdead : a.children (a.ptrPcb e) = [] := hF.eq_nil fun halive =>
        (hP.alive_iff.1 halive).2 (hF.mem_zombies hP hmem hz)
      have hused := fun y => used_reap (y := y) hP hP' (hF.entry r e hmem).1
      have heq := reap_eq a r e
      intro k hk hout
      have hout' : k ∉ e :: a.freePcbPtrs := by
        rw [heq] at hout
        exact hout
      rw [List.mem_cons, not_or] at hout'
      refine (hA k hk hout'.2).mono (fun x hx hkx => ⟨x, (hused x).2 ⟨hx, ?_⟩, ?_⟩)
        fun q mode hq hreg => ?_
      · rintro rfl
        rw [hdead] at hkx
        cases hkx
      · rw [heq]
        exact (mem_remove (hF.nodup r) fun q hq => hF.list_eq hq hmem).2 ⟨hkx, hout'.1⟩
      · rw [heq]
        exact ⟨hq, hreg⟩

/-- An exit that wakes the parent drops the entry of the process, and does not return it. -/
theorem ExitStep.allReferred_iff (h : ExitStep a r a') (hA : a.AllReferred) (hF : a.FamInv)
    (hG : a.RegInv) (hI : a.Inv) (hI' : a'.Inv) (hr : a.running = some r) :
    a'.AllReferred ↔ ¬ a.parentAwaits r := by
  have hres := h.sameResources
  cases h with
  | @wakeParent init parent e hinit hne hparent hawaits hfind =>
      have hcond : a.parentAwaits r := by
        rw [Data.parentAwaits, hparent]
        exact hawaits
      refine iff_of_false (fun hA' => ?_) fun hn => hn hcond
      -- `e` leaves the list of the parent and does not return to the pool
      have hforest := hF.leave parent hI.proc hinit hne
      have hmem := List.mem_of_find?_eq_some hfind
      obtain ⟨q, hq⟩ : ∃ q, e ∈ a.children q := by
        rcases ((mem_leave_children parent hne).1 hmem).2 with hq | ⟨-, hq⟩
        · exact ⟨parent, hq⟩
        · exact ⟨r, hq⟩
      obtain ⟨hblock, hout⟩ := hI.kid.used q e hq
      obtain ⟨_, _, _, _, heq⟩ := exit_handOver_eq init parent e
        ((hI.proc.running_fresh hr).1 .zombie)
      have hout' : e ∉ ((a.leave r init parent).handOver r parent e).freePcbPtrs := by
        rw [heq]
        exact hout
      rcases hA' e hblock hout' with ⟨x, -, hx⟩ | ⟨q', mode, -, hreg⟩
      · rw [heq] at hx
        exact ((mem_remove (hforest.nodup parent) fun q hq => hforest.list_eq hq hmem).1 hx).2 rfl
      · rw [hres.resources] at hreg
        exact (hG.entry q' mode e hreg).unlisted q hq
  | @retire init parent next rest hinit hne hparent hawaits hready =>
      have hcond : ¬ a.parentAwaits r := by
        rw [Data.parentAwaits, hparent]
        exact hawaits
      -- no entry is lost, those of the children go to init
      refine iff_of_true (fun k hk hout => ?_) hcond
      have hused : ∀ {y}, a.Used y → ((a.leave r init parent).retire next rest).Used y := by
        intro y hy
        rw [hI'.proc.used_iff]
        exact hI.proc.used_iff.1 hy
      obtain ⟨i, hi, -, halive⟩ := hI.proc.init
      obtain rfl : i = init := Option.some.inj (hi.symm.trans hinit)
      refine (hA k hk hout).mono (fun x hx hkx => ?_) fun q mode hq hreg => ⟨hq, hreg⟩
      by_cases hxr : x = r
      · subst hxr
        exact ⟨i, hused halive.used,
          (mem_leave_children parent hne).2 ⟨hne.symm, Or.inr ⟨rfl, hkx⟩⟩⟩
      · exact ⟨x, hused hx, (mem_leave_children parent hne).2 ⟨hxr, Or.inl hkx⟩⟩

/-! ## Registrations -/

/-- A registration that is no longer found leaves an entry that nothing refers to. -/
theorem RegInv.lost (hG : a.RegInv) (hk : a.registration q mode = some k)
    (hchildren : a'.children = a.children) (hfree : a'.freePcbPtrs = a.freePcbPtrs)
    (hreg : ∀ q' mode', .mq q' ∈ a'.resourcesList → a'.registration q' mode' = some k →
      a.registration q' mode' = some k ∧ ¬ (q' = q ∧ mode' = mode)) : ¬ a'.AllReferred := by
  intro hA
  have hstands := hG.entry q mode k hk
  rcases hA k (hG.block q mode k hk) (hfree ▸ hstands.used) with ⟨x, -, hx⟩ | ⟨q', mode', hq', hk'⟩
  · rw [hchildren] at hx
    exact hstands.unlisted x hx
  · obtain ⟨hold, hother⟩ := hreg q' mode' hq' hk'
    exact hother (hG.own q' q mode' mode k hold hk)

theorem OpenStep.allReferred {type : Int} (h : OpenStep a r id type mode a') (hA : a.AllReferred)
    (hchildren : a'.children = a.children) (hused : ∀ x, a.Used x → a'.Used x)
    (hlist : ∀ res, res ∈ a.resourcesList → res ∈ a'.resourcesList) : a'.AllReferred := by
  rcases h.registrations with hsame | ⟨q, k, hq, hk⟩
  · refine hA.keep hused hchildren hsame.free fun q mode k hq hreg => ⟨hlist _ hq, ?_⟩
    rw [hsame.registration]
    exact hreg
  · intro u hu hout
    by_cases huk : u = k
    · refine Or.inr ⟨q, mode, hlist _ (mem_of_queueById hq).2.1, ?_⟩
      rw [hk.registration, if_pos ⟨rfl, rfl⟩, huk]
    · have hold : u ∉ a.freePcbPtrs := by
        rw [hk.free, List.mem_cons, not_or]
        exact ⟨huk, hout⟩
      refine (hA u hu hold).mono (fun x hx hux => ⟨x, hused x hx, hchildren ▸ hux⟩)
        fun q' mode' hq' hreg => ⟨hlist _ hq', ?_⟩
      have hne : ¬ (q' = q ∧ mode' = mode) := by
        rintro ⟨rfl, rfl⟩
        rw [hk.vacant] at hreg
        cases hreg
      rw [hk.registration, if_neg hne]
      exact hreg

/-- `closeResource` loses the entry of the registration that it drops. -/
theorem CloseStep.allReferred_iff (h : CloseStep a r fd mode a') (hA : a.AllReferred)
    (hG : a.RegInv) (hchildren : a'.children = a.children) (hused : ∀ x, a.Used x → a'.Used x)
    (hlist : ∀ res, res ∈ a.resourcesList → res ∈ a'.resourcesList) :
    a'.AllReferred ↔ ∀ q ∈ a.queueByFd r fd, a.registration q mode = none := by
  rcases h.registrations with hsame | ⟨d, q, hd, hq, hdrop⟩
  · refine iff_of_true ?_ fun q hq => ?_
    · refine hA.keep hused hchildren hsame.free fun q mode k hq hreg => ⟨hlist _ hq, ?_⟩
      rw [hsame.registration]
      exact hreg
    -- a descriptor of a queue would drop the registration
    · obtain ⟨d, hd, hres⟩ := mem_of_queueByFd hq
      rw [← hsame.registration, (h.delists hd hres).registration, if_pos ⟨rfl, rfl⟩]
  · have hfd : a.queueByFd r fd = some q := by
      rw [queueByFd, hd, Option.map_some, hq]
    constructor
    · intro hA' q' hq'
      obtain rfl : q = q' := Option.some.inj (hfd.symm.trans hq')
      by_contra hset
      obtain ⟨k, hk⟩ := Option.ne_none_iff_exists'.1 hset
      refine hG.lost hk hchildren hdrop.free (fun q' mode' _ hk' => ?_) hA'
      rw [hdrop.registration] at hk'
      split at hk'
      · cases hk'
      · exact ⟨hk', ‹_›⟩
    · intro hvacant
      refine hA.keep hused hchildren hdrop.free fun q' mode' k hq' hreg => ⟨hlist _ hq', ?_⟩
      have hne : ¬ (q' = q ∧ mode' = mode) := by
        rintro ⟨rfl, rfl⟩
        rw [hvacant q' hfd] at hreg
        cases hreg
      rw [hdrop.registration, if_neg hne]
      exact hreg

/-- `destroyResource` loses the entries of the registrations of the queue. -/
theorem DestroyStep.allReferred_iff (h : DestroyStep a r id a') (hA : a.AllReferred)
    (hG : a.RegInv) (hnd : a.resourcesList.Nodup) (hchildren : a'.children = a.children)
    (hused : ∀ x, a.Used x → a'.Used x) :
    a'.AllReferred ↔ ∀ q ∈ a.queueById id, a.descriptorsPtrs (.mq q) = [] →
      ∀ mode, a.registration q mode = none := by
  have hsame := h.sameRegistrations
  -- a call that destroys nothing loses nothing
  have hkeep : a'.resourcesList = a.resourcesList → a'.AllReferred := by
    intro hlist
    refine hA.keep hused hchildren hsame.free fun q mode k hq hreg => ⟨hlist ▸ hq, ?_⟩
    rw [hsame.registration]
    exact hreg
  have hnone : ∀ res, a.resourceById id = some res → ∀ q ∈ a.queueById id, res = .mq q := by
    intro res hres q hq
    rw [queueById, hres] at hq
    cases res with
    | standard b => cases hq
    | mq q' => rw [Option.some.inj hq]
  cases h with
  | notFound hfound =>
      apply iff_of_true (hkeep rfl)
      intro q hq
      rw [queueById, hfound] at hq
      cases hq
  | inUse hfound hne =>
      apply iff_of_true (hkeep rfl)
      intro q hq hnil
      rw [hnone _ hfound q hq] at hne
      exact absurd hnil hne
  | @destroyed res hfound hnil =>
      cases res with
      | standard b =>
          refine iff_of_true ?_ fun q hq => absurd (hnone _ hfound q hq) (by simp)
          refine hA.keep hused hchildren hsame.free fun q mode k hq hreg => ⟨?_, hreg⟩
          exact (List.mem_erase_of_ne (by simp)).2 hq
      | mq q =>
          -- the entries of the registrations of `q` are the ones that go
          have hfd : a.queueById id = some q := by rw [queueById, hfound]
          constructor
          · intro hA' q' hq' _ mode
            obtain rfl : q = q' := Option.some.inj (hfd.symm.trans hq')
            by_contra hset
            obtain ⟨k, hk⟩ := Option.ne_none_iff_exists'.1 hset
            refine hG.lost hk hchildren hsame.free (fun q' mode' hq' hk' => ⟨hk', ?_⟩) hA'
            rintro ⟨rfl, rfl⟩
            exact (hnd.mem_erase_iff.1 hq').1 rfl
          · intro hvacant
            refine hA.keep hused hchildren hsame.free fun q' mode' k hq' hreg => ⟨?_, hreg⟩
            refine (List.mem_erase_of_ne fun heq => ?_).2 hq'
            rw [ResourceRef.mq.inj heq, hvacant q hfd hnil mode'] at hreg
            cases hreg

/-! ## The system -/

/-- A transition keeps all entries referred to if and only if it is none of the three that lose an
entry. -/
theorem HandlerStep.allReferred_iff (h : HandlerStep clean (a.enter r c) r c a')
    (hA : a.AllReferred) (hF : a.FamInv) (hG : a.RegInv) (hI : a.Inv) (hI' : a'.Inv)
    (hD : a.Distinct) (hr : a.running = some r) :
    a'.AllReferred ↔ a.KeepsReferred (.syscall c) := by
  have hI₁ := hI.enter hr c
  have hA₁ : (a.enter r c).AllReferred := hA
  have hG₁ : (a.enter r c).RegInv :=
    { hG with entry := fun q mode k hk => { hG.entry q mode k hk with } }
  have hF₁ := (sameFamilies_enter a r c).famInv hF hI.proc hI₁.proc hI.kid
  cases hc : c.onProcesses with
  | true =>
      have hsame : ∀ {b : Model}, SameFamilies (a.enter r c) b → b.ProcInv →
          ∀ x, (a.enter r c).Used x → b.Used x := fun hsame hP x hx =>
        (hsame.used_iff hI₁.proc hP).2 hx
      cases h with
      | preempt h =>
          have hused := hsame h.sameFamilies hI'.proc
          obtain ⟨_, _, _, _, _, _, rfl⟩ := h.eq
          exact iff_of_true (hA₁.keep hused rfl rfl fun _ _ _ hq hk => ⟨hq, hk⟩) trivial
      | fork h => exact iff_of_true (h.allReferred hA₁ hF₁ hI₁.proc hI'.proc hr) trivial
      | spawn h => exact iff_of_true (h.allReferred hA₁ hF₁ hI₁.proc hI'.proc hr) trivial
      | wait h => exact iff_of_true (h.allReferred hA₁ hF₁ hI₁.proc hI'.proc) trivial
      | exit h =>
          -- the wakeup of a waiting parent drops the entry of the child
          rw [h.allReferred_iff hA₁ hF₁ hG₁ hI₁ hI' hr, parentAwaits_enter hI.proc hr]
          exact (forall_running (Q := fun p => ¬ a.parentAwaits p) hr).symm
      | sleep h =>
          have hused := hsame h.sameFamilies hI'.proc
          obtain ⟨_, _, _, _, _, _, _, _, rfl⟩ := h.eq
          exact iff_of_true (hA₁.keep hused rfl rfl fun _ _ _ hq hk => ⟨hq, hk⟩) trivial
      | shutdown =>
          exact iff_of_true (hA₁.keep (fun _ hx => hx) rfl rfl fun _ _ _ hq hk => ⟨hq, hk⟩) trivial
      | _ => cases hc
  | false =>
      have hsame := h.sameProcesses hc
      have hused : ∀ x, (a.enter r c).Used x → a'.Used x := fun x hx =>
        (hsame.sameFamilies.used_iff hI₁.proc hI'.proc).2 hx
      have hlist : (∀ id, c ≠ .destroyResource id) → ∀ res, res ∈ (a.enter r c).resourcesList →
          res ∈ a'.resourcesList := fun hne res hres =>
        (h.keeps_resource hI₁ hres fun id heq => absurd heq (hne id)).1
      cases h with
      | openResource h =>
          exact iff_of_true (h.allReferred hA₁ hsame.children hused (hlist (by simp))) trivial
      | @closeResource fd mode _ h =>
          rw [h.allReferred_iff hA₁ hG₁ hsame.children hused (hlist (by simp))]
          exact (forall_running (Q := fun p => ∀ q ∈ a.queueByFd p fd.toInt,
            a.registration q mode.toInt = none) hr).symm
      | destroyResource h =>
          exact h.allReferred_iff hA₁ hG₁ hD.resourcesList hsame.children hused
      | mqRead h =>
          refine iff_of_true ?_ trivial
          cases h <;> exact hA₁.keep hused rfl rfl fun _ _ _ hq hk => ⟨hq, hk⟩
      | mqWrite h =>
          refine iff_of_true ?_ trivial
          cases h <;> exact hA₁.keep hused rfl rfl fun _ _ _ hq hk => ⟨hq, hk⟩
      | _ => cases hc

theorem Step.allReferred_iff (h : Step clean a act a') (hA : a.AllReferred) (hF : a.FamInv)
    (hG : a.RegInv) (hI : a.Inv) (hI' : a'.Inv) (hD : a.Distinct) :
    a'.AllReferred ↔ a.KeepsReferred act := by
  cases h with
  | tick _ h =>
      have hsame : SameFamilies a a' := { h.sameFamilies with }
      have hused : ∀ x, a.Used x → a'.Used x := fun x hx => (hsame.used_iff hI.proc hI'.proc).2 hx
      obtain ⟨_, _, _, _, _, _, rfl⟩ := h.eq
      exact iff_of_true (hA.keep hused rfl rfl fun _ _ _ hq hk => ⟨hq, hk⟩) trivial
  | syscall hr h => exact h.allReferred_iff hA hF hG hI hI' hD hr
  | store _ => exact iff_of_true hA trivial

/-- The families stay complete while nobody who exits is awaited: no exit looks up its own entry. -/
theorem Step.famInv_of_keepsReferred (h : Step clean a act a') (hF : a.FamInv) (hI : a.Inv)
    (hI' : a'.Inv) (hkeeps : a.KeepsReferred act) : a'.FamInv := by
  refine h.famInv hF (fun r v hr hact => ?_) hI hI'
  subst hact
  intro init parent e _ _ hparent hawaits
  refine absurd ?_ (hkeeps r hr)
  rw [Data.parentAwaits, hparent]
  exact hawaits

end DisastrOS.Model
