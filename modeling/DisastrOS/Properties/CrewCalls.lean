import DisastrOS.Properties.Crew

/-!
# `disastrOS_test_mq.c`: the calls

`Crew` is the invariant of the example program: who has been created, where everybody stands, how
many blocks are left and who is registered with the queues. Every call of the program keeps it.
-/

set_option autoImplicit false

namespace DisastrOS

open Runs Model

variable {e : Event Kernel Action} {a a' : Model} {L : Layout} {memory : Int → Int} {t : TestMq}
  {ps : List Addr} {p q r : Addr} {x x' : Process} {pt pt' : InitPoint} {i : Nat} {mode : Int}
  {c : Syscall} {ph ph' : Phase}

/-! ## Clients -/

theorem Exclusive.toInt_ofInt (h : Exclusive mode) : (Int32.ofInt mode).toInt = mode := by
  rcases h with rfl | rfl <;> decide

theorem Process.exclusive_of_client {args : Int} (h : x.client = some (args, mode, ph)) :
    Exclusive mode := by
  cases x with
  | init pt => cases h
  | sleeper => cases h
  | writer _ _ =>
      cases h
      exact Or.inr rfl
  | reader _ _ =>
      cases h
      exact Or.inl rfl

/-- Clients create nobody. -/
theorem ClientCall.creates {args answer : Int}
    (h : ClientCall memory args mode answer ph c ph') : (Action.syscall c).creates = false := by
  cases h with
  | opens | closes | exits _ => rfl
  | begins _ hu | uses hu => cases c <;> first | rfl | exact absurd hu not_false

/-- Nobody is registered with the queue for the mode, so the open passes the checks. -/
theorem Model.QueueAt.not_refused (hq : a.QueueAt i q) (hI : a.Inv) (hmode : Exclusive mode)
    (hnone : a.registration q mode = none) : ¬ a.OpenRefused i messageQueueType mode := by
  obtain ⟨hmem, -⟩ := hq.mem hI
  rintro (⟨hcreate, -⟩ | ⟨-, hall⟩)
  · exact hmode.ne_create hcreate
  · rcases hall _ (hq.byId hI) (hI.res.type _ hmem) with ⟨hexcl, -⟩ | ⟨q', heq, htaken⟩
    · rcases hmode with rfl | rfl <;> exact absurd hexcl (by decide)
    · obtain rfl := ResourceRef.mq.inj heq
      rcases htaken with ⟨rfl, hset⟩ | ⟨rfl, hset⟩
      · exact hset hnone
      · exact hset hnone

/-- A call takes a client to its next phase. -/
theorem Simulated.client_calls (h : Simulated exceptZombies e a a') (hact : e.act = .syscall c)
    (hr : e.pre.running = some r) (hq : a.QueueAt i q) (hi : i < 2) (hmode : Exclusive mode)
    (hC : a.Client r q mode ph) (hmem : memory (L.resource i) = i)
    (hcall : ClientCall memory (L.resource i) mode (a.syscallRetvalue r) ph c ph')
    (hF : a.FamInv) (hfree : a.freeDescriptors ≠ [])
    (hnone : ph = .started → a.registration q mode = none) : a'.Client r q mode ph' := by
  obtain ⟨hrun, hs⟩ := h.handler hact hr
  have hstep := h.step
  rw [hact] at hstep
  -- a call that neither opens nor closes keeps the descriptor and the registration
  have huses : c.Uses → a.Enrolled r q mode (.during 0) → a'.Enrolled r q mode (.during 0) := by
    intro hu hE
    refine hE.uses hstep h.inv h.inv' h.distinct ?_
    cases c <;> first | rfl | exact absurd hu not_false
  cases hcall with
  | opens =>
      have hid : (Int32.ofInt i).toInt = i := Int32.toInt_ofInt_of_le (by omega) (by omega)
      cases hs with
      | openResource hs =>
          obtain ⟨hawake, hnil, hlast⟩ := hC
          rw [hmem, hid, hmode.toInt_ofInt] at hs
          have hret : a'.syscallRetvalue r = 0 := by
            refine (hs.answers_fd ?_ hfree).1.trans hlast
            exact hq.not_refused h.inv hmode (hnone rfl)
          have hretpost : e.post.syscallRetvalue r = 0 := by
            rw [h.post.data]
            exact hret
          refine ⟨Or.inl (hs.sameProcesses.running.trans hrun), hret, ?_⟩
          obtain ⟨hlist, hids⟩ := hq.mem h.inv
          have hE := h.enrolled_of_opens hr hact (by rwa [hmode.toInt_ofInt])
            (Int.le_of_eq hretpost.symm) hlist (by rw [hids, hmem, hid]) hnil
          rwa [hmode.toInt_ofInt, hretpost] at hE
  | begins _ hu =>
      obtain ⟨-, hzero, hE⟩ := hC
      exact ⟨hzero, huses hu hE⟩
  | uses hu => exact ⟨hC.1, huses hu hC.2⟩
  | closes =>
      obtain ⟨rfl, hE⟩ := hC
      exact hE.closes hstep hrun
  | exits _ => exact hstep.exits h.inv h.inv' hF hrun

/-- What a client has spent covers the call, and the loop variable stays in its range. -/
theorem Process.resume_spent {args pid answer : Int} {self : Addr} {memory' : Int → Int}
    (hx : x.client = some (args, mode, ph)) (hv : x.Valid)
    (hfull : ∀ args fd i, x = .writer args (.writing fd i) → answer ≠ dsosMessageQueueFull)
    (h : x.resume L memory self pid answer = .call c x' memory') :
    x.spent + (Action.syscall c).allocates.toNat ≤ x'.spent ∧ x'.Valid ∧
      ∀ args fd i, x' = .writer args (.writing fd i) →
        ∃ fd msg length, c = .mqWrite fd msg length := by
  cases x with
  | init pt => cases hx
  | sleeper => cases hx
  | writer args pt =>
      simp only [resume] at h
      cases pt with
      | started =>
          cases h
          exact ⟨Nat.le_refl 1, trivial, fun _ _ _ h => by cases h⟩
      | opened =>
          simp only [writeChildFunction] at h
          split at h
          · cases h
          · cases h
            exact ⟨Nat.le_refl 2, ⟨Int.le_refl 0, by decide⟩, fun _ _ _ _ => ⟨_, _, _, rfl⟩⟩
      | writing fd i =>
          obtain ⟨hpos, hlt⟩ : 0 ≤ i ∧ i < 10 := hv
          simp only [writeChildFunction, if_neg (hfull args fd i rfl)] at h
          split at h
          · cases h
            refine ⟨?_, trivial, fun _ _ _ h => by cases h⟩
            simp only [spent, Action.allocates, Bool.toNat_false]
            omega
          · cases h
            exact ⟨Nat.le_refl _, ⟨hpos, hlt⟩, fun _ _ _ h => by cases h⟩
      | sleeping fd i =>
          obtain ⟨hpos, hlt⟩ : 0 ≤ i ∧ i < 10 := hv
          simp only [writeChildFunction] at h
          split at h
          · rename_i hmore
            cases h
            refine ⟨?_, ⟨by omega, hmore⟩, fun _ _ _ _ => ⟨_, _, _, rfl⟩⟩
            simp only [spent, Action.allocates, Bool.toNat_true]
            omega
          · cases h
            refine ⟨?_, trivial, fun _ _ _ h => by cases h⟩
            simp only [spent, Action.allocates, Bool.toNat_false]
            omega
      | closing =>
          simp only [writeChildFunction] at h
          split at h
          · cases h
          · cases h
            exact ⟨Nat.le_refl 12, trivial, fun _ _ _ h => by cases h⟩
      | exited => cases h
  | reader args pt =>
      simp only [resume] at h
      cases pt with
      | started =>
          cases h
          exact ⟨Nat.le_refl 1, trivial, fun _ _ _ h => by cases h⟩
      | opened =>
          simp only [readChildFunction] at h
          split at h
          · cases h
          · cases h
            exact ⟨Nat.le_refl 1, trivial, fun _ _ _ h => by cases h⟩
      | reading fd =>
          simp only [readChildFunction] at h
          split at h
          · cases h
            exact ⟨Nat.le_refl 1, trivial, fun _ _ _ h => by cases h⟩
          · cases h
            exact ⟨Nat.le_refl 1, trivial, fun _ _ _ h => by cases h⟩
      | sleeping fd =>
          cases h
          exact ⟨Nat.le_refl 1, trivial, fun _ _ _ h => by cases h⟩
      | closing =>
          simp only [readChildFunction] at h
          split at h
          · cases h
          · cases h
            exact ⟨Nat.le_refl 1, trivial, fun _ _ _ h => by cases h⟩
      | exited => cases h

/-- A writer whose queue is not full is not told that it is. -/
theorem Model.WriteStep.answer_ne_full {clean : Addr → Prop} {fd msg length : Int}
    (h : WriteStep clean a r fd msg length a') (hroom : ∀ q, ((a.msgs q).length : Int) < mForMq) :
    a'.syscallRetvalue r ≠ dsosMessageQueueFull := by
  have hlength : 0 ≤ length → length ≠ dsosMessageQueueFull := by
    rintro hpos rfl
    exact absurd hpos (by decide)
  cases h with
  | badLength _ =>
      rw [answer_retvalue]
      decide
  | notFound _ _ _ =>
      rw [answer_retvalue]
      decide
  | wrongType _ _ _ _ =>
      rw [answer_retvalue]
      decide
  | @full q _ _ _ hsize => exact absurd hsize (Int.ne_of_lt (hroom q))
  | linked hpos _ _ _ _ _ =>
      rw [show _ = length from answer_retvalue ..]
      exact hlength hpos
  | refused hpos _ _ _ _ _ =>
      rw [answer_retvalue]
      exact hlength hpos

/-! ## The invariant -/

/-- The processes `ps` of the program in a state of the kernel, with `init` at the point `pt`. -/
structure Crew (L : Layout) (t : TestMq) (ps : List Addr) (pt : InitPoint) (a : Model) : Prop where
  cast : Cast L t ps
  init : t.process 0 = some (.init pt)
  created : ps.length = pt.created
  used : ∀ p, a.Used p → p ∈ ps
  early : pt.Creating → ∀ p ∈ ps, a.Used p
  oneParent : a.OneParent 0
  families : a.Families ps.length
  free : a.HasFree (1000 - t.spent ps)
  registered : ∀ q mode, a.registration q mode ≠ none → ∃ i p x ph, a.QueueAt i q ∧
    t.process p = some x ∧ x.client = some (L.resource i, mode, ph) ∧ ph ≠ .started
  standing : ∀ p x, t.process p = some x → Standing L t.memory a p x

namespace Crew

theorem initStanding (hC : Crew L t ps pt a) : InitStanding L t.memory a pt :=
  ((hC.standing 0 _ hC.init).init pt rfl).2

theorem running (hC : Crew L t ps pt a) (hr : a.running = some r) :
    ∃ x, t.process r = some x := hC.cast.exists_process (hC.used r (Or.inl hr))

/-- The block 0 is that of `init`. -/
theorem init_process (hC : Crew L t ps pt a) (hx : t.process r = some (.init pt')) :
    r = 0 ∧ pt' = pt := by
  obtain ⟨rfl, -⟩ := (hC.standing r _ hx).init pt' rfl
  have heq := hx.symm.trans hC.init
  exact ⟨rfl, by simpa using heq⟩

/-- A client is not `init`. -/
theorem client_ne_init (hC : Crew L t ps pt a) (hx : t.process r = some x) {args : Int}
    (hcl : x.client = some (args, mode, ph)) : r ≠ 0 := by
  rintro rfl
  obtain rfl := Option.some.inj (hC.init.symm.trans hx)
  cases hcl

/-- The program has at most six processes. -/
theorem length_le (hC : Crew L t ps pt a) : ps.length ≤ 6 := by
  rw [hC.created]
  exact InitPoint.created_le (hC.cast.valid 0 _ hC.init)

/-- Six processes make at most 72 calls that may take a block. -/
theorem spent_le (hC : Crew L t ps pt a) : t.spent ps ≤ 72 := by
  have hspent := TestMq.spent_le hC.cast
  have hlen := hC.length_le
  omega

theorem hasFree (hC : Crew L t ps pt a) : a.HasFree 928 :=
  hC.free.mono (by have := hC.spent_le; omega)

/-- No pool runs empty while the program runs. -/
theorem noneEmpty (hC : Crew L t ps pt a) : a.NoneEmpty := hC.hasFree.noneEmpty (by decide)

/-- No queue is ever full. -/
theorem room (hC : Crew L t ps pt a) (hI : a.Inv) (hD : a.Distinct) (q : Addr) :
    ((a.msgs q).length : Int) < mForMq := by
  have hlen := hI.msg.msgs_length_le hD q
  have hfree := hC.hasFree.ms
  simp only [maxNumResources] at hlen
  simp only [mForMq]
  omega

/-- The clients of the queues, and what is stored for them. -/
theorem client (hC : Crew L t ps pt a) (hx : t.process r = some x) {args : Int}
    (hcl : x.client = some (args, mode, ph)) : ∃ i q, args = L.resource i ∧ i < 2 ∧
      t.memory (L.resource i) = i ∧ a.QueueAt i q ∧ a.Client r q mode ph := by
  obtain ⟨k, ρ, hk, hρ, hplays⟩ := hC.cast.plays hx
  have hclient : ∃ i, ρ = .client i mode ∧ args = L.resource i := by
    cases ρ with
    | init =>
        obtain ⟨pt, rfl⟩ := hplays
        cases hcl
    | sleeper =>
        obtain rfl : x = .sleeper := hplays
        cases hcl
    | client i mode' =>
        obtain ⟨ph', hph'⟩ := hplays
        have heq := Option.some.inj (hcl.symm.trans hph')
        simp only [Prod.mk.injEq] at heq
        exact ⟨i, by rw [heq.2.1], heq.1⟩
  obtain ⟨i, rfl, rfl⟩ := hclient
  obtain ⟨q, hq, hclient⟩ := (hC.standing r x hx).client i mode ph hcl
  -- the clients are created after the descriptors have been stored
  obtain ⟨hlate, hi⟩ := Role.late hρ
  have hcreated : 2 < pt.created := by
    rw [← hC.created]
    exact Nat.lt_of_le_of_lt hlate (List.getElem?_eq_some_iff.1 hk).1
  have hstored := hC.initStanding.stored i (by rwa [InitPoint.stored_of_created hcreated])
  exact ⟨i, q, rfl, hi, hstored, hq, hclient⟩

end Crew

/-! ## Steps -/

/-- A registration that is set after a step was set before, or the step opens the queue for that
mode. -/
theorem Model.Step.registered {clean : Addr → Prop} {act : Action} (h : Step clean a act a')
    (hset : a'.registration q mode ≠ none) : a.registration q mode ≠ none ∨
      ∃ r id type mode', a.running = some r ∧ act = .syscall (.openResource id type mode') ∧
        a.queueById id.toInt = some q ∧ mode'.toInt = mode ∧ Exclusive mode := by
  cases h.registrations with
  | same hsame => exact Or.inl (hsame q mode ▸ hset)
  | enlisted r id type mode' q' k hr hact hid hk =>
      by_cases heq : q = q' ∧ mode = mode'.toInt
      · obtain ⟨rfl, rfl⟩ := heq
        exact Or.inr ⟨r, id, type, mode', hr, hact, hid, rfl, hk.exclusive⟩
      · rw [hk.registration, if_neg heq] at hset
        exact Or.inl hset
  | delisted r fd mode' d q' _ _ _ _ hdrop =>
      by_cases heq : q = q' ∧ mode = mode'.toInt
      · exact absurd ((hdrop.registration q mode).trans (if_pos heq)) hset
      · rw [hdrop.registration, if_neg heq] at hset
        exact Or.inl hset

namespace Crew

/-- Unless a process is created, the families of the program stay as they are. -/
theorem keeps_families (hC : Crew L t ps pt a) (h : Simulated exceptZombies e a a')
    (hcreates : e.act.creates = false) : a'.Families ps.length := by
  have hlen := hC.length_le
  have hfam := h.step.families hC.families h.inv h.inv' (by rw [hcreates]; simp; omega)
  rwa [hcreates] at hfam

/-- While `init` creates processes the others collect nobody. -/
theorem keeps_blocks (hC : Crew L t ps pt a) (h : Simulated exceptZombies e a a')
    (hpt : pt.Creating) (hcall : a.running = some 0 → ∀ c, e.act ≠ .syscall c)
    (hcreates : e.act.creates = false) : a'.freePcbs = a.freePcbs := by
  have hawake := ((initTurn_iff_of_creating hpt).1 hC.initStanding.turn).1
  rcases hC.oneParent.others h.step h.inv hcall hcreates with ⟨-, hsame⟩ | ⟨hblocked, -⟩
  · exact hsame
  · exact absurd hblocked (hawake.not_blocked h.inv.proc)

/-- An event that is not a call. -/
theorem quiet (hC : Crew L t ps pt a) (h : Simulated exceptZombies e a a')
    (hno : ∀ c, e.act ≠ .syscall c) : Crew L t ps pt a' := by
  have hcreates : e.act.creates = false := by
    cases hact : e.act with
    | syscall c => exact absurd hact (hno c)
    | tick => rfl
    | store _ _ => rfl
  have hallocates : e.act.allocates = false := by
    cases hact : e.act with
    | syscall c => exact absurd hact (hno c)
    | tick => rfl
    | store _ _ => rfl
  have hlaw : Lawful a e.act := by
    refine ⟨fun hc => ?_, fun id type mode hact => absurd hact (hno _),
      fun v hact => absurd hact (hno _), fun fd mode hact => absurd hact (hno _)⟩
    rw [hcreates] at hc
    cases hc
  have hnone := h.step.noneNew h.inv h.inv' hcreates
  refine ⟨hC.cast, hC.init, hC.created, fun p hp => hC.used p (hnone.used p hp), fun hpt p hp => ?_,
    ?_, hC.keeps_families h hcreates, ?_, fun q mode hset => ?_, fun p x hx => ?_⟩
  · rw [h.inv'.proc.used_iff, hC.keeps_blocks h hpt (fun _ => hno) hcreates,
      ← h.inv.proc.used_iff]
    exact hC.early hpt p hp
  · exact h.step.oneParent hC.oneParent h.inv h.inv' hlaw.creates
  · refine h.step.hasFree ?_
    rw [hallocates]
    exact hC.free
  · rcases h.step.registered hset with hold | ⟨_, _, _, _, _, hact, -⟩
    · obtain ⟨i, p, x, ph, hq, hrest⟩ := hC.registered q mode hold
      exact ⟨i, p, x, ph, hq.keep h.step h.inv h.inv' h.distinct hlaw, hrest⟩
    · exact absurd hact (hno _)
  · refine (hC.standing p x hx).keep hC.oneParent hC.families h.step h.inv h.inv' h.distinct hlaw
      (fun _ => hno) (fun hc => ?_) fun _ _ _ _ _ _ _ _ _ _ _ hact => absurd hact (hno _)
    rw [hcreates] at hc
    cases hc

/-- What the running process changes when it makes a call that creates nobody. -/
structure Going (L : Layout) (a : Model) (c : Syscall) (x x' : Process) : Prop where
  creates : (Action.syscall c).creates = false
  plays : ∀ ρ, x.Plays L ρ → x'.Plays L ρ
  valid : x'.Valid
  spent : x.spent + (Action.syscall c).allocates.toNat ≤ x'.spent
  started : ∀ args mode ph, x'.client = some (args, mode, ph) → ph ≠ .started
  opens : ∀ id type mode q, c = .openResource id type mode → a.queueById id.toInt = some q →
    Exclusive mode.toInt → ∃ i ph, a.QueueAt i q ∧
      x'.client = some (L.resource i, mode.toInt, ph)

/-- A call that creates nobody keeps the invariant if it takes its process to where it then stands.
-/
theorem goes (hC : Crew L t ps pt a) (h : Simulated exceptZombies e a a')
    (hact : e.act = .syscall c) (hr : a.running = some r) (hx : t.process r = some x)
    (hlaw : Lawful a e.act) (hgo : Going L a c x x')
    (hspared : ∀ p y, t.process p = some y → p ≠ r → Spared L a e.act y)
    (hinit : Function.update t.process r (some x') 0 = some (.init pt'))
    (hcreated : pt'.created = pt.created)
    (hearly : pt'.Creating → pt.Creating ∧ a'.freePcbs = a.freePcbs)
    (hmemory : r ≠ 0 → memory = t.memory) (hS : Standing L memory a' r x') :
    Crew L ⟨memory, Function.update t.process r (some x')⟩ ps pt' a' := by
  have hcreates : e.act.creates = false := hact ▸ hgo.creates
  have hnone := h.step.noneNew h.inv h.inv' hcreates
  refine ⟨hC.cast.update memory hx hgo.plays hgo.valid, hinit, hC.created.trans hcreated.symm,
    fun p hp => hC.used p (hnone.used p hp), fun hpt p hp => ?_, ?_, hC.keeps_families h hcreates,
    ?_, fun q mode hset => ?_, fun p y hy => ?_⟩
  · obtain ⟨hpt, hsame⟩ := hearly hpt
    rw [h.inv'.proc.used_iff, hsame, ← h.inv.proc.used_iff]
    exact hC.early hpt p hp
  · exact h.step.oneParent hC.oneParent h.inv h.inv' hlaw.creates
  · have hspent := TestMq.spent_update hC.cast memory hx hgo.spent
    have hle := TestMq.spent_le (hC.cast.update memory hx hgo.plays hgo.valid)
    have hlen := hC.length_le
    refine h.step.hasFree (hC.free.mono ?_)
    rw [hact]
    omega
  · rcases h.step.registered hset with hold | ⟨s, id, type, mode', hs, hopen, hid, rfl, hmode⟩
    · obtain ⟨i, p, y, ph, hq, hy, hcl, hph⟩ := hC.registered q mode hold
      have hq' := hq.keep h.step h.inv h.inv' h.distinct hlaw
      by_cases hp : p = r
      · subst hp
        obtain rfl := Option.some.inj (hy.symm.trans hx)
        obtain ⟨ph', hcl'⟩ := hgo.plays (.client i mode) ⟨ph, hcl⟩
        exact ⟨i, p, x', ph', hq', Function.update_self .., hcl', hgo.started _ _ _ hcl'⟩
      · exact ⟨i, p, y, ph, hq', (Function.update_of_ne hp ..).trans hy, hcl, hph⟩
    · obtain rfl : c = .openResource id type mode' := Action.syscall.inj (hact.symm.trans hopen)
      obtain ⟨i, ph, hq, hcl⟩ := hgo.opens id type mode' q rfl hid hmode
      exact ⟨i, r, x', ph, hq.keep h.step h.inv h.inv' h.distinct hlaw, Function.update_self ..,
        hcl, hgo.started _ _ _ hcl⟩
  · replace hy : Function.update t.process r (some x') p = some y := hy
    by_cases hp : p = r
    · subst hp
      rw [Function.update_self] at hy
      exact Option.some.inj hy ▸ hS
    · rw [Function.update_of_ne hp] at hy
      have hkeep := (hC.standing p y hy).keep hC.oneParent hC.families h.step h.inv h.inv'
        h.distinct hlaw (fun hrun _ _ => hp (Option.some.inj (hrun.symm.trans hr)))
        (fun hc => by rw [hcreates] at hc; cases hc) (hspared p y hy hp)
      by_cases hp0 : p = 0
      · rw [show memory = t.memory from hmemory fun hr0 => hp (hp0.trans hr0.symm)]
        exact hkeep
      · exact hkeep.of_ne hp0

/-! ## Calls of the clients -/

/-- A client that closes its queue leaves the other clients alone. -/
theorem spared (hC : Crew L t ps pt a) (hact : e.act = .syscall c) (hr : a.running = some r)
    (hx : t.process r = some x) (hcl : x.client = some (L.resource i, mode, ph))
    (hq : a.QueueAt i q) (hclient : a.Client r q mode ph) {answer : Int}
    (hcall : ClientCall t.memory (L.resource i) mode answer ph c ph') {y : Process}
    (hy : t.process p = some y) (hp : p ≠ r) : Spared L a e.act y := by
  intro i₁ mode₁ ph₁ q₁ hcl₁ hq₁ s fd mode' d hs hclose hd hres heq
  obtain rfl := Option.some.inj (hs.symm.trans hr)
  rw [hact] at hclose
  cases hclose
  cases hcall with
  | begins _ hu => exact hu
  | uses hu => exact hu
  | closes =>
      obtain ⟨rfl, d₀, k, hH, hd₀⟩ := hclient
      obtain rfl : d = d₀ := Option.some.inj (hd.symm.trans hd₀)
      obtain rfl : q₁ = q := ResourceRef.mq.inj (hres.symm.trans hH.resource)
      obtain rfl := hq₁.inj hq
      rw [(Process.exclusive_of_client hcl).toInt_ofInt] at heq
      exact hp (hC.cast.unique hy hx (Process.plays_client (heq ▸ hcl₁))
        (Process.plays_client hcl))

/-- Nobody is registered for a client that has not started. -/
theorem not_registered (hC : Crew L t ps pt a) (hx : t.process r = some x)
    (hcl : x.client = some (L.resource i, mode, .started)) (hq : a.QueueAt i q) :
    a.registration q mode = none := by
  by_contra hset
  obtain ⟨j, p, y, ph, hq', hy, hcl', hph⟩ := hC.registered q mode hset
  obtain rfl := hq.inj hq'
  obtain rfl := hC.cast.unique hx hy (Process.plays_client hcl) (Process.plays_client hcl')
  obtain rfl := Option.some.inj (hx.symm.trans hy)
  rw [hcl] at hcl'
  cases hcl'
  exact hph rfl

/-- The next call of a client. -/
theorem client_goes (hC : Crew L t ps pt a) (h : Simulated exceptZombies e a a')
    (hact : e.act = .syscall c) (hr : e.pre.running = some r) (hx : t.process r = some x)
    {args : Int} (hcl : x.client = some (args, mode, ph))
    (hout : x.resume L t.memory r (e.pre.pid r) (e.pre.syscallRetvalue r) = .call c x' memory) :
    Crew L ⟨memory, Function.update t.process r (some x')⟩ ps pt a' := by
  obtain ⟨hrun, hs⟩ := h.handler hact hr
  have hret : e.pre.syscallRetvalue r = a.syscallRetvalue r := by rw [h.pre.data]
  rw [hret] at hout
  obtain ⟨i, q, rfl, hi, hmem, hq, hclient⟩ := hC.client hx hcl
  have hmode := Process.exclusive_of_client hcl
  have hr0 := hC.client_ne_init hx hcl
  obtain ⟨hspent, hvalid, hwrites⟩ := Process.resume_spent hcl (hC.cast.valid r x hx)
    (fun args fd i hxw => ((hC.standing r x hx).writing args fd i hxw).2) hout
  obtain ⟨rfl, ph', hcl', hcall⟩ := Process.client_call hcl hout
  have hcreates := hcall.creates
  have hph : ph' ≠ .started := by cases hcall <;> exact Phase.noConfusion
  have hopens : ∀ id type mode', c = .openResource id type mode' →
      id.toInt = i ∧ mode'.toInt = mode := by
    rintro id type mode' rfl
    cases hcall with
    | opens => exact ⟨by rw [hmem]; exact Int32.toInt_ofInt_of_le (by omega) (by omega),
        hmode.toInt_ofInt⟩
    | begins _ hu => exact absurd hu not_false
    | uses hu => exact absurd hu not_false
  have hne0 : a.running ≠ some 0 := fun heq => hr0 (Option.some.inj (hrun.symm.trans heq))
  have hlaw : Lawful a e.act := by
    refine ⟨fun hc => ?_, fun id type mode' hopen hcreate => ?_, fun _ _ => hne0, fun _ _ _ => hne0⟩
    · rw [hact, hcreates] at hc
      cases hc
    · have hm := (hopens id type mode' (Action.syscall.inj (hact.symm.trans hopen))).2
      exact absurd (hm.symm.trans hcreate) hmode.ne_create
  have hclient' := h.client_calls hact hr hq hi hmode hclient hmem hcall hC.families.lists
    hC.noneEmpty.descriptors fun hstart => hC.not_registered hx (hstart ▸ hcl) hq
  refine hC.goes h hact hrun hx hlaw ⟨hcreates, fun ρ hρ => ?_, hvalid, hspent, ?_, ?_⟩
    (fun p y hy hp => hC.spared hact hrun hx hcl hq hclient hcall hy hp)
    ((Function.update_of_ne (Ne.symm hr0) ..).trans hC.init) rfl
    (fun hpt => ⟨hpt, hC.keeps_blocks h hpt (fun heq => absurd heq hne0) (hact ▸ hcreates)⟩)
    (fun _ => rfl) ⟨?_, ?_, ?_, ?_⟩
  · obtain rfl := hρ.unique (Process.plays_client hcl)
    exact ⟨ph', hcl'⟩
  · intro args mode ph₁ hcl₁
    rw [hcl'] at hcl₁
    cases hcl₁
    exact hph
  · intro id type mode' q' hc hid hexcl
    obtain ⟨hidi, hm⟩ := hopens id type mode' hc
    refine ⟨i, ph', ?_, hm ▸ hcl'⟩
    have hq' : a.queueById i = some q := by rw [queueById, hq.byId h.inv]
    rw [hidi, hq'] at hid
    exact Option.some.inj hid ▸ hq
  · rintro pt rfl
    cases hcl'
  · rintro rfl
    cases hcl'
  · intro j mode₁ ph₁ hcl₁
    rw [hcl'] at hcl₁
    simp only [Option.some.injEq, Prod.mk.injEq, Layout.resource_inj] at hcl₁
    obtain ⟨rfl, rfl, rfl⟩ := hcl₁
    exact ⟨q, hq.keep h.step h.inv h.inv' h.distinct hlaw, hclient'⟩
  · intro args fd i hxw
    obtain ⟨fd', msg, length, rfl⟩ := hwrites args fd i hxw
    cases hs with
    | mqWrite hs =>
        refine ⟨Or.inl (hs.sameProcesses.running.trans hrun), hs.answer_ne_full ?_⟩
        exact hC.room h.inv h.distinct

end Crew

end DisastrOS
