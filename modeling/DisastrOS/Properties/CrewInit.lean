import DisastrOS.Properties.CrewCalls

/-!
# `disastrOS_test_mq.c`: the calls of `init`

`init` creates the other processes and the queues, waits for the clients and shuts the system down.
-/

set_option autoImplicit false

namespace DisastrOS

open Runs Model

variable {e : Event Kernel Action} {a a' : Model} {L : Layout} {memory : Int → Int} {t : TestMq}
  {ps : List Addr} {b : Addr} {x' y : Process} {pt pt' : InitPoint} {ρ : Role} {c : Syscall}
  {j alive : Nat}

/-- A call of `init` that opens nothing. -/
theorem InitStanding.calls {act : Action} {clean : Addr → Prop}
    (hS : InitStanding L t.memory a pt) (h : Step clean a act a') (hI : a.Inv) (hI' : a'.Inv)
    (hD : a.Distinct) (hlaw : Lawful a act) (hquiet : act.onDescriptors = false)
    (hqueues : pt'.queues = pt.queues) (hstored : ∀ j < pt'.stored, memory (L.resource j) = j)
    (hturn : InitTurn a' pt') : InitStanding L memory a' pt' where
  alive := h.alive_mono hI hI' hS.alive hlaw.exits
  stored := hstored
  queues j hj := by
    obtain ⟨q, hq⟩ := hS.queues j (hqueues ▸ hj)
    exact ⟨q, hq.keep h hI hI' hD hlaw⟩
  resources res hres := by
    rw [hqueues]
    rcases h.resource_cases hres with ⟨hmem, hid⟩ | ⟨id, type, mode, rfl, -⟩
    · rw [hid]
      exact hS.resources res hmem
    · cases hquiet
  lastFd := by
    rw [hqueues, ← hS.lastFd]
    refine h.keeps_lastFd hI hI' hD (fun hd => ?_) hS.alive.used
    rw [hquiet] at hd
    cases hd
  turn := hturn

/-- `init` stands nowhere but in its own code. -/
theorem InitStanding.standing (hS : InitStanding L memory a pt) :
    Standing L memory a 0 (.init pt) where
  init pt' heq := by
    cases heq
    exact ⟨rfl, hS⟩
  sleeper heq := by cases heq
  client i mode ph heq := by cases heq
  writing args fd i heq := by cases heq

/-- The call of `init` is none that others must not make. -/
theorem lawful_of_init (hr : a.running = some 0) (hexit : ∀ v, c ≠ .exit v)
    (hclose : ∀ fd mode, c ≠ .closeResource fd mode) : Lawful a (.syscall c) where
  creates _ := hr
  opens _ _ _ _ _ := hr
  exits v heq := absurd (Action.syscall.inj heq) (hexit v)
  closes fd mode heq := absurd (Action.syscall.inj heq) (hclose fd mode)

namespace Crew

/-- A call of `init` that creates nobody. -/
theorem init_goes (hC : Crew L t ps pt a) (h : Simulated exceptZombies e a a')
    (hact : e.act = .syscall c) (hr : a.running = some 0)
    (hcreates : (Action.syscall c).creates = false) (hexit : ∀ v, c ≠ .exit v)
    (hclose : ∀ fd mode, c ≠ .closeResource fd mode)
    (hopen : ∀ id type mode, c = .openResource id type mode → mode.toInt = dsosCreate)
    (hvalid : pt'.Valid)
    (hspent : (Process.init pt).spent + (Action.syscall c).allocates.toNat ≤
      (Process.init pt').spent) (hcreated : pt'.created = pt.created)
    (hearly : pt'.Creating → pt.Creating ∧ a'.freePcbs = a.freePcbs)
    (hS : InitStanding L memory a' pt') :
    Crew L ⟨memory, Function.update t.process 0 (some (.init pt'))⟩ ps pt' a' := by
  refine hC.goes h hact hr hC.init (hact ▸ lawful_of_init hr hexit hclose)
    ⟨hcreates, fun ρ hρ => ?_, hvalid, hspent, fun _ _ _ heq => ?_, ?_⟩ ?_
    (Function.update_self ..) hcreated hearly (fun h0 => absurd rfl h0) hS.standing
  · obtain rfl := hρ.unique (show (Process.init pt).Plays L .init from ⟨pt, rfl⟩)
    exact ⟨pt', rfl⟩
  · cases heq
  · intro id type mode q hc _ hexcl
    exact absurd (hopen id type mode hc) hexcl.ne_create
  · intro p y hy hp i mode ph q _ _ r fd mode' d _ hact'
    exact absurd (Action.syscall.inj (hact.symm.trans hact')) (hclose fd mode')

/-! ## Opening the queues -/

/-- `init` creates queue number `j`. -/
theorem init_opens (hC : Crew L t ps pt a) (h : Simulated exceptZombies e a a') (j : Nat)
    (hact : e.act = .syscall (.openResource (.ofInt j) (.ofInt messageQueueType)
      (.ofInt dsosCreate))) (hr : a.running = some 0) (hpt : pt.Creating) (hj : j < 2)
    (hqueues : pt.queues = j) (hcreated : pt.created = 2)
    (hspent : (Process.init pt).spent + 1 ≤ (Process.init (.opened j)).spent)
    (hstored : ∀ i < j, memory (L.resource i) = i) :
    Crew L ⟨memory, Function.update t.process 0 (some (.init (.opened j)))⟩ ps (.opened j) a' := by
  have hS := hC.initStanding
  have hstep := h.step
  rw [hact] at hstep
  have hs := hstep.handler hr
  have hid : (Int32.ofInt j).toInt = j := Int32.toInt_ofInt_of_le (by omega) (by omega)
  have hlaw : Lawful a e.act := hact ▸ lawful_of_init hr (by simp) (by simp)
  cases hs with
  | openResource hs =>
      rw [hid] at hs
      have hsame := hs.sameProcesses
      have hrun' : a'.running = some 0 := hsame.running.trans hr
      have hnone : a.resourceById j = none := by
        refine List.find?_eq_none.2 fun res hres heq => ?_
        have hlt := hS.resources res hres
        rw [of_decide_eq_true heq, hqueues] at hlt
        exact Int.lt_irrefl _ hlt
      have hpass : ¬ a.OpenRefused j messageQueueType dsosCreate := by
        rintro (⟨-, hne⟩ | ⟨hne, -⟩)
        · exact hne hnone
        · exact hne rfl
      obtain ⟨hret, hnext⟩ := hs.answers_fd hpass hC.noneEmpty.descriptors
      have hlast : a.lastFd 0 = j := by rw [hS.lastFd, hqueues]
      replace hret : a'.syscallRetvalue 0 = j := hret.trans hlast
      obtain ⟨d, res, ho, htype⟩ := hs.hasOpen (h.inv.enter hr _) hr
        (by rw [hret]; exact Int.natCast_nonneg j)
      rw [hret] at ho
      refine hC.init_goes h hact hr rfl (by simp) (by simp) (fun id type mode heq => ?_) hj hspent
        hcreated.symm (fun _ => ⟨hpt, hsame.freePcbs⟩) ⟨Or.inl hrun', hstored, fun i hi => ?_,
          fun res hres => ?_, ?_, ?_⟩
      · cases heq
        decide
      · rcases Nat.lt_succ_iff_lt_or_eq.1 hi with hlt | rfl
        · obtain ⟨q, hq⟩ := hS.queues i (hqueues.symm ▸ hlt)
          exact ⟨q, hq.keep h.step h.inv h.inv' h.distinct hlaw⟩
        · cases res with
          | standard _ =>
              rw [type_standard] at htype
              exact absurd htype (by decide)
          | mq q => exact ⟨q, d, ho⟩
      · show a'.resourceId res < ((j + 1 : Nat) : Int)
        rcases h.step.resource_cases hres with ⟨hmem, hid'⟩ | ⟨id, type, mode, hopen, -, hid'⟩
        · have hlt := hS.resources res hmem
          rw [hid']
          omega
        · rw [hact] at hopen
          cases hopen
          rw [hid', hid]
          omega
      · rw [show a'.lastFd 0 = wrapInt (a.lastFd 0 + 1) from hnext, hlast]
        exact wrapInt_of_bounds (by omega) (by omega)
      · obtain ⟨-, hlen, -⟩ := (initTurn_iff_of_creating hpt).1 hS.turn
        refine ⟨Or.inl hrun', ?_, fun i hi => ?_⟩
        · rw [hsame.children]
          exact hlen.trans hcreated
        · cases hi
          exact hret

/-! ## Creating the others -/

/-- `init` creates a process in the next role. -/
theorem init_spawns (hC : Crew L t ps pt a) (h : Simulated exceptZombies e a a') {f args : Int}
    (pt' : InitPoint) (memory : Int → Int) (hact : e.act = .syscall (.spawn f args))
    (hr : a.running = some 0) (hpt : pt.Creating) (hpt' : pt'.Creating) (hvalid : pt'.Valid)
    (hcreated : pt'.created = pt.created + 1)
    (hspent : (Process.init pt).spent + 1 ≤ (Process.init pt').spent)
    (hqueues : pt'.queues = pt.queues) (hstored : ∀ j < pt'.stored, memory (L.resource j) = j)
    (hopened : ∀ i, pt' ≠ .opened i) (hentry : L.entry f args = some y)
    (hρ : Role.all[pt.created]? = some ρ) (hplays : y.Plays L ρ) (hfresh : y.Valid)
    (hinit : ∀ pt, y ≠ .init pt) (hwriting : ∀ args fd i, y ≠ .writer args (.writing fd i))
    (hnew : ∀ i mode ph, y.client = some (L.resource i, mode, ph) →
      ph = .started ∧ i < pt.queues) :
    ∃ ps', Crew L ⟨memory, TestMq.started L e.pre (.spawn f args)
      (Function.update t.process 0 (some (.init pt')))⟩ ps' pt' a' := by
  have hS := hC.initStanding
  obtain ⟨-, hlen, -⟩ := (initTurn_iff_of_creating hpt).1 hS.turn
  have hstep := h.step
  rw [hact] at hstep
  have hlaw : Lawful a e.act := hact ▸ lawful_of_init hr (by simp) (by simp)
  have hs := hstep.handler hr
  have hP' := h.inv'.proc
  cases hs with
  | spawn hs =>
  cases hs with
  | @created b k xs es hb hk =>
  have hb' : a.freePcbs = b :: xs := hb
  have hblock : e.pre.pcbAllocator.getBlock.1 = some b := by
    rw [h.pre.pcbs.getBlock_head, hb', List.head?_cons]
  have hnotused : ¬ a.Used b := h.inv.proc.free_fresh (by rw [hb']; exact List.mem_cons_self)
  have hbps : b ∉ ps := fun hmem => hnotused (hC.early hpt b hmem)
  have hb0 : b ≠ 0 := fun heq => hbps (heq ▸ hC.used 0 (Or.inl hr))
  have hused : ∀ p, Used _ p ↔ a.Used p ∨ p = b := fun p =>
    used_create (h.inv.enter hr (.spawn f args)).proc hP' hb
  have hupdate : Cast L ⟨memory, Function.update t.process 0 (some (.init pt'))⟩ ps := by
    refine hC.cast.update memory hC.init (fun ρ hρ => ?_) hvalid
    obtain rfl := hρ.unique (show (Process.init pt).Plays L .init from ⟨pt, rfl⟩)
    exact ⟨pt', rfl⟩
  have hother : ∀ p z, p ≠ b → p ≠ 0 → Function.update (Function.update t.process 0
      (some (.init pt'))) b (some y) p = some z → t.process p = some z := by
    intro p z hpb hp0 hz
    rwa [Function.update_of_ne hpb, Function.update_of_ne hp0] at hz
  refine ⟨ps ++ [b], ?_⟩
  rw [TestMq.started_spawn hblock, hentry]
  refine ⟨hupdate.add hbps (by rw [hC.created]; exact hρ) hplays hfresh, ?_, ?_, fun p hp => ?_,
    fun _ p hp => ?_, ?_, ?_, ?_, fun q mode hset => ?_, fun p z hz => ?_⟩
  · show Function.update _ b _ 0 = _
    rw [Function.update_of_ne hb0.symm, Function.update_self]
  · rw [List.length_append, hC.created, hcreated]
    rfl
  · rcases (hused p).1 hp with hp | rfl
    · exact List.mem_append_left _ (hC.used p hp)
    · exact List.mem_append_right _ (List.mem_singleton_self p)
  · rcases List.mem_append.1 hp with hp | hp
    · exact (hused p).2 (Or.inl (hC.early hpt p hp))
    · exact (hused p).2 (Or.inr (List.mem_singleton.1 hp))
  · exact h.step.oneParent hC.oneParent h.inv h.inv' hlaw.creates
  · have hlen' := hC.length_le
    have hfam := h.step.families hC.families h.inv h.inv' (by
      rw [hact]
      show ps.length + 1 < 2 ^ 31
      omega)
    rw [hact] at hfam
    rw [List.length_append]
    exact hfam
  · have hadd := TestMq.spent_add memory (Function.update t.process 0 (some (.init pt'))) y hbps
    have hmove := TestMq.spent_update hC.cast memory hC.init hspent
    have hle := TestMq.spent_le (hupdate.add hbps (by rw [hC.created]; exact hρ) hplays hfresh)
    have hlen' := hC.length_le
    rw [List.length_append, List.length_singleton] at hle
    refine h.step.hasFree (hC.free.mono ?_)
    rw [hact]
    show _ + 1 ≤ _
    omega
  · rcases h.step.registered hset with hold | ⟨_, _, _, _, _, hopen, -⟩
    · obtain ⟨i, p, z, ph, hq, hz, hcl, hph⟩ := hC.registered q mode hold
      have hpb : p ≠ b := fun heq => hbps (heq ▸ hC.cast.mem hz)
      have hp0 : p ≠ 0 := by
        rintro rfl
        obtain rfl := Option.some.inj (hC.init.symm.trans hz)
        cases hcl
      refine ⟨i, p, z, ph, hq.keep h.step h.inv h.inv' h.distinct hlaw, ?_, hcl, hph⟩
      show Function.update _ b _ p = _
      rw [Function.update_of_ne hpb, Function.update_of_ne hp0, hz]
    · rw [hact] at hopen
      cases hopen
  · replace hz : Function.update (Function.update t.process 0 (some (.init pt'))) b (some y) p =
      some z := hz
    by_cases hpb : p = b
    · subst hpb
      rw [Function.update_self] at hz
      obtain rfl := Option.some.inj hz
      have hawake : ((a.enter 0 (.spawn f args)).create 0 p k xs es).Awake p :=
        Or.inr (List.mem_append_right _ (List.mem_singleton_self p))
      refine ⟨fun pt heq => absurd heq (hinit pt), fun _ => hawake, fun i mode ph hcl => ?_,
        fun args fd i heq => absurd heq (hwriting args fd i)⟩
      obtain ⟨rfl, hi⟩ := hnew i mode ph hcl
      obtain ⟨q, hq⟩ := hS.queues i hi
      refine ⟨q, hq.keep h.step h.inv h.inv' h.distinct hlaw, hawake, ?_, ?_⟩
      · exact Function.update_self ..
      · exact Function.update_self ..
    · by_cases hp0 : p = 0
      · subst hp0
        rw [Function.update_of_ne hpb, Function.update_self] at hz
        obtain rfl := Option.some.inj hz
        refine (hS.calls h.step h.inv h.inv' h.distinct hlaw (by rw [hact]; rfl) hqueues hstored
          ((initTurn_iff_of_creating hpt').2 ⟨Or.inl hr, ?_, fun i hi =>
            absurd hi (hopened i)⟩)).standing
        show (Function.update (Function.update a.children b []) 0 (a.children 0 ++ [k])
          0).length + 1 = pt'.created
        rw [Function.update_self, List.length_append, List.length_singleton, hlen, hcreated]
      · have hz' := hother p z hpb hp0 hz
        refine ((hC.standing p z hz').keep hC.oneParent hC.families h.step h.inv h.inv' h.distinct
          hlaw (fun hrun _ _ => hp0 (Option.some.inj (hrun.symm.trans hr)))
          (fun _ => hC.early hpt p (hC.cast.mem hz')) ?_).of_ne hp0
        intro _ _ _ _ _ _ _ _ _ _ _ hclose
        rw [hact] at hclose
        cases hclose

/-! ## Waiting for the clients and leaving -/

/-- `init` waits while it has an entry for every child that it still counts, and one more. -/
theorem init_waits (hC : Crew L t ps pt a) (h : Simulated exceptZombies e a a') {retval : Int}
    (alive : Nat) (hact : e.act = .syscall (.wait 0 retval)) (hr : a.running = some 0)
    (hpt : 2 < pt.created) (hcreated : pt.created = 6) (hspent : (Process.init pt).spent ≤ 7)
    (halive : 0 < alive ∧ alive ≤ 4) (hlen : (a.children 0).length = alive + 1) :
    Crew L ⟨t.memory, Function.update t.process 0 (some (.init (.waiting alive)))⟩ ps
      (.waiting alive) a' := by
  have hS := hC.initStanding
  have hstep := h.step
  rw [hact] at hstep
  have hlaw : Lawful a e.act := hact ▸ lawful_of_init hr (by simp) (by simp)
  refine hC.init_goes h hact hr rfl (by simp) (by simp) (by simp) halive hspent hcreated.symm
    (fun hno => absurd hno not_false) (hS.calls h.step h.inv h.inv' h.distinct hlaw
      (by rw [hact]; rfl) (InitPoint.queues_of_created hpt).symm (fun j hj => ?_) ?_)
  · exact hS.stored j (by rwa [InitPoint.stored_of_created hpt])
  · have hs := hstep.handler hr
    cases hs with
    | wait hs =>
        cases hs with
        | noChildren hnil =>
            rw [show a.children 0 = [] from hnil] at hlen
            cases hlen
        | @reap k hk _ =>
            have hmem : k ∈ a.children 0 := mem_of_awaited hk
            have hused := (hC.families.lists.entry 0 k hmem).1
            rw [reap_eq]
            refine Or.inl ⟨Or.inl hr, ?_, ?_⟩
            · show 0 ≤ Function.update a.syscallRetvalue 0 (a.pid (a.ptrPcb k)) 0
              rw [Function.update_self]
              exact (hC.families.pids.bound _ hused).1
            · show (Function.update a.children 0 ((a.children 0).erase k) 0).length = alive
              rw [Function.update_self, List.length_erase_of_mem hmem, hlen]
              rfl
        | @block _ next rest _ _ _ =>
            refine Or.inr ⟨⟨?_, ?_⟩, hlen⟩
            · show (0 : Addr) ∈ Function.update (Function.update a.procs .waiting
                (a.procs .waiting ++ [0])) .ready rest .waiting
              rw [Function.update_of_ne (by decide), Function.update_self]
              exact List.mem_append_right _ (List.mem_singleton_self 0)
            · show Function.update a.syscallNum 0 dsosCallWait 0 = dsosCallWait
              exact Function.update_self ..

/-- `init` tries to destroy the queues and shuts the system down when all clients have left. -/
theorem init_ends (hC : Crew L t ps pt a) (h : Simulated exceptZombies e a a')
    (hact : e.act = .syscall c) (hr : a.running = some 0) (hpt : 2 < pt.created)
    (hspent : (Process.init pt).spent ≤ 7) (hcreated : pt.created = 6)
    (hlen : (a.children 0).length = 1)
    (hc : (∃ id i, c = .destroyResource id ∧ i < 2 ∧ pt' = .destroying i) ∨
      (c = .shutdown ∧ pt' = .shutdown)) :
    Crew L ⟨t.memory, Function.update t.process 0 (some (.init pt'))⟩ ps pt' a' := by
  have hS := hC.initStanding
  have hstep := h.step
  rw [hact] at hstep
  have hs := hstep.handler hr
  have hcall : (Action.syscall c).creates = false ∧ (Action.syscall c).allocates = false ∧
      (Action.syscall c).onDescriptors = false := by
    rcases hc with ⟨id, i, rfl, -⟩ | ⟨rfl, -⟩ <;> exact ⟨rfl, rfl, rfl⟩
  have hexit : ∀ v, c ≠ .exit v := by rcases hc with ⟨id, i, rfl, -⟩ | ⟨rfl, -⟩ <;> simp
  have hclose : ∀ fd mode, c ≠ .closeResource fd mode := by
    rcases hc with ⟨id, i, rfl, -⟩ | ⟨rfl, -⟩ <;> simp
  have hopen : ∀ id type mode, c ≠ .openResource id type mode := by
    rcases hc with ⟨id, i, rfl, -⟩ | ⟨rfl, -⟩ <;> simp
  have hlaw : Lawful a e.act := hact ▸ lawful_of_init hr hexit hclose
  have hpoint : pt'.Valid ∧ (Process.init pt').spent = 7 ∧ pt'.created = 6 ∧ ¬ pt'.Creating ∧
      pt'.queues = 2 ∧ pt'.stored = 2 ∧ InitTurn a' pt' := by
    rcases hc with ⟨id, i, rfl, hi, rfl⟩ | ⟨rfl, rfl⟩
    · cases hs with
      | destroyResource hs =>
          refine ⟨hi, rfl, rfl, not_false, rfl, rfl, ?_, ?_⟩
          · exact Or.inl (hs.sameProcesses.running.trans hr)
          · rw [hs.sameProcesses.children]
            exact hlen
    · cases hs with
      | shutdown => exact ⟨trivial, rfl, rfl, not_false, rfl, rfl, Or.inl hr, hlen, rfl⟩
  obtain ⟨hvalid, hspent', hcreated', hlate, hqueues', hstored', hturn'⟩ := hpoint
  refine hC.init_goes h hact hr hcall.1 hexit hclose
    (fun id type mode heq => absurd heq (hopen id type mode)) hvalid ?_
    (hcreated'.trans hcreated.symm) (fun hno => absurd hno hlate)
    (hS.calls h.step h.inv h.inv' h.distinct hlaw (by rw [hact]; exact hcall.2.2)
      (hqueues'.trans (InitPoint.queues_of_created hpt).symm) (fun j hj => ?_) hturn')
  · rw [hcall.2.1, hspent']
    exact hspent
  · rw [hstored'] at hj
    exact hS.stored j (by rwa [InitPoint.stored_of_created hpt])

/-! ## The next call of `init` -/

theorem entry_sleeper : L.entry L.sleeperFunction 0 = some .sleeper := if_pos rfl

theorem entry_writer {args : Int} :
    L.entry L.writeChildFunction args = some (.writer args .started) := by
  rw [Layout.entry, if_neg L.sleeper_ne_write.symm, if_pos rfl]

theorem entry_reader {args : Int} :
    L.entry L.readChildFunction args = some (.reader args .started) := by
  rw [Layout.entry, if_neg L.sleeper_ne_read.symm, if_neg L.read_ne_write, if_pos rfl]

/-- `init` creates the writer of queue number `j`. -/
theorem init_spawns_writer (hC : Crew L t ps pt a) (h : Simulated exceptZombies e a a') (j : Nat)
    (hact : e.act = .syscall (.spawn L.writeChildFunction (L.resource j))) (hr : a.running = some 0)
    (hpt : pt.Creating) (hj : j < 2) (hcreated : pt.created = 2 + 2 * j)
    (hspent : (Process.init pt).spent + 1 ≤ 4 + 2 * j) (hqueues : pt.queues = 2)
    (hstored : ∀ i < 2, memory (L.resource i) = i) :
    ∃ ps' pt', Crew L ⟨memory, TestMq.started L e.pre
      (.spawn L.writeChildFunction (L.resource j))
      (Function.update t.process 0 (some (.init (.spawnedWriter j))))⟩ ps' pt' a' := by
  have hρ : Role.all[pt.created]? = some (.client j dsosWrite) := by
    rw [hcreated]
    rcases j with _ | _ | j
    · rfl
    · rfl
    · omega
  have hnew : ∀ i mode ph, (Process.writer (L.resource j) .started).client =
      some (L.resource i, mode, ph) → ph = .started ∧ i < pt.queues := by
    intro i mode ph hcl
    simp only [Process.client, WriterPoint.phase, Option.some.injEq, Prod.mk.injEq,
      Layout.resource_inj] at hcl
    obtain ⟨rfl, -, rfl⟩ := hcl
    exact ⟨rfl, by omega⟩
  obtain ⟨ps', hC'⟩ := hC.init_spawns h (.spawnedWriter j) memory hact hr hpt trivial hj
    (by rw [hcreated]; simp only [InitPoint.created]; omega) hspent hqueues.symm hstored (by simp)
    entry_writer hρ ⟨.started, rfl⟩ trivial (by simp) (by simp) hnew
  exact ⟨ps', _, hC'⟩

/-- `init` creates the reader of queue number `j`. -/
theorem init_spawns_reader (hC : Crew L t ps (.spawnedWriter j) a)
    (h : Simulated exceptZombies e a a')
    (hact : e.act = .syscall (.spawn L.readChildFunction (L.resource j)))
    (hr : a.running = some 0) (hj : j < 2) :
    ∃ ps' pt', Crew L ⟨t.memory, TestMq.started L e.pre
      (.spawn L.readChildFunction (L.resource j))
      (Function.update t.process 0 (some (.init (.spawnedReader j))))⟩ ps' pt' a' := by
  have hρ : Role.all[(InitPoint.spawnedWriter j).created]? = some (.client j dsosRead) := by
    rcases j with _ | _ | j
    · rfl
    · rfl
    · omega
  have hnew : ∀ i mode ph, (Process.reader (L.resource j) .started).client =
      some (L.resource i, mode, ph) → ph = .started ∧ i < (InitPoint.spawnedWriter j).queues := by
    intro i mode ph hcl
    simp only [Process.client, ReaderPoint.phase, Option.some.injEq, Prod.mk.injEq,
      Layout.resource_inj] at hcl
    obtain ⟨rfl, -, rfl⟩ := hcl
    exact ⟨rfl, hj⟩
  obtain ⟨ps', hC'⟩ := hC.init_spawns h (.spawnedReader j) t.memory hact hr trivial trivial hj
    (by simp only [InitPoint.created]; omega) (by simp only [Process.spent]; omega) rfl
    hC.initStanding.stored (by simp) entry_reader hρ ⟨.started, rfl⟩ trivial (by simp) (by simp)
    hnew
  exact ⟨ps', _, hC'⟩

/-- Where `init` stands when it runs and has called `wait`. -/
theorem waited (hC : Crew L t ps (.waiting j) a) (hI : a.Inv) (hr : a.running = some 0) :
    0 ≤ a.syscallRetvalue 0 ∧ (a.children 0).length = j ∧ 0 < j ∧ j ≤ 4 := by
  have hvalid : 0 < j ∧ j ≤ 4 := hC.cast.valid 0 _ hC.init
  rcases hC.initStanding.turn with ⟨-, hpos, hlen⟩ | ⟨hw, -⟩
  · exact ⟨hpos, hlen, hvalid⟩
  · exact absurd hw (Awake.not_blocked (Or.inl hr) hI.proc)

/-- The next call of `init`. -/
theorem init_next (hC : Crew L t ps pt a) (h : Simulated exceptZombies e a a')
    (hact : e.act = .syscall c) (hr : e.pre.running = some 0)
    (hout : initFunction L t.memory (e.pre.syscallRetvalue 0) pt = .call c x' memory) :
    ∃ ps' pt', Crew L ⟨memory, TestMq.started L e.pre c
      (Function.update t.process 0 (some x'))⟩ ps' pt' a' := by
  have hrun : a.running = some 0 := h.pre.running_eq.symm.trans hr
  have hret : e.pre.syscallRetvalue 0 = a.syscallRetvalue 0 := by rw [h.pre.data]
  rw [hret] at hout
  have hS := hC.initStanding
  have hvalid : pt.Valid := hC.cast.valid 0 _ hC.init
  cases pt with
  | started =>
      cases hout
      obtain ⟨ps', hC'⟩ := hC.init_spawns h .spawnedSleeper t.memory hact hrun
        trivial trivial trivial rfl (Nat.le_refl 1) rfl (fun j hj => absurd hj (Nat.not_lt_zero j))
        (by simp) entry_sleeper rfl rfl trivial (by simp) (by simp) (by simp [Process.client])
      exact ⟨ps', _, hC'⟩
  | spawnedSleeper =>
      cases hout
      rw [TestMq.started_eq rfl]
      exact ⟨ps, _, hC.init_opens h 0 hact hrun trivial (by decide) rfl rfl (Nat.le_refl 2)
        fun i hi => absurd hi (Nat.not_lt_zero i)⟩
  | opened i =>
      have hi : i < 2 := hvalid
      have hans : a.syscallRetvalue 0 = i := hS.turn.2.2 i rfl
      -- the descriptor that is stored now has the number of the queue
      have hstored : ∀ j < i + 1,
          Function.update t.memory (L.resource i) (a.syscallRetvalue 0) (L.resource j) = j := by
        intro j hj
        by_cases hji : j = i
        · rw [hji, Function.update_self, hans]
        · rw [Function.update_of_ne (fun heq => hji (Layout.resource_inj.1 heq))]
          exact hS.stored j (show j < i by omega)
      simp only [initFunction] at hout
      rw [if_neg (by omega)] at hout
      split at hout
      · rename_i hzero
        subst hzero
        cases hout
        rw [TestMq.started_eq rfl]
        exact ⟨ps, _, hC.init_opens h 1 hact hrun trivial (by decide) rfl rfl (Nat.le_refl 3)
          hstored⟩
      · rename_i hone
        obtain rfl : i = 1 := by omega
        cases hout
        exact hC.init_spawns_writer h 0 hact hrun trivial (by decide) rfl (Nat.le_refl 4) rfl
          hstored
  | spawnedWriter i =>
      cases hout
      exact hC.init_spawns_reader h hact hrun hvalid
  | spawnedReader i =>
      have hi : i < 2 := hvalid
      simp only [initFunction] at hout
      split at hout
      · rename_i hmore
        obtain rfl : i = 0 := by omega
        cases hout
        exact hC.init_spawns_writer h 1 hact hrun trivial (by decide) rfl (Nat.le_refl 6) rfl
          hS.stored
      · rename_i hlast
        obtain rfl : i = 1 := by omega
        obtain ⟨-, hlen, -⟩ := hS.turn
        cases hout
        rw [TestMq.started_eq rfl]
        exact ⟨ps, _, hC.init_waits h 4 hact hrun (by decide) rfl (Nat.le_refl 7)
          (by decide) (Nat.succ.inj hlen)⟩
  | waiting alive =>
      obtain ⟨hpos, hlen, hj⟩ := hC.waited h.inv hrun
      simp only [initFunction] at hout
      split at hout
      · rename_i hmore
        cases hout
        rw [TestMq.started_eq rfl]
        exact ⟨ps, _, hC.init_waits h (alive - 1) hact hrun (show 2 < 6 by decide) rfl
          (Nat.le_refl 7) (by omega) (by omega)⟩
      · rename_i hdone
        have hone : alive = 1 := by
          by_contra hne
          exact hdone ⟨hpos, by omega⟩
        cases hout
        rw [TestMq.started_eq rfl]
        exact ⟨ps, _, hC.init_ends h hact hrun (show 2 < 6 by decide) (Nat.le_refl 7) rfl
          (hlen.trans hone) (Or.inl ⟨_, 0, rfl, by decide, rfl⟩)⟩
  | destroying i =>
      have hi : i < 2 := hvalid
      have hlen : (a.children 0).length = 1 := hS.turn.2
      simp only [initFunction] at hout
      split at hout
      · rename_i hmore
        cases hout
        rw [TestMq.started_eq rfl]
        exact ⟨ps, _, hC.init_ends h hact hrun (show 2 < 6 by decide) (Nat.le_refl 7) rfl hlen
          (Or.inl ⟨_, i + 1, rfl, hmore, rfl⟩)⟩
      · cases hout
        rw [TestMq.started_eq rfl]
        exact ⟨ps, _, hC.init_ends h hact hrun (show 2 < 6 by decide) (Nat.le_refl 7) rfl hlen
          (Or.inr ⟨rfl, rfl⟩)⟩
  | shutdown => cases hout

end Crew

end DisastrOS
