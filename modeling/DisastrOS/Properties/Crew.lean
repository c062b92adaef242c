import DisastrOS.Abstract.Blocks
import DisastrOS.Abstract.Handles
import DisastrOS.Abstract.OneParent
import DisastrOS.Properties.Cast
import DisastrOS.Properties.Delivery

/-!
# `disastrOS_test_mq.c`: where the processes stand

`Standing` says for each point of the code what the kernel knows about the process that stands
there. An event leaves the standing of all processes as it is but for the one that makes the call
(`Standing.keep`).
-/

set_option autoImplicit false

namespace DisastrOS

open Runs Model

variable {clean : Addr → Prop} {a a' : Model} {act : Action} {L : Layout} {memory : Int → Int}
  {p q r : Addr} {x : Process} {pt : InitPoint} {n i : Nat} {mode : Int}

/-! ## The queues -/

namespace Model

/-- Queue number `i` of the program is `q`: it has the id `i`, and the first process has it open
under the number `i`. -/
def QueueAt (a : Model) (i : Nat) (q : Addr) : Prop := ∃ d, a.HasOpen 0 d i (.mq q) i

theorem QueueAt.mem (h : a.QueueAt i q) (hI : a.Inv) :
    .mq q ∈ a.resourcesList ∧ a.resourceId (.mq q) = i := by
  obtain ⟨d, ho⟩ := h
  exact ⟨(ho.in_use hI.desc).1, ho.id⟩

theorem QueueAt.byId (h : a.QueueAt i q) (hI : a.Inv) : a.resourceById i = some (.mq q) := by
  obtain ⟨hmem, hid⟩ := h.mem hI
  exact hid ▸ hI.res.byId hmem

theorem QueueAt.inj {j : Nat} (h : a.QueueAt i q) (h' : a.QueueAt j q) : i = j := by
  obtain ⟨_, ho⟩ := h
  obtain ⟨_, ho'⟩ := h'
  exact Int.ofNat.inj (ho.id.symm.trans ho'.id)

theorem QueueAt.unique {q' : Addr} (h : a.QueueAt i q) (h' : a.QueueAt i q') (hI : a.Inv) :
    q = q' :=
  ResourceRef.mq.inj (Option.some.inj ((h.byId hI).symm.trans (h'.byId hI)))

/-- A resource is there before a step, under the same id, or the step creates it. -/
theorem Step.resource_cases (h : Step clean a act a') {res : ResourceRef}
    (hres : res ∈ a'.resourcesList) :
    (res ∈ a.resourcesList ∧ a'.resourceId res = a.resourceId res) ∨
      ∃ id type mode, act = .syscall (.openResource id type mode) ∧ mode.toInt = dsosCreate ∧
        a'.resourceId res = id.toInt := by
  cases h with
  | tick _ hs =>
      obtain ⟨_, _, _, _, _, _, rfl⟩ := hs.eq
      exact Or.inl ⟨hres, rfl⟩
  | @syscall r c _ _ hs =>
      cases hp : c.onProcesses with
      | true =>
          have hsame := hs.sameResources hp
          rw [hsame.resourcesList] at hres
          rw [hsame.resources]
          exact Or.inl ⟨hres, rfl⟩
      | false =>
          cases hs with
          | @openResource id type mode _ hs =>
              cases hs with
              | alreadyExists _ _ => exact Or.inl ⟨hres, rfl⟩
              | @created a₁ _ res' hmode _ hadd hopen =>
                  obtain ⟨hlist, hids, -, -⟩ := hadd.resourcesList_eq
                  rw [hopen.sameStore.resourcesList, hlist] at hres
                  rw [hopen.sameStore.resourceId, hids]
                  by_cases heq : res = res'
                  · rw [heq, Function.update_self]
                    exact Or.inr ⟨id, type, mode, rfl, hmode, rfl⟩
                  · rw [Function.update_of_ne heq]
                    have hmem : res ∈ a.resourcesList :=
                      (List.mem_append.1 hres).resolve_right fun h => heq (List.mem_singleton.1 h)
                    exact Or.inl ⟨hmem, rfl⟩
              | unavailable _ _ => exact Or.inl ⟨hres, rfl⟩
              | found _ _ _ hopen =>
                  rw [hopen.sameStore.resourcesList] at hres
                  rw [hopen.sameStore.resourceId]
                  exact Or.inl ⟨hres, rfl⟩
          | closeResource hs =>
              rw [hs.sameStore.resourcesList] at hres
              rw [hs.sameStore.resourceId]
              exact Or.inl ⟨hres, rfl⟩
          | destroyResource hs =>
              cases hs with
              | notFound _ => exact Or.inl ⟨hres, rfl⟩
              | inUse _ _ => exact Or.inl ⟨hres, rfl⟩
              | @destroyed res' _ _ =>
                  cases res' with
                  | standard b => exact Or.inl ⟨List.mem_of_mem_erase hres, rfl⟩
                  | mq q => exact Or.inl ⟨List.mem_of_mem_erase hres, rfl⟩
          | mqRead hs => cases hs <;> exact Or.inl ⟨hres, rfl⟩
          | mqWrite hs => cases hs <;> exact Or.inl ⟨hres, rfl⟩
          | _ => cases hp
  | store _ => exact Or.inl ⟨hres, rfl⟩

theorem Awake.not_blocked (h : a.Awake p) (hP : a.ProcInv) : ¬ a.Blocked p := by
  rintro ⟨hwait, -⟩
  rcases h with hr | hready
  · exact (hP.running_fresh hr).1 .waiting hwait
  · have hstatus := hP.ready p hready
    rw [(hP.waiting p).2 hwait] at hstatus
    cases hstatus

/-- The flag of the shutdown is not reset. -/
theorem Step.stays_down (h : Step clean a act a') (hdown : a.shutdownNow = true) :
    a'.shutdownNow = true := by
  cases h with
  | tick _ hs =>
      obtain ⟨_, _, _, _, _, _, rfl⟩ := hs.eq
      exact hdown
  | syscall _ hs =>
      rcases hs.shutdown_cases with hsame | ⟨-, rfl⟩
      · exact hsame.trans hdown
      · rfl
  | store _ => exact hdown

end Model

/-- What the calls of the program keep to. -/
structure Lawful (a : Model) (act : Action) : Prop where
  creates : act.creates → a.running = some 0
  opens : ∀ id type mode, act = .syscall (.openResource id type mode) → mode.toInt = dsosCreate →
    a.running = some 0
  exits : ∀ v, act = .syscall (.exit v) → a.running ≠ some 0
  closes : ∀ fd mode, act = .syscall (.closeResource fd mode) → a.running ≠ some 0

/-- The queues stay open. -/
theorem Model.QueueAt.keep (hq : a.QueueAt i q) (h : Step clean a act a') (hI : a.Inv)
    (hI' : a'.Inv) (hD : a.Distinct) (hlaw : Lawful a act) : a'.QueueAt i q := by
  obtain ⟨d, ho⟩ := hq
  exact ⟨d, h.hasOpen ho hI hI' hD hlaw.exits fun n mode hr hact =>
    absurd hr (hlaw.closes n mode hact)⟩

/-! ## `init` -/

/-- What the kernel knows about the first process when it stands at this point. While it waits, it
has an entry for each child that is alive; one of them is for the process that only prints. -/
def InitTurn (a : Model) : InitPoint → Prop
  | .waiting alive =>
      (a.Awake 0 ∧ 0 ≤ a.syscallRetvalue 0 ∧ (a.children 0).length = alive) ∨
        (a.Blocked 0 ∧ (a.children 0).length = alive + 1)
  | .destroying _ => a.Awake 0 ∧ (a.children 0).length = 1
  | .shutdown => a.Awake 0 ∧ (a.children 0).length = 1 ∧ a.shutdownNow = true
  | pt => a.Awake 0 ∧ (a.children 0).length + 1 = pt.created ∧
      ∀ i, pt = .opened i → a.syscallRetvalue 0 = i

theorem initTurn_iff_of_creating (hpt : pt.Creating) : InitTurn a pt ↔ a.Awake 0 ∧
    (a.children 0).length + 1 = pt.created ∧ ∀ i, pt = .opened i → a.syscallRetvalue 0 = i := by
  cases pt <;> first | exact Iff.rfl | exact absurd hpt not_false

/-- The other processes and the timer do not change where `init` stands. -/
theorem InitTurn.keep (hT : InitTurn a pt) (hO : a.OneParent 0) (hN : a.PidInv n)
    (h : Step clean a act a') (hI : a.Inv) (hI' : a'.Inv)
    (hcall : a.running = some 0 → ∀ c, act ≠ .syscall c) (hcreates : act.creates = false) :
    InitTurn a' pt := by
  have hawake : a.Awake 0 → a'.Awake 0 ∧ a'.syscallRetvalue 0 = a.syscallRetvalue 0 ∧
      a'.children = a.children := by
    intro hx
    obtain ⟨hx', hret⟩ := (h.undisturbed hI hI' hx.alive hcall).awake hx
    rcases hO.others h hI hcall hcreates with ⟨hsame, -⟩ | ⟨hblocked, -⟩
    · exact ⟨hx', hret, hsame⟩
    · exact absurd hblocked (hx.not_blocked hI.proc)
  have hcreating : pt.Creating → InitTurn a' pt := by
    intro hpt
    obtain ⟨hx, hlen, hans⟩ := (initTurn_iff_of_creating hpt).1 hT
    obtain ⟨hx', hret, hsame⟩ := hawake hx
    rw [initTurn_iff_of_creating hpt, hret, hsame]
    exact ⟨hx', hlen, hans⟩
  cases pt with
  | waiting alive =>
      rcases hT with ⟨hx, hpos, hlen⟩ | ⟨hw, hlen⟩
      · obtain ⟨hx', hret, hsame⟩ := hawake hx
        exact Or.inl ⟨hx', by rwa [hret], by rwa [hsame]⟩
      · by_cases hrun : a'.running = some 0
        · -- a child has left, and its pid is the answer
          obtain ⟨hless, s, hs, hret⟩ := hO.resumed h hI hw hrun
          refine Or.inl ⟨Or.inl hrun, ?_, by omega⟩
          rw [hret]
          exact (hN.bound s (Or.inl hs)).1
        · rcases hO.others h hI hcall hcreates with ⟨hsame, -⟩ | ⟨-, hrun'⟩
          · exact Or.inr ⟨(h.blocked_stays hI hw hrun).1, by rwa [hsame]⟩
          · exact absurd hrun' hrun
  | destroying i =>
      obtain ⟨hx', -, hsame⟩ := hawake hT.1
      exact ⟨hx', by rw [hsame]; exact hT.2⟩
  | shutdown =>
      obtain ⟨hx, hlen, hdown⟩ := hT
      obtain ⟨hx', -, hsame⟩ := hawake hx
      exact ⟨hx', by rw [hsame]; exact hlen, h.stays_down hdown⟩
  | _ => exact hcreating trivial

/-- Where `init` stands at a point, with what it has stored. -/
structure InitStanding (L : Layout) (memory : Int → Int) (a : Model) (pt : InitPoint) : Prop where
  alive : a.Alive 0
  stored : ∀ j < pt.stored, memory (L.resource j) = j
  queues : ∀ j < pt.queues, ∃ q, a.QueueAt j q
  resources : ∀ res ∈ a.resourcesList, a.resourceId res < pt.queues
  lastFd : a.lastFd 0 = pt.queues
  turn : InitTurn a pt

/-! ## All processes -/

/-- Where a process stands. -/
structure Standing (L : Layout) (memory : Int → Int) (a : Model) (p : Addr) (x : Process) :
    Prop where
  init : ∀ pt, x = .init pt → p = 0 ∧ InitStanding L memory a pt
  sleeper : x = .sleeper → a.Awake p
  client : ∀ i mode ph, x.client = some (L.resource i, mode, ph) →
    ∃ q, a.QueueAt i q ∧ a.Client p q mode ph
  writing : ∀ args fd i, x = .writer args (.writing fd i) →
    a.Awake p ∧ a.syscallRetvalue p ≠ dsosMessageQueueFull

/-- Only `init` reads the memory. -/
theorem Standing.of_ne {memory' : Int → Int} (hS : Standing L memory a p x) (hp : p ≠ 0) :
    Standing L memory' a p x where
  init pt hpt := absurd (hS.init pt hpt).1 hp
  sleeper := hS.sleeper
  client := hS.client
  writing := hS.writing

/-- What the others may not do: close the queue of a client in its mode. -/
def Spared (L : Layout) (a : Model) (act : Action) (x : Process) : Prop :=
  ∀ i mode ph q, x.client = some (L.resource i, mode, ph) → a.QueueAt i q →
    ∀ r fd mode' d, a.running = some r → act = .syscall (.closeResource fd mode') →
      a.descriptorByFd r fd.toInt = some d → a.desResource d = .mq q → mode'.toInt ≠ mode

/-- A process stays where it is while it makes no call. -/
theorem Standing.keep (hS : Standing L memory a p x) (hO : a.OneParent 0) (hG : a.Families n)
    (h : Step clean a act a') (hI : a.Inv) (hI' : a'.Inv) (hD : a.Distinct) (hlaw : Lawful a act)
    (hcall : a.running = some p → ∀ c, act ≠ .syscall c) (hnew : act.creates → a.Used p)
    (hspared : Spared L a act x) : Standing L memory a' p x where
  init pt hpt := by
    obtain ⟨rfl, halive, hstored, hqueues, hres, hlast, hturn⟩ := hS.init pt hpt
    have hno : act.creates = false := by
      cases hc : act.creates with
      | false => rfl
      | true =>
          cases act with
          | syscall c => exact absurd rfl (hcall (hlaw.creates hc) c)
          | tick => cases hc
          | store _ _ => cases hc
    refine ⟨rfl, ?_, hstored, fun j hj => ?_, fun res hmem => ?_, ?_, ?_⟩
    · exact h.alive_mono hI hI' halive hlaw.exits
    · obtain ⟨q, hq⟩ := hqueues j hj
      exact ⟨q, hq.keep h hI hI' hD hlaw⟩
    · rcases h.resource_cases hmem with ⟨hmem', hid⟩ | ⟨id, type, mode, hact, hmode, -⟩
      · rw [hid]
        exact hres res hmem'
      · exact absurd hact (hcall (hlaw.opens id type mode hact hmode) _)
    · refine (h.keeps_lastFd hI hI' hD (fun hd hr => ?_) halive.used).trans hlast
      cases act with
      | syscall c => exact hcall hr c rfl
      | tick => cases hd
      | store _ _ => cases hd
    · exact hturn.keep hO hG.pids h hI hI' hcall hno
  sleeper hx := by
    have hawake := hS.sleeper hx
    exact ((h.undisturbed hI hI' hawake.alive hcall).awake hawake).1
  client i mode ph hx := by
    obtain ⟨q, hq, hC⟩ := hS.client i mode ph hx
    exact ⟨q, hq.keep h hI hI' hD hlaw,
      hC.keep h hI hI' hD hG hcall hnew (hspared i mode ph q hx hq)⟩
  writing args fd i hx := by
    obtain ⟨hawake, hne⟩ := hS.writing args fd i hx
    obtain ⟨hawake', hret⟩ := (h.undisturbed hI hI' hawake.alive hcall).awake hawake
    exact ⟨hawake', by rwa [hret]⟩

end DisastrOS
