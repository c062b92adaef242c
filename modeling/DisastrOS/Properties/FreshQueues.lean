import DisastrOS.Abstract.QueueLives
import DisastrOS.Properties.MessageIntegrity
import DisastrOS.Properties.Registrations

/-!
# Freshness of queues that are created

`mq_alloc` initialises the list of messages and leaves `reading_pid` and `writing_pid` as they are
in the block. So a queue is fresh if and only if the last queue in the same block was destroyed
without registrations.
-/

set_option autoImplicit false

namespace DisastrOS

open Runs Model

variable {counted : ProcList → Prop} {es fs gs : List (Event Kernel Action)} {s : Kernel}
  {e : Event Kernel Action} {a a' : Model} {q : Addr} {mode : Int} {id : Int32}

/-- In this event an `openResource` creates the message queue `id` and gives the process a
descriptor. -/
structure CreatesQueue (e : Event Kernel Action) (id : Int32) : Prop where
  call : ∃ type mode, e.act = .syscall (.openResource id type mode) ∧
    type.toInt = messageQueueType ∧ mode.toInt = dsosCreate
  success : ∃ p d, e.pre.running = some p ∧ e.post.descriptorsOf p = e.pre.descriptorsOf p ++ [d]

/-- The queue has no messages, no reader and no writer. -/
structure FreshQueue (s : Kernel) (q : Addr) : Prop where
  messages : s.messagesOf q = []
  reading : s.readingPid q = none
  writing : s.writingPid q = none

/-- In this event a process opens the queue for `mode`, with or without success. -/
def AsksFor (e : Event Kernel Action) (q : Addr) (mode : Int) : Prop :=
  ∃ id type mode', e.act = .syscall (.openResource id type mode') ∧ mode'.toInt = mode ∧
    e.pre.queueById id.toInt = some q

/-- `mq_set_mode` refuses the queue for `mode` in the state before the event. -/
def Refused (e : Event Kernel Action) (q : Addr) (mode : Int) : Prop :=
  ∃ s, e.pre.mqSetMode (.mq q) mode = .ok (s, 0)

/-- The first event that opens the queue for `mode` is not refused by `mq_set_mode`. -/
def FirstAdmitted (gs : List (Event Kernel Action)) (q : Addr) (mode : Int) : Prop :=
  ∀ gs₁ g gs₂, gs = gs₁ ++ g :: gs₂ → (∀ f ∈ gs₁, ¬ AsksFor f q mode) → AsksFor g q mode →
    ¬ Refused g q mode

/-- The last event that destroys a queue in the block `q`. -/
def lastDestruction (fs : List (Event Kernel Action)) (q : Addr) : Option (Event Kernel Action) :=
  (fs.filter fun f => f.pre.Live q ∧ ¬ f.post.Live q).getLast?

/-- The last queue in the block `q`, if there was one, was destroyed without registrations. -/
def LeftClean (fs : List (Event Kernel Action)) (q : Addr) : Prop :=
  ∀ f ∈ lastDestruction fs q, f.pre.registrationsOf (.mq q) = []

/-! ## One life after the other -/

theorem leftClean_concat : LeftClean (fs ++ [e]) q ↔
    if e.pre.Live q ∧ ¬ e.post.Live q then e.pre.registrationsOf (.mq q) = [] else LeftClean fs q := by
  simp only [LeftClean, lastDestruction, List.filter_append, List.filter_cons, List.filter_nil,
    decide_eq_true_eq]
  split
  · simp
  · simp

/-- A block that is free has registrations if and only if its last life has left some. -/
def LivesInv (fs : List (Event Kernel Action)) (a : Model) : Prop :=
  ∀ q, .mq q ∉ a.resourcesList → ((∀ mode, a.registration q mode = none) ↔ LeftClean fs q)

theorem Simulated.livesInv (h : Simulated counted e a a') (hL : LivesInv fs a) :
    LivesInv (fs ++ [e]) a' := by
  intro q hdead
  have hpre := h.pre.live_iff (q := q) h.inv
  have hpost : ¬ e.post.Live q := mt (h.post.live_iff h.inv').1 hdead
  rw [leftClean_concat]
  by_cases hlive : .mq q ∈ a.resourcesList
  · rw [if_pos ⟨hpre.2 hlive, hpost⟩, Resources.registrationsOf_eq_nil, h.pre.data]
    simp only [h.step.registration_destroyed h.inv hlive hdead]
  · rw [if_neg fun hcond => hlive (hpre.1 hcond.1), ← hL q hlive]
    simp only [h.step.registration_dead h.inv hlive]

theorem SystemRun.livesInv (h : SystemRun es s) :
    ∃ a, Refines exceptZombies s a ∧ a.Inv ∧ LivesInv es a := by
  refine h.invariant_of_step (J := LivesInv) (fun chars ints q _ => ?_)
    fun es e a a' _ hL hsim => hsim.livesInv hL
  refine iff_of_true (fun mode => ?_) fun f hf => ?_
  · exact start_registration chars ints q mode
  · cases hf

/-! ## The creation -/

/-- A creation takes a block that was free, with its registrations. -/
theorem Simulated.creates (h : Simulated counted e a a') (hc : CreatesQueue e id) :
    ∃ q, .mq q ∉ a.resourcesList ∧ .mq q ∈ a'.resourcesList ∧ a'.queueById id.toInt = some q := by
  obtain ⟨⟨type, mode, hact, htype, hmode⟩, p, d, hrun, hd⟩ := hc
  obtain ⟨hrun', hs⟩ := h.handler hact hrun
  rw [h.pre.descriptorsOf_eq h.inv.desc, h.post.descriptorsOf_eq h.inv'.desc] at hd
  have hgrows : a'.descriptors p ≠ a.descriptors p := by
    rw [hd]
    simp
  cases hs with
  | openResource hs =>
      rw [htype, hmode] at hs
      obtain ⟨q, hdead, hlive, hid⟩ := hs.creates (h.inv.enter hrun' _).res hgrows
      refine ⟨q, hdead, hlive, ?_⟩
      rw [queueById, ← hid, h.inv'.res.byId hlive]

/-- `mq_set_mode` does not refuse a queue that has no registration for the mode. -/
theorem Refines.not_refused (hR : Refines counted e.pre a) (hI : a.ResInv)
    (hmode : Exclusive mode) (hlive : .mq q ∈ a.resourcesList)
    (hnone : a.registration q mode = none) : ¬ Refused e q mode := by
  rintro ⟨s, hs⟩
  have htype : e.pre.resourceType (.mq q) = messageQueueType := by
    rw [hR.data]
    exact hI.type _ hlive
  have hnone' : e.pre.registration q mode = none := by
    rw [hR.data]
    exact hnone
  rw [Kernel.mqSetMode, if_neg (not_not.2 htype)] at hs
  have hread : dsosWrite ≠ dsosRead := by decide
  rcases hmode with rfl | rfl
  · rw [Resources.registration_read] at hnone'
    simp only [if_true, hnone', Option.isSome_none] at hs
    cases hr : e.pre.running with
    | none => simp [hr, deref] at hs
    | some r => cases hp : e.pre.pcbPtrAlloc r <;> simp [hr, hp] at hs
  · rw [Resources.registration_write] at hnone'
    simp only [if_neg hread, if_true, hnone', Option.isSome_none] at hs
    cases hr : e.pre.running with
    | none => simp [hr, deref] at hs
    | some r => cases hp : e.pre.pcbPtrAlloc r <;> simp [hr, hp] at hs

/-- A registration that is free stays free as long as nobody opens the queue in its mode. -/
theorem Refines.registration_none (hR : Refines exceptZombies s a) (hI : a.Inv)
    {t : Kernel} (hnone : a.registration q mode = none) (hrun : Run Kernel.Completes s gs t)
    (hgs : ∀ g ∈ gs, ¬ AsksFor g q mode) :
    ∃ b, Refines exceptZombies t b ∧ b.Inv ∧ b.registration q mode = none := by
  refine hR.invariant (P := fun _ g => ¬ AsksFor g q mode)
    (J := fun _ b => b.registration q mode = none) hI hnone hrun
    (fun fs g hs heq => hgs g (by simp [heq])) fun _ g b b' hnone hsim hask => ?_
  refine hsim.step.registration_none hnone fun id type mode' hact hq hm => hask ?_
  refine ⟨id, type, mode', hact, hm, ?_⟩
  rw [hsim.pre.queueById_eq hsim.inv.res]
  exact hq

/-- A queue that is created is fresh, and the first opens of it for reading and for writing are not
refused, if and only if the last queue in the same block was destroyed without registrations. -/
theorem created_queue_fresh_iff (h : SystemRun (fs ++ e :: gs) s) (hc : CreatesQueue e id) :
    ∃ q, e.post.queueById id.toInt = some q ∧
      ((FreshQueue e.post q ∧ ∀ mode, Exclusive mode → FirstAdmitted gs q mode) ↔
        LeftClean fs q) := by
  obtain ⟨hpre, hstep, -⟩ := h.split
  obtain ⟨a, hR, hI, hL⟩ := hpre.livesInv
  obtain ⟨a', hsim⟩ := hR.simulated hI hstep
  obtain ⟨q, hdead, hlive, hq⟩ := hsim.creates hc
  -- the block keeps the registrations of the queue that was in it before
  have hreg : ∀ mode, a'.registration q mode = a.registration q mode := fun mode =>
    hsim.step.registration_dead hI hdead
  have hmsgs : e.post.messagesOf q = [] := by
    have hnew := hsim.contents_of_new (mt (hR.live_iff hI).1 hdead)
      ((hsim.post.live_iff hsim.inv').2 hlive)
    exact List.map_eq_nil_iff.1 hnew
  refine ⟨q, (hsim.post.queueById_eq hsim.inv'.res _).trans hq, ?_⟩
  rw [← hL q hdead]
  constructor
  · rintro ⟨hfresh, -⟩ mode
    have hnil : e.post.registrationsOf (.mq q) = [] := by
      rw [Resources.registrationsOf, hfresh.reading, hfresh.writing]
      rfl
    rw [Resources.registrationsOf_eq_nil, hsim.post.data] at hnil
    rw [← hreg mode]
    exact hnil mode
  · intro hnone
    have hnone' : ∀ mode, a'.registration q mode = none := fun mode => (hreg mode).trans (hnone mode)
    constructor
    · refine ⟨hmsgs, ?_, ?_⟩
      · rw [hsim.post.data]
        exact hnone' dsosRead
      · rw [hsim.post.data]
        exact hnone' dsosWrite
    · rintro mode hmode gs₁ g gs₂ rfl hfirst ⟨id', type, mode', -, -, hg⟩
      -- nobody registers before the first open, so it finds the place free
      obtain ⟨hrun, -, -⟩ := h.rest.split
      obtain ⟨b, hRb, hIb, hb⟩ :=
        hsim.post.registration_none hsim.inv' (hnone' mode) hrun hfirst
      rw [hRb.queueById_eq hIb.res] at hg
      exact hRb.not_refused hIb.res hmode (mem_of_queueById hg).2.1 hb

/-- A queue is created, destroyed and created again, and then opened for writing. -/
theorem created_queue_fresh_iff_again : ∃ (e g : Event Kernel Action),
    (e.act = .syscall (.openResource 2 1 1) ∧ g.act = .syscall (.openResource 2 1 3)) ∧
      FreshQueue e.post 0 ∧ ∀ mode, Exclusive mode → FirstAdmitted [g] 0 mode := by
  obtain ⟨es, s, hrun, hp⟩ := exists_of_executes
    [.syscall (.openResource 1 1 1), .syscall (.closeResource 0 0), .syscall (.destroyResource 1),
      .syscall (.openResource 2 1 1), .syscall (.openResource 2 1 3)]
    (fun es _ => match es with
      | [f₁, f₂, f₃, e, g] => e.act = .syscall (.openResource 2 1 1) ∧
          g.act = .syscall (.openResource 2 1 3) ∧ e.pre.running = some 0 ∧
          e.post.descriptorsOf 0 = e.pre.descriptorsOf 0 ++ [0] ∧ e.post.queueById 2 = some 0 ∧
          ∀ f ∈ lastDestruction [f₁, f₂, f₃] 0, f.pre.registrationsOf (.mq 0) = []
      | _ => false) (by decide +kernel)
  split at hp
  · rename_i f₁ f₂ f₃ e g
    obtain ⟨hact, hact', hr, hd, hq, hclean⟩ := of_decide_eq_true hp
    have hc : CreatesQueue e 2 := ⟨⟨1, 1, hact, rfl, rfl⟩, 0, 0, hr, hd⟩
    have hrun' : SystemRun ([f₁, f₂, f₃] ++ e :: [g]) s := hrun
    obtain ⟨q, hq', hiff⟩ := created_queue_fresh_iff hrun' hc
    obtain rfl : 0 = q := Option.some.inj (hq.symm.trans hq')
    exact ⟨e, g, ⟨hact, hact'⟩, hiff.2 hclean⟩
  · cases hp

/-- A writer closes its descriptor without a mode, the queue is destroyed, and the next queue has a
writer before anybody has opened it: the first open for writing is refused. -/
theorem created_queue_stale : ∃ (fs : List (Event Kernel Action)) (e g : Event Kernel Action)
    (s : Kernel), SystemRun (fs ++ e :: [g]) s ∧ CreatesQueue e 2 ∧ e.post.queueById 2 = some 0 ∧
      ¬ FreshQueue e.post 0 ∧ g.act = .syscall (.openResource 2 1 3) ∧
      g.post.syscallRetvalue 0 = dsosEResourceOpen := by
  obtain ⟨es, s, hrun, hp⟩ := exists_of_executes
    [.syscall (.openResource 1 1 1), .syscall (.openResource 1 1 3), .syscall (.closeResource 1 0),
      .syscall (.closeResource 0 0), .syscall (.destroyResource 1), .syscall (.openResource 2 1 1),
      .syscall (.openResource 2 1 3)]
    (fun es _ => match es with
      | [_, _, _, _, _, e, g] => e.act = .syscall (.openResource 2 1 1) ∧
          g.act = .syscall (.openResource 2 1 3) ∧ e.pre.running = some 0 ∧
          e.post.descriptorsOf 0 = e.pre.descriptorsOf 0 ++ [0] ∧ e.post.queueById 2 = some 0 ∧
          e.post.writingPid 0 ≠ none ∧ g.post.syscallRetvalue 0 = dsosEResourceOpen
      | _ => false) (by decide +kernel)
  split at hp
  · rename_i f₁ f₂ f₃ f₄ f₅ e g
    obtain ⟨hact, hact', hr, hd, hq, hwriter, hanswer⟩ := of_decide_eq_true hp
    exact ⟨[f₁, f₂, f₃, f₄, f₅], e, g, s, hrun, ⟨⟨1, 1, hact, rfl, rfl⟩, 0, 0, hr, hd⟩, hq,
      fun h => hwriter h.writing, hact', hanswer⟩
  · cases hp

end DisastrOS
