import DisastrOS.Abstract.Registrations
import DisastrOS.Refinement.SystemRun

/-!
# One reader and one writer for a queue

While a process holds a descriptor that it has opened for reading or writing, nobody else can open
the queue in the same mode, unless somebody closes another descriptor of the queue and passes that
mode: `closeResource` drops the registration for the mode it is given, whoever holds it.
-/

set_option autoImplicit false

namespace DisastrOS

open Runs Model

variable {counted : ProcList → Prop} {es fs gs : List (Event Kernel Action)} {s : Kernel}
  {e : Event Kernel Action} {a a' : Model} {p d q k : Addr} {mode : Int}

/-- The message queue with this id. -/
def Kernel.queueById (s : Kernel) (id : Int) : Option Addr :=
  match s.resources.find? fun r => s.resourceId r = id with
  | some (.mq q) => some q
  | _ => none

/-- In this event the process `p` opens the queue `q` for `mode` and gets the descriptor `d`. -/
structure OpensQueue (e : Event Kernel Action) (p q d : Addr) (mode : Int) : Prop where
  running : e.pre.running = some p
  call : ∃ id type mode', e.act = .syscall (.openResource id type mode') ∧ mode'.toInt = mode
  descriptor : e.post.descriptorsOf p = e.pre.descriptorsOf p ++ [d]
  queue : e.post.desResource d = .mq q

/-- In this event the process `p` closes its descriptor `d` and passes `mode`. -/
def ClosesDescriptor (e : Event Kernel Action) (p d : Addr) (mode : Int) : Prop :=
  e.pre.running = some p ∧ ∃ fd mode', e.act = .syscall (.closeResource fd mode') ∧
    mode'.toInt = mode ∧ e.pre.descriptorListByFd p fd.toInt = .ok (some d)

/-- In this event the process `p` closes `d` or exits. -/
def LetsGo (e : Event Kernel Action) (p d : Addr) : Prop :=
  (∃ mode, ClosesDescriptor e p d mode) ∨
    e.pre.running = some p ∧ ∃ v, e.act = .syscall (.exit v)

/-- In this event a process closes a descriptor of `q` other than `d`, and passes `mode`. -/
def ClosesOther (e : Event Kernel Action) (q d : Addr) (mode : Int) : Prop :=
  ∃ p' d', d' ≠ d ∧ ClosesDescriptor e p' d' mode ∧ e.pre.desResource d' = .mq q

/-- The process `p` is the registered reader or writer of the queue `q`. -/
def Registered (s : Kernel) (p q : Addr) (mode : Int) : Prop :=
  ∃ k, s.registration q mode = some k ∧ s.ptrPcb k = p

/-- After this event `p` is still registered, and in it nobody opens the queue in the same mode. -/
def KeepsOthersOut (e : Event Kernel Action) (p q : Addr) (mode : Int) : Prop :=
  Registered e.post p q mode ∧ ∀ p' d', ¬ OpensQueue e p' q d' mode

/-- Nobody is registered at the start. -/
theorem Model.start_registration (chars : Int → UInt8) (ints : Int → Int) (q : Addr) (mode : Int) :
    (Model.start chars ints).registration q mode = none := by
  simp [Resources.registration, Model.start, Kernel.zeroed]

/-! ## Events -/

theorem Refines.queueById_eq (hR : Refines counted s a) (hI : a.ResInv) (id : Int) :
    s.queueById id = a.queueById id := by
  rw [Kernel.queueById, hR.resources_eq hI, hR.data]
  rfl

/-- An event that opens a queue takes a registration that is free. -/
theorem Simulated.registers (h : Simulated counted e a a') (hmode : Exclusive mode)
    (hopen : OpensQueue e p q d mode) :
    a.running = some p ∧ d ∈ a'.descriptors p ∧ a'.desResource d = .mq q ∧
      a.registration q mode = none ∧
      ∃ k ∈ a.freePcbPtrs, a'.registration q mode = some k ∧ a'.ptrPcb k = p ∧
        k ∉ a'.freePcbPtrs ∧ a'.children = a.children := by
  obtain ⟨hrun, ⟨id, type, mode', hact, rfl⟩, hd, hq⟩ := hopen
  rw [h.pre.descriptorsOf_eq h.inv.desc, h.post.descriptorsOf_eq h.inv'.desc] at hd
  rw [h.post.data] at hq
  obtain ⟨hrun', hs⟩ := h.handler hact hrun
  refine ⟨hrun', ?_, hq, ?_⟩
  · rw [hd]
    exact List.mem_append_right _ (List.mem_singleton_self d)
  · cases hs with
    | openResource hs => exact hs.registers hmode h.distinct.freePcbPtrs hd hq

theorem Simulated.closesDescriptor_iff (h : Simulated counted e a a') :
    ClosesDescriptor e p d mode ↔ a.running = some p ∧
      ∃ fd mode', e.act = .syscall (.closeResource fd mode') ∧ mode'.toInt = mode ∧
        a.descriptorByFd p fd.toInt = some d := by
  simp only [ClosesDescriptor, h.pre.running_eq, h.pre.descriptorListByFd_eq h.inv.desc,
    Except.ok.injEq]

/-- Whoever holds the registration after an event that opens the queue. -/
theorem Simulated.holds_of_opens (h : Simulated counted e a a') (hmode : Exclusive mode)
    (hopen : OpensQueue e p q d mode) : ∃ k, a'.Holds p d q mode k := by
  obtain ⟨id, type, mode', hact, -⟩ := hopen.call
  obtain ⟨hrun, hd, hq, -, k, hk, hreg, hptr, hused, hchildren⟩ := h.registers hmode hopen
  refine ⟨k, h.step.alive_mono h.inv h.inv' (Or.inl hrun) (fun v hv => ?_), hd, hq, hreg, hptr,
    hused, fun x hmem => ?_⟩
  · rw [hact] at hv
    cases hv
  · rw [hchildren] at hmem
    exact (h.inv.kid.used x k hmem).2 hk

/-- As long as `p` holds its registration, an event keeps it and nobody else gets in. -/
theorem Simulated.keepsOthersOut (h : Simulated counted e a a') (hmode : Exclusive mode)
    (hH : a.Holds p d q mode k) (hhold : ¬ LetsGo e p d) (hother : ¬ ClosesOther e q d mode) :
    a'.Holds p d q mode k ∧ KeepsOthersOut e p q mode := by
  have hH' : a'.Holds p d q mode k := by
    refine h.step.holds hH h.inv h.inv' h.distinct (fun v hact hrun => hhold (Or.inr ?_))
      (fun r fd mode' hr hact hd => hhold (Or.inl ⟨mode'.toInt, ?_⟩))
      fun r fd mode' d' hr hact hd' hq hm => ?_
    · exact ⟨h.pre.running_eq.trans hrun, v, hact⟩
    · obtain rfl := h.distinct.descriptors.eq (mem_of_descriptorByFd hd).1 hH.descriptor
      exact h.closesDescriptor_iff.2 ⟨hr, fd, mode', hact, rfl, hd⟩
    · by_contra hne
      refine hother ⟨r, d', hne, h.closesDescriptor_iff.2 ⟨hr, fd, mode', hact, hm, hd'⟩, ?_⟩
      rw [h.pre.data]
      exact hq
  refine ⟨hH', ⟨k, ?_, ?_⟩, fun p' d' hopen => ?_⟩
  · rw [h.post.data]
    exact hH'.registration
  · rw [h.post.data]
    exact hH'.entry.pcb
  · obtain ⟨-, -, -, hnone, -⟩ := h.registers hmode hopen
    rw [hH.registration] at hnone
    cases hnone

/-- After an event in which another descriptor is closed with the mode, nobody is registered. -/
theorem Simulated.not_registered (h : Simulated counted e a a') (hother : ClosesOther e q d mode) :
    ¬ Registered e.post p q mode := by
  obtain ⟨p', d', -, hcloses, hq⟩ := hother
  obtain ⟨-, fd, mode', hact, rfl, hd'⟩ := h.closesDescriptor_iff.1 hcloses
  obtain ⟨-, hs⟩ := h.handler hact hcloses.1
  rw [h.pre.data] at hq
  rintro ⟨k, hk, -⟩
  rw [h.post.data] at hk
  cases hs with
  | closeResource hs =>
      rw [(hs.delists hd' hq).registration, if_pos ⟨rfl, rfl⟩] at hk
      cases hk

/-! ## Runs -/

/-- From an open for reading or writing on, until the process closes the descriptor or exits, it
stays registered and nobody else opens the queue in the same mode, if and only if nobody closes
another descriptor of the queue with that mode. -/
theorem single_registration (h : SystemRun (fs ++ e :: gs) s) (hmode : Exclusive mode)
    (hopen : OpensQueue e p q d mode) (hhold : ∀ g ∈ gs, ¬ LetsGo g p d) :
    Registered e.post p q mode ∧
      ((∀ g ∈ gs, KeepsOthersOut g p q mode) ↔ ∀ g ∈ gs, ¬ ClosesOther g q d mode) := by
  obtain ⟨a, a', hsim⟩ := h.simulated (List.mem_append_right fs List.mem_cons_self)
  obtain ⟨k, hH⟩ := hsim.holds_of_opens hmode hopen
  refine ⟨⟨k, ?_, ?_⟩, fun hkeeps g hg hother => ?_, fun hsafe => ?_⟩
  · rw [hsim.post.data]
    exact hH.registration
  · rw [hsim.post.data]
    exact hH.entry.pcb
  -- a close of another descriptor drops the registration of `p`
  · obtain ⟨b, b', hsim'⟩ := h.simulated
      (List.mem_append_right fs (List.mem_cons_of_mem e hg))
    exact hsim'.not_registered hother (hkeeps g hg).1
  · obtain ⟨-, -, -, -, hall⟩ := hsim.post.invariant
      (P := fun _ g => ¬ LetsGo g p d ∧ ¬ ClosesOther g q d mode)
      (J := fun gs a => a.Holds p d q mode k ∧ ∀ g ∈ gs, KeepsOthersOut g p q mode)
      hsim.inv' ⟨hH, fun _ hg => absurd hg List.not_mem_nil⟩ h.rest
      (fun fs' g gs' heq => by
        have hg : g ∈ gs := by simp [heq]
        exact ⟨hhold g hg, hsafe g hg⟩)
      fun gs g b b' ⟨hH, hall⟩ hsim ⟨hhold, hother⟩ => by
        obtain ⟨hH', hkeeps⟩ := hsim.keepsOthersOut hmode hH hhold hother
        refine ⟨hH', fun f hf => ?_⟩
        rcases List.mem_append.1 hf with hf | hf
        · exact hall f hf
        · rw [List.mem_singleton.1 hf]
          exact hkeeps
    exact hall

/-! ## Concrete runs -/

/-- In this event the process `p` neither closes a descriptor nor exits. -/
def Harmless (e : Event Kernel Action) (p : Addr) : Bool :=
  match e.act with
  | .syscall (.closeResource ..) | .syscall (.exit _) => e.pre.running ≠ some p
  | _ => true

theorem not_letsGo (h : Harmless e p) : ¬ LetsGo e p d := by
  rintro (⟨m, hrun, fd, mode', hact, -⟩ | ⟨hrun, v, hact⟩)
  · simp [Harmless, hact, hrun] at h
  · simp [Harmless, hact, hrun] at h

/-- A second process opens the queue in the same mode and is refused. -/
theorem single_registration_refused : ∃ (e g₁ g₂ : Event Kernel Action),
    (g₂.act = .syscall (.openResource 1 1 3) ∧ g₂.pre.running = some 17544) ∧
      Registered e.post 0 0 dsosWrite ∧ ∀ g ∈ [g₁, g₂], KeepsOthersOut g 0 0 dsosWrite := by
  obtain ⟨es, s, hrun, hp⟩ := exists_of_executes
    [.syscall (.openResource 1 1 1), .syscall (.spawn 1 0), .syscall (.openResource 1 1 3),
      .syscall .preempt, .syscall (.openResource 1 1 3)]
    (fun es _ => match es with
      | [_, _, e, g₁, g₂] => e.pre.running = some 0 ∧ e.act = .syscall (.openResource 1 1 3) ∧
          e.post.descriptorsOf 0 = e.pre.descriptorsOf 0 ++ [48] ∧ e.post.desResource 48 = .mq 0 ∧
          g₁.act = .syscall .preempt ∧ g₂.act = .syscall (.openResource 1 1 3) ∧
          g₂.pre.running = some 17544
      | _ => false) (by decide +kernel)
  split at hp
  · rename_i e₁ e₂ e g₁ g₂
    obtain ⟨hrun₀, hact, hd, hq, hact₁, hact₂, hrun₂⟩ := of_decide_eq_true hp
    have hopen : OpensQueue e 0 0 48 dsosWrite := ⟨hrun₀, ⟨1, 1, 3, hact, rfl⟩, hd, hq⟩
    have hharmless : ∀ g ∈ [g₁, g₂], Harmless g 0 ∧ ¬ ClosesOther g 0 48 dsosWrite := by
      intro g hg
      simp only [List.mem_cons, List.not_mem_nil, or_false] at hg
      rcases hg with rfl | rfl
      · simp [Harmless, hact₁, ClosesOther, ClosesDescriptor]
      · simp [Harmless, hact₂, ClosesOther, ClosesDescriptor]
    have hrun' : SystemRun ([e₁, e₂] ++ e :: [g₁, g₂]) s := hrun
    have hmain := single_registration hrun' (Or.inr rfl) hopen
      fun g hg => not_letsGo (hharmless g hg).1
    exact ⟨e, g₁, g₂, ⟨hact₂, hrun₂⟩, hmain.1, hmain.2.2 fun g hg => (hharmless g hg).2⟩
  · cases hp

/-- Two writers: another process opens the queue without a mode, closes it in the mode of the first
writer, and opens it for writing. -/
theorem two_registrations : ∃ (fs gs : List (Event Kernel Action)) (e : Event Kernel Action)
    (s : Kernel), SystemRun (fs ++ e :: gs) s ∧ OpensQueue e 0 0 48 dsosWrite ∧
      (∀ g ∈ gs, ¬ LetsGo g 0 48) ∧ ∃ g ∈ gs, OpensQueue g 17544 0 96 dsosWrite := by
  obtain ⟨es, s, hrun, hp⟩ := exists_of_executes
    [.syscall (.openResource 1 1 1), .syscall (.spawn 1 0), .syscall (.openResource 1 1 3),
      .syscall .preempt, .syscall (.openResource 1 1 0), .syscall (.closeResource 0 3),
      .syscall (.openResource 1 1 3)]
    (fun es _ => match es with
      | [_, _, e, g₁, g₂, g₃, g₄] =>
          e.pre.running = some 0 ∧ e.act = .syscall (.openResource 1 1 3) ∧
          e.post.descriptorsOf 0 = e.pre.descriptorsOf 0 ++ [48] ∧ e.post.desResource 48 = .mq 0 ∧
          (∀ g ∈ [g₁, g₂, g₃, g₄], Harmless g 0) ∧
          g₄.pre.running = some 17544 ∧ g₄.act = .syscall (.openResource 1 1 3) ∧
          g₄.post.descriptorsOf 17544 = g₄.pre.descriptorsOf 17544 ++ [96] ∧
          g₄.post.desResource 96 = .mq 0
      | _ => false) (by decide +kernel)
  split at hp
  · rename_i e₁ e₂ e g₁ g₂ g₃ g₄
    obtain ⟨hrun₀, hact, hd, hq, hharmless, hrun₄, hact₄, hd₄, hq₄⟩ := of_decide_eq_true hp
    exact ⟨[e₁, e₂], [g₁, g₂, g₃, g₄], e, s, hrun, ⟨hrun₀, ⟨1, 1, 3, hact, rfl⟩, hd, hq⟩,
      fun g hg => not_letsGo (hharmless g hg), g₄, by simp, hrun₄, ⟨1, 1, 3, hact₄, rfl⟩, hd₄, hq₄⟩
  · cases hp

end DisastrOS
