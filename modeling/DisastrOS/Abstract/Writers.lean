import DisastrOS.Abstract.PcbPtrs
import DisastrOS.Library.Leases

/-!
# The registered writer of a queue

The registration for writing is meant as a lease: its tokens are the descriptors that were opened
for writing. The kernel keeps the lease truthful only with the help of the processes: they have to
close such a descriptor, and no other one, with the mode for writing, and before they exit.
-/

set_option autoImplicit false

namespace DisastrOS.Model

open Leases

variable {clean : Addr → Prop} {a a' : Model} {r p q d k u : Addr} {res : ResourceRef}
  {act : Action} {id type mode fd : Int} {W W' : Addr → Prop}

/-! ## The lease -/

/-- The process `p` holds the descriptor `d` of the queue `q`, one of those that are in `W`. -/
def WriteHeld (a : Model) (W : Addr → Prop) (p d q : Addr) : Prop :=
  d ∈ a.descriptors p ∧ a.desResource d = .mq q ∧ W d

/-- The process that is registered for writing. -/
def writer (a : Model) (q : Addr) : Option Addr := (a.writingPid q).map a.ptrPcb

/-- The registrations for writing are truthful if the descriptors in `W` are the tokens. -/
abbrev WriterInv (a : Model) (W : Addr → Prop) : Prop :=
  Truthful (fun q => .mq q ∈ a.resourcesList) (a.WriteHeld W) a.writer

/-- Who is registered with a queue that exists has not left. -/
def RegAlive (a : Model) : Prop :=
  ∀ q mode k, .mq q ∈ a.resourcesList → a.registration q mode = some k → a.Alive (a.ptrPcb k)

/-- The action keeps the registrations truthful: no registered process exits, no queue is created in
a block with the registration of a writer or of a reader that has left, nobody registers for writing
without getting a descriptor, and the descriptors in `W` of a queue with a writer are the ones that
are closed with the mode for writing. -/
def KeepsWriters (a : Model) (W : Addr → Prop) : Action → Prop
  | .syscall (.exit _) => ∀ r ∈ a.running, ∀ q mode k, .mq q ∈ a.resourcesList →
      a.registration q mode = some k → a.ptrPcb k ≠ r
  | .syscall (.openResource id type mode) =>
      (mode.toInt = dsosCreate → type.toInt = messageQueueType → a.resourceById id.toInt = none →
        ∀ q ∈ a.freeMqs.head?, a.writingPid q = none ∧ ∀ k ∈ a.readingPid q, a.Alive (a.ptrPcb k)) ∧
      (mode.toInt = dsosWrite → type.toInt = messageQueueType → ∀ q ∈ a.queueById id.toInt,
        a.writingPid q = none → a.freeDescriptors ≠ [])
  | .syscall (.closeResource fd mode) => ∀ r ∈ a.running, ∀ d ∈ a.descriptorByFd r fd.toInt,
      ∀ q, a.desResource d = .mq q → a.writingPid q ≠ none → (mode.toInt = dsosWrite ↔ W d)
  | _ => True

/-- After the transition `W'` has the new descriptor if it was opened for writing, and the old ones
of `W`. -/
structure Tokens (a : Model) (act : Action) (a' : Model) (W W' : Addr → Prop) : Prop where
  opened : ∀ r id type mode d, a.running = some r → act = .syscall (.openResource id type mode) →
    a'.descriptors r = a.descriptors r ++ [d] → (W' d ↔ mode.toInt = dsosWrite)
  other : ∀ d, (∀ r id type mode, a.running = some r →
    act = .syscall (.openResource id type mode) → a'.descriptors r ≠ a.descriptors r ++ [d]) →
    (W' d ↔ W d)

theorem writer_eq_none : a.writer q = none ↔ a.writingPid q = none := Option.map_eq_none_iff

/-- A queue that is created has no writer, and its reader has not left. -/
theorem KeepsWriters.created (hK : a.KeepsWriters W act) (h : Step clean a act a')
    (hdead : .mq q ∉ a.resourcesList) (hlive : .mq q ∈ a'.resourcesList) :
    a.writer q = none ∧ ∀ mode k, a.registration q mode = some k → a.Alive (a.ptrPcb k) := by
  obtain ⟨c, rfl, ⟨id, type, mode, rfl, hmode, htype, hnone⟩, hblock, -⟩ := h.creates hdead hlive
  obtain ⟨hwriter, hreader⟩ := hK.1 hmode htype hnone q hblock
  refine ⟨writer_eq_none.2 hwriter, fun mode k hk => ?_⟩
  rw [Resources.registration] at hk
  split at hk
  · exact hreader k hk
  · split at hk
    · rw [hwriter] at hk
      cases hk
    · cases hk

/-! ## Registered processes have not left -/

theorem Step.regAlive (h : Step clean a act a') (hL : a.RegAlive) (hG : a.RegInv)
    (hK : a.KeepsWriters W act) (hI : a.Inv) (hI' : a'.Inv) : a'.RegAlive := by
  have hstay : ∀ {q mode u}, .mq q ∈ a'.resourcesList → a.registration q mode = some u →
      a'.Alive (a'.ptrPcb u) := by
    intro q mode u hlive hu
    rw [(h.standsFor (hG.entry q mode u hu)).pcb]
    by_cases hold : .mq q ∈ a.resourcesList
    · apply h.alive_mono hI hI' (hL q mode u hold hu)
      intro v hact hrun
      subst hact
      exact hK _ hrun q mode u hold hu rfl
    · apply h.alive_mono hI hI' ((hK.created h hold hlive).2 mode u hu)
      intro v hact _
      obtain ⟨c, rfl, ⟨_, _, _, rfl, -⟩, -, -⟩ := h.creates hold hlive
      cases hact
  intro q mode u hlive hu
  cases h.registrations with
  | same hsame =>
      rw [hsame] at hu
      exact hstay hlive hu
  | enlisted r id type mode' q' k hr hact _ hk =>
      rw [hk.registration] at hu
      split at hu
      · obtain rfl := Option.some.inj hu
        rw [hk.ptrPcb, Function.update_self]
        apply h.alive_mono hI hI' (Or.inl hr)
        intro v hexit
        rw [hact] at hexit
        cases hexit
      · exact hstay hlive hu
  | delisted r fd mode' d q' _ _ _ _ hdrop =>
      rw [hdrop.registration] at hu
      split at hu
      · cases hu
      · exact hstay hlive hu

/-! ## Who is the writer -/

theorem Step.writer_eq (h : Step clean a act a') (hG : a.RegInv)
    (hreg : a'.registration q dsosWrite = a.registration q dsosWrite) :
    a'.writer q = a.writer q := by
  rw [Resources.registration_write, Resources.registration_write] at hreg
  rw [writer, writer, hreg]
  cases hk : a.writingPid q with
  | none => rfl
  | some k => exact congrArg some (h.standsFor (hG.entry q dsosWrite k hk)).pcb

theorem Enlists.writer (h : Enlists a r q mode k a') (hG : a.RegInv) (q' : Addr) :
    a'.writer q' = if q' = q ∧ mode = dsosWrite then some r else a.writer q' := by
  have hreg := h.registration q' dsosWrite
  have hfree : k ∈ a.freePcbPtrs := by
    rw [h.free]
    exact List.mem_cons_self
  rw [Resources.registration_write, Resources.registration_write] at hreg
  rw [Model.writer, Model.writer, hreg, h.ptrPcb]
  by_cases hq : q' = q ∧ mode = dsosWrite
  · rw [if_pos hq, if_pos ⟨hq.1, hq.2.symm⟩, Option.map_some, Function.update_self]
  · rw [if_neg hq, if_neg fun heq => hq ⟨heq.1, heq.2.symm⟩]
    cases hu : a.writingPid q' with
    | none => rfl
    | some u =>
        have hne : u ≠ k := fun heq => (hG.entry q' dsosWrite u hu).used (heq ▸ hfree)
        rw [Option.map_some, Option.map_some, Function.update_of_ne hne]

/-- A transition that takes no lease and returns none keeps the registrations truthful. -/
theorem Step.writerInv_keep (h : Step clean a act a') (hV : a.WriterInv W)
    (hK : a.KeepsWriters W act) (howner : ∀ q, a'.writer q = a.writer q)
    (hheld : ∀ p d q, a'.WriteHeld W' p d q → a.WriteHeld W p d q)
    (hkeep : ∀ p d q, .mq q ∈ a.resourcesList → a.writer q = some p → a.WriteHeld W p d q →
      a'.WriteHeld W' p d q) : a'.WriterInv W' := by
  have hlive : ∀ p q, .mq q ∈ a'.resourcesList → a.writer q = some p → .mq q ∈ a.resourcesList := by
    intro p q hq hp
    by_contra hdead
    rw [(hK.created h hdead hq).1] at hp
    cases hp
  exact hV.mono howner hlive hheld fun p d q hq hp => hkeep p d q (hlive p q hq hp) hp

/-! ## Closing -/

/-- A `closeResource` of a token with the mode for writing returns the lease; one of another
descriptor with another mode leaves it alone. -/
theorem Step.writerInv_close {fd mode : Int32} (h : Step clean a (.syscall (.closeResource fd mode)) a')
    (hV : a.WriterInv W) (hG : a.RegInv) (hK : a.KeepsWriters W (.syscall (.closeResource fd mode)))
    (hD : a.Distinct) (hr : a.running = some r) (hd : a.descriptorByFd r fd.toInt = some d)
    (hc : Closed a r ((a.descriptors r).erase d) a') : a'.WriterInv W := by
  have hmem := (mem_of_descriptorByFd hd).1
  have hheld : ∀ p d' q, a'.WriteHeld W p d' q ↔ a.WriteHeld W p d' q ∧ d' ≠ d := by
    intro p d' q
    have hlists := ChildLists.mem_remove (q := p) (u := d') (hD.descriptors.nodup' r)
      fun x hx => hD.descriptors.eq hx hmem
    rw [WriteHeld, WriteHeld, hc.descriptors, hlists, hc.data]
    tauto
  have hs := h.handler hr
  cases hs with
  | closeResource hs =>
      -- a descriptor of another resource is no token
      have hkeep : (∀ q, a'.registration q dsosWrite = a.registration q dsosWrite) →
          (∀ p q, a.writer q = some p → ¬ a.WriteHeld W p d q) → a'.WriterInv W := by
        intro hreg hno
        refine h.writerInv_keep hV hK (fun q => h.writer_eq hG (hreg q))
          (fun p d' q hd' => ((hheld p d' q).1 hd').1) fun p d' q _ hp hd' => ?_
        refine (hheld p d' q).2 ⟨hd', ?_⟩
        rintro rfl
        exact hno p q hp hd'
      cases hres : a.desResource d with
      | standard b =>
          refine hkeep (fun q => ?_) fun p q _ hd' => ?_
          · rcases hs.registrations with hsame | ⟨d', q', hd', hq', -⟩
            · exact hsame.registration q dsosWrite
            · obtain rfl : d = d' := Option.some.inj (hd.symm.trans hd')
              exact absurd (hres.symm.trans hq') (by simp)
          · exact absurd (hres.symm.trans hd'.2.1) (by simp)
      | mq q =>
          -- the queue drops the registration of the mode of the call
          have hdrop := hs.delists hd hres
          have hqeq : ∀ p q', a.WriteHeld W p d q' → q' = q := fun p q' hd' =>
            ResourceRef.mq.inj (hd'.2.1.symm.trans hres)
          cases hw : a.writingPid q with
          | none =>
              refine hkeep (fun q' => ?_) fun p q' hp hd' => ?_
              · apply (hdrop.registration q' dsosWrite).trans
                split
                · rename_i heq
                  rw [heq.1, Resources.registration_write]
                  exact hw.symm
                · rfl
              · rw [hqeq p q' hd', writer_eq_none.2 hw] at hp
                cases hp
          | some k =>
              -- a token is closed with the mode for writing, another descriptor with another mode
              have hiff := hK r hr d hd q hres (by rw [hw]; simp)
              by_cases htoken : W d
              · have hmode := hiff.2 htoken
                refine hV.release ⟨hmem, hres, htoken⟩ hqeq (fun q' hq' => ?_) (fun q' => ?_) hheld
                · by_contra hdead
                  obtain ⟨c, heq, ⟨_, _, _, rfl, -⟩, -, -⟩ := h.creates hdead hq'
                  cases heq
                · split
                  · rename_i heq
                    rw [writer_eq_none, ← Resources.registration_write]
                    exact (hdrop.registration q' dsosWrite).trans (if_pos ⟨heq, hmode.symm⟩)
                  · rename_i hne
                    apply h.writer_eq hG
                    exact (hdrop.registration q' dsosWrite).trans (if_neg fun heq => hne heq.1)
              · refine hkeep (fun q' => ?_) fun p q' _ hd' => htoken hd'.2.2
                refine (hdrop.registration q' dsosWrite).trans (if_neg fun heq => ?_)
                exact htoken (hiff.1 heq.2.symm)

/-! ## Opening -/

theorem Attached.writeHeld_iff (h : Attached a r res d u a') (hI : a.DescInv)
    (hother : ∀ d', d' ≠ d → (W' d' ↔ W d')) {d' : Addr} : a'.WriteHeld W' p d' q ↔
      a.WriteHeld W p d' q ∨ (p = r ∧ d' = d ∧ res = .mq q ∧ W' d) := by
  have hfresh : ∀ x, d ∉ a.descriptors x := fun x hx => (hI.linked x d hx).2.used.2 h.fresh
  rw [WriteHeld, WriteHeld, h.descriptors, ChildLists.mem_add, h.resource]
  by_cases hd : d' = d
  · subst hd
    have hno := hfresh p
    rw [Function.update_self]
    tauto
  · rw [Function.update_of_ne hd, hother d' hd]
    tauto

theorem Enlists.changes (h : Enlists a r q mode k a') :
    a'.registration q mode ≠ a.registration q mode := by
  rw [h.registration, if_pos ⟨rfl, rfl⟩, h.vacant]
  simp

/-- The resource of a new descriptor is the one that was looked up. -/
theorem OpenStep.attached_queue (h : OpenStep a r id type mode a') (hq : a.queueById id = some q)
    (hmode : mode ≠ dsosCreate) (hd : a'.descriptors r = a.descriptors r ++ [d]) :
    a'.desResource d = .mq q := by
  have hgrows : a'.descriptors r ≠ a.descriptors r := by
    rw [hd]
    simp
  cases h with
  | alreadyExists _ _ => exact absurd rfl hgrows
  | created hcreate _ _ _ => exact absurd hcreate hmode
  | unavailable _ _ => exact absurd rfl hgrows
  | @found _ res _ hfound _ hopen =>
      obtain rfl : ResourceRef.mq q = res :=
        Option.some.inj ((mem_of_queueById hq).1.symm.trans hfound)
      cases hopen with
      | notExclusive _ _ => exact absurd rfl hgrows
      | taken _ => exact absurd rfl hgrows
      | noDescriptor _ hreg _ => exact absurd (congrFun hreg.sameDescriptors.descriptors r) hgrows
      | @opened a₁ d' e ds es _ hreg _ _ =>
          have hd' : Function.update a₁.descriptors r (a₁.descriptors r ++ [d']) r =
            a.descriptors r ++ [d] := hd
          rw [Function.update_self, hreg.sameDescriptors.descriptors] at hd'
          obtain rfl : d' = d := by simpa using hd'
          exact Function.update_self ..

/-- Who registers without getting a descriptor has found none free. -/
theorem OpenStep.unattached (h : OpenStep a r id type mode a') (hk : Enlists a r q mode k a')
    (hq : a.queueById id = some q) (hd : a'.descriptors r = a.descriptors r) :
    a.freeDescriptors = [] ∧ a.resourceType (.mq q) = type := by
  cases h with
  | alreadyExists _ _ => exact absurd rfl hk.changes
  | created hcreate _ _ _ => exact absurd hcreate hk.exclusive.ne_create
  | unavailable _ _ => exact absurd rfl hk.changes
  | @found _ res _ hfound htype hopen =>
      obtain rfl : ResourceRef.mq q = res :=
        Option.some.inj ((mem_of_queueById hq).1.symm.trans hfound)
      refine ⟨?_, htype⟩
      cases hopen with
      | notExclusive _ _ => exact absurd rfl hk.changes
      | taken _ => exact absurd rfl hk.changes
      | noDescriptor _ hreg hnil =>
          obtain ⟨_, _, _, _, rfl, -, -⟩ := hreg.eq
          exact hnil
      | @opened a₁ d' e ds es _ hreg _ _ =>
          have hgrows : Function.update a₁.descriptors r (a₁.descriptors r ++ [d']) r =
            a.descriptors r := hd
          rw [Function.update_self, hreg.sameDescriptors.descriptors] at hgrows
          simp at hgrows

/-- An `openResource` for writing that gives a descriptor of a queue takes the lease. -/
theorem Step.writerInv_open {id type mode : Int32}
    (h : Step clean a (.syscall (.openResource id type mode)) a') (hV : a.WriterInv W)
    (hG : a.RegInv) (hK : a.KeepsWriters W (.syscall (.openResource id type mode))) (hI : a.Inv)
    (hD : a.Distinct) (hT : Tokens a (.syscall (.openResource id type mode)) a' W W')
    (hr : a.running = some r) (hA : Attached a r res d u a') : a'.WriterInv W' := by
  have hd : a'.descriptors r = a.descriptors r ++ [d] := by
    rw [hA.descriptors, Function.update_self]
  have hnew : W' d ↔ mode.toInt = dsosWrite := hT.opened r id type mode d hr rfl hd
  have hother : ∀ d', d' ≠ d → (W' d' ↔ W d') := by
    intro d' hne
    refine hT.other d' fun r' _ _ _ hr' _ hd' => hne ?_
    obtain rfl : r = r' := Option.some.inj (hr.symm.trans hr')
    rw [hd] at hd'
    simpa [eq_comm] using hd'
  have hheld : ∀ p d' q, a'.WriteHeld W' p d' q ↔
      a.WriteHeld W p d' q ∨ (p = r ∧ d' = d ∧ res = .mq q ∧ W' d) := fun p d' q =>
    hA.writeHeld_iff hI.desc hother
  have hs := h.handler hr
  cases hs with
  | openResource hs =>
      by_cases htake : mode.toInt = dsosWrite ∧ ∃ q, res = .mq q
      -- the queue had no writer: the lease goes to `r` together with the new descriptor
      · obtain ⟨hmode, q, rfl⟩ := htake
        have hq : a'.desResource d = .mq q := by rw [hA.resource, Function.update_self]
        obtain ⟨hnone, k, -, hk, -⟩ := hs.registers (Or.inr hmode) hD.freePcbPtrs hd hq
        have hvacant : a.registration q mode.toInt = none := hnone
        have howner : ∀ q', a'.writer q' = if q' = q then some r else a.writer q' := by
          intro q'
          cases h.registrations with
          | same hsame =>
              rw [hsame, hvacant] at hk
              cases hk
          | delisted _ _ _ _ _ _ hact _ _ _ => cases hact
          | enlisted r' id' type' mode' q₁ k₁ hr' hact _ hk₁ =>
              obtain ⟨rfl, rfl, rfl⟩ : id = id' ∧ type = type' ∧ mode = mode' := by simpa using hact
              obtain rfl : r = r' := Option.some.inj (hr.symm.trans hr')
              obtain rfl : q = q₁ := by
                by_contra hne
                rw [hk₁.registration, if_neg fun heq => hne heq.1, hvacant] at hk
                cases hk
              rw [hk₁.writer hG]
              simp only [hmode, and_true]
        rw [hmode, Resources.registration_write] at hvacant
        refine hV.acquire (d := d) (writer_eq_none.2 hvacant) (fun q' hq' => ?_) howner
          fun p d' q' => ?_
        · by_contra hdead
          obtain ⟨c, heq, ⟨_, _, mode', rfl, hcreate, -⟩, -, -⟩ := h.creates hdead hq'
          obtain ⟨rfl, rfl, rfl⟩ : id = _ ∧ type = _ ∧ mode = mode' := by simpa using heq
          exact absurd (hmode.symm.trans hcreate) (by decide)
        · rw [hheld, hnew, ResourceRef.mq.injEq]
          simp only [hmode, and_true, eq_comm (a := q)]
      -- a mode for reading, or a resource that is no queue: every writer stays
      · refine h.writerInv_keep hV hK (fun q => ?_) (fun p d' q hd' => ?_)
          fun p d' q _ _ hd' => (hheld p d' q).2 (Or.inl hd')
        · cases h.registrations with
          | same hsame => exact h.writer_eq hG (hsame q dsosWrite)
          | delisted _ _ _ _ _ _ hact _ _ _ => cases hact
          | enlisted r' id' type' mode' q₁ k hr' hact hq₁ hk =>
              obtain ⟨rfl, rfl, rfl⟩ : id = id' ∧ type = type' ∧ mode = mode' := by simpa using hact
              rw [hk.writer hG, if_neg]
              rintro ⟨rfl, hmode⟩
              have hres := hs.attached_queue hq₁ (by rw [hmode]; decide) hd
              rw [hA.resource, Function.update_self] at hres
              exact htake ⟨hmode, q, hres⟩
        · apply ((hheld p d' q).1 hd').resolve_right
          rintro ⟨-, -, hres, htoken⟩
          exact htake ⟨hnew.1 htoken, q, hres⟩

/-! ## The system -/

/-- Who is the writer of a queue that exists is registered and has not left. -/
theorem RegAlive.writer (hL : a.RegAlive) (hq : .mq q ∈ a.resourcesList)
    (hp : a.writer q = some p) :
    a.Alive p ∧ ∃ k, a.registration q dsosWrite = some k ∧ a.ptrPcb k = p := by
  obtain ⟨k, hk, rfl⟩ := Option.map_eq_some_iff.1 hp
  exact ⟨hL q dsosWrite k hq hk, k, hk, rfl⟩

theorem Step.writerInv (h : Step clean a act a') (hV : a.WriterInv W) (hL : a.RegAlive)
    (hG : a.RegInv) (hK : a.KeepsWriters W act) (hI : a.Inv) (hI' : a'.Inv) (hD : a.Distinct)
    (hT : Tokens a act a' W W') : a'.WriterInv W' := by
  have hsameW : (∀ r id type mode d, act = .syscall (.openResource id type mode) →
      a'.descriptors r ≠ a.descriptors r ++ [d]) → W' = W := by
    intro hno
    funext d
    exact propext (hT.other d fun r id type mode _ hact => hno r id type mode d hact)
  cases h.descriptors hI hI' hD with
  | opened r id type mode res d u hr hact hA =>
      subst hact
      exact h.writerInv_open hV hG hK hI hD hT hr hA
  | closed r fd mode d hr hact hd hc =>
      subst hact
      rw [hsameW fun _ _ _ _ _ heq => by cases heq]
      exact h.writerInv_close hV hG hK hD hr hd hc
  | created x hact hx =>
      rw [hsameW fun _ _ _ _ _ heq => by rw [heq] at hact; cases hact]
      have hreg : ∀ q, a'.registration q dsosWrite = a.registration q dsosWrite := by
        intro q
        apply h.registration_eq
        · rintro id type mode rfl
          cases hact
        · rintro fd mode rfl
          cases hact
      refine h.writerInv_keep hV hK (fun q => h.writer_eq hG (hreg q))
        (fun p d q hd => ?_) fun p d q hq hp hd => ?_
      · rw [WriteHeld, hx.descriptors, hx.data, Function.update_apply] at hd
        split at hd
        · cases hd.1
        · exact hd
      · have hpx : p ≠ x := fun heq => hx.fresh (heq ▸ (hL.writer hq hp).1.used)
        -- the registered writer is used, and the PCB of the new process was free
        rw [WriteHeld, hx.descriptors, Function.update_of_ne hpx, hx.data]
        exact hd
  | left r v hr hact _ hc =>
      subst hact
      rw [hsameW fun _ _ _ _ _ heq => by cases heq]
      have hreg : ∀ q, a'.registration q dsosWrite = a.registration q dsosWrite := by
        intro q
        exact h.registration_eq (by simp) (by simp)
      refine h.writerInv_keep hV hK (fun q => h.writer_eq hG (hreg q))
        (fun p d q hd => ?_) fun p d q hq hp hd => ?_
      · rw [WriteHeld, hc.descriptors, hc.data, Function.update_apply] at hd
        split at hd
        · cases hd.1
        · exact hd
      · obtain ⟨-, k, hk, rfl⟩ := hL.writer hq hp
        rw [WriteHeld, hc.descriptors, Function.update_of_ne (hK r hr q dsosWrite k hq hk), hc.data]
        exact hd
  | same _ _ hsame =>
      rw [hsameW fun r _ _ _ d _ heq => by rw [hsame.descriptors] at heq; simp at heq]
      have hheld : ∀ p d q, a'.WriteHeld W p d q ↔ a.WriteHeld W p d q := by
        intro p d q
        rw [WriteHeld, WriteHeld, hsame.descriptors, hsame.data]
      refine h.writerInv_keep hV hK (fun q => ?_) (fun p d q hd => (hheld p d q).1 hd)
        fun p d q _ _ hd => (hheld p d q).2 hd
      cases h.registrations with
      | same hreg => exact h.writer_eq hG (hreg q dsosWrite)
      | enlisted r id type mode q' k hr hact hq' hk =>
          subst hact
          rw [hk.writer hG, if_neg]
          rintro ⟨rfl, hmode⟩
          cases h.handler hr with
          | openResource hs =>
              obtain ⟨hnil, htype⟩ := hs.unattached { hk with } hq' (congrFun hsame.descriptors r)
              have htype' := htype.symm.trans (hI.res.type _ (mem_of_queueById hq').2.1)
              refine hK.2 hmode htype' q hq' ?_ hnil
              rw [← Resources.registration_write, ← hmode]
              exact hk.vacant
      | delisted r fd mode d q' hr hact hd _ _ =>
          subst hact
          cases h.handler hr with
          | closeResource hs =>
              cases hs with
              | notFound hnone => exact absurd (hd.symm.trans hnone) (by simp)
              | @closed d' hd' =>
                  obtain rfl : d = d' := Option.some.inj (hd.symm.trans hd')
                  have hlist := congrFun hsame.descriptors r
                  -- the descriptor leaves the list of `r`, which is the same by assumption
                  obtain ⟨_, _, heq⟩ := unregister_eq (a.enter r (.closeResource fd mode))
                    ((a.enter r (.closeResource fd mode)).desResource d) mode.toInt
                  rw [heq] at hlist
                  replace hlist : Function.update a.descriptors r ((a.descriptors r).erase d) r =
                    a.descriptors r := hlist
                  rw [Function.update_self, List.erase_eq_self_iff] at hlist
                  exact absurd (mem_of_descriptorByFd hd).1 hlist

/-- `mq_read` on an empty queue looks at the registration for writing only. -/
theorem ReadStep.answer_of_empty {buf length : Int} (h : ReadStep a r fd buf length a')
    (hq : a.queueByFd r fd = some q) (hnil : a.msgs q = []) :
    a'.syscallRetvalue r =
      if a.writer q = none then dsosMessageQueueEmpty else dsosWaitingForMessage := by
  have hself : ∀ {q'}, a.queueByFd r fd = some q' → q' = q := fun hq' =>
    Option.some.inj (hq'.symm.trans hq)
  cases h with
  | notFound hd => simp [queueByFd, hd] at hq
  | wrongType _ hnone =>
      rw [hnone] at hq
      cases hq
  | waiting hq' _ hset =>
      obtain rfl := hself hq'
      rw [if_neg (mt writer_eq_none.1 hset)]
      exact Function.update_self ..
  | empty hq' _ hnone =>
      obtain rfl := hself hq'
      rw [if_pos (writer_eq_none.2 hnone)]
      exact Function.update_self ..
  | tooLong hq' hmsgs _ =>
      obtain rfl := hself hq'
      rw [hnil] at hmsgs
      cases hmsgs
  | read hq' hmsgs _ =>
      obtain rfl := hself hq'
      rw [hnil] at hmsgs
      cases hmsgs

end DisastrOS.Model
