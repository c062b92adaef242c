import DisastrOS.Abstract.Clients
import DisastrOS.Refinement.SystemRun
import DisastrOS.TestMq
import Mathlib.Algebra.GroupWithZero.Nat
import Mathlib.Algebra.Order.BigOperators.Group.List
import Mathlib.Algebra.Order.Group.Nat

/-!
# `disastrOS_test_mq.c`: the processes

The example program has six processes: `init`, the process that only prints, and a client for
reading and one for writing for each of the two queues. `Cast` lists those that have been created so
far, in order. What the program does in an event is its next call or nothing.
-/

set_option autoImplicit false

namespace DisastrOS

open Runs Model

/-! ## Points -/

namespace InitPoint

/-- The number of processes that have been created, `init` included. -/
def created : InitPoint → Nat
  | .started => 1
  | .spawnedSleeper | .opened _ => 2
  | .spawnedWriter i => 3 + 2 * i
  | .spawnedReader i => 4 + 2 * i
  | .waiting _ | .destroying _ | .shutdown => 6

/-- The number of queues that have been opened. -/
def queues : InitPoint → Nat
  | .started | .spawnedSleeper => 0
  | .opened i => i + 1
  | _ => 2

/-- The number of descriptors that have been stored in `resources`. -/
def stored : InitPoint → Nat
  | .started | .spawnedSleeper => 0
  | .opened i => i
  | _ => 2

/-- The variables are in the ranges of the loops. -/
def Valid : InitPoint → Prop
  | .opened i | .spawnedWriter i | .spawnedReader i | .destroying i => i < 2
  | .waiting alive => 0 < alive ∧ alive ≤ 4
  | _ => True

/-- `init` has not called `wait` yet. -/
def Creating : InitPoint → Prop
  | .waiting _ | .destroying _ | .shutdown => False
  | _ => True

/-- The descriptors of both queues are stored before the first client is created. -/
theorem stored_of_created {pt : InitPoint} (h : 2 < pt.created) : pt.stored = 2 := by
  cases pt with
  | started => exact absurd h (by decide)
  | spawnedSleeper => exact absurd h (by decide)
  | opened i => exact absurd h (Nat.lt_irrefl 2)
  | _ => rfl

/-- Both queues exist when the first client is created. -/
theorem queues_of_created {pt : InitPoint} (h : 2 < pt.created) : pt.queues = 2 := by
  cases pt with
  | started => exact absurd h (by decide)
  | spawnedSleeper => exact absurd h (by decide)
  | opened i => exact absurd h (Nat.lt_irrefl 2)
  | _ => rfl

theorem created_le {pt : InitPoint} (h : pt.Valid) : pt.created ≤ 6 := by
  cases pt <;> simp only [created, Valid] at h ⊢ <;> omega

end InitPoint

def WriterPoint.phase : WriterPoint → Phase
  | .started => .started
  | .opened => .opened
  | .writing fd _ | .sleeping fd _ => .holding fd
  | .closing => .closed
  | .exited => .exited

def ReaderPoint.phase : ReaderPoint → Phase
  | .started => .started
  | .opened => .opened
  | .reading fd | .sleeping fd => .holding fd
  | .closing => .closed
  | .exited => .exited

/-- The loop variable of a writer is in its range. -/
def WriterPoint.Valid : WriterPoint → Prop
  | .writing _ i | .sleeping _ i => 0 ≤ i ∧ i < 10
  | _ => True

namespace Process

/-- The argument, the mode and the phase of a client. -/
def client : Process → Option (Int × Int × Phase)
  | .writer args pt => some (args, dsosWrite, pt.phase)
  | .reader args pt => some (args, dsosRead, pt.phase)
  | _ => none

def Valid : Process → Prop
  | .init pt => pt.Valid
  | .writer _ pt => pt.Valid
  | _ => True

/-- A bound on the calls so far that may have taken a block of a pool. -/
def spent : Process → Nat
  | .init .started => 0
  | .init .spawnedSleeper => 1
  | .init (.opened i) => 2 + i
  | .init (.spawnedWriter i) => 4 + 2 * i
  | .init (.spawnedReader i) => 5 + 2 * i
  | .init _ => 7
  | .sleeper => 0
  | .writer _ .started => 0
  | .writer _ .opened => 1
  | .writer _ (.writing _ i) | .writer _ (.sleeping _ i) => 2 + i.toNat
  | .writer _ _ => 12
  | .reader _ .started => 0
  | .reader _ _ => 1

/-- No process makes more than twelve calls that may take a block. -/
theorem spent_le {x : Process} (hx : x.Valid) : x.spent ≤ 12 := by
  cases x with
  | init pt => cases pt <;> simp only [spent, Valid, InitPoint.Valid] at hx ⊢ <;> omega
  | sleeper => exact Nat.zero_le 12
  | writer args pt =>
      cases pt <;> simp only [spent, Valid, WriterPoint.Valid] at hx ⊢ <;> omega
  | reader args pt => cases pt <;> simp [spent]

end Process

/-! ## Calls of the clients -/

/-- A call that a client makes while it holds the queue. -/
def Syscall.Uses : Syscall → Prop
  | .sleep _ => True
  | .mqRead _ buf _ => buf ≠ 0
  | .mqWrite _ msg _ => msg ≠ 0
  | _ => False

/-- The calls of a client with the argument `args`, which takes this answer to its last one. -/
inductive ClientCall (memory : Int → Int) (args mode answer : Int) :
    Phase → Syscall → Phase → Prop where
  | opens : ClientCall memory args mode answer .started
      (.openResource (.ofInt (memory args)) (.ofInt messageQueueType) (.ofInt mode)) .opened
  | begins {c : Syscall} : 0 ≤ answer → c.Uses →
      ClientCall memory args mode answer .opened c (.holding answer)
  | uses {fd : Int} {c : Syscall} : c.Uses →
      ClientCall memory args mode answer (.holding fd) c (.holding fd)
  | closes {fd : Int} : ClientCall memory args mode answer (.holding fd)
      (.closeResource (.ofInt fd) (.ofInt mode)) .closed
  | exits {v : Int32} : 0 ≤ answer → ClientCall memory args mode answer .closed (.exit v) .exited

section Clients

variable {L : Layout} {memory : Int → Int} {self : Addr} {args mode pid answer : Int} {ph : Phase}
  {x : Process}

/-- What a client does next. -/
inductive ClientTurn (memory : Int → Int) (args mode answer : Int) (ph : Phase) :
    Outcome → Prop where
  | call {c : Syscall} {x : Process} {ph' : Phase} : x.client = some (args, mode, ph') →
      ClientCall memory args mode answer ph c ph' →
      ClientTurn memory args mode answer ph (.call c x memory)
  | abort : ph = .opened ∨ ph = .closed → answer < 0 → ClientTurn memory args mode answer ph .abort
  | idle : ph = .exited → ClientTurn memory args mode answer ph .idle

/-- Each turn of a writer is a turn of a client that opens in write mode. -/
theorem writeChildFunction_turn (pt : WriterPoint) :
    ClientTurn memory args dsosWrite answer pt.phase
      (writeChildFunction L memory self args pid answer pt) := by
  have hmessage := L.message_ne_null self
  cases pt with
  | started => exact .call rfl .opens
  | opened =>
      simp only [writeChildFunction]
      split
      · rename_i hneg
        exact .abort (Or.inl rfl) hneg
      · rename_i hpos
        exact .call rfl (.begins (Int.not_lt.1 hpos) hmessage)
  | writing fd i =>
      simp only [writeChildFunction]
      split
      · exact .call rfl .closes
      · exact .call rfl (.uses trivial)
  | sleeping fd i =>
      simp only [writeChildFunction]
      split
      · exact .call rfl (.uses hmessage)
      · exact .call rfl .closes
  | closing =>
      simp only [writeChildFunction]
      split
      · rename_i hneg
        exact .abort (Or.inr rfl) hneg
      · rename_i hpos
        exact .call rfl (.exits (Int.not_lt.1 hpos))
  | exited => exact .idle rfl

/-- Each turn of a reader is a turn of a client that opens in read mode. -/
theorem readChildFunction_turn (pt : ReaderPoint) :
    ClientTurn memory args dsosRead answer pt.phase
      (readChildFunction L memory self args pid answer pt) := by
  have hmessage := L.message_ne_null self
  cases pt with
  | started => exact .call rfl .opens
  | opened =>
      simp only [readChildFunction]
      split
      · rename_i hneg
        exact .abort (Or.inl rfl) hneg
      · rename_i hpos
        exact .call rfl (.begins (Int.not_lt.1 hpos) hmessage)
  | reading fd =>
      simp only [readChildFunction]
      split
      · exact .call rfl .closes
      · exact .call rfl (.uses trivial)
  | sleeping fd => exact .call rfl (.uses hmessage)
  | closing =>
      simp only [readChildFunction]
      split
      · rename_i hneg
        exact .abort (Or.inr rfl) hneg
      · rename_i hpos
        exact .call rfl (.exits (Int.not_lt.1 hpos))
  | exited => exact .idle rfl

/-- The writers and the readers are clients. -/
theorem Process.resume_client (hx : x.client = some (args, mode, ph)) :
    ClientTurn memory args mode answer ph (x.resume L memory self pid answer) := by
  cases x with
  | init pt => cases hx
  | sleeper => cases hx
  | writer args' pt =>
      cases hx
      exact writeChildFunction_turn pt
  | reader args' pt =>
      cases hx
      exact readChildFunction_turn pt

/-- The next call of a client, and the phase to which it leads. -/
theorem Process.client_call {c : Syscall} {x' : Process} {memory' : Int → Int}
    (hx : x.client = some (args, mode, ph))
    (h : x.resume L memory self pid answer = .call c x' memory') : memory' = memory ∧
      ∃ ph', x'.client = some (args, mode, ph') ∧
        ClientCall memory args mode answer ph c ph' := by
  have hturn : ClientTurn memory args mode answer ph (x.resume L memory self pid answer) :=
    Process.resume_client hx
  rw [h] at hturn
  cases hturn with
  | call hx' hcall => exact ⟨rfl, _, hx', hcall⟩

/-- The calls are made by `init` and by the clients. -/
theorem Process.caller {c : Syscall} {x' : Process} {memory' : Int → Int}
    (h : x.resume L memory self pid answer = .call c x' memory') : (∃ pt, x = .init pt) ∨
      ∃ args mode ph ph', x.client = some (args, mode, ph) ∧
        ClientCall memory args mode answer ph c ph' := by
  cases x with
  | init pt => exact Or.inl ⟨pt, rfl⟩
  | sleeper => cases h
  | writer args pt =>
      have hcl : (Process.writer args pt).client = some (args, dsosWrite, pt.phase) := rfl
      obtain ⟨-, ph', -, hcall⟩ := Process.client_call hcl h
      exact Or.inr ⟨args, dsosWrite, pt.phase, ph', hcl, hcall⟩
  | reader args pt =>
      have hcl : (Process.reader args pt).client = some (args, dsosRead, pt.phase) := rfl
      obtain ⟨-, ph', -, hcall⟩ := Process.client_call hcl h
      exact Or.inr ⟨args, dsosRead, pt.phase, ph', hcl, hcall⟩

end Clients

/-! ## Events -/

namespace TestMq

variable {L : Layout} {t t' : TestMq} {e : Event Kernel Action} {es : List (Event Kernel Action)}

/-- An event of the program is not a call, or it is the next call of the running process. -/
inductive Moves (L : Layout) (t : TestMq) (e : Event Kernel Action) : TestMq → Prop where
  | quiet : (∀ c, e.act ≠ .syscall c) → Moves L t e t
  | calls {r : Addr} {x x' : Process} {c : Syscall} {memory : Int → Int} :
      e.act = .syscall c → e.pre.running = some r → t.process r = some x →
      x.resume L t.memory r (e.pre.pid r) (e.pre.syscallRetvalue r) = .call c x' memory →
      Moves L t e ⟨memory, started L e.pre c (Function.update t.process r (some x'))⟩

/-- An event of the program is a tick, a store, or the next call of the running process. -/
theorem next_moves (h : t.next L e = some t') : Moves L t e t' := by
  unfold next at h
  split at h
  · rename_i c hact
    simp only [Option.bind_eq_bind, Option.bind_eq_some_iff] at h
    obtain ⟨r, hr, h⟩ := h
    split at h
    · rename_i c' x' memory hout
      split at h
      · rename_i heq
        subst heq
        unfold outcome at hout
        split at hout
        · cases hout
        · rename_i x hx
          exact Option.some.inj h ▸ .calls hact hr hx hout
      · cases h
    · cases h
  · rename_i hno
    obtain rfl := Option.some.inj h
    exact .quiet hno

theorem follow_concat (h : follow L (es ++ [e]) = some t') :
    ∃ t, follow L es = some t ∧ t.next L e = some t' := by
  simp only [follow, List.foldlM_append, List.foldlM_cons, List.foldlM_nil,
    Option.bind_eq_bind, Option.bind_eq_some_iff] at h
  obtain ⟨t, ht, u, hu, heq⟩ := h
  obtain rfl := Option.some.inj heq
  exact ⟨t, ht, hu⟩

/-- A call that is no `spawn` only moves the running process. -/
theorem started_eq {s : Kernel} {c : Syscall} {process : Addr → Option Process}
    (hc : (Action.syscall c).creates = false) : started L s c process = process := by
  cases c with
  | spawn f args => cases hc
  | _ => rfl

theorem started_spawn {s : Kernel} {f args : Int} {b : Addr} {process : Addr → Option Process}
    (hb : s.pcbAllocator.getBlock.1 = some b) :
    started L s (.spawn f args) process = Function.update process b (L.entry f args) := by
  simp only [started, hb]

end TestMq

/-! ## Roles -/

/-- What a process is for. The clients of the queue `i` open it for `mode`. -/
inductive Role where
  | init
  | sleeper
  | client (i : Nat) (mode : Int)
  deriving DecidableEq

/-- The roles of the processes in the order in which they are created. -/
def Role.all : List Role :=
  [.init, .sleeper, .client 0 dsosWrite, .client 0 dsosRead, .client 1 dsosWrite,
    .client 1 dsosRead]

/-- The clients come after `init` and the process that only prints. -/
theorem Role.late {k i : Nat} {mode : Int} (h : Role.all[k]? = some (.client i mode)) :
    2 ≤ k ∧ i < 2 := by
  rcases k with _ | _ | _ | _ | _ | _ | k <;> simp [all] at h <;> omega

/-- The two queues have different addresses. -/
theorem Layout.resource_inj {L : Layout} {i j : Nat} : L.resource i = L.resource j ↔ i = j := by
  simp only [Layout.resource]
  omega

/-- The process `x` has this role. -/
def Process.Plays (L : Layout) (x : Process) : Role → Prop
  | .init => ∃ pt, x = .init pt
  | .sleeper => x = .sleeper
  | .client i mode => ∃ ph, x.client = some (L.resource i, mode, ph)

theorem Process.plays_client {L : Layout} {x : Process} {i : Nat} {mode : Int} {ph : Phase}
    (h : x.client = some (L.resource i, mode, ph)) : x.Plays L (.client i mode) := ⟨ph, h⟩

/-- A process plays one role only. -/
theorem Process.Plays.unique {L : Layout} {x : Process} {ρ ρ' : Role} (h : x.Plays L ρ)
    (h' : x.Plays L ρ') : ρ = ρ' := by
  cases ρ with
  | init =>
      obtain ⟨pt, rfl⟩ := h
      cases ρ' with
      | init => rfl
      | sleeper => cases h'
      | client i mode =>
          obtain ⟨ph, hph⟩ := h'
          cases hph
  | sleeper =>
      obtain rfl : x = .sleeper := h
      cases ρ' with
      | init =>
          obtain ⟨pt, hpt⟩ := h'
          cases hpt
      | sleeper => rfl
      | client i mode =>
          obtain ⟨ph, hph⟩ := h'
          cases hph
  | client i mode =>
      obtain ⟨ph, hph⟩ := h
      cases ρ' with
      | init =>
          obtain ⟨pt, rfl⟩ := h'
          cases hph
      | sleeper =>
          obtain rfl : x = .sleeper := h'
          cases hph
      | client j mode' =>
          obtain ⟨ph', hph'⟩ := h'
          have heq := Option.some.inj (hph.symm.trans hph')
          simp only [Prod.mk.injEq, Layout.resource_inj] at heq
          rw [heq.1, heq.2.1]

/-- The processes `ps` of the program, in the order of their roles. -/
structure Cast (L : Layout) (t : TestMq) (ps : List Addr) : Prop where
  nodup : ps.Nodup
  known : ∀ p, p ∈ ps ↔ t.process p ≠ none
  roles : ∀ (k : Nat) (p : Addr), ps[k]? = some p →
    ∃ x ρ, t.process p = some x ∧ Role.all[k]? = some ρ ∧ x.Plays L ρ
  valid : ∀ p x, t.process p = some x → x.Valid

namespace Cast

variable {L : Layout} {t : TestMq} {ps : List Addr} {p p' r b : Addr} {x x' y : Process} {ρ : Role}

/-- Every process of the program is in the cast. -/
theorem mem (hC : Cast L t ps) (hx : t.process p = some x) : p ∈ ps :=
  (hC.known p).2 (by rw [hx]; exact Option.some_ne_none x)

/-- Every member of the cast is a process of the program. -/
theorem exists_process (hC : Cast L t ps) (hp : p ∈ ps) : ∃ x, t.process p = some x :=
  Option.ne_none_iff_exists'.1 ((hC.known p).1 hp)

/-- Every process has a role. -/
theorem plays (hC : Cast L t ps) (hx : t.process p = some x) :
    ∃ (k : Nat) (ρ : Role), ps[k]? = some p ∧ Role.all[k]? = some ρ ∧ x.Plays L ρ := by
  obtain ⟨k, hk⟩ := List.mem_iff_getElem?.1 (hC.mem hx)
  obtain ⟨x', ρ, hx', hρ, hplays⟩ := hC.roles k p hk
  obtain rfl := Option.some.inj (hx.symm.trans hx')
  exact ⟨k, ρ, hk, hρ, hplays⟩

/-- No two processes have the same role. -/
theorem unique (hC : Cast L t ps) (hx : t.process p = some x) (hx' : t.process p' = some x')
    (hρ : x.Plays L ρ) (hρ' : x'.Plays L ρ) : p = p' := by
  obtain ⟨k, ρ₁, hk, hρ₁, hplays⟩ := hC.plays hx
  obtain ⟨k', ρ₂, hk', hρ₂, hplays'⟩ := hC.plays hx'
  obtain rfl := hplays.unique hρ
  obtain rfl := hplays'.unique hρ'
  have hkk : k = k' := by
    have hlt := (List.getElem?_eq_some_iff.1 hρ₁).1
    exact (List.getElem?_inj hlt (by decide)).1 (hρ₁.trans hρ₂.symm)
  subst hkk
  exact Option.some.inj (hk.symm.trans hk')

/-- A process goes on in its role. -/
theorem update (hC : Cast L t ps) (memory : Int → Int) (hx : t.process r = some x)
    (hplays : ∀ ρ, x.Plays L ρ → x'.Plays L ρ) (hvalid : x'.Valid) :
    Cast L ⟨memory, Function.update t.process r (some x')⟩ ps where
  nodup := hC.nodup
  known p := by
    show p ∈ ps ↔ Function.update t.process r (some x') p ≠ none
    by_cases hp : p = r
    · rw [hp, Function.update_self]
      exact iff_of_true (hC.mem hx) (Option.some_ne_none x')
    · rw [Function.update_of_ne hp]
      exact hC.known p
  roles k p hk := by
    obtain ⟨y, ρ, hy, hρ, hplay⟩ := hC.roles k p hk
    show ∃ z ρ, Function.update t.process r (some x') p = some z ∧ _
    by_cases hp : p = r
    · subst hp
      obtain rfl := Option.some.inj (hx.symm.trans hy)
      exact ⟨x', ρ, Function.update_self .., hρ, hplays ρ hplay⟩
    · exact ⟨y, ρ, (Function.update_of_ne hp ..).trans hy, hρ, hplay⟩
  valid p y hy := by
    replace hy : Function.update t.process r (some x') p = some y := hy
    by_cases hp : p = r
    · rw [hp, Function.update_self] at hy
      exact Option.some.inj hy ▸ hvalid
    · rw [Function.update_of_ne hp] at hy
      exact hC.valid p y hy

/-- A process is added, in the next role. -/
theorem add {memory : Int → Int} {process : Addr → Option Process}
    (hC : Cast L ⟨memory, process⟩ ps) (hb : b ∉ ps) (hρ : Role.all[ps.length]? = some ρ)
    (hplays : y.Plays L ρ) (hvalid : y.Valid) :
    Cast L ⟨memory, Function.update process b (some y)⟩ (ps ++ [b]) where
  nodup := List.nodup_append.2 ⟨hC.nodup, List.nodup_singleton b, fun p hp p' hp' heq =>
    hb (List.mem_singleton.1 hp' ▸ heq ▸ hp)⟩
  known p := by
    show p ∈ ps ++ [b] ↔ Function.update process b (some y) p ≠ none
    rw [List.mem_append, List.mem_singleton]
    by_cases hp : p = b
    · rw [hp, Function.update_self]
      exact iff_of_true (Or.inr rfl) (Option.some_ne_none y)
    · rw [Function.update_of_ne hp, or_iff_left hp]
      exact hC.known p
  roles k p hk := by
    show ∃ x ρ, Function.update process b (some y) p = some x ∧ _
    rcases Nat.lt_trichotomy k ps.length with hlt | rfl | hgt
    · rw [List.getElem?_append_left hlt] at hk
      obtain ⟨x, ρ, hx, hρ, hplay⟩ := hC.roles k p hk
      have hp : p ≠ b := fun heq => hb (heq ▸ hC.mem hx)
      exact ⟨x, ρ, (Function.update_of_ne hp ..).trans hx, hρ, hplay⟩
    · obtain rfl : b = p := by simpa using hk
      exact ⟨y, ρ, Function.update_self .., hρ, hplays⟩
    · rw [List.getElem?_eq_none (by simp; omega)] at hk
      cases hk
  valid p x hx := by
    replace hx : Function.update process b (some y) p = some x := hx
    by_cases hp : p = b
    · rw [hp, Function.update_self] at hx
      exact Option.some.inj hx ▸ hvalid
    · rw [Function.update_of_ne hp] at hx
      exact hC.valid p x hx

end Cast

/-! ## The blocks that the processes have taken -/

namespace TestMq

/-- A bound on the calls of `p` so far that may have taken a block. -/
def spentBy (t : TestMq) (p : Addr) : Nat := (t.process p).elim 0 Process.spent

/-- A bound on the calls of `ps` so far that may have taken a block. -/
def spent (t : TestMq) (ps : List Addr) : Nat := (ps.map t.spentBy).sum

variable {L : Layout} {t : TestMq} {ps : List Addr} {r b : Addr} {x x' : Process}

theorem sum_map_update {ps : List Addr} {f : Addr → Nat} {r : Addr} (hnd : ps.Nodup) (hr : r ∈ ps)
    (n : Nat) : (ps.map (Function.update f r n)).sum + f r = (ps.map f).sum + n := by
  induction ps with
  | nil => cases hr
  | cons p ps ih =>
      rw [List.nodup_cons] at hnd
      simp only [List.map_cons, List.sum_cons]
      rcases List.mem_cons.1 hr with rfl | hr
      · have hrest : ps.map (Function.update f r n) = ps.map f :=
          List.map_congr_left fun p hp =>
            Function.update_of_ne (show p ≠ r from fun heq => hnd.1 (heq ▸ hp)) ..
        rw [hrest, Function.update_self]
        omega
      · have hne : p ≠ r := fun heq => hnd.1 (heq ▸ hr)
        rw [Function.update_of_ne hne]
        have := ih hnd.2 hr
        omega

theorem spent_le (hC : Cast L t ps) : t.spent ps ≤ ps.length * 12 := by
  rw [spent, ← List.length_map t.spentBy]
  refine List.sum_le_card_nsmul _ 12 fun n hn => ?_
  obtain ⟨p, -, rfl⟩ := List.mem_map.1 hn
  cases hx : t.process p with
  | none => simp [spentBy, hx]
  | some x =>
      rw [spentBy, hx]
      exact Process.spent_le (hC.valid p x hx)

/-- What a process spends in a call is added to the total. -/
theorem spent_update {n : Nat} (hC : Cast L t ps) (memory : Int → Int)
    (hx : t.process r = some x) (hspent : x.spent + n ≤ x'.spent) :
    t.spent ps + n ≤ (TestMq.mk memory (Function.update t.process r (some x'))).spent ps := by
  have hby : (TestMq.mk memory (Function.update t.process r (some x'))).spentBy =
      Function.update t.spentBy r x'.spent := by
    funext p
    show (Function.update t.process r (some x') p).elim 0 Process.spent = _
    by_cases hp : p = r
    · rw [hp, Function.update_self, Function.update_self]
      rfl
    · rw [Function.update_of_ne hp, Function.update_of_ne hp]
      rfl
  have hsum := sum_map_update (f := t.spentBy) hC.nodup (hC.mem hx) x'.spent
  rw [spent, spent, hby]
  have hr : t.spentBy r = x.spent := by
    rw [spentBy, hx]
    rfl
  omega

/-- A new process adds nothing that has been spent before. -/
theorem spent_add (memory : Int → Int) (process : Addr → Option Process) (y : Process)
    (hb : b ∉ ps) : (TestMq.mk memory process).spent ps ≤
      (TestMq.mk memory (Function.update process b (some y))).spent (ps ++ [b]) := by
  have hold : ps.map (TestMq.mk memory (Function.update process b (some y))).spentBy =
      ps.map (TestMq.mk memory process).spentBy := by
    refine List.map_congr_left fun p hp => ?_
    have hne : p ≠ b := fun heq => hb (heq ▸ hp)
    simp only [spentBy, Function.update_of_ne hne]
  rw [spent, spent, List.map_append, List.sum_append, hold]
  exact Nat.le_add_right ..

end TestMq

end DisastrOS
