import Mathlib.Data.Int.Basic

/-!
# Computations that log

A computation logs events and then returns a value or fails. A failed computation keeps the events
up to its failure, so the log says what has been done, whatever became of it. Reading a table at an
integer logs the access before the bounds are checked.
-/

set_option autoImplicit false

namespace Logging

variable {ω ε α β : Type}

/-- A log of events, and a value or an error. -/
structure Logged (ω ε α : Type) where
  log : List ω
  result : Except ε α

namespace Logged

instance : Monad (Logged ω ε) where
  pure a := ⟨[], .ok a⟩
  bind x f :=
    match x.result with
    | .error e => ⟨x.log, .error e⟩
    | .ok a => ⟨x.log ++ (f a).log, (f a).result⟩

/-- One event. -/
def event (w : ω) : Logged ω ε Unit := ⟨[w], .ok ()⟩

/-- A computation without events. -/
def lift (x : Except ε α) : Logged ω ε α := ⟨[], x⟩

theorem pure_def (a : α) : (pure a : Logged ω ε α) = ⟨[], .ok a⟩ := rfl

@[simp] theorem mk_ok_bind (l : List ω) (a : α) (f : α → Logged ω ε β) :
    (⟨l, .ok a⟩ : Logged ω ε α) >>= f = ⟨l ++ (f a).log, (f a).result⟩ := rfl

theorem bind_pure_map (x : Logged ω ε α) (f : α → β) :
    (x >>= fun a => pure (f a)) = ⟨x.log, x.result.map f⟩ := by
  obtain ⟨l, _ | a⟩ := x
  · rfl
  · rw [mk_ok_bind, pure_def, List.append_nil]
    rfl

@[simp] theorem lift_ok_bind (a : α) (f : α → Logged ω ε β) : lift (.ok a) >>= f = f a := rfl

@[simp] theorem event_bind (w : ω) (f : Unit → Logged ω ε β) :
    event w >>= f = ⟨w :: (f ()).log, (f ()).result⟩ := rfl

end Logged

/-! ## Tables -/

section Tables

variable {n : Nat} {i : Int}

/-- The entry `i` of a table. -/
def tableGet (t : Vector α n) (err : ε) (i : Int) : Except ε α :=
  if h : 0 ≤ i ∧ i < n then .ok (t.get ⟨i.toNat, by omega⟩) else .error err

theorem tableGet_of_bounds (t : Vector α n) (err : ε) (h0 : 0 ≤ i) (h1 : i < n) :
    tableGet t err i = .ok (t.get ⟨i.toNat, by omega⟩) := dif_pos ⟨h0, h1⟩

theorem tableGet_of_le (t : Vector α n) (err : ε) (h : (n : Int) ≤ i) :
    tableGet t err i = .error err := dif_neg (by omega)

theorem bounds_of_tableGet {t : Vector α n} {err : ε} {a : α} (h : tableGet t err i = .ok a) :
    0 ≤ i ∧ i < n := by
  by_contra hbounds
  rw [tableGet, dif_neg hbounds] at h
  cases h

/-- The access `access i` is logged, and then the entry is read. -/
def Logged.readTable (t : Vector α n) (err : ε) (access : Int → ω) (i : Int) : Logged ω ε α := do
  Logged.event (access i)
  Logged.lift (tableGet t err i)

theorem readTable_eq (t : Vector α n) (err : ε) (access : Int → ω) (i : Int) :
    Logged.readTable t err access i = ⟨[access i], tableGet t err i⟩ := rfl

end Tables

end Logging
