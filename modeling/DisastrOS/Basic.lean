import Mathlib.Logic.Function.Basic
import Mathlib.Data.Int.Basic
import Mathlib.Algebra.Group.Int.Defs
import Mathlib.Algebra.Group.Nat.Defs

/-!
# Execution of the kernel code

The kernel is C code: a step either completes or ends in a fault. `Fault` lists the ways a step can
fail to complete, `deref` is the access through a pointer that may be null, and `wrapInt` is the
conversion of a `long` to an `int` and the wrap-around of `int` arithmetic.
-/

set_option autoImplicit false

namespace DisastrOS

/-- The ways a kernel step fails to complete. -/
inductive Fault where
  | nullPointer
  | assertionFailed
  | outOfBounds
  | endlessLoop
  | exited
  deriving DecidableEq, Repr

/-- Address of a block, as the offset from the buffer of the pool that hands the block out. -/
abbrev Addr := Int

variable {α β : Type}

/-- Access through a pointer; `none` is the null pointer. -/
def deref : Option α → Except Fault α
  | some x => .ok x
  | none => .error .nullPointer

/-- `assert(p)` for a pointer. -/
def assertNonNull : Option α → Except Fault α
  | some x => .ok x
  | none => .error .assertionFailed

/-- Conversion to a 32-bit `int`. -/
def wrapInt (x : Int) : Int := x.bmod (2 ^ 32)

/-- Bound on the number of iterations of a loop over a linked list: twice the number of blocks of
the two largest pools together, so a longer walk has met some node twice and never ends. -/
def loopBound : Nat := 4096

@[simp] theorem ok_bind (a : α) (f : α → Except Fault β) : (Except.ok a >>= f) = f a := rfl

@[simp] theorem error_bind (e : Fault) (f : α → Except Fault β) :
    ((Except.error e : Except Fault α) >>= f) = .error e := rfl

@[simp] theorem pure_eq_ok (a : α) : (pure a : Except Fault α) = .ok a := rfl

theorem bind_eq_ok {x : Except Fault α} {f : α → Except Fault β} {b : β} :
    (x >>= f) = .ok b ↔ ∃ a, x = .ok a ∧ f a = .ok b := by
  cases x with
  | error e => simp
  | ok a => simp

@[simp] theorem deref_eq_ok {p : Option α} {x : α} : deref p = .ok x ↔ p = some x := by
  cases p <;> simp [deref]

@[simp] theorem deref_some (x : α) : deref (some x) = .ok x := rfl

@[simp] theorem assertNonNull_eq_ok {p : Option α} {x : α} :
    assertNonNull p = .ok x ↔ p = some x := by
  cases p <;> simp [assertNonNull]

theorem wrapInt_of_bounds {x : Int} (h1 : -2 ^ 31 ≤ x) (h2 : x < 2 ^ 31) : wrapInt x = x := by
  rw [wrapInt, Int.bmod_def]
  split <;> omega

theorem wrapInt_bounds (x : Int) : -2 ^ 31 ≤ wrapInt x ∧ wrapInt x < 2 ^ 31 := by
  rw [wrapInt, Int.bmod_def]
  split <;> omega

/-- A sum that is too large for an `int` wraps around to a value below the first summand. -/
theorem wrapInt_add_le {t n : Int} (ht : t < 2 ^ 31) (hn : n < 2 ^ 31) (h : 2 ^ 31 ≤ t + n) :
    wrapInt (t + n) ≤ t := by
  rw [wrapInt, Int.bmod_def]
  split <;> omega

/-- An `int` argument passed as a `long` and read back as an `int` is unchanged. -/
@[simp] theorem wrapInt_toInt (x : Int32) : wrapInt x.toInt = x.toInt :=
  wrapInt_of_bounds x.le_toInt x.toInt_lt

end DisastrOS
