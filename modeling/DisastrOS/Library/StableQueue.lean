import Mathlib.Data.List.Basic
import Mathlib.Order.Lattice

/-!
# Priority lists that serve equal keys in order of arrival

A list is in order if its keys ascend and elements with equal keys stand in the order in which they
came. An element that is inserted behind all elements with smaller or equal keys keeps it so, and
what has a key of at most a bound is then a prefix of the list.
-/

set_option autoImplicit false

namespace StableQueue

variable {α κ : Type} [LinearOrder κ]

/-- The keys ascend, and elements with equal keys are ordered by `before`. -/
def InOrder (key : α → κ) (before : α → α → Prop) (xs : List α) : Prop :=
  xs.Pairwise fun x y => key x < key y ∨ key x = key y ∧ before x y

/-- The list with `x` behind the last element of its prefix with keys up to that of `x`. -/
def insertByKey (key : α → κ) (x : α) (xs : List α) : List α :=
  xs.takeWhile (fun y => key y ≤ key x) ++ x :: xs.dropWhile (fun y => key y ≤ key x)

variable {key key' : α → κ} {before before' : α → α → Prop} {xs ys : List α} {x y : α} {k : κ}

theorem inOrder_nil : InOrder key before ([] : List α) := List.Pairwise.nil

theorem inOrder_cons : InOrder key before (x :: xs) ↔
    (∀ y ∈ xs, key x < key y ∨ key x = key y ∧ before x y) ∧ InOrder key before xs :=
  List.pairwise_cons

theorem InOrder.sublist (h : InOrder key before xs) (hs : ys.Sublist xs) :
    InOrder key before ys :=
  List.Pairwise.sublist hs h

/-- The order depends on the keys of the members only, and on `before` between them. -/
theorem InOrder.congr (h : InOrder key before xs) (hkey : ∀ x ∈ xs, key' x = key x)
    (hbefore : ∀ x ∈ xs, ∀ y ∈ xs, before x y → before' x y) : InOrder key' before' xs := by
  refine List.Pairwise.imp_of_mem (fun {x y} hx hy hxy => ?_) h
  rw [hkey x hx, hkey y hy]
  exact hxy.imp id (And.imp_right (hbefore x hx y hy))

/-- Nothing in the list has a smaller key than its head. -/
theorem InOrder.lt_of_head (h : InOrder key before xs) (hhead : ∀ x ∈ xs.head?, k < key x) :
    ∀ x ∈ xs, k < key x := by
  cases xs with
  | nil => simp
  | cons x xs =>
      intro y hy
      have hx : k < key x := hhead x rfl
      rcases List.mem_cons.1 hy with rfl | hy
      · exact hx
      · rcases (inOrder_cons.1 h).1 y hy with hlt | ⟨heq, -⟩
        · exact lt_trans hx hlt
        · exact heq ▸ hx

/-- The place of `x` depends on the keys of the members only. -/
theorem insertByKey_eq (hkey : ∀ y ∈ xs, key' y = key y) : insertByKey key' x xs =
    xs.takeWhile (fun y => key y ≤ key' x) ++ x :: xs.dropWhile (fun y => key y ≤ key' x) := by
  induction xs with
  | nil => rfl
  | cons y ys ih =>
      have hrest := ih fun z hz => hkey z (List.mem_cons_of_mem y hz)
      by_cases hle : key y ≤ key' x
      · simpa [insertByKey, hle, hkey y List.mem_cons_self] using hrest
      · simp [insertByKey, hle, hkey y List.mem_cons_self]

theorem mem_insertByKey : y ∈ insertByKey key x xs ↔ y = x ∨ y ∈ xs := by
  rw [insertByKey, List.mem_append, List.mem_cons, or_left_comm, ← List.mem_append,
    List.takeWhile_append_dropWhile]

/-- A new element goes behind all elements that came before it and have keys up to its own. -/
theorem InOrder.insertByKey (h : InOrder key before xs) (hx : ∀ y ∈ xs, before y x) :
    InOrder key before (insertByKey key x xs) := by
  induction xs with
  | nil => exact List.pairwise_singleton _ x
  | cons y ys ih =>
      obtain ⟨hy, hys⟩ := inOrder_cons.1 h
      have hrest := ih hys fun z hz => hx z (List.mem_cons_of_mem y hz)
      by_cases hle : key y ≤ key x
      · have heq : StableQueue.insertByKey key x (y :: ys) =
            y :: StableQueue.insertByKey key x ys := by
          simp [StableQueue.insertByKey, hle]
        rw [heq]
        refine inOrder_cons.2 ⟨fun z hz => ?_, hrest⟩
        rcases mem_insertByKey.1 hz with rfl | hz
        · exact (lt_or_eq_of_le hle).imp id fun heq => ⟨heq, hx y List.mem_cons_self⟩
        · exact hy z hz
      · have heq : StableQueue.insertByKey key x (y :: ys) = x :: y :: ys := by
          simp [StableQueue.insertByKey, hle]
        rw [heq]
        refine inOrder_cons.2 ⟨fun z hz => Or.inl ?_, h⟩
        refine h.lt_of_head (fun z hz => ?_) z hz
        obtain rfl : y = z := Option.some.inj hz
        exact lt_of_not_ge hle

end StableQueue
