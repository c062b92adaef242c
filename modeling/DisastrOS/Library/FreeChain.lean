import Mathlib.Logic.Function.Basic
import Mathlib.Data.List.Nodup

/-!
# Free chains threaded through an index array

A free chain stores a stack of array indices inside the array itself: `Chain link nil start is`
says that from `start` the array `link` leads through exactly the indices `is` and then to the end
mark `nil`. Pushing and popping an index are the two operations of such a stack.
-/

set_option autoImplicit false

namespace FreeChain

variable {link link' : Int → Int} {nil start : Int} {is : List Int}

/-- From `start` the array `link` leads through the indices `is` and ends with `nil`. -/
def Chain (link : Int → Int) (nil : Int) : Int → List Int → Prop
  | start, [] => start = nil
  | start, i :: is => start = i ∧ Chain link nil (link i) is

theorem Chain.congr (hc : Chain link nil start is) (hl : ∀ i ∈ is, link' i = link i) :
    Chain link' nil start is := by
  induction is generalizing start with
  | nil => exact hc
  | cons i is ih =>
      refine ⟨hc.1, ?_⟩
      rw [hl i List.mem_cons_self]
      exact ih hc.2 fun j hj => hl j (List.mem_cons_of_mem i hj)

/-- Popping the first index: the rest of the chain starts where the array points. -/
theorem Chain.pop {i : Int} (hc : Chain link nil start (i :: is)) (hi : i ∉ is) (v : Int) :
    start = i ∧ Chain (Function.update link i v) nil (link i) is :=
  ⟨hc.1, hc.2.congr fun _ hj => Function.update_of_ne (ne_of_mem_of_not_mem hj hi) ..⟩

/-- Pushing a fresh index in front of the chain. -/
theorem Chain.push {i : Int} (hc : Chain link nil start is) (hi : i ∉ is) :
    Chain (Function.update link i start) nil i (i :: is) := by
  refine ⟨rfl, ?_⟩
  rw [Function.update_self]
  exact hc.congr fun _ hj => Function.update_of_ne (ne_of_mem_of_not_mem hj hi) ..

/-- The chain that links every index below `n` to the next one. -/
theorem chain_range (link : Int → Int) (nil : Int) {n m : Nat} (hm : m < n)
    (hl : ∀ i : Nat, m ≤ i → i < n → link i = if i + 1 = n then nil else (i : Int) + 1) :
    Chain link nil m ((List.range' m (n - m)).map Int.ofNat) := by
  obtain ⟨k, rfl⟩ : ∃ k, n = m + k + 1 := ⟨n - m - 1, by omega⟩
  induction k generalizing m with
  | zero =>
      have hlm := hl m (Nat.le_refl m) (by omega)
      have : m + 0 + 1 - m = 1 := by omega
      rw [this]
      simpa [Chain] using hlm
  | succ k ih =>
      have hlm := hl m (Nat.le_refl m) (by omega)
      have hne : ¬ m + 1 = m + (k + 1) + 1 := by omega
      rw [if_neg hne] at hlm
      have hlen : m + (k + 1) + 1 - m = (k + 1) + 1 := by omega
      have hrest : m + 1 + k + 1 - (m + 1) = k + 1 := by omega
      have key := ih (m := m + 1) (by omega) fun i hi hin => by
        rw [hl i (by omega) (by omega)]
        have heq : m + 1 + k + 1 = m + (k + 1) + 1 := by omega
        rw [heq]
      rw [hrest] at key
      rw [hlen, List.range'_succ, List.map_cons]
      refine ⟨rfl, ?_⟩
      show Chain link nil (link (m : Int)) _
      rw [hlm]
      exact_mod_cast key

end FreeChain
