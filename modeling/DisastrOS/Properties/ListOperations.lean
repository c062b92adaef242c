import DisastrOS.LinkedList

/-!
# `List_insert` and `List_detach` as operations on sequences

On a heap whose lists are well formed, with correct counters and without common nodes, the two
functions insert into and remove from one sequence, and leave every other list as it is. The
counters are integers without bounds, as in `listInsert` and `listDetach`: in C they are `int`s, so
the lists are those with fewer than 2^31 - 1 nodes.
-/

set_option autoImplicit false

namespace DisastrOS

open LinkedSequence LinkedSequence.ListHeap

variable {ν ι : Type} [DecidableEq ν] [DecidableEq ι]

/-- What the list functions do under the head `i`; the live heads carry the sequences `L`. -/
structure ListOperations (h : ListHeap ν ι) (live : ι → Prop) (L : ι → List ν) (i : ι) : Prop where
  /-- An item of no list with null links goes behind `prev`, or to the front; detaching it again
  restores the heap. -/
  insert : ∀ (prev : Option ν) (x : ν), (∀ p ∈ prev, p ∈ L i) → Unlisted live L x →
    h.Unlinked x → ∃ h', listInsert h i prev (some x) = .ok (h', some x) ∧
      h'.WellFormed live live (Function.update L i (insertAfter prev x (L i))) ∧
      h.SameOutside h' i (x :: L i) ∧ listDetach h' i (some x) = .ok (h, x)
  /-- An item with a link is refused, and nothing changes. -/
  refused : ∀ (prev : Option ν) (x : ν), ¬ h.Unlinked x →
    listInsert h i prev (some x) = .ok (h, none)
  /-- Any item of the list is taken out, and its links are null afterwards. -/
  detach : ∀ x ∈ L i, ∃ h', listDetach h i (some x) = .ok (h', x) ∧
    h'.WellFormed live live (Function.update L i ((L i).erase x)) ∧
    h.SameOutside h' i (L i) ∧ h'.Unlinked x

variable {h : ListHeap ν ι} {live : ι → Prop} {L : ι → List ν} {i : ι}

/-- On well-formed lists `List_insert` and `List_detach` are the operations on sequences. -/
theorem list_operations (hW : h.WellFormed live live L) (hi : live i) :
    ListOperations h live L i where
  insert := by
    intro prev x hprev hx hnull
    obtain ⟨as, bs, hsplit, rfl, hinsert⟩ := insertAfter_split x hprev
    have hr := hW.represents i hi
    have hxi := hx i hi
    rw [hsplit] at hr hxi
    refine ⟨_, listInsert_after hW.toFamily hi hsplit hx hnull, ?_, ?_, ?_⟩
    · rw [hinsert]
      exact hW.splice hi hsplit hx
    · rw [hsplit]
      exact splice_sameOutside h i as bs x
    · rw [listDetach_eq, hr.unlink_splice hxi hnull]
  refused := fun prev x hlinked => listInsert_refused hlinked
  detach := fun x hx =>
    ⟨_, listDetach_eq h i x, hW.unlink hi hx, (hW.represents i hi).unlink_sameOutside hx,
      unlink_unlinked h i x⟩

/-- A heap with the lists `1, 2` and `5`. -/
def twoLists : ListHeap Nat Bool where
  prev n := if n = 2 then some 1 else none
  next n := if n = 1 then some 2 else none
  first i := if i then some 1 else some 5
  last i := if i then some 2 else some 5
  size i := if i then 2 else 1

theorem twoLists_wellFormed : twoLists.WellFormed (fun _ => True) (fun _ => True)
    fun i => if i then [1, 2] else [5] := by
  refine ⟨⟨fun i _ => ?_, fun i j _ _ hij x hx => ?_⟩, fun i _ => ?_⟩
  · cases i
    · exact ⟨rfl, rfl, by simp [Segment, twoLists], by simp⟩
    · exact ⟨rfl, rfl, by simp [Segment, twoLists], by simp⟩
  · cases i <;> cases j <;> simp_all
  · cases i <;> rfl

/-- The node 7 goes between the two nodes of a list and is taken out again, and the node 2 is taken
out of it. The other list stays as it is. -/
theorem list_operations_between : ∃ h' h'' : ListHeap Nat Bool,
    (listInsert twoLists true (some 1) (some 7) = .ok (h', some 7) ∧
      h'.Represents true [1, 7, 2] ∧ h'.Represents false [5] ∧
      listDetach h' true (some 7) = .ok (twoLists, 7)) ∧
    listDetach twoLists true (some 2) = .ok (h'', 2) ∧
      h''.Represents true [1] ∧ h''.Represents false [5] := by
  have hops := list_operations twoLists_wellFormed (i := true) trivial
  obtain ⟨h', hinsert, hW', -, hdetach⟩ := hops.insert (some 1) 7 (by simp)
    (fun i _ => by cases i <;> simp) ⟨rfl, rfl⟩
  obtain ⟨h'', hdetach', hW'', -, -⟩ := hops.detach 2 (by simp)
  exact ⟨h', h'', ⟨hinsert, hW'.represents true trivial, hW'.represents false trivial, hdetach⟩,
    hdetach', hW''.represents true trivial, hW''.represents false trivial⟩

end DisastrOS
