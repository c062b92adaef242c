import DisastrOS.Basic
import DisastrOS.Library.LinkedSequence

/-!
# `linked_list.c`

`listInsert` and `listDetach` are the C functions `List_insert` and `List_detach`, over a heap of
link fields and list heads. They compute the pointer operations `splice` and `unlink`
(`listInsert_eq`, `listDetach_eq`), so on a well-formed family of lists they insert into and remove
from one sequence (`listInsert_last`, `listInsert_after`). `listSearch` is the
scan which the `..._byId`, `..._byFd` and `..._byPID` functions share.

`ListHead.size` is an `int` and here an integer without bounds. No list has 2^31 nodes: the nodes
are the blocks of pools of 1024 blocks each. The counter of the zombie list can be wrong, but
nothing reads it.
-/

set_option autoImplicit false

namespace DisastrOS

open LinkedSequence LinkedSequence.ListHeap

variable {ν ι : Type} [DecidableEq ν] [DecidableEq ι]

/-- `List_insert`: links `item` under `head` behind `prev`, or in front if `prev` is null. An item
that has a non-null link field is refused: the result is then the null pointer. The counter does not
wrap around, since no list has 2^31 nodes. -/
def listInsert (h : ListHeap ν ι) (head : ι) (prev item : Option ν) :
    Except Fault (ListHeap ν ι × Option ν) := do
  let item ← deref item
  if (h.next item).isSome || (h.prev item).isSome then
    return (h, none)
  let next := match prev with
    | some p => h.next p
    | none => h.first head
  let h := match prev with
    | some p =>
        { h with
          prev := Function.update h.prev item (some p)
          next := Function.update h.next p (some item) }
    | none => h
  let h := match next with
    | some n =>
        { h with
          next := Function.update h.next item (some n)
          prev := Function.update h.prev n (some item) }
    | none => h
  let h := if prev.isNone then { h with first := Function.update h.first head (some item) } else h
  let h := if next.isNone then { h with last := Function.update h.last head (some item) } else h
  return ({ h with size := Function.update h.size head (h.size head + 1) }, some item)

/-- `List_detach`: unlinks `item` from its neighbours and from `head`. Here, too, the counter is an
integer without bounds. -/
def listDetach (h : ListHeap ν ι) (head : ι) (item : Option ν) :
    Except Fault (ListHeap ν ι × ν) := do
  let item ← deref item
  let prev := h.prev item
  let next := h.next item
  let h := { h with
    next := (match prev with
      | some p => Function.update h.next p next
      | none => h.next) }
  let h := { h with
    prev := (match next with
      | some n => Function.update h.prev n prev
      | none => h.prev) }
  let h := { h with
    first := (if h.first head = some item then Function.update h.first head next else h.first) }
  let h := { h with
    last := (if h.last head = some item then Function.update h.last head prev else h.last) }
  let h := { h with size := Function.update h.size head (h.size head - 1) }
  return ({ h with
            next := Function.update h.next item none
            prev := Function.update h.prev item none }, item)

/-- The scanning loop of `List_find` and of the lookup functions: the first node from `aux` on that
satisfies the test. -/
def listSearch (next : ν → Option ν) (test : ν → Bool) :
    Nat → Option ν → Except Fault (Option ν)
  | 0, _ => .error .endlessLoop
  | _ + 1, none => .ok none
  | n + 1, some x => if test x then .ok (some x) else listSearch next test n (next x)

/-! ## The C functions compute the pointer operations -/

/-- The item that `listInsert` finds behind `prev`. -/
def follower (h : ListHeap ν ι) (head : ι) : Option ν → Option ν
  | some p => h.next p
  | none => h.first head

/-- An item with null links, other than its new neighbours, is spliced in. -/
theorem listInsert_eq {h : ListHeap ν ι} {head : ι} {prev q : Option ν} {x : ν}
    (hnull : h.Unlinked x) (hprev : prev ≠ some x) (hq : follower h head prev = q)
    (hnext : q ≠ some x) :
    listInsert h head prev (some x) = .ok (h.splice head prev x q, some x) := by
  obtain ⟨hp, hn⟩ := hnull
  unfold listInsert
  simp only [deref_some, ok_bind, hp, hn, Option.isSome_none, Bool.or_self, Bool.false_eq_true,
    if_false, pure_eq_ok]
  apply congrArg (fun h => Except.ok (h, some x))
  cases prev with
  | none =>
      simp only [follower] at hq
      rw [hq]
      cases q with
      | none => ext y <;> simp [splice] <;> grind
      | some n => ext y <;> simp [splice] <;> grind
  | some p =>
      have hpx : p ≠ x := fun heq => hprev (by rw [heq])
      simp only [follower] at hq
      simp only [hq]
      cases q with
      | none => ext y <;> simp [splice] <;> grind
      | some n => ext y <;> simp [splice] <;> grind

/-- An item with a non-null link is refused and nothing changes. -/
theorem listInsert_refused {h : ListHeap ν ι} {head : ι} {prev : Option ν} {x : ν}
    (hlinked : ¬ h.Unlinked x) : listInsert h head prev (some x) = .ok (h, none) := by
  have hcond : ((h.next x).isSome || (h.prev x).isSome) = true := by
    by_contra hc
    simp only [Bool.or_eq_true, not_or, Bool.not_eq_true, Option.isSome_eq_false_iff,
      Option.isNone_iff_eq_none] at hc
    exact hlinked ⟨hc.2, hc.1⟩
  unfold listInsert
  simp only [deref_some, ok_bind, hcond, if_true, pure_eq_ok]

/-- `listDetach` takes any item out from between its neighbours. -/
theorem listDetach_eq (h : ListHeap ν ι) (head : ι) (x : ν) :
    listDetach h head (some x) = .ok (h.unlink head x, x) := by
  unfold listDetach
  simp only [deref_some, ok_bind, pure_eq_ok]
  refine congrArg (fun h => Except.ok (h, x)) (ListHeap.ext (funext fun y => ?_)
    (funext fun y => ?_) rfl rfl rfl)
  · simp only [unlink, Function.update_apply]
    cases h.next x with
    | none => simp
    | some n => simp [Function.update_apply, eq_comm]
  · simp only [unlink, Function.update_apply]
    cases h.prev x with
    | none => simp
    | some p => simp [Function.update_apply, eq_comm]

/-! ## On well-formed lists -/

section Lists

variable {h : ListHeap ν ι} {live : ι → Prop} {L : ι → List ν}

/-- On a well-formed list, an unlisted item with null links goes behind `prev`. -/
theorem listInsert_after (hF : h.Family live L) {i : ι} (hi : live i) {as bs : List ν} {x : ν}
    (hsplit : L i = as ++ bs) (hx : Unlisted live L x) (hnull : h.Unlinked x) :
    listInsert h i as.getLast? (some x) = .ok (h.splice i as.getLast? x bs.head?, some x) := by
  have hxi := hx i hi
  rw [hsplit, List.mem_append, not_or] at hxi
  have hr := hF.represents i hi
  rw [hsplit] at hr
  refine listInsert_eq hnull (fun heq => hxi.1 (List.mem_of_mem_getLast? heq)) ?_
    fun heq => hxi.2 (List.mem_of_mem_head? heq)
  rcases List.eq_nil_or_concat as with rfl | ⟨as, a, rfl⟩
  · exact hr.first
  · rw [List.concat_eq_append] at hr ⊢
    have hseg := (segment_append.1 (segment_append.1 hr.chain).1).2
    simpa [follower] using hseg.2.1

/-- `List_insert(&head, head.last, item)` appends. -/
theorem listInsert_last (hF : h.Family live L) {i : ι} (hi : live i) {x : ν}
    (hx : Unlisted live L x) (hnull : h.Unlinked x) :
    listInsert h i (h.last i) (some x) = .ok (h.splice i (L i).getLast? x none, some x) := by
  rw [(hF.represents i hi).last]
  have hsplit : L i = L i ++ [] := (List.append_nil _).symm
  exact listInsert_after hF hi hsplit hx hnull

omit [DecidableEq ν] [DecidableEq ι] in
theorem segment_listSearch {p : Option ν} {xs : List ν} (hs : h.Segment p xs none)
    (test : ν → Bool) :
    ∀ {n : Nat}, xs.length < n → listSearch h.next test n xs.head? = .ok (xs.find? test) := by
  induction xs generalizing p with
  | nil =>
      intro n hn
      obtain ⟨m, rfl⟩ := Nat.exists_eq_add_one_of_ne_zero (Nat.ne_zero_of_lt hn)
      rfl
  | cons x xs ih =>
      intro n hn
      obtain ⟨m, rfl⟩ := Nat.exists_eq_add_one_of_ne_zero (Nat.ne_zero_of_lt hn)
      obtain ⟨-, hnext, hrest⟩ := hs
      rw [Option.or_none] at hnext
      rw [List.head?_cons, listSearch, List.find?_cons]
      cases htest : test x with
      | true => rfl
      | false =>
          rw [hnext]
          exact ih hrest (by simpa using hn)

omit [DecidableEq ν] [DecidableEq ι] in
/-- The scan from the first node finds what `List.find?` finds. -/
theorem listSearch_eq {i : ι} {xs : List ν} (hr : h.Represents i xs) (test : ν → Bool) {n : Nat}
    (hn : xs.length < n) : listSearch h.next test n (h.first i) = .ok (xs.find? test) := by
  rw [hr.first]
  exact segment_listSearch hr.chain test hn

end Lists

end DisastrOS
