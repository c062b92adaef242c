import Mathlib.Logic.Function.Basic
import Mathlib.Data.List.Nodup

/-!
# Doubly linked sequences on a heap

A heap of intrusive list nodes keeps, for every node, the addresses of its neighbours, and, for
every list head, the first node, the last node and a counter. `Represents h i xs` says that head
`i` of the heap `h` is a well-formed list of the nodes `xs`, in both directions; `Family h live L`
says that all live heads are well formed at once and share no node.

Two pointer operations are studied: `splice`, which links a node between two neighbours, and
`unlink`, which takes a node out. On a well-formed family they are insertion into, and removal
from, one sequence, and they leave every other sequence alone (`Family.splice`, `Family.unlink`).
-/

set_option autoImplicit false

namespace LinkedSequence

variable {ν ι : Type}

/-- Link fields of all nodes and fields of all heads, one map per field. The counter `size` is an
integer without bounds, which a machine integer agrees with while every list is short enough for it
to count. -/
@[ext] structure ListHeap (ν ι : Type) where
  prev : ν → Option ν
  next : ν → Option ν
  first : ι → Option ν
  last : ι → Option ν
  size : ι → Int

namespace ListHeap

/-- The nodes `xs` are chained in both directions, from the predecessor `p` of the first node to
the successor `q` of the last one. -/
def Segment (h : ListHeap ν ι) : Option ν → List ν → Option ν → Prop
  | _, [], _ => True
  | p, x :: xs, q => h.prev x = p ∧ h.next x = xs.head?.or q ∧ Segment h (some x) xs q

/-- Head `i` is a well-formed list of the nodes `xs`. -/
structure Represents (h : ListHeap ν ι) (i : ι) (xs : List ν) : Prop where
  first : h.first i = xs.head?
  last : h.last i = xs.getLast?
  chain : h.Segment none xs none
  nodup : xs.Nodup

/-- Every live head is well formed, and no node is in the lists of two live heads. -/
structure Family (h : ListHeap ν ι) (live : ι → Prop) (L : ι → List ν) : Prop where
  represents : ∀ i, live i → h.Represents i (L i)
  disjoint : ∀ i j, live i → live j → ∀ x, x ∈ L i → x ∈ L j → i = j

/-- A family whose heads `counted` also count their nodes. -/
structure WellFormed (h : ListHeap ν ι) (live counted : ι → Prop) (L : ι → List ν) : Prop
    extends h.Family live L where
  count : ∀ i, counted i → h.size i = (L i).length

/-- The sequences of the live heads have no repetitions and share no node. -/
structure Separate (live : ι → Prop) (L : ι → List ν) : Prop where
  nodup : ∀ i, live i → (L i).Nodup
  disjoint : ∀ i j, live i → live j → ∀ x, x ∈ L i → x ∈ L j → i = j

/-- Both link fields of `x` are null. -/
def Unlinked (h : ListHeap ν ι) (x : ν) : Prop := h.prev x = none ∧ h.next x = none

/-- `x` is in the list of no live head. -/
def Unlisted (live : ι → Prop) (L : ι → List ν) (x : ν) : Prop := ∀ i, live i → x ∉ L i

/-- Nodes outside the lists have null link fields. -/
def Tidy (h : ListHeap ν ι) (live : ι → Prop) (L : ι → List ν) : Prop :=
  ∀ x, Unlisted live L x → h.Unlinked x

/-! ## Segments -/

@[simp] theorem segment_nil (h : ListHeap ν ι) (p q : Option ν) : h.Segment p [] q := trivial

theorem segment_cons {h : ListHeap ν ι} {p q : Option ν} {x : ν} {xs : List ν} :
    h.Segment p (x :: xs) q ↔
      h.prev x = p ∧ h.next x = xs.head?.or q ∧ h.Segment (some x) xs q := Iff.rfl

/-- A segment splits at any of its nodes. -/
theorem segment_append {h : ListHeap ν ι} {p q : Option ν} {as bs : List ν} :
    h.Segment p (as ++ bs) q ↔
      h.Segment p as (bs.head?.or q) ∧ h.Segment (as.getLast?.or p) bs q := by
  induction as generalizing p with
  | nil => simp
  | cons a as ih =>
      have hlast : (a :: as).getLast?.or p = as.getLast?.or (some a) := by
        rw [List.getLast?_cons]
        cases as.getLast? <;> rfl
      rw [hlast, List.cons_append, segment_cons, segment_cons, ih, List.head?_append,
        Option.or_assoc, and_assoc, and_assoc]

/-- A segment only depends on the link fields of its nodes. -/
theorem Segment.congr {h h' : ListHeap ν ι} {p q : Option ν} {xs : List ν}
    (hs : h.Segment p xs q) (hprev : ∀ x ∈ xs, h'.prev x = h.prev x)
    (hnext : ∀ x ∈ xs, h'.next x = h.next x) : h'.Segment p xs q := by
  induction xs generalizing p with
  | nil => trivial
  | cons x xs ih =>
      obtain ⟨h1, h2, h3⟩ := hs
      refine ⟨?_, ?_, ih h3 ?_ ?_⟩
      · rw [hprev x List.mem_cons_self, h1]
      · rw [hnext x List.mem_cons_self, h2]
      · exact fun y hy => hprev y (List.mem_cons_of_mem x hy)
      · exact fun y hy => hnext y (List.mem_cons_of_mem x hy)

/-- Changing the successor field of the last node of a segment. -/
theorem Segment.retarget_last {h h' : ListHeap ν ι} {p q q' : Option ν} {xs : List ν}
    (hs : h.Segment p xs q) (hnd : xs.Nodup) (hprev : ∀ x ∈ xs, h'.prev x = h.prev x)
    (hnext : ∀ x ∈ xs, xs.getLast? ≠ some x → h'.next x = h.next x)
    (hlast : ∀ x, xs.getLast? = some x → h'.next x = q') : h'.Segment p xs q' := by
  rcases List.eq_nil_or_concat xs with rfl | ⟨as, a, rfl⟩
  · trivial
  · rw [List.concat_eq_append] at *
    rw [segment_append] at hs ⊢
    have hne : ∀ x ∈ as, x ≠ a := by
      intro x hx heq
      rw [List.nodup_append] at hnd
      exact hnd.2.2 x hx a (List.mem_singleton_self a) heq
    refine ⟨hs.1.congr (fun x hx => hprev x (by simp [hx])) fun x hx => ?_, ?_⟩
    · exact hnext x (by simp [hx]) (by simpa using (hne x hx).symm)
    · refine ⟨?_, ?_, trivial⟩
      · rw [hprev a (by simp)]
        exact hs.2.1
      · simpa using hlast a (by simp)

/-- Changing the predecessor field of the first node of a segment. -/
theorem Segment.retarget_first {h h' : ListHeap ν ι} {p p' q : Option ν} {xs : List ν}
    (hs : h.Segment p xs q) (hnd : xs.Nodup) (hnext : ∀ x ∈ xs, h'.next x = h.next x)
    (hprev : ∀ x ∈ xs, xs.head? ≠ some x → h'.prev x = h.prev x)
    (hfirst : ∀ x, xs.head? = some x → h'.prev x = p') : h'.Segment p' xs q := by
  cases xs with
  | nil => trivial
  | cons x xs =>
      have hx : x ∉ xs := (List.nodup_cons.1 hnd).1
      refine ⟨hfirst x rfl, ?_, hs.2.2.congr ?_ ?_⟩
      · rw [hnext x List.mem_cons_self]
        exact hs.2.1
      · intro y hy
        refine hprev y (List.mem_cons_of_mem x hy) fun heq => hx ?_
        rw [List.head?_cons, Option.some.injEq] at heq
        rwa [heq]
      · exact fun y hy => hnext y (List.mem_cons_of_mem x hy)

/-! ## Lists and families -/

section Families

variable {h : ListHeap ν ι} {live live' : ι → Prop} {L : ι → List ν}

/-- A list only depends on its own head and on the link fields of its nodes. -/
theorem Represents.congr {h h' : ListHeap ν ι} {i : ι} {xs : List ν} (hr : h.Represents i xs)
    (hfirst : h'.first i = h.first i) (hlast : h'.last i = h.last i)
    (hprev : ∀ x ∈ xs, h'.prev x = h.prev x) (hnext : ∀ x ∈ xs, h'.next x = h.next x) :
    h'.Represents i xs :=
  ⟨hfirst.trans hr.first, hlast.trans hr.last, hr.chain.congr hprev hnext, hr.nodup⟩

/-- The first node of a live head is in its sequence. -/
theorem Family.mem_head (hF : h.Family live L) {i : ι} (hi : live i) {x : ν}
    (hx : h.first i = some x) : x ∈ L i :=
  List.mem_of_mem_head? (by rw [← (hF.represents i hi).first, hx]; rfl)

theorem Family.nodup (hF : h.Family live L) {i : ι} (hi : live i) : (L i).Nodup :=
  (hF.represents i hi).nodup

/-- The sequences of a family are apart. -/
theorem Family.separate (hF : h.Family live L) : Separate live L :=
  ⟨fun _ hi => hF.nodup hi, hF.disjoint⟩

/-- Fewer live heads still form a family. -/
theorem Family.mono (hF : h.Family live L) (hlive : ∀ i, live' i → live i) : h.Family live' L :=
  ⟨fun i hi => hF.represents i (hlive i hi),
    fun i j hi hj => hF.disjoint i j (hlive i hi) (hlive j hj)⟩

/-- A family only depends on the sequences of its live heads. -/
theorem Family.congr {L' : ι → List ν} (hF : h.Family live L) (hL : ∀ i, live i → L' i = L i) :
    h.Family live L' where
  represents := fun i hi => (hL i hi).symm ▸ hF.represents i hi
  disjoint := by
    intro i j hi hj x hxi hxj
    rw [hL i hi] at hxi
    rw [hL j hj] at hxj
    exact hF.disjoint i j hi hj x hxi hxj

end Families

/-! ## Reaching the nodes from a head -/

/-- The nodes met from `x` along the successor fields, at most `n` of them. -/
def walk (next : ν → Option ν) : Nat → Option ν → List ν
  | 0, _ => []
  | _ + 1, none => []
  | n + 1, some x => x :: walk next n (next x)

/-- The nodes of head `i`, read off the heap; `n` bounds the number of steps. -/
def nodes (h : ListHeap ν ι) (n : Nat) (i : ι) : List ν := walk h.next n (h.first i)

/-- Following the successors from the first node visits the nodes of a segment in order. -/
theorem Segment.walk_eq {h : ListHeap ν ι} {p : Option ν} {xs : List ν}
    (hs : h.Segment p xs none) : ∀ {n : Nat}, xs.length ≤ n → walk h.next n xs.head? = xs := by
  induction xs generalizing p with
  | nil =>
      intro n _
      cases n <;> rfl
  | cons x xs ih =>
      intro n hn
      obtain ⟨-, hnext, hrest⟩ := hs
      rw [Option.or_none] at hnext
      cases n with
      | zero => simp at hn
      | succ n =>
          rw [List.head?_cons, walk, hnext, ih hrest (by simpa using hn)]

/-- The nodes found from a head are the sequence that it represents. -/
theorem Represents.nodes_eq {h : ListHeap ν ι} {i : ι} {xs : List ν} (hr : h.Represents i xs)
    {n : Nat} (hn : xs.length ≤ n) : h.nodes n i = xs := by
  rw [nodes, hr.first, hr.chain.walk_eq hn]

/-! ## The pointer operations -/

section Heads

variable [DecidableEq ι]

/-- Reset head `i` to the empty list. -/
def initHead (h : ListHeap ν ι) (i : ι) : ListHeap ν ι :=
  { h with
    first := Function.update h.first i none
    last := Function.update h.last i none
    size := Function.update h.size i 0 }

@[simp] theorem initHead_size (h : ListHeap ν ι) (i : ι) :
    (h.initHead i).size = Function.update h.size i 0 := rfl

@[simp] theorem initHead_prev (h : ListHeap ν ι) (i : ι) : (h.initHead i).prev = h.prev := rfl

@[simp] theorem initHead_next (h : ListHeap ν ι) (i : ι) : (h.initHead i).next = h.next := rfl

/-- A reset head is live again, with the empty sequence. -/
theorem Family.initHead {h : ListHeap ν ι} {live live' : ι → Prop} {L : ι → List ν}
    (hF : h.Family live L) (i : ι) (hlive : ∀ j, live' j → j = i ∨ live j) :
    (h.initHead i).Family live' (Function.update L i []) where
  represents := by
    intro j hj
    by_cases hij : j = i
    · subst hij
      rw [Function.update_self]
      exact ⟨Function.update_self .., Function.update_self .., trivial, List.nodup_nil⟩
    · rw [Function.update_of_ne hij]
      exact (hF.represents j ((hlive j hj).resolve_left hij)).congr
        (Function.update_of_ne hij ..) (Function.update_of_ne hij ..)
        (fun _ _ => rfl) fun _ _ => rfl
  disjoint := by
    intro j k hj hk x hxj hxk
    by_cases hij : j = i
    · rw [hij, Function.update_self] at hxj
      exact absurd hxj List.not_mem_nil
    · by_cases hik : k = i
      · rw [hik, Function.update_self] at hxk
        exact absurd hxk List.not_mem_nil
      · rw [Function.update_of_ne hij] at hxj
        rw [Function.update_of_ne hik] at hxk
        exact hF.disjoint j k ((hlive j hj).resolve_left hij) ((hlive k hk).resolve_left hik)
          x hxj hxk

end Heads

section Items

variable [DecidableEq ν]

/-- Reset the link fields of `x`. -/
def clearItem (h : ListHeap ν ι) (x : ν) : ListHeap ν ι :=
  { h with prev := Function.update h.prev x none, next := Function.update h.next x none }

@[simp] theorem clearItem_size (h : ListHeap ν ι) (x : ν) : (h.clearItem x).size = h.size := rfl

@[simp] theorem clearItem_first (h : ListHeap ν ι) (x : ν) : (h.clearItem x).first = h.first := rfl

@[simp] theorem clearItem_last (h : ListHeap ν ι) (x : ν) : (h.clearItem x).last = h.last := rfl

/-- A node with cleared links is unlinked. -/
theorem clearItem_unlinked (h : ListHeap ν ι) (x : ν) : (h.clearItem x).Unlinked x := by
  simp [clearItem, Unlinked]

/-- Clearing the links of a node outside the lists disturbs no list. -/
theorem Family.clearItem {h : ListHeap ν ι} {live : ι → Prop} {L : ι → List ν}
    (hF : h.Family live L) {x : ν} (hx : Unlisted live L x) : (h.clearItem x).Family live L where
  represents := by
    intro i hi
    have hne : ∀ y ∈ L i, y ≠ x := fun y hy heq => hx i hi (heq ▸ hy)
    exact (hF.represents i hi).congr rfl rfl
      (fun y hy => Function.update_of_ne (hne y hy) ..)
      fun y hy => Function.update_of_ne (hne y hy) ..
  disjoint := hF.disjoint

theorem Tidy.clearItem {h : ListHeap ν ι} {live : ι → Prop} {L : ι → List ν}
    (hT : h.Tidy live L) (x : ν) : (h.clearItem x).Tidy live L := by
  intro y hy
  by_cases hyx : y = x
  · subst hyx
    exact clearItem_unlinked h y
  · have := hT y hy
    simpa [Unlinked, ListHeap.clearItem, hyx] using this

end Items

section Operations

variable [DecidableEq ν] [DecidableEq ι]

/-- Link `x` under head `i` between the neighbours `p` and `q`. -/
def splice (h : ListHeap ν ι) (i : ι) (p : Option ν) (x : ν) (q : Option ν) : ListHeap ν ι where
  prev := fun y => if y = x then p else if q = some y then some x else h.prev y
  next := fun y => if y = x then q else if p = some y then some x else h.next y
  first := if p = none then Function.update h.first i (some x) else h.first
  last := if q = none then Function.update h.last i (some x) else h.last
  size := Function.update h.size i (h.size i + 1)

/-- Take `x` out from between its neighbours under head `i`. -/
def unlink (h : ListHeap ν ι) (i : ι) (x : ν) : ListHeap ν ι where
  prev := fun y => if y = x then none else if h.next x = some y then h.prev x else h.prev y
  next := fun y => if y = x then none else if h.prev x = some y then h.next x else h.next y
  first := if h.first i = some x then Function.update h.first i (h.next x) else h.first
  last := if h.last i = some x then Function.update h.last i (h.prev x) else h.last
  size := Function.update h.size i (h.size i - 1)

@[simp] theorem splice_size (h : ListHeap ν ι) (i : ι) (p : Option ν) (x : ν) (q : Option ν) :
    (h.splice i p x q).size = Function.update h.size i (h.size i + 1) := rfl

@[simp] theorem unlink_size (h : ListHeap ν ι) (i : ι) (x : ν) :
    (h.unlink i x).size = Function.update h.size i (h.size i - 1) := rfl

/-- A node that has been taken out is unlinked. -/
theorem unlink_unlinked (h : ListHeap ν ι) (i : ι) (x : ν) : (h.unlink i x).Unlinked x := by
  simp [unlink, Unlinked]

/-! ## One list -/

omit [DecidableEq ν] in
/-- The two parts of a sequence without repetitions share no node, and a new node is in neither. -/
theorem parts_apart {as bs : List ν} {x : ν} (hnd : (as ++ bs).Nodup) (hx : x ∉ as ++ bs) :
    (∀ y ∈ as, y ≠ x) ∧ (∀ y ∈ bs, y ≠ x) ∧ ∀ y ∈ as, y ∉ bs := by
  rw [List.mem_append, not_or] at hx
  refine ⟨fun y hy => ne_of_mem_of_not_mem hy hx.1, fun y hy => ne_of_mem_of_not_mem hy hx.2, ?_⟩
  intro y hy hy'
  exact List.disjoint_of_nodup_append hnd hy hy'

/-- A new node goes between the two parts of a sequence. -/
theorem Represents.splice {h : ListHeap ν ι} {i : ι} {as bs : List ν} {x : ν}
    (hr : h.Represents i (as ++ bs)) (hx : x ∉ as ++ bs) :
    (h.splice i as.getLast? x bs.head?).Represents i (as ++ x :: bs) := by
  obtain ⟨hfirst, hlast, hchain, hnd⟩ := hr
  rw [segment_append] at hchain
  obtain ⟨hxa, hxb, hab⟩ := parts_apart hnd hx
  constructor
  · rcases List.eq_nil_or_concat as with rfl | ⟨as, a, rfl⟩
    · simp [ListHeap.splice]
    · simpa [ListHeap.splice] using hfirst
  · cases bs with
    | nil => simp [ListHeap.splice]
    | cons b bs => simpa [ListHeap.splice] using hlast
  · rw [segment_append]
    refine ⟨?_, ?_, ?_, ?_⟩
    -- `as` now ends in a link to `x`
    · apply hchain.1.retarget_last (List.Nodup.of_append_left hnd)
      · intro y hy
        have hnb : bs.head? ≠ some y := fun heq => hab y hy (List.mem_of_mem_head? heq)
        simp [ListHeap.splice, hxa y hy, hnb]
      · intro y hy hnl
        simp [ListHeap.splice, hxa y hy, hnl]
      · intro y hy
        simp [ListHeap.splice, hxa y (List.mem_of_mem_getLast? hy), hy]
    · simp [ListHeap.splice]
    · simp [ListHeap.splice]
    -- `bs` now starts with a link back to `x`
    · apply hchain.2.retarget_first (List.Nodup.of_append_right hnd)
      · intro y hy
        have hna : as.getLast? ≠ some y := fun heq => hab y (List.mem_of_mem_getLast? heq) hy
        simp [ListHeap.splice, hxb y hy, hna]
      · intro y hy hnf
        simp [ListHeap.splice, hxb y hy, hnf]
      · intro y hy
        simp [ListHeap.splice, hxb y (List.mem_of_mem_head? hy), hy]
  · have hperm : (as ++ x :: bs).Perm (x :: (as ++ bs)) := List.perm_middle
    rw [hperm.nodup_iff, List.nodup_cons]
    exact ⟨hx, hnd⟩

/-- A node between two parts of a sequence is taken out. -/
theorem Represents.unlink {h : ListHeap ν ι} {i : ι} {as bs : List ν} {x : ν}
    (hr : h.Represents i (as ++ x :: bs)) : (h.unlink i x).Represents i (as ++ bs) := by
  obtain ⟨hfirst, hlast, hchain, hnd⟩ := hr
  rw [segment_append, segment_cons] at hchain
  obtain ⟨ha, hprev, hnext, hb⟩ := hchain
  simp only [Option.or_none] at hprev hnext
  have hperm : (as ++ x :: bs).Perm (x :: (as ++ bs)) := List.perm_middle
  have hnd' := hnd
  rw [hperm.nodup_iff, List.nodup_cons] at hnd
  obtain ⟨hx, hnd⟩ := hnd
  obtain ⟨hxa, hxb, hab⟩ := parts_apart hnd hx
  refine ⟨?_, ?_, ?_, hnd⟩
  · cases as with
    | nil => simp_all [ListHeap.unlink]
    | cons a as =>
        have hne : a ≠ x := hxa a List.mem_cons_self
        simp_all [ListHeap.unlink]
  · rcases List.eq_nil_or_concat bs with rfl | ⟨bs, b, rfl⟩
    · simp_all [ListHeap.unlink]
    · have hne : b ≠ x := hxb b (by simp)
      have hl : h.last i = some b := by
        rw [hlast, List.concat_eq_append, ← List.cons_append, ← List.append_assoc]
        exact List.getLast?_concat
      simp [ListHeap.unlink, hl, hne]
  · rw [segment_append]
    constructor
    -- the last node of `as` takes over the successor of `x`
    · apply ha.retarget_last (List.Nodup.of_append_left hnd)
      · intro y hy
        have hnb : bs.head? ≠ some y := fun heq => hab y hy (List.mem_of_mem_head? heq)
        simp [ListHeap.unlink, hxa y hy, hnext, hnb]
      · intro y hy hnl
        simp [ListHeap.unlink, hxa y hy, hprev, hnl]
      · intro y hy
        simp [ListHeap.unlink, hxa y (List.mem_of_mem_getLast? hy), hprev, hy, hnext]
    -- and the first node of `bs` its predecessor
    · apply hb.retarget_first (List.Nodup.of_append_right hnd)
      · intro y hy
        have hna : as.getLast? ≠ some y := fun heq => hab y (List.mem_of_mem_getLast? heq) hy
        simp [ListHeap.unlink, hxb y hy, hprev, hna]
      · intro y hy hnf
        simp [ListHeap.unlink, hxb y hy, hnext, hnf]
      · intro y hy
        simp [ListHeap.unlink, hxb y (List.mem_of_mem_head? hy), hnext, hy, hprev]

/-! ## The operations on a family -/

variable {h : ListHeap ν ι} {live : ι → Prop} {L : ι → List ν}

/-- Linking a node of no list into the list of head `i`. -/
theorem Family.splice (hF : h.Family live L) {i : ι} (hi : live i) {as bs : List ν} {x : ν}
    (hsplit : L i = as ++ bs) (hx : Unlisted live L x) :
    (h.splice i as.getLast? x bs.head?).Family live (Function.update L i (as ++ x :: bs)) where
  represents := by
    intro j hj
    by_cases hij : j = i
    · subst hij
      rw [Function.update_self]
      apply Represents.splice
      · rw [← hsplit]
        exact hF.represents j hj
      · rw [← hsplit]
        exact hx j hj
    · rw [Function.update_of_ne hij]
      -- another list holds neither `x` nor a neighbour of `x`
      have hxj : ∀ y ∈ L j, y ≠ x := fun y hy heq => hx j hj (heq ▸ hy)
      have hout : ∀ y ∈ L j, y ∉ as ++ bs := by
        intro y hy hy'
        rw [← hsplit] at hy'
        exact hij (hF.disjoint j i hj hi y hy hy')
      apply (hF.represents j hj).congr
      · simp only [ListHeap.splice]
        split
        · exact Function.update_of_ne hij _ _
        · rfl
      · simp only [ListHeap.splice]
        split
        · exact Function.update_of_ne hij _ _
        · rfl
      · intro y hy
        have hnb : bs.head? ≠ some y := fun heq =>
          hout y hy (List.mem_append_right _ (List.mem_of_mem_head? heq))
        simp [ListHeap.splice, hxj y hy, hnb]
      · intro y hy
        have hna : as.getLast? ≠ some y := fun heq =>
          hout y hy (List.mem_append_left _ (List.mem_of_mem_getLast? heq))
        simp [ListHeap.splice, hxj y hy, hna]
  disjoint := by
    have hmem : ∀ j y, y ∈ Function.update L i (as ++ x :: bs) j →
        y ∈ L j ∨ (y = x ∧ j = i) := by
      intro j y hy
      by_cases hij : j = i
      · subst hij
        rw [Function.update_self] at hy
        rw [hsplit]
        simp only [List.mem_append, List.mem_cons] at hy ⊢
        tauto
      · rw [Function.update_of_ne hij] at hy
        exact Or.inl hy
    intro j k hj hk y hyj hyk
    -- two lists may only meet in `x`, and `x` was in none
    rcases hmem j y hyj with h1 | ⟨rfl, rfl⟩ <;> rcases hmem k y hyk with h2 | ⟨h2, rfl⟩
    · exact hF.disjoint j k hj hk y h1 h2
    · exact absurd (h2 ▸ h1) (hx j hj)
    · exact absurd h2 (hx k hk)
    · rfl

/-- Taking a node out of the list of head `i`. -/
theorem Family.unlink (hF : h.Family live L) {i : ι} (hi : live i) {x : ν} (hx : x ∈ L i) :
    (h.unlink i x).Family live (Function.update L i ((L i).erase x)) where
  represents := by
    obtain ⟨as, bs, hxa, hsplit, herase⟩ := List.exists_erase_eq hx
    have hxr := hF.represents i hi
    rw [hsplit] at hxr
    obtain ⟨hprev, hnext, -⟩ := (segment_append.1 hxr.chain).2
    simp only [Option.or_none] at hprev hnext
    intro j hj
    by_cases hij : j = i
    · subst hij
      rw [Function.update_self, herase]
      exact hxr.unlink
    · rw [Function.update_of_ne hij]
      -- the node and its neighbours are on no other list
      have hout : ∀ y ∈ L j, y ∉ as ++ x :: bs := by
        intro y hy hy'
        rw [← hsplit] at hy'
        exact hij (hF.disjoint j i hj hi y hy hy')
      have hxj : ∀ y ∈ L j, y ≠ x := fun y hy heq => hout y hy (by simp [heq])
      apply (hF.represents j hj).congr
      · simp only [ListHeap.unlink]
        split
        · exact Function.update_of_ne hij _ _
        · rfl
      · simp only [ListHeap.unlink]
        split
        · exact Function.update_of_ne hij _ _
        · rfl
      · intro y hy
        have hnb : bs.head? ≠ some y := fun heq =>
          hout y hy (by simp [List.mem_of_mem_head? heq])
        simp [ListHeap.unlink, hxj y hy, hnext, hnb]
      · intro y hy
        have hna : as.getLast? ≠ some y := fun heq =>
          hout y hy (by simp [List.mem_of_mem_getLast? heq])
        simp [ListHeap.unlink, hxj y hy, hprev, hna]
  disjoint := by
    have hmem : ∀ j y, y ∈ Function.update L i ((L i).erase x) j → y ∈ L j := by
      intro j y hy
      by_cases hij : j = i
      · subst hij
        rw [Function.update_self] at hy
        exact List.mem_of_mem_erase hy
      · rwa [Function.update_of_ne hij] at hy
    exact fun j k hj hk y hyj hyk => hF.disjoint j k hj hk y (hmem j y hyj) (hmem k y hyk)

omit [DecidableEq ν] [DecidableEq ι] in
/-- A node stays unlisted when the sequences only lose nodes. -/
theorem Unlisted.congr {L' : ι → List ν} {x : ν} (hx : Unlisted live L x)
    (hL : ∀ i, live i → ∀ y ∈ L' i, y ∈ L i) : Unlisted live L' x :=
  fun i hi hmem => hx i hi (hL i hi x hmem)

/-- A node that was taken out of its list is in no list. -/
theorem Family.unlisted_erase (hF : h.Family live L) {i : ι} (hi : live i) {x : ν}
    (hx : x ∈ L i) : Unlisted live (Function.update L i ((L i).erase x)) x := by
  intro j hj hmem
  by_cases hij : j = i
  · subst hij
    rw [Function.update_self] at hmem
    exact (hF.nodup hj).not_mem_erase hmem
  · rw [Function.update_of_ne hij] at hmem
    exact hij (hF.disjoint j i hj hi x hmem hx)

/-- Taking out a node which no list holds and whose links are null only changes a counter. -/
theorem Family.unlink_of_unlinked (hF : h.Family live L) {i : ι} (hi : live i) {x : ν}
    (hx : x ∉ L i) (hnull : h.Unlinked x) : (h.unlink i x).Family live L where
  represents := by
    intro j hj
    have hfirst : h.first i ≠ some x := fun heq => hx (hF.mem_head hi heq)
    have hlast : h.last i ≠ some x := fun heq =>
      hx (List.mem_of_mem_getLast? (by rw [← (hF.represents i hi).last, heq]; rfl))
    have hjx : ∀ y ∈ L j, y = x → h.prev y = none ∧ h.next y = none := by
      rintro y - rfl
      exact hnull
    apply (hF.represents j hj).congr
    · simp [ListHeap.unlink, hfirst]
    · simp [ListHeap.unlink, hlast]
    · intro y hy
      simp only [ListHeap.unlink, hnull.2, reduceCtorEq, if_false]
      split
      · exact (hjx y hy ‹_›).1.symm
      · rfl
    · intro y hy
      simp only [ListHeap.unlink, hnull.1, reduceCtorEq, if_false]
      split
      · exact (hjx y hy ‹_›).2.symm
      · rfl
  disjoint := hF.disjoint

theorem Tidy.splice (hT : h.Tidy live L) {i : ι} (hi : live i) {as bs : List ν} {x : ν}
    (hsplit : L i = as ++ bs) :
    (h.splice i as.getLast? x bs.head?).Tidy live (Function.update L i (as ++ x :: bs)) := by
  intro y hy
  have hyi := hy i hi
  rw [Function.update_self] at hyi
  simp only [List.mem_append, List.mem_cons, not_or] at hyi
  have hnull : h.Unlinked y := by
    apply hT y
    intro j hj hyj
    by_cases hij : j = i
    · subst hij
      rw [hsplit, List.mem_append] at hyj
      exact hyj.elim hyi.1 hyi.2.2
    · apply hy j hj
      rwa [Function.update_of_ne hij]
  have hnb : bs.head? ≠ some y := fun heq => hyi.2.2 (List.mem_of_mem_head? heq)
  have hna : as.getLast? ≠ some y := fun heq => hyi.1 (List.mem_of_mem_getLast? heq)
  simpa [Unlinked, ListHeap.splice, hyi.2.1, hnb, hna] using hnull

/-- Appending a node, the most frequent use of `splice`. -/
theorem Tidy.append (hT : h.Tidy live L) {i : ι} (hi : live i) {x : ν} :
    (h.splice i (L i).getLast? x none).Tidy live (Function.update L i (L i ++ [x])) := by
  have hsplit : L i = L i ++ [] := (List.append_nil _).symm
  exact hT.splice hi hsplit

/-- A node that is taken out has null links, as every node outside the lists. -/
theorem Tidy.unlink (hT : h.Tidy live L) (hF : h.Family live L) {i : ι} (hi : live i) {x : ν}
    (hx : x ∈ L i) : (h.unlink i x).Tidy live (Function.update L i ((L i).erase x)) := by
  intro y hy
  by_cases hyx : y = x
  · subst hyx
    exact unlink_unlinked h i y
  · have hout : ∀ j, live j → y ∉ L j := by
      intro j hj hyj
      apply hy j hj
      by_cases hij : j = i
      · subst hij
        rw [Function.update_self]
        exact (List.mem_erase_of_ne hyx).2 hyj
      · rwa [Function.update_of_ne hij]
    obtain ⟨as, bs, hsplit⟩ := List.append_of_mem hx
    have hxr := hF.represents i hi
    rw [hsplit] at hxr
    obtain ⟨hprev, hnext, -⟩ := (segment_append.1 hxr.chain).2
    simp only [Option.or_none] at hprev hnext
    have hyi := hout i hi
    rw [hsplit] at hyi
    have hnb : bs.head? ≠ some y := fun heq => hyi (by simp [List.mem_of_mem_head? heq])
    have hna : as.getLast? ≠ some y := fun heq => hyi (by simp [List.mem_of_mem_getLast? heq])
    simpa [Unlinked, ListHeap.unlink, hyx, hprev, hnext, hna, hnb] using hT y hout

theorem Tidy.unlink_of_unlinked (hT : h.Tidy live L) {i : ι} {x : ν} (hnull : h.Unlinked x) :
    (h.unlink i x).Tidy live L := by
  intro y hy
  have := hT y hy
  by_cases hyx : y = x
  · subst hyx
    exact unlink_unlinked h i y
  · simpa [Unlinked, ListHeap.unlink, hyx, hnull.1, hnull.2] using this

/-! ## The operations on a counted family -/

variable {counted : ι → Prop}

/-- Splicing a new node into one of the lists keeps all of them well formed and counts it. -/
theorem WellFormed.splice (hW : h.WellFormed live counted L) {i : ι} (hi : live i)
    {as bs : List ν} {x : ν} (hsplit : L i = as ++ bs) (hx : Unlisted live L x) :
    (h.splice i as.getLast? x bs.head?).WellFormed live counted
      (Function.update L i (as ++ x :: bs)) where
  toFamily := hW.toFamily.splice hi hsplit hx
  count := by
    intro j hj
    have hcount := hW.count j hj
    by_cases hij : j = i
    · subst hij
      rw [hsplit, List.length_append] at hcount
      simp only [splice_size, Function.update_self, List.length_append, List.length_cons]
      omega
    · simpa only [splice_size, Function.update_of_ne hij] using hcount

/-- Appending a node, the most frequent use of `splice`. -/
theorem WellFormed.append (hW : h.WellFormed live counted L) {i : ι} (hi : live i) {x : ν}
    (hx : Unlisted live L x) :
    (h.splice i (L i).getLast? x none).WellFormed live counted
      (Function.update L i (L i ++ [x])) := by
  have hsplit : L i = L i ++ [] := (List.append_nil _).symm
  exact hW.splice hi hsplit hx

/-- Taking a node out of one of the lists keeps all of them well formed and counts it. -/
theorem WellFormed.unlink (hW : h.WellFormed live counted L) {i : ι} (hi : live i) {x : ν}
    (hx : x ∈ L i) :
    (h.unlink i x).WellFormed live counted (Function.update L i ((L i).erase x)) where
  toFamily := hW.toFamily.unlink hi hx
  count := by
    intro j hj
    have hcount := hW.count j hj
    by_cases hij : j = i
    · subst hij
      have hpos := List.length_pos_of_mem hx
      simp only [unlink_size, Function.update_self, List.length_erase_of_mem hx]
      omega
    · simpa only [unlink_size, Function.update_of_ne hij] using hcount

/-- Taking out the first node. -/
theorem WellFormed.unlink_head (hW : h.WellFormed live counted L) {i : ι} (hi : live i) {x : ν}
    {xs : List ν} (hsplit : L i = x :: xs) :
    (h.unlink i x).WellFormed live counted (Function.update L i xs) := by
  have hunlink := hW.unlink hi (x := x) (by rw [hsplit]; exact List.mem_cons_self)
  rwa [hsplit, List.erase_cons_head] at hunlink

theorem Tidy.unlink_head (hT : h.Tidy live L) (hF : h.Family live L) {i : ι} (hi : live i)
    {x : ν} {xs : List ν} (hsplit : L i = x :: xs) :
    (h.unlink i x).Tidy live (Function.update L i xs) := by
  have hunlink := hT.unlink hF hi (x := x) (by rw [hsplit]; exact List.mem_cons_self)
  rwa [hsplit, List.erase_cons_head] at hunlink

/-- Taking out a free-standing node spoils the counter of its head only. -/
theorem WellFormed.unlink_of_unlinked (hW : h.WellFormed live counted L) {i : ι} (hi : live i)
    (hcounted : ¬ counted i) {x : ν} (hx : x ∉ L i) (hnull : h.Unlinked x) :
    (h.unlink i x).WellFormed live counted L where
  toFamily := hW.toFamily.unlink_of_unlinked hi hx hnull
  count := by
    intro j hj
    have hij : j ≠ i := fun heq => hcounted (heq ▸ hj)
    simpa only [unlink_size, Function.update_of_ne hij] using hW.count j hj

omit [DecidableEq ν] [DecidableEq ι] in
/-- Fewer heads, with the same sequences. -/
theorem WellFormed.restrict (live' counted' : ι → Prop) {L' : ι → List ν}
    (hW : h.WellFormed live counted L) (hlive : ∀ i, live' i → live i)
    (hcounted : ∀ i, counted' i → counted i) (hL : ∀ i, live' i ∨ counted' i → L' i = L i) :
    h.WellFormed live' counted' L' where
  toFamily := (hW.toFamily.mono hlive).congr fun i hi => hL i (Or.inl hi)
  count := fun i hi => by rw [hL i (Or.inr hi)]; exact hW.count i (hcounted i hi)

omit [DecidableEq ι] in
theorem WellFormed.clearItem (hW : h.WellFormed live counted L) {x : ν}
    (hx : Unlisted live L x) : (h.clearItem x).WellFormed live counted L :=
  ⟨hW.toFamily.clearItem hx, hW.count⟩

omit [DecidableEq ν] in
/-- A head that is set up carries the empty sequence from then on. -/
theorem WellFormed.initHead {live' counted' : ι → Prop} (hW : h.WellFormed live counted L)
    (i : ι) (hlive : ∀ j, live' j → j = i ∨ live j)
    (hcounted : ∀ j, counted' j → j = i ∨ counted j) :
    (h.initHead i).WellFormed live' counted' (Function.update L i []) where
  toFamily := hW.toFamily.initHead i hlive
  count := by
    intro j hj
    by_cases hij : j = i
    · subst hij
      simp
    · simpa only [initHead_size, Function.update_of_ne hij] using
        hW.count j ((hcounted j hj).resolve_left hij)

/-! ## Undoing an insertion, and what the operations leave alone -/

omit [DecidableEq ι] in
/-- The sequence `xs` with `x` placed behind `prev`, or in front if `prev` is null. -/
def insertAfter (prev : Option ν) (x : ν) (xs : List ν) : List ν :=
  match prev, xs with
  | none, xs => x :: xs
  | some _, [] => []
  | some p, y :: ys => if y = p then y :: x :: ys else y :: insertAfter (some p) x ys

omit [DecidableEq ι] in
/-- Insertion behind a member splits the sequence there. -/
theorem insertAfter_split {prev : Option ν} {xs : List ν} (x : ν) (hprev : ∀ p ∈ prev, p ∈ xs) :
    ∃ as bs, xs = as ++ bs ∧ as.getLast? = prev ∧ insertAfter prev x xs = as ++ x :: bs := by
  cases prev with
  | none => exact ⟨[], xs, rfl, rfl, by rw [insertAfter, List.nil_append]⟩
  | some p =>
      have hp := hprev p rfl
      induction xs with
      | nil => exact absurd hp List.not_mem_nil
      | cons y ys ih =>
          by_cases hy : y = p
          · exact ⟨[y], ys, rfl, by rw [hy]; rfl, by rw [insertAfter, if_pos hy]; rfl⟩
          · have hp' : p ∈ ys := (List.mem_cons.1 hp).resolve_left fun heq => hy heq.symm
            obtain ⟨as, bs, hsplit, hlast, hinsert⟩ := ih (fun q hq => by
              obtain rfl : p = q := Option.some.inj hq
              exact hp') hp'
            refine ⟨y :: as, bs, by rw [hsplit, List.cons_append], ?_, ?_⟩
            · rw [List.getLast?_cons, hlast]
              rfl
            · rw [insertAfter, if_neg hy, hinsert, List.cons_append]

/-- Taking out a node right after it was linked restores the heap. -/
theorem Represents.unlink_splice {i : ι} {as bs : List ν} {x : ν}
    (hr : h.Represents i (as ++ bs)) (hx : x ∉ as ++ bs) (hnull : h.Unlinked x) :
    (h.splice i as.getLast? x bs.head?).unlink i x = h := by
  obtain ⟨hfirst, hlast, hchain, -⟩ := hr
  obtain ⟨hprev, hnext⟩ := hnull
  rw [segment_append] at hchain
  rw [List.mem_append, not_or] at hx
  have hxa : as.getLast? ≠ some x := fun heq => hx.1 (List.mem_of_mem_getLast? heq)
  have hxb : bs.head? ≠ some x := fun heq => hx.2 (List.mem_of_mem_head? heq)
  refine ListHeap.ext (funext fun y => ?_) (funext fun y => ?_) ?_ ?_ ?_
  · simp only [ListHeap.unlink, ListHeap.splice, if_true]
    -- the link back of `x` and the one of its successor
    by_cases hy : y = x
    · rw [if_pos hy, hy, hprev]
    · rw [if_neg hy, if_neg hy]
      cases bs with
      | nil => rfl
      | cons b bs =>
          by_cases hb : b = y
          · subst hb
            simpa using hchain.2.1.symm
          · simp [hb]
  · simp only [ListHeap.unlink, ListHeap.splice, if_true]
    -- the link forward of `x` and the one of its predecessor
    by_cases hy : y = x
    · rw [if_pos hy, hy, hnext]
    · rw [if_neg hy, if_neg hy]
      rcases List.eq_nil_or_concat as with rfl | ⟨as, c, rfl⟩
      · rfl
      · rw [List.concat_eq_append] at hchain ⊢
        have hc := (segment_append.1 hchain.1).2.2.1
        by_cases hcy : c = y
        · subst hcy
          simpa using hc.symm
        · simp [hcy]
  · simp only [ListHeap.unlink, ListHeap.splice, if_true]
    -- the head of the list changes only if nothing stands before `x`
    cases as with
    | nil =>
        rw [List.nil_append] at hfirst
        simp [← hfirst]
    | cons c as =>
        have hne : h.first i ≠ some x := by
          rw [hfirst]
          exact fun heq => hx.1 (Option.some.inj heq ▸ List.mem_cons_self)
        have hsome : (c :: as).getLast? ≠ none := by simp
        rw [if_neg hsome, if_neg hne]
  · simp only [ListHeap.unlink, ListHeap.splice, if_true]
    -- its end only if nothing stands behind `x`
    cases bs with
    | nil =>
        rw [List.append_nil] at hlast
        simp [← hlast]
    | cons b bs =>
        have hne : h.last i ≠ some x := by
          rw [hlast]
          exact fun heq => (List.mem_append.1 (List.mem_of_mem_getLast? heq)).elim hx.1 hx.2
        rw [List.head?_cons, if_neg (Option.some_ne_none b), if_neg hne]
  · simp [ListHeap.unlink, ListHeap.splice]

omit [DecidableEq ν] [DecidableEq ι] in
/-- The heaps agree on all heads but `i` and on all nodes but `xs`. -/
structure SameOutside (h h' : ListHeap ν ι) (i : ι) (xs : List ν) : Prop where
  heads : ∀ j, j ≠ i → h'.first j = h.first j ∧ h'.last j = h.last j ∧ h'.size j = h.size j
  nodes : ∀ y, y ∉ xs → h'.prev y = h.prev y ∧ h'.next y = h.next y

/-- A splice writes only to the head, the new node and the nodes of its list. -/
theorem splice_sameOutside (h : ListHeap ν ι) (i : ι) (as bs : List ν) (x : ν) :
    h.SameOutside (h.splice i as.getLast? x bs.head?) i (x :: (as ++ bs)) := by
  refine ⟨fun j hj => ⟨?_, ?_, Function.update_of_ne hj ..⟩, fun y hy => ?_⟩
  · simp only [ListHeap.splice]
    split
    · exact Function.update_of_ne hj ..
    · rfl
  · simp only [ListHeap.splice]
    split
    · exact Function.update_of_ne hj ..
    · rfl
  · simp only [List.mem_cons, List.mem_append, not_or] at hy
    have hna : as.getLast? ≠ some y := fun heq => hy.2.1 (List.mem_of_mem_getLast? heq)
    have hnb : bs.head? ≠ some y := fun heq => hy.2.2 (List.mem_of_mem_head? heq)
    simp [ListHeap.splice, hy.1, hna, hnb]

/-- Taking a node out writes only to the head and the nodes of its list. -/
theorem Represents.unlink_sameOutside {i : ι} {xs : List ν} {x : ν} (hr : h.Represents i xs)
    (hx : x ∈ xs) : h.SameOutside (h.unlink i x) i xs := by
  obtain ⟨as, bs, rfl⟩ := List.append_of_mem hx
  obtain ⟨hprev, hnext, -⟩ := (segment_append.1 hr.chain).2
  simp only [Option.or_none] at hprev hnext
  refine ⟨fun j hj => ⟨?_, ?_, Function.update_of_ne hj ..⟩, fun y hy => ?_⟩
  · simp only [ListHeap.unlink]
    split
    · exact Function.update_of_ne hj ..
    · rfl
  · simp only [ListHeap.unlink]
    split
    · exact Function.update_of_ne hj ..
    · rfl
  · simp only [List.mem_append, List.mem_cons, not_or] at hy
    have hna : as.getLast? ≠ some y := fun heq => hy.1 (List.mem_of_mem_getLast? heq)
    have hnb : bs.head? ≠ some y := fun heq => hy.2.2 (List.mem_of_mem_head? heq)
    simp [ListHeap.unlink, hy.2.1, hprev, hnext, hna, hnb]

end Operations

end ListHeap

end LinkedSequence
