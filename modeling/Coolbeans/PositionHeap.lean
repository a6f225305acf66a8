import Mathlib.Data.List.Basic
import Mathlib.Data.List.Nodup

/-!
# Binary heaps that track positions

A binary heap kept in a slice, in the manner of Go's `container/heap`: the
sifts only compare and swap slots, and every swap also writes the new position
of the two swapped items into a field that the items carry.  The field lives
in a memory that the heap shares with the rest of the program, so this file
describes that memory by a lawful pair of a read and a write.

Every operation is a chain of swaps around an append or a truncation.
`Rearranged` says once what a chain of swaps can do; the order of the heap is
the subject of `PositionHeapOrder`.
-/

namespace PositionHeap

/-- A memory that holds one position for each item. -/
structure PositionStore (ι M : Type) [DecidableEq ι] where
  get : M → ι → Int
  set : M → ι → Int → M
  get_set : ∀ memory written position read,
    get (set memory written position) read =
      if read = written then position else get memory read

/-- A heap: its slots, and the memory that holds the positions. -/
structure HeapState (ι M : Type) where
  items : List ι
  mem : M

variable {ι M : Type} [DecidableEq ι] (store : PositionStore ι M)

/-- Compare the items of two slots. -/
def lessAt (less : ι → ι → Bool) (items : List ι) (i j : Nat) : Bool :=
  match items[i]?, items[j]? with
  | some a, some b => less a b
  | _, _ => false

/-- Swap two slots and write both new positions. -/
def swap (i j : Nat) (heap : HeapState ι M) : HeapState ι M :=
  match heap.items[i]?, heap.items[j]? with
  | some a, some b =>
      { items := (heap.items.set i b).set j a
        mem := store.set (store.set heap.mem b i) a j }
  | _, _ => heap

/-- Sift the item of slot `j` up.  The first argument bounds the rounds; the
slot number itself is enough. -/
def upLoop (less : ι → ι → Bool) : Nat → Nat → HeapState ι M → HeapState ι M
  | 0, _, heap => heap
  | rounds + 1, j, heap =>
      let i := (j - 1) / 2
      if i = j ∨ lessAt less heap.items j i = false then
        heap
      else
        upLoop less rounds i (swap store i j heap)

def up (less : ι → ι → Bool) (j : Nat) (heap : HeapState ι M) : HeapState ι M :=
  upLoop store less j j heap

/-- The smaller child of slot `i` among the first `n` slots, given that the
left child is one of them. -/
def smallerChild (less : ι → ι → Bool) (items : List ι) (i n : Nat) : Nat :=
  if 2 * i + 2 < n ∧ lessAt less items (2 * i + 2) (2 * i + 1) = true then
    2 * i + 2
  else
    2 * i + 1

/-- Sift the item of slot `i` down among the first `n` slots, and return the
slot where it stops. -/
def downLoop (less : ι → ι → Bool) (n : Nat) :
    Nat → Nat → HeapState ι M → HeapState ι M × Nat
  | 0, i, heap => (heap, i)
  | rounds + 1, i, heap =>
      if n ≤ 2 * i + 1 then
        (heap, i)
      else
        let j := smallerChild less heap.items i n
        if lessAt less heap.items j i = false then
          (heap, i)
        else
          downLoop less n rounds j (swap store i j heap)

def down (less : ι → ι → Bool) (i n : Nat) (heap : HeapState ι M) :
    HeapState ι M × Nat :=
  downLoop store less n n i heap

/-- Append an item at the end and write its position. -/
def append (item : ι) (heap : HeapState ι M) : HeapState ι M where
  items := heap.items ++ [item]
  mem := store.set heap.mem item heap.items.length

/-- Drop the last item and mark its position as outside. -/
def dropLast (heap : HeapState ι M) : HeapState ι M where
  items := heap.items.dropLast
  mem :=
    match heap.items.getLast? with
    | some item => store.set heap.mem item (-1)
    | none => heap.mem

/-- Insert an item. -/
def push (less : ι → ι → Bool) (item : ι) (heap : HeapState ι M) : HeapState ι M :=
  up store less heap.items.length (append store item heap)

/-- Remove the first item. -/
def pop (less : ι → ι → Bool) (heap : HeapState ι M) : HeapState ι M :=
  let last := heap.items.length - 1
  dropLast store (down store less 0 last (swap store 0 last heap)).1

/-- Sift the item of slot `i` among the first `n` slots to its place: down if
it moves down, else up. -/
def settle (less : ι → ι → Bool) (i n : Nat) (heap : HeapState ι M) : HeapState ι M :=
  let result := down store less i n heap
  if i < result.2 then result.1 else up store less i result.1

/-- Remove the item of slot `i`. -/
def remove (less : ι → ι → Bool) (i : Nat) (heap : HeapState ι M) : HeapState ι M :=
  let last := heap.items.length - 1
  if last = i then
    dropLast store heap
  else
    dropLast store (settle store less i last (swap store i last heap))

/-- Restore the order after the key of the item of slot `i` has changed. -/
def fix (less : ι → ι → Bool) (i : Nat) (heap : HeapState ι M) : HeapState ι M :=
  settle store less i heap.items.length heap

/-- Sift down the slots below `bound`, from the last to the first. -/
def initLoop (less : ι → ι → Bool) (n : Nat) : Nat → HeapState ι M → HeapState ι M
  | 0, heap => heap
  | bound + 1, heap => initLoop less n bound (down store less bound n heap).1

/-- Establish the order of a slice in any order. -/
def init (less : ι → ι → Bool) (heap : HeapState ι M) : HeapState ι M :=
  initLoop store less heap.items.length (heap.items.length / 2) heap

/-! ## Positions -/

/-- Every item of the heap carries the number of its slot. -/
def Tracked (heap : HeapState ι M) : Prop :=
  ∀ (i : Nat) (item : ι), heap.items[i]? = some item → store.get heap.mem item = i

theorem Tracked.slot_unique {heap : HeapState ι M} (tracked : Tracked store heap)
    {i j : Nat} {item : ι} (first : heap.items[i]? = some item)
    (second : heap.items[j]? = some item) : i = j := by
  have firstPosition := tracked i item first
  have secondPosition := tracked j item second
  omega

theorem Tracked.nodup {heap : HeapState ι M} (tracked : Tracked store heap) :
    heap.items.Nodup := by
  rw [List.nodup_iff_getElem?_ne_getElem?]
  intro i j before bound same
  obtain ⟨item, second⟩ : ∃ item, heap.items[j]? = some item :=
    ⟨heap.items[j], List.getElem?_eq_getElem bound⟩
  have := tracked.slot_unique store (same.trans second) second
  omega

/-- What a chain of swaps can do: permute the slots, keep the positions right,
and write nothing but positions of the heap's own items. -/
structure Rearranged (before after : HeapState ι M) : Prop where
  perm : after.items.Perm before.items
  tracked : Tracked store before → Tracked store after
  outside : ∀ item, item ∉ before.items →
    store.get after.mem item = store.get before.mem item
  frame : ∀ {β : Type} (view : M → β),
    (∀ memory item position, view (store.set memory item position) = view memory) →
      view after.mem = view before.mem

namespace Rearranged

variable {store} {first second third : HeapState ι M}

theorem refl (heap : HeapState ι M) : Rearranged store heap heap where
  perm := List.Perm.refl _
  tracked := id
  outside _ _ := rfl
  frame _ _ := rfl

theorem trans (before : Rearranged store first second)
    (after : Rearranged store second third) : Rearranged store first third where
  perm := after.perm.trans before.perm
  tracked := fun tracked => after.tracked (before.tracked tracked)
  outside item absent :=
    (after.outside item (fun member => absent (before.perm.mem_iff.mp member))).trans
      (before.outside item absent)
  frame view fixed := (after.frame view fixed).trans (before.frame view fixed)

theorem length_eq (rearranged : Rearranged store first second) :
    second.items.length = first.items.length :=
  rearranged.perm.length_eq

theorem mem_iff (rearranged : Rearranged store first second) {item : ι} :
    item ∈ second.items ↔ item ∈ first.items :=
  rearranged.perm.mem_iff

end Rearranged

theorem getElem?_swap {i j : Nat} {heap : HeapState ι M}
    (iBound : i < heap.items.length) (jBound : j < heap.items.length) (k : Nat) :
    (swap store i j heap).items[k]? =
      if k = j then heap.items[i]? else if k = i then heap.items[j]? else heap.items[k]? := by
  simp only [swap, List.getElem?_eq_getElem iBound, List.getElem?_eq_getElem jBound]
  by_cases atJ : k = j
  · subst k
    simp [jBound]
  by_cases atI : k = i
  · subst k
    rw [List.getElem?_set_ne (Ne.symm atJ)]
    simp [iBound, atJ]
  rw [List.getElem?_set_ne (Ne.symm atJ), List.getElem?_set_ne (Ne.symm atI)]
  simp [atI, atJ]

theorem swap_of_length_le {i j : Nat} {heap : HeapState ι M}
    (outside : heap.items.length ≤ i ∨ heap.items.length ≤ j) :
    swap store i j heap = heap := by
  rcases outside with bound | bound
  · simp [swap, List.getElem?_eq_none bound]
  · simp only [swap, List.getElem?_eq_none bound]
    split <;> simp_all

theorem rearranged_swap (i j : Nat) (heap : HeapState ι M) :
    Rearranged store heap (swap store i j heap) := by
  by_cases iBound : i < heap.items.length
  swap
  · rw [swap_of_length_le store (Or.inl (by omega))]
    exact .refl heap
  by_cases jBound : j < heap.items.length
  swap
  · rw [swap_of_length_le store (Or.inr (by omega))]
    exact .refl heap
  have unfolded : swap store i j heap =
      { items := (heap.items.set i heap.items[j]).set j heap.items[i]
        mem := store.set (store.set heap.mem heap.items[j] i) heap.items[i] j } := by
    simp [swap, iBound, jBound]
  refine ⟨?_, ?_, ?_, ?_⟩
  · rw [unfolded]
    exact List.set_set_perm iBound jBound
  · intro tracked k item occupied
    rw [getElem?_swap store iBound jBound] at occupied
    rw [unfolded]
    simp only [store.get_set]
    by_cases atJ : k = j
    · rw [if_pos atJ, List.getElem?_eq_getElem iBound] at occupied
      rw [if_pos (Option.some.inj occupied).symm, atJ]
    rw [if_neg atJ] at occupied
    by_cases atI : k = i
    · rw [if_pos atI, List.getElem?_eq_getElem jBound] at occupied
      have itemEq := Option.some.inj occupied
      have distinct : item ≠ heap.items[i] := by
        rintro rfl
        apply atJ
        rw [atI]
        exact tracked.slot_unique store (List.getElem?_eq_getElem iBound)
          (itemEq ▸ List.getElem?_eq_getElem jBound)
      rw [if_neg distinct, if_pos itemEq.symm, atI]
    rw [if_neg atI] at occupied
    have notI : item ≠ heap.items[i] := by
      rintro rfl
      exact atI (tracked.slot_unique store occupied (List.getElem?_eq_getElem iBound))
    have notJ : item ≠ heap.items[j] := by
      rintro rfl
      exact atJ (tracked.slot_unique store occupied (List.getElem?_eq_getElem jBound))
    rw [if_neg notI, if_neg notJ]
    exact tracked k item occupied
  · intro item absent
    rw [unfolded]
    simp only [store.get_set]
    have notI : item ≠ heap.items[i] := fun same => absent (same ▸ List.getElem_mem iBound)
    have notJ : item ≠ heap.items[j] := fun same => absent (same ▸ List.getElem_mem jBound)
    rw [if_neg notI, if_neg notJ]
  · intro β view fixed
    rw [unfolded]
    simp only [fixed]

theorem rearranged_upLoop (less : ι → ι → Bool) (rounds j : Nat) (heap : HeapState ι M) :
    Rearranged store heap (upLoop store less rounds j heap) := by
  induction rounds generalizing j heap with
  | zero => exact .refl heap
  | succ rounds ih =>
      simp only [upLoop]
      split
      · exact .refl heap
      · exact (rearranged_swap store _ _ heap).trans (ih _ _)

theorem rearranged_up (less : ι → ι → Bool) (j : Nat) (heap : HeapState ι M) :
    Rearranged store heap (up store less j heap) :=
  rearranged_upLoop store less j j heap

theorem rearranged_downLoop (less : ι → ι → Bool) (n rounds i : Nat)
    (heap : HeapState ι M) :
    Rearranged store heap (downLoop store less n rounds i heap).1 := by
  induction rounds generalizing i heap with
  | zero => exact .refl heap
  | succ rounds ih =>
      simp only [downLoop]
      split
      · exact .refl heap
      split
      · exact .refl heap
      · exact (rearranged_swap store _ _ heap).trans (ih _ _)

theorem rearranged_down (less : ι → ι → Bool) (i n : Nat) (heap : HeapState ι M) :
    Rearranged store heap (down store less i n heap).1 :=
  rearranged_downLoop store less n n i heap

theorem rearranged_settle (less : ι → ι → Bool) (i n : Nat) (heap : HeapState ι M) :
    Rearranged store heap (settle store less i n heap) := by
  simp only [settle]
  split
  · exact rearranged_down store less i n heap
  · exact (rearranged_down store less i n heap).trans (rearranged_up store less i _)

theorem rearranged_fix (less : ι → ι → Bool) (i : Nat) (heap : HeapState ι M) :
    Rearranged store heap (fix store less i heap) :=
  rearranged_settle store less i _ heap

theorem rearranged_initLoop (less : ι → ι → Bool) (n bound : Nat) (heap : HeapState ι M) :
    Rearranged store heap (initLoop store less n bound heap) := by
  induction bound generalizing heap with
  | zero => exact .refl heap
  | succ bound ih =>
      exact (rearranged_down store less bound n heap).trans (ih _)

theorem rearranged_init (less : ι → ι → Bool) (heap : HeapState ι M) :
    Rearranged store heap (init store less heap) :=
  rearranged_initLoop store less _ _ heap

/-! ## Slots that a sift leaves alone -/

theorem getElem?_upLoop_of_lt (less : ι → ι → Bool) {rounds j k : Nat} (above : j < k)
    (heap : HeapState ι M) :
    (upLoop store less rounds j heap).items[k]? = heap.items[k]? := by
  induction rounds generalizing j heap with
  | zero => rfl
  | succ rounds ih =>
      simp only [upLoop]
      split
      · rfl
      rw [ih (by omega)]
      by_cases jBound : j < heap.items.length
      · rw [getElem?_swap store (by omega) jBound, if_neg (by omega), if_neg (by omega)]
      · rw [swap_of_length_le store (Or.inr (by omega))]

theorem getElem?_downLoop_of_le (less : ι → ι → Bool) {n rounds i k : Nat} (above : n ≤ k)
    (heap : HeapState ι M) :
    (downLoop store less n rounds i heap).1.items[k]? = heap.items[k]? := by
  induction rounds generalizing i heap with
  | zero => rfl
  | succ rounds ih =>
      simp only [downLoop]
      split
      · rfl
      split
      · rfl
      rw [ih]
      have child : smallerChild less heap.items i n < n := by
        unfold smallerChild
        split <;> omega
      have parent : i < n := by omega
      by_cases inside : smallerChild less heap.items i n < heap.items.length ∧
          i < heap.items.length
      · rw [getElem?_swap store inside.2 inside.1, if_neg (by omega), if_neg (by omega)]
      · rw [swap_of_length_le store (by omega)]

theorem getElem?_settle_of_le (less : ι → ι → Bool) {n i k : Nat} (within : i < n ∨ i = 0)
    (above : n ≤ k) (positive : 0 < k) (heap : HeapState ι M) :
    (settle store less i n heap).items[k]? = heap.items[k]? := by
  have sifted : (down store less i n heap).1.items[k]? = heap.items[k]? :=
    getElem?_downLoop_of_le store less above heap
  simp only [settle]
  split
  · exact sifted
  · rw [up, getElem?_upLoop_of_lt store less (by omega), sifted]

/-! ## Insertion and removal -/

/-- What an insertion can do. -/
structure Inserted (item : ι) (before after : HeapState ι M) : Prop where
  perm : after.items.Perm (item :: before.items)
  tracked : Tracked store before → item ∉ before.items → Tracked store after
  outside : ∀ other, other ∉ before.items → other ≠ item →
    store.get after.mem other = store.get before.mem other
  frame : ∀ {β : Type} (view : M → β),
    (∀ memory item position, view (store.set memory item position) = view memory) →
      view after.mem = view before.mem

/-- What a removal can do. -/
structure Removed (item : ι) (before after : HeapState ι M) : Prop where
  perm : (item :: after.items).Perm before.items
  tracked : Tracked store after
  out : store.get after.mem item = -1
  outside : ∀ other, other ∉ before.items →
    store.get after.mem other = store.get before.mem other
  frame : ∀ {β : Type} (view : M → β),
    (∀ memory item position, view (store.set memory item position) = view memory) →
      view after.mem = view before.mem

theorem inserted_append (item : ι) (heap : HeapState ι M) :
    Inserted store item heap (append store item heap) where
  perm := List.perm_append_singleton item heap.items
  tracked := by
    intro tracked absent i other occupied
    simp only [append] at occupied ⊢
    rw [store.get_set]
    by_cases inside : i < heap.items.length
    · rw [List.getElem?_append_left inside] at occupied
      have different : other ≠ item :=
        fun same => absent (same ▸ List.mem_of_getElem? occupied)
      rw [if_neg different]
      exact tracked i other occupied
    · rw [List.getElem?_append_right (by omega)] at occupied
      have atEnd : i - heap.items.length = 0 := by
        by_contra later
        rw [List.getElem?_eq_none (by simp; omega)] at occupied
        cases occupied
      rw [atEnd] at occupied
      rw [if_pos (Option.some.inj occupied).symm]
      omega
  outside other absent different := by
    simp only [append]
    rw [store.get_set, if_neg different]
  frame view fixed := by simp only [append, fixed]

theorem inserted_push (less : ι → ι → Bool) (item : ι) (heap : HeapState ι M) :
    Inserted store item heap (push store less item heap) := by
  have appended := inserted_append store item heap
  have sifted := rearranged_up store less heap.items.length (append store item heap)
  refine ⟨sifted.perm.trans appended.perm,
    fun tracked absent => sifted.tracked (appended.tracked tracked absent), ?_, ?_⟩
  · intro other absent different
    refine (sifted.outside other ?_).trans (appended.outside other absent different)
    intro member
    rcases List.mem_cons.mp (appended.perm.mem_iff.mp member) with same | old
    · exact different same
    · exact absent old
  · intro β view fixed
    exact (sifted.frame view fixed).trans (appended.frame view fixed)

theorem removed_dropLast {heap : HeapState ι M} (tracked : Tracked store heap) {item : ι}
    (last : heap.items.getLast? = some item) :
    Removed store item heap (dropLast store heap) := by
  have shape : heap.items = heap.items.dropLast ++ [item] :=
    (List.dropLast_append_getLast? item last).symm
  have memory : (dropLast store heap).mem = store.set heap.mem item (-1) := by
    simp only [dropLast, last]
  have perm : (item :: heap.items.dropLast).Perm heap.items := by
    conv => rhs; rw [shape]
    exact (List.perm_append_singleton item heap.items.dropLast).symm
  have absent : item ∉ heap.items.dropLast :=
    (List.nodup_cons.mp (perm.nodup_iff.mpr tracked.nodup)).1
  refine ⟨perm, ?_, ?_, ?_, ?_⟩
  · intro i other occupied
    have different : other ≠ item :=
      fun same => absent (same ▸ List.mem_of_getElem? occupied)
    rw [memory, store.get_set, if_neg different]
    apply tracked i other
    simp only [dropLast, List.getElem?_dropLast] at occupied
    split at occupied
    · exact occupied
    · cases occupied
  · rw [memory, store.get_set, if_pos rfl]
  · intro other outside
    rw [memory, store.get_set, if_neg]
    rintro rfl
    exact outside (List.mem_of_getLast? last)
  · intro β view fixed
    rw [memory, fixed]

theorem Rearranged.removed {first second third : HeapState ι M} {item : ι}
    (rearranged : Rearranged store first second) (removed : Removed store item second third) :
    Removed store item first third where
  perm := removed.perm.trans rearranged.perm
  tracked := removed.tracked
  out := removed.out
  outside other absent :=
    (removed.outside other (fun member => absent (rearranged.mem_iff.mp member))).trans
      (rearranged.outside other absent)
  frame view fixed := (removed.frame view fixed).trans (rearranged.frame view fixed)

theorem Removed.notMem {before after : HeapState ι M} {item : ι}
    (removed : Removed store item before after) (tracked : Tracked store before) :
    item ∉ after.items :=
  (List.nodup_cons.mp (removed.perm.nodup_iff.mpr tracked.nodup)).1

theorem Removed.mem_iff {before after : HeapState ι M} {item other : ι}
    (removed : Removed store item before after) (tracked : Tracked store before) :
    other ∈ after.items ↔ other ≠ item ∧ other ∈ before.items := by
  have shared := removed.perm.mem_iff (a := other)
  rw [List.mem_cons] at shared
  constructor
  · intro inside
    exact ⟨fun same => removed.notMem store tracked (same ▸ inside), shared.mp (Or.inr inside)⟩
  · rintro ⟨different, inside⟩
    exact (shared.mpr inside).resolve_left different

/-- Swapping an item into the last slot, settling the rest and dropping the
last slot removes the item. -/
theorem removed_swap_settle_dropLast (less : ι → ι → Bool) {heap : HeapState ι M}
    (tracked : Tracked store heap) {i : Nat} {item : ι} (occupied : heap.items[i]? = some item)
    (within : i < heap.items.length - 1 ∨ i = 0) :
    Removed store item heap
      (dropLast store (settle store less i (heap.items.length - 1)
        (swap store i (heap.items.length - 1) heap))) := by
  obtain ⟨iBound, _⟩ := List.getElem?_eq_some_iff.mp occupied
  have rearranged := (rearranged_swap store i (heap.items.length - 1) heap).trans
    (rearranged_settle store less i (heap.items.length - 1) _)
  apply rearranged.removed
  apply removed_dropLast store (rearranged.tracked tracked)
  rw [List.getLast?_eq_getElem?, rearranged.length_eq]
  have swapped : (swap store i (heap.items.length - 1) heap).items[heap.items.length - 1]? =
      some item := by
    rw [getElem?_swap store iBound (by omega), if_pos rfl, occupied]
  by_cases single : heap.items.length - 1 = 0
  · -- the sift has no slot to move into, so the heap is the swapped one
    have unmoved : settle store less i (heap.items.length - 1)
        (swap store i (heap.items.length - 1) heap) =
          swap store i (heap.items.length - 1) heap := by
      have root : i = 0 := by omega
      simp [settle, down, downLoop, up, upLoop, single, root]
    rw [unmoved, swapped]
  · rw [getElem?_settle_of_le store less within (Nat.le_refl _) (by omega), swapped]

theorem removed_remove (less : ι → ι → Bool) {heap : HeapState ι M}
    (tracked : Tracked store heap) {i : Nat} {item : ι}
    (occupied : heap.items[i]? = some item) :
    Removed store item heap (remove store less i heap) := by
  obtain ⟨iBound, _⟩ := List.getElem?_eq_some_iff.mp occupied
  simp only [remove]
  split
  next last =>
    apply removed_dropLast store tracked
    rw [List.getLast?_eq_getElem?, last, occupied]
  next inner =>
    exact removed_swap_settle_dropLast store less tracked occupied (by omega)

theorem pop_eq (less : ι → ι → Bool) (heap : HeapState ι M) :
    pop store less heap =
      dropLast store (settle store less 0 (heap.items.length - 1)
        (swap store 0 (heap.items.length - 1) heap)) := by
  simp only [pop, settle, up, upLoop, ite_self]

theorem removed_pop (less : ι → ι → Bool) {heap : HeapState ι M}
    (tracked : Tracked store heap) {item : ι} (head : heap.items.head? = some item) :
    Removed store item heap (pop store less heap) := by
  rw [pop_eq]
  rw [List.head?_eq_getElem?] at head
  exact removed_swap_settle_dropLast store less tracked head (Or.inr rfl)

end PositionHeap
