import Coolbeans.PositionHeap
import Mathlib.Order.Lattice

/-!
# The order of position-tracking heaps

The comparison of a heap reads a key of each item, in a linear order.  An
ordered heap has every slot at or above its two children.  Inserting, removing
and re-settling an item keep the order, and the first slot of an ordered heap
holds a least item.
-/

namespace PositionHeap

variable {ι M κ : Type} [LinearOrder κ]

/-- The comparison decides the order of the keys. -/
def Compares (less : ι → ι → Bool) (key : ι → κ) : Prop :=
  ∀ a b, less a b = true ↔ key a < key b

/-- The item of slot `i` orders at or before the item of slot `j`, if both
slots are occupied. -/
def SlotLe (key : ι → κ) (items : List ι) (i j : Nat) : Prop :=
  ∀ a b, items[i]? = some a → items[j]? = some b → key a ≤ key b

/-- The first `n` slots are ordered: no slot orders before its parent. -/
def OrderedBelow (key : ι → κ) (n : Nat) (items : List ι) : Prop :=
  ∀ c, 0 < c → c < n → SlotLe key items ((c - 1) / 2) c

/-- All slots are ordered. -/
def Ordered (key : ι → κ) (items : List ι) : Prop :=
  OrderedBelow key items.length items

section SlotLe

variable {key : ι → κ} {items : List ι} {i j k : Nat}

theorem SlotLe.refl : SlotLe key items i i := by
  intro a b first second
  rw [first] at second
  exact le_of_eq (congrArg key (Option.some.inj second))

theorem SlotLe.trans (first : SlotLe key items i j) (second : SlotLe key items j k)
    (occupied : j < items.length) : SlotLe key items i k := by
  intro a b atI atK
  have atJ := List.getElem?_eq_getElem occupied
  exact (first a _ atI atJ).trans (second _ b atJ atK)

theorem slotLe_of_lessAt {less : ι → ι → Bool} (compares : Compares less key)
    (isLess : lessAt less items i j = true) : SlotLe key items i j := by
  intro a b atI atJ
  simp only [lessAt, atI, atJ] at isLess
  exact le_of_lt ((compares a b).mp isLess)

theorem slotLe_of_not_lessAt {less : ι → ι → Bool} (compares : Compares less key)
    (notLess : lessAt less items j i = false) : SlotLe key items i j := by
  intro a b atI atJ
  simp only [lessAt, atI, atJ] at notLess
  apply le_of_not_gt
  intro smaller
  rw [(compares b a).mpr smaller] at notLess
  exact Bool.noConfusion notLess

theorem not_lessAt_of_slotLe {less : ι → ι → Bool} (compares : Compares less key)
    (le : SlotLe key items i j) : lessAt less items j i = false := by
  unfold lessAt
  split
  next a b atJ atI =>
    rw [Bool.eq_false_iff]
    intro isLess
    exact absurd ((compares a b).mp isLess) (not_lt.mpr (le b a atI atJ))
  next => rfl

end SlotLe

section Swap

variable [DecidableEq ι] (store : PositionStore ι M)

theorem slotLe_swap {key : ι → κ} {i j : Nat} {heap : HeapState ι M}
    (iBound : i < heap.items.length)
    (jBound : j < heap.items.length) (p q : Nat) :
    SlotLe key (swap store i j heap).items p q ↔
      SlotLe key heap.items (if p = j then i else if p = i then j else p)
        (if q = j then i else if q = i then j else q) := by
  simp only [SlotLe, getElem?_swap store iBound jBound]
  split_ifs <;> rfl

@[simp]
theorem length_swap (i j : Nat) (heap : HeapState ι M) :
    (swap store i j heap).items.length = heap.items.length :=
  (rearranged_swap store i j heap).length_eq

end Swap

/-! ## Sifting up -/

/-- Only the edge into slot `j` may be out of order, and moving the parent of
`j` down into `j` would be safe. -/
structure UpReady (key : ι → κ) (n j : Nat) (items : List ι) : Prop where
  edges : ∀ c, 0 < c → c < n → c ≠ j → SlotLe key items ((c - 1) / 2) c
  grand : ∀ c, 0 < c → c < n → (c - 1) / 2 = j → 0 < j →
    SlotLe key items ((j - 1) / 2) c

section Up

variable {less : ι → ι → Bool} {key : ι → κ} {n : Nat}

theorem UpReady.ordered {items : List ι} {j : Nat} (ready : UpReady key n j items)
    (settled : 0 < j → j < n → SlotLe key items ((j - 1) / 2) j) :
    OrderedBelow key n items := by
  intro c positive bound
  by_cases atJ : c = j
  · subst c
    exact settled positive bound
  · exact ready.edges c positive bound atJ

variable [DecidableEq ι] (store : PositionStore ι M)

theorem UpReady.swap_parent {heap : HeapState ι M} {j : Nat}
    (ready : UpReady key n j heap.items) (bound : n ≤ heap.items.length)
    (jBound : j < n) (positive : 0 < j)
    (smaller : SlotLe key heap.items j ((j - 1) / 2)) :
    UpReady key n ((j - 1) / 2) (swap store ((j - 1) / 2) j heap).items := by
  have jLength : j < heap.items.length := by omega
  have parentLength : (j - 1) / 2 < heap.items.length := by omega
  refine ⟨?_, ?_⟩
  · intro c cPositive cBound cNe
    rw [slotLe_swap store parentLength jLength]
    by_cases atJ : c = j
    · subst c
      rw [if_pos rfl, if_neg (by omega), if_pos rfl]
      exact smaller
    by_cases childOfJ : (c - 1) / 2 = j
    · rw [if_pos childOfJ, if_neg atJ, if_neg cNe]
      exact ready.grand c cPositive cBound childOfJ positive
    by_cases sibling : (c - 1) / 2 = (j - 1) / 2
    · rw [if_neg childOfJ, if_pos sibling, if_neg atJ, if_neg cNe]
      have edge := ready.edges c cPositive cBound atJ
      rw [sibling] at edge
      exact smaller.trans edge parentLength
    · rw [if_neg childOfJ, if_neg sibling, if_neg atJ, if_neg cNe]
      exact ready.edges c cPositive cBound atJ
  · intro c cPositive cBound cParent parentPositive
    rw [slotLe_swap store parentLength jLength, if_neg (by omega), if_neg (by omega)]
    have above := ready.edges ((j - 1) / 2) parentPositive (by omega) (by omega)
    by_cases atJ : c = j
    · rw [if_pos atJ]
      exact above
    · rw [if_neg atJ, if_neg (by omega)]
      have edge := ready.edges c cPositive cBound atJ
      rw [cParent] at edge
      exact above.trans edge parentLength

theorem orderedBelow_upLoop (compares : Compares less key) {rounds j : Nat}
    {heap : HeapState ι M} (enough : j ≤ rounds) (bound : n ≤ heap.items.length)
    (jBound : j < n) (ready : UpReady key n j heap.items) :
    OrderedBelow key n (upLoop store less rounds j heap).items := by
  induction rounds generalizing j heap with
  | zero =>
      exact ready.ordered fun positive => by omega
  | succ rounds ih =>
      simp only [upLoop]
      split
      next stop =>
        apply ready.ordered
        intro positive _
        rcases stop with root | notLess
        · omega
        · exact slotLe_of_not_lessAt compares notLess
      next move =>
        push Not at move
        have isLess : lessAt less heap.items j ((j - 1) / 2) = true := by
          simpa using move.2
        have positive : 0 < j := by omega
        apply ih
        · omega
        · simpa using bound
        · omega
        · exact ready.swap_parent store bound jBound positive
            (slotLe_of_lessAt compares isLess)

theorem orderedBelow_up (compares : Compares less key) {j : Nat}
    {heap : HeapState ι M} (bound : n ≤ heap.items.length) (jBound : j < n)
    (ready : UpReady key n j heap.items) :
    OrderedBelow key n (up store less j heap).items :=
  orderedBelow_upLoop store compares (Nat.le_refl j) bound jBound ready

end Up

/-! ## Sifting down -/

/-- Only the edges at slot `i` may be out of order, and lifting a child of `i`
into `i` would be safe. -/
structure Loose (key : ι → κ) (n i : Nat) (items : List ι) : Prop where
  edges : ∀ c, 0 < c → c < n → c ≠ i → (c - 1) / 2 ≠ i →
    SlotLe key items ((c - 1) / 2) c
  grand : ∀ c, 0 < c → c < n → (c - 1) / 2 = i → 0 < i →
    SlotLe key items ((i - 1) / 2) c

section Down

variable {less : ι → ι → Bool} {key : ι → κ} {n : Nat}

theorem OrderedBelow.loose {items : List ι} (ordered : OrderedBelow key n items)
    (bound : n ≤ items.length) {i : Nat} : Loose key n i items := by
  refine ⟨fun c positive cBound _ _ => ordered c positive cBound, ?_⟩
  intro c positive cBound parent iPositive
  have edge := ordered c positive cBound
  rw [parent] at edge
  exact (ordered i iPositive (by omega)).trans edge (by omega)

theorem smallerChild_bounds (less : ι → ι → Bool) (items : List ι) {i : Nat}
    (left : 2 * i + 1 < n) :
    i < smallerChild less items i n ∧ smallerChild less items i n < n ∧
      (smallerChild less items i n - 1) / 2 = i := by
  unfold smallerChild
  split
  next right => exact ⟨by omega, right.1, by omega⟩
  next => exact ⟨by omega, left, by omega⟩

theorem smallerChild_le (compares : Compares less key) (items : List ι) {i c : Nat}
    (positive : 0 < c) (cBound : c < n) (parent : (c - 1) / 2 = i) :
    SlotLe key items (smallerChild less items i n) c := by
  have sides : c = 2 * i + 1 ∨ c = 2 * i + 2 := by omega
  unfold smallerChild
  split
  next right =>
    rcases sides with rfl | rfl
    · exact slotLe_of_lessAt compares right.2
    · exact SlotLe.refl
  next left =>
    rcases sides with rfl | rfl
    · exact SlotLe.refl
    · apply slotLe_of_not_lessAt compares
      cases decision : lessAt less items (2 * i + 2) (2 * i + 1) with
      | false => rfl
      | true => exact absurd ⟨cBound, decision⟩ left

variable [DecidableEq ι] (store : PositionStore ι M)

/-- Lifting the smaller child leaves only the edges below its old slot
possibly out of order. -/
theorem Loose.swap_child (compares : Compares less key) {heap : HeapState ι M} {i : Nat}
    (loose : Loose key n i heap.items) (bound : n ≤ heap.items.length)
    (left : 2 * i + 1 < n)
    (smaller : SlotLe key heap.items (smallerChild less heap.items i n) i) :
    Loose key n (smallerChild less heap.items i n)
        (swap store i (smallerChild less heap.items i n) heap).items ∧
      ∀ c, 0 < c → c < n → (c - 1) / 2 ≠ smallerChild less heap.items i n →
        SlotLe key (swap store i (smallerChild less heap.items i n) heap).items
          ((c - 1) / 2) c := by
  obtain ⟨below, childBound, childParent⟩ :=
    smallerChild_bounds less heap.items left
  have least := fun c => smallerChild_le compares heap.items (i := i) (n := n) (c := c)
  generalize smallerChild less heap.items i n = j at *
  have iLength : i < heap.items.length := by omega
  have jLength : j < heap.items.length := by omega
  have edges : ∀ c, 0 < c → c < n → (c - 1) / 2 ≠ j →
      SlotLe key (swap store i j heap).items ((c - 1) / 2) c := by
    intro c positive cBound notBelow
    rw [slotLe_swap store iLength jLength, if_neg notBelow]
    by_cases childOfI : (c - 1) / 2 = i
    · rw [if_pos childOfI]
      by_cases atJ : c = j
      · rw [if_pos atJ]
        exact smaller
      · rw [if_neg atJ, if_neg (by omega)]
        exact least c positive cBound childOfI
    rw [if_neg childOfI]
    by_cases atI : c = i
    · subst c
      rw [if_neg (by omega), if_pos rfl]
      exact loose.grand j (by omega) childBound childParent positive
    · rw [if_neg (by omega), if_neg atI]
      exact loose.edges c positive cBound atI childOfI
  refine ⟨⟨fun c positive cBound _ notBelow => edges c positive cBound notBelow, ?_⟩, edges⟩
  intro c positive cBound childOfJ _
  rw [slotLe_swap store iLength jLength, childParent, if_neg (by omega), if_pos rfl,
    if_neg (by omega), if_neg (by omega)]
  have edge := loose.edges c positive cBound (by omega) (by omega)
  rwa [childOfJ] at edge

/-- Sifting down either moves nothing, and then every edge below slot `i` is
in order, or leaves all slots ordered. -/
theorem orderedBelow_downLoop (compares : Compares less key) (rounds : Nat) {i : Nat}
    {heap : HeapState ι M} (enough : n ≤ rounds + i) (bound : n ≤ heap.items.length)
    (loose : Loose key n i heap.items) :
    (downLoop store less n rounds i heap = (heap, i) ∧
        ∀ c, 0 < c → c < n → (c - 1) / 2 = i → SlotLe key heap.items i c) ∨
      (i < (downLoop store less n rounds i heap).2 ∧
        OrderedBelow key n (downLoop store less n rounds i heap).1.items) := by
  induction rounds generalizing i heap with
  | zero =>
      left
      exact ⟨rfl, fun c _ _ _ => by omega⟩
  | succ rounds ih =>
      simp only [downLoop]
      split
      next leaf =>
        left
        exact ⟨rfl, fun c _ _ _ => by omega⟩
      next inner =>
        have left : 2 * i + 1 < n := by omega
        obtain ⟨below, childBound, childParent⟩ :=
          smallerChild_bounds less heap.items left
        split
        next notLess =>
          left
          refine ⟨rfl, fun c positive cBound parent => ?_⟩
          exact (slotLe_of_not_lessAt compares notLess).trans
            (smallerChild_le compares _ positive cBound parent) (by omega)
        next isLess =>
          right
          have smaller := slotLe_of_lessAt compares (by simpa using isLess)
          obtain ⟨childLoose, edges⟩ := loose.swap_child store compares bound left smaller
          rcases ih (by omega) (by simpa using bound) childLoose with
            ⟨stopped, leaving⟩ | ⟨moved, ordered⟩
          · rw [stopped]
            refine ⟨below, fun c positive cBound => ?_⟩
            by_cases childOfJ : (c - 1) / 2 = smallerChild less heap.items i n
            · rw [childOfJ]
              exact leaving c positive cBound childOfJ
            · exact edges c positive cBound childOfJ
          · exact ⟨by omega, ordered⟩

theorem orderedBelow_settle (compares : Compares less key) {i : Nat}
    {heap : HeapState ι M} (bound : n ≤ heap.items.length) (iBound : i < n)
    (loose : Loose key n i heap.items) :
    OrderedBelow key n (settle store less i n heap).items := by
  have sifted := orderedBelow_downLoop store compares n (by omega) bound loose
  change (down store less i n heap = (heap, i) ∧ _) ∨
    (i < (down store less i n heap).2 ∧
      OrderedBelow key n (down store less i n heap).1.items) at sifted
  simp only [settle]
  rcases sifted with ⟨stopped, leaving⟩ | ⟨moved, ordered⟩
  · simp only [stopped, Nat.lt_irrefl, if_false]
    apply orderedBelow_up store compares bound iBound
    refine ⟨fun c positive cBound cNe => ?_, loose.grand⟩
    by_cases childOfI : (c - 1) / 2 = i
    · rw [childOfI]
      exact leaving c positive cBound childOfI
    · exact loose.edges c positive cBound cNe childOfI
  · rw [if_pos moved]
    exact ordered

end Down

/-! ## The heap operations -/

section Operations

variable {less : ι → ι → Bool} {key : ι → κ}

theorem orderedBelow_append {items : List ι} (ordered : Ordered key items) (item : ι) :
    UpReady key (items.length + 1) items.length (items ++ [item]) := by
  refine ⟨?_, fun c _ _ _ _ => by omega⟩
  intro c positive cBound cNe a b atParent atChild
  rw [List.getElem?_append_left (by omega)] at atParent atChild
  exact ordered c positive (by omega) a b atParent atChild

theorem OrderedBelow.dropLast {items : List ι} {n : Nat} (length : items.length = n + 1)
    (ordered : OrderedBelow key n items) : Ordered key items.dropLast := by
  intro c positive cBound a b atParent atChild
  rw [List.length_dropLast] at cBound
  rw [List.getElem?_dropLast, if_pos (by omega)] at atParent atChild
  exact ordered c positive (by omega) a b atParent atChild

/-- Changing the key of the item of slot `i` alone leaves only the edges at
`i` possibly out of order. -/
theorem Ordered.loose_of_agree {items : List ι} {old : ι → κ} (ordered : Ordered old items)
    {i : Nat}
    (agree : ∀ c item, c ≠ i → items[c]? = some item → key item = old item) :
    Loose key items.length i items := by
  have loose := OrderedBelow.loose ordered (Nat.le_refl _) (i := i)
  refine ⟨?_, ?_⟩
  · intro c positive cBound cNe parentNe a b atParent atChild
    rw [agree _ a parentNe atParent, agree _ b cNe atChild]
    exact loose.edges c positive cBound cNe parentNe a b atParent atChild
  · intro c positive cBound parent iPositive a b atParent atChild
    rw [agree _ a (by omega) atParent, agree _ b (by omega) atChild]
    exact loose.grand c positive cBound parent iPositive a b atParent atChild

theorem Ordered.congr {items : List ι} {old : ι → κ} (ordered : Ordered old items)
    (same : ∀ item ∈ items, key item = old item) : Ordered key items := by
  intro c positive bound parent child atParent atChild
  rw [same parent (List.mem_of_getElem? atParent), same child (List.mem_of_getElem? atChild)]
  exact ordered c positive bound parent child atParent atChild

theorem Ordered.first_le {items : List ι} (ordered : Ordered key items) {i : Nat}
    (iBound : i < items.length) : SlotLe key items 0 i := by
  induction i using Nat.strongRecOn with
  | ind i ih =>
      by_cases root : i = 0
      · subst i
        exact SlotLe.refl
      · exact (ih ((i - 1) / 2) (by omega) (by omega)).trans
          (ordered i (by omega) iBound) (by omega)

theorem Ordered.head_le {items : List ι} (ordered : Ordered key items) {first item : ι}
    (head : items.head? = some first) (member : item ∈ items) : key first ≤ key item := by
  obtain ⟨i, iBound, rfl⟩ := List.mem_iff_getElem.mp member
  rw [List.head?_eq_getElem?] at head
  exact ordered.first_le iBound first _ head (List.getElem?_eq_getElem iBound)

variable [DecidableEq ι] (store : PositionStore ι M)

theorem ordered_push (compares : Compares less key) (heap : HeapState ι M)
    (ordered : Ordered key heap.items) (item : ι) :
    Ordered key (push store less item heap).items := by
  have length : (push store less item heap).items.length = heap.items.length + 1 := by
    rw [push, (rearranged_up store less _ _).length_eq]
    simp [append]
  rw [Ordered, length]
  apply orderedBelow_up store compares
  · simp [append]
  · omega
  · exact orderedBelow_append ordered item

theorem Ordered.loose_swap_last {heap : HeapState ι M} (ordered : Ordered key heap.items)
    {i : Nat} (iBound : i < heap.items.length - 1) :
    Loose key (heap.items.length - 1) i
      (swap store i (heap.items.length - 1) heap).items := by
  have loose := OrderedBelow.loose ordered (Nat.le_refl _) (i := i)
  have iLength : i < heap.items.length := by omega
  have lastLength : heap.items.length - 1 < heap.items.length := by omega
  refine ⟨?_, ?_⟩
  · intro c positive cBound cNe parentNe
    rw [slotLe_swap store iLength lastLength, if_neg (by omega), if_neg parentNe,
      if_neg (by omega), if_neg cNe]
    exact loose.edges c positive (by omega) cNe parentNe
  · intro c positive cBound parent iPositive
    rw [slotLe_swap store iLength lastLength, if_neg (by omega), if_neg (by omega),
      if_neg (by omega), if_neg (by omega)]
    exact loose.grand c positive (by omega) parent iPositive

theorem ordered_remove (compares : Compares less key) (heap : HeapState ι M)
    (ordered : Ordered key heap.items) {i : Nat} (iBound : i < heap.items.length) :
    Ordered key (remove store less i heap).items := by
  simp only [remove]
  split
  next last =>
    apply OrderedBelow.dropLast (n := heap.items.length - 1) (by omega)
    exact fun c positive cBound => ordered c positive (by omega)
  next inner =>
    apply OrderedBelow.dropLast (n := heap.items.length - 1)
    · rw [(rearranged_settle store less _ _ _).length_eq, length_swap]
      omega
    · apply orderedBelow_settle store compares
      · rw [length_swap]
        omega
      · omega
      · exact ordered.loose_swap_last store (by omega)

theorem ordered_pop (compares : Compares less key) (heap : HeapState ι M)
    (ordered : Ordered key heap.items) (nonempty : heap.items ≠ []) :
    Ordered key (pop store less heap).items := by
  have positive := List.length_pos_iff.mpr nonempty
  rw [pop_eq]
  apply OrderedBelow.dropLast (n := heap.items.length - 1)
  · rw [(rearranged_settle store less _ _ _).length_eq, length_swap]
    omega
  · by_cases single : heap.items.length - 1 = 0
    · intro c cPositive cBound
      omega
    · apply orderedBelow_settle store compares
      · rw [length_swap]
        omega
      · omega
      · exact ordered.loose_swap_last store (by omega)

theorem ordered_fix (compares : Compares less key) (heap : HeapState ι M) {i : Nat}
    (iBound : i < heap.items.length) (loose : Loose key heap.items.length i heap.items) :
    Ordered key (fix store less i heap).items := by
  rw [Ordered, (rearranged_fix store less i heap).length_eq]
  exact orderedBelow_settle store compares (Nat.le_refl _) iBound loose

theorem down_of_ordered (compares : Compares less key) {heap : HeapState ι M}
    (ordered : Ordered key heap.items) (i : Nat) :
    down store less i heap.items.length heap = (heap, i) := by
  unfold down
  cases rounds : heap.items.length with
  | zero => rfl
  | succ rounds =>
      rw [← rounds]
      simp only [rounds, downLoop]
      split
      next => rfl
      next inner =>
        have left : 2 * i + 1 < heap.items.length := by omega
        obtain ⟨_, childBound, childParent⟩ := smallerChild_bounds less heap.items left
        have edge := ordered _ (by omega) childBound
        rw [childParent] at edge
        rw [← rounds, not_lessAt_of_slotLe compares edge]
        rfl

/-- A heap that is in order stays as it is. -/
theorem init_of_ordered (compares : Compares less key) {heap : HeapState ι M}
    (ordered : Ordered key heap.items) : init store less heap = heap := by
  unfold init
  induction heap.items.length / 2 with
  | zero => rfl
  | succ bound induction =>
      rw [initLoop, down_of_ordered store compares ordered]
      exact induction

end Operations

end PositionHeap
