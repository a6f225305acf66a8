import Coolbeans.PositionHeapOrder
import Coolbeans.StatefulProgram
import Mathlib.Data.Set.Function

/-!
# Position-tracking heaps over whole runs

A heap that has gone through any sequence of operations is told by two sets: the
items that are inside it, and those that have left it.  `Sound` ties a heap to these
sets; every operation keeps it.  Taking the first item of a heap again and again
yields its items in order.
-/

namespace PositionHeap

open StatefulProgram

variable {ι M κ : Type} [DecidableEq ι]

/-- What a user of a heap can see of it: it holds the items inside, each at the
position it carries, the items that have left carry no position, no child orders
before its parent, and the first item orders before all others. -/
structure Exact (store : PositionStore ι M) (less : ι → ι → Bool) (inside gone : Set ι)
    (heap : HeapState ι M) : Prop where
  holds : ∀ item, item ∈ heap.items ↔ item ∈ inside
  once : heap.items.Nodup
  position : ∀ (i : Nat) (item : ι), heap.items[i]? = some item → store.get heap.mem item = i
  out : ∀ item ∈ gone, item ∉ inside ∧ store.get heap.mem item = -1
  ordered : ∀ (i : Nat) (parent child : ι), 0 < i → heap.items[(i - 1) / 2]? = some parent →
    heap.items[i]? = some child → less child parent = false
  least : ∀ first, heap.items.head? = some first →
    ∀ other ∈ inside, other ≠ first → less first other = true

variable [LinearOrder κ]

/-- The heap holds the items inside, in the order of their keys, and no two of them
have the same key. -/
structure Sound (store : PositionStore ι M) (key : ι → κ) (inside gone : Set ι)
    (heap : HeapState ι M) : Prop where
  holds : ∀ item, item ∈ heap.items ↔ item ∈ inside
  tracked : Tracked store heap
  out : ∀ item ∈ gone, item ∉ inside ∧ store.get heap.mem item = -1
  ordered : Ordered key heap.items
  apart : Set.InjOn key inside

namespace Sound

variable {store : PositionStore ι M} {less : ι → ι → Bool} {key old : ι → κ}
  {inside gone : Set ι} {heap after : HeapState ι M} {item : ι}

theorem new (store : PositionStore ι M) (key : ι → κ) (mem : M) :
    Sound store key ∅ ∅ ⟨[], mem⟩ where
  holds := by simp
  tracked := by simp [Tracked]
  out := by simp
  ordered := by simp [Ordered, OrderedBelow]
  apart := Set.injOn_empty key

/-- Nothing depends on the memory but the positions of the items inside and of those
that have left. -/
theorem congr (sound : Sound store old inside gone heap) (items : after.items = heap.items)
    (positions : ∀ item ∈ inside ∪ gone, store.get after.mem item = store.get heap.mem item)
    (keys : ∀ item ∈ inside, key item = old item) : Sound store key inside gone after where
  holds := by
    rw [items]
    exact sound.holds
  tracked := by
    intro i item occupied
    rw [items] at occupied
    have member := (sound.holds item).mp (List.mem_of_getElem? occupied)
    rw [positions item (.inl member)]
    exact sound.tracked i item occupied
  out item left := by
    obtain ⟨outside, position⟩ := sound.out item left
    exact ⟨outside, (positions item (.inr left)).trans position⟩
  ordered := by
    rw [items]
    exact sound.ordered.congr fun item member => keys item ((sound.holds item).mp member)
  apart := by
    intro first firstIn second secondIn same
    rw [keys first firstIn, keys second secondIn] at same
    exact sound.apart firstIn secondIn same

theorem push (sound : Sound store key inside gone heap) (compares : Compares less key)
    (absent : item ∉ inside) (newKey : ∀ other ∈ inside, key other ≠ key item) :
    Sound store key (insert item inside) (gone \ {item}) (push store less item heap) := by
  have inserted := inserted_push store less item heap
  have outside : item ∉ heap.items := mt (sound.holds item).mp absent
  refine ⟨?_, inserted.tracked sound.tracked outside, ?_,
    ordered_push store compares heap sound.ordered item, ?_⟩
  · intro other
    rw [inserted.perm.mem_iff, List.mem_cons, sound.holds]
    rfl
  · rintro other ⟨left, different⟩
    obtain ⟨notInside, position⟩ := sound.out other left
    have notItem : other ≠ item := different
    refine ⟨?_, ?_⟩
    · rintro (same | member)
      · exact notItem same
      · exact notInside member
    · rw [inserted.outside other (mt (sound.holds other).mp notInside) notItem]
      exact position
  · rw [Set.injOn_insert absent]
    refine ⟨sound.apart, ?_⟩
    rintro ⟨other, member, same⟩
    exact newKey other member same

theorem of_removed (sound : Sound store key inside gone heap)
    (removed : Removed store item heap after) (ordered : Ordered key after.items) :
    Sound store key (inside \ {item}) (insert item gone) after := by
  refine ⟨?_, removed.tracked, ?_, ordered, sound.apart.mono Set.sdiff_subset⟩
  · intro other
    rw [removed.mem_iff store sound.tracked, sound.holds]
    exact and_comm
  · rintro other (rfl | left)
    · exact ⟨fun member => member.2 rfl, removed.out⟩
    · obtain ⟨notInside, position⟩ := sound.out other left
      refine ⟨fun member => notInside member.1, ?_⟩
      rw [removed.outside other (mt (sound.holds other).mp notInside)]
      exact position

theorem pop (sound : Sound store key inside gone heap) (compares : Compares less key)
    (head : heap.items.head? = some item) :
    Sound store key (inside \ {item}) (insert item gone) (pop store less heap) := by
  have nonempty : heap.items ≠ [] := by
    rintro none
    simp [none] at head
  exact sound.of_removed (removed_pop store less sound.tracked head)
    (ordered_pop store compares heap sound.ordered nonempty)

theorem remove {i : Nat} (sound : Sound store key inside gone heap)
    (compares : Compares less key) (occupied : heap.items[i]? = some item) :
    Sound store key (inside \ {item}) (insert item gone) (remove store less i heap) := by
  obtain ⟨bound, _⟩ := List.getElem?_eq_some_iff.mp occupied
  exact sound.of_removed (removed_remove store less sound.tracked occupied)
    (ordered_remove store compares heap sound.ordered bound)

theorem fix {i : Nat} (sound : Sound store old inside gone heap) (compares : Compares less key)
    (occupied : heap.items[i]? = some item)
    (agree : ∀ other ∈ inside, other ≠ item → key other = old other)
    (apart : Set.InjOn key inside) : Sound store key inside gone (fix store less i heap) := by
  have rearranged := rearranged_fix store less i heap
  obtain ⟨bound, _⟩ := List.getElem?_eq_some_iff.mp occupied
  have loose : Loose key heap.items.length i heap.items := by
    apply sound.ordered.loose_of_agree
    intro c other elsewhere atSlot
    apply agree other ((sound.holds other).mp (List.mem_of_getElem? atSlot))
    rintro rfl
    exact elsewhere (sound.tracked.slot_unique store atSlot occupied)
  refine ⟨?_, rearranged.tracked sound.tracked, ?_, ordered_fix store compares heap bound loose,
    apart⟩
  · intro other
    rw [rearranged.mem_iff, sound.holds]
  · intro other left
    obtain ⟨notInside, position⟩ := sound.out other left
    refine ⟨notInside, ?_⟩
    rw [rearranged.outside other (mt (sound.holds other).mp notInside)]
    exact position

theorem occupied (sound : Sound store key inside gone heap) (member : item ∈ inside) :
    ∃ i : Nat, store.get heap.mem item = i ∧ heap.items[i]? = some item := by
  obtain ⟨i, occupied⟩ := List.getElem?_of_mem ((sound.holds item).mpr member)
  exact ⟨i, sound.tracked i item occupied, occupied⟩

theorem first_less (sound : Sound store key inside gone heap) (compares : Compares less key)
    {first other : ι} (head : heap.items.head? = some first) (member : other ∈ inside)
    (different : other ≠ first) : less first other = true := by
  rw [compares]
  apply lt_of_le_of_ne (sound.ordered.head_le head ((sound.holds other).mpr member))
  intro same
  have firstIn := (sound.holds first).mp (List.mem_of_mem_head? head)
  exact different (sound.apart firstIn member same).symm

theorem exact (sound : Sound store key inside gone heap) (compares : Compares less key) :
    Exact store less inside gone heap where
  holds := sound.holds
  once := sound.tracked.nodup
  position := sound.tracked
  out := sound.out
  ordered i parent child positive atParent atChild := by
    rw [Bool.eq_false_iff, ne_eq, compares, not_lt]
    obtain ⟨bound, _⟩ := List.getElem?_eq_some_iff.mp atChild
    exact sound.ordered i positive bound parent child atParent atChild
  least first head other member different := sound.first_less compares head member different

end Sound

/-! ## Emptying a heap -/

/-- Run a program a number of times, and list what it returns. -/
def times {σ ε π : Type} (program : Prog σ ε π ι) : Nat → Prog σ ε π (List ι)
  | 0 => pure []
  | count + 1 => do
      let first ← program
      let others ← times program count
      pure (first :: others)

omit [DecidableEq ι] in
/-- A program that takes the first item of a heap, run once for each item, yields
the items in order. -/
theorem times_sorted {σ ε π : Type} {program : Prog σ ε π ι} (items : σ → List ι)
    (less : σ → ι → ι → Bool) (good : σ → Prop)
    (takes : ∀ state, good state → items state ≠ [] →
      ∃ first next, program state = .ok first next ∧ good next ∧
        (first :: items next).Perm (items state) ∧
        (∀ other ∈ items next, less state first other = true) ∧
        ∀ a ∈ items next, ∀ b ∈ items next, less next a b = less state a b)
    {state : σ} (isGood : good state) :
    ∃ drained last, times program (items state).length state = .ok drained last ∧
      drained.Perm (items state) ∧ drained.Pairwise (fun a b => less state a b = true) ∧
      items last = [] := by
  induction size : (items state).length generalizing state with
  | zero =>
      have none := List.length_eq_zero_iff.mp size
      exact ⟨[], state, rfl, by rw [none], .nil, none⟩
  | succ count induction =>
      have nonempty : items state ≠ [] := by
        intro none
        simp [none] at size
      obtain ⟨first, next, ran, nextGood, perm, before, same⟩ := takes state isGood nonempty
      have fewer : (items next).length = count := by
        have lengths := perm.length_eq
        rw [List.length_cons, size] at lengths
        omega
      obtain ⟨others, last, rest, othersPerm, sorted, emptied⟩ := induction nextGood fewer
      refine ⟨first :: others, last, ?_, ?_, ?_, emptied⟩
      · simp only [times, Prog.bind_apply, ran, Outcome.ok_andThen, rest]
        rfl
      · exact (othersPerm.cons first).trans perm
      · rw [List.pairwise_cons]
        constructor
        · intro other member
          exact before other (othersPerm.mem_iff.mp member)
        · refine sorted.imp_of_mem ?_
          intro a b aIn bIn ordered
          rw [← same a (othersPerm.mem_iff.mp aIn) b (othersPerm.mem_iff.mp bIn)]
          exact ordered

end PositionHeap
