import Mathlib.Data.List.Sort

/-!
# Listing a set in the order of a key

Items are told apart by a key into a linear order.  A listing of a set of items names each of
them once, by increasing key.  There is at most one, and its first item is the one with the
least key.
-/

namespace SortedListing

variable {α κ : Type} [LinearOrder κ]

/-- The list names the members, by increasing key. -/
structure Lists (member : α → Prop) (key : α → κ) (items : List α) : Prop where
  sorted : items.Pairwise fun first second => key first < key second
  mem_iff : ∀ item, item ∈ items ↔ member item

section Lists

variable {member : α → Prop} {key : α → κ} {items others : List α}

theorem Lists.nodup (lists : Lists member key items) : items.Nodup :=
  lists.sorted.imp fun less => by
    rintro rfl
    exact lt_irrefl _ less

theorem Lists.eq (lists : Lists member key items) (other : Lists member key others) :
    items = others := by
  apply List.Perm.eq_of_pairwise _ lists.sorted other.sorted
  · apply (List.perm_ext_iff_of_nodup lists.nodup other.nodup).mpr
    intro item
    rw [lists.mem_iff, other.mem_iff]
  · intro first second _ _ less greater
    exact absurd less (lt_asymm greater)

theorem Lists.head?_eq_some_iff (lists : Lists member key items) (item : α) :
    items.head? = some item ↔
      member item ∧ ∀ other, member other → other ≠ item → key item < key other := by
  cases items with
  | nil =>
      have nobody : ¬ member item := fun isMember =>
        List.not_mem_nil ((lists.mem_iff item).mpr isMember)
      simp [nobody]
  | cons first rest =>
      obtain ⟨least, _⟩ := List.pairwise_cons.mp lists.sorted
      have isMember : member first := (lists.mem_iff first).mp List.mem_cons_self
      have before : ∀ other, member other → other ≠ first → key first < key other := by
        intro other otherMember different
        have listed := (lists.mem_iff other).mpr otherMember
        exact least other ((List.mem_cons.mp listed).resolve_left different)
      rw [List.head?_cons, Option.some.injEq]
      constructor
      · rintro rfl
        exact ⟨isMember, before⟩
      · rintro ⟨itemMember, leastItem⟩
        by_contra different
        have less := before item itemMember (Ne.symm different)
        exact lt_asymm less (leastItem first isMember different)

theorem Lists.eq_nil_iff (lists : Lists member key items) :
    items = [] ↔ ∀ item, ¬ member item := by
  rw [List.eq_nil_iff_forall_not_mem]
  simp only [lists.mem_iff]

/-- Members that are told apart by their keys are listed by sorting them. -/
theorem lists_insertionSort (injective : ∀ first second, member first → member second →
      key first = key second → first = second) (nodup : items.Nodup)
    (members : ∀ item, item ∈ items ↔ member item) :
    Lists member key (items.insertionSort fun first second => key first ≤ key second) := by
  have total : Std.Total fun first second => key first ≤ key second :=
    ⟨fun first second => le_total _ _⟩
  have transitive : IsTrans α fun first second => key first ≤ key second :=
    ⟨fun first second third => le_trans⟩
  have perm := List.perm_insertionSort (fun first second => key first ≤ key second) items
  have sorted := List.pairwise_insertionSort (fun first second => key first ≤ key second) items
  have distinct := perm.nodup_iff.mpr nodup
  refine ⟨(sorted.and distinct).imp_of_mem ?_, fun item => ?_⟩
  · rintro first second firstIn secondIn ⟨notAfter, different⟩
    apply lt_of_le_of_ne notAfter
    intro same
    apply different
    rw [perm.mem_iff, members] at firstIn secondIn
    exact injective first second firstIn secondIn same
  · rw [perm.mem_iff, members]

end Lists

open Classical in
/-- The listing of a set of items; empty if there is none. -/
noncomputable def listing (member : α → Prop) (key : α → κ) : List α :=
  if exists' : ∃ items, Lists member key items then exists'.choose else []

theorem Lists.listing_eq {member : α → Prop} {key : α → κ} {items : List α}
    (lists : Lists member key items) : listing member key = items := by
  have exists' : ∃ items, Lists member key items := ⟨items, lists⟩
  unfold listing
  rw [dif_pos exists']
  exact exists'.choose_spec.eq lists

theorem listing_eq_nil_or_lists (member : α → Prop) (key : α → κ) :
    listing member key = [] ∨ Lists member key (listing member key) := by
  by_cases exists' : ∃ items, Lists member key items
  · obtain ⟨items, lists⟩ := exists'
    rw [lists.listing_eq]
    exact Or.inr lists
  · exact Or.inl (dif_neg exists')

theorem member_of_mem_listing {member : α → Prop} {key : α → κ} {item : α}
    (listed : item ∈ listing member key) : member item := by
  rcases listing_eq_nil_or_lists member key with isNil | lists
  · rw [isNil] at listed
    cases listed
  · exact (lists.mem_iff item).mp listed

theorem nodup_listing (member : α → Prop) (key : α → κ) : (listing member key).Nodup := by
  rcases listing_eq_nil_or_lists member key with isNil | lists
  · rw [isNil]
    exact List.nodup_nil
  · exact lists.nodup

end SortedListing
