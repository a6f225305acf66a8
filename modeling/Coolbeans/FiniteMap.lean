import Mathlib.Data.List.AList

/-!
# Finite maps with a list of keys

Mathlib's association lists at a fixed type of values, used as the maps of an
imperative program.  The operations are stated without the dependency of a
value's type on its key, so that a lookup rewrites in its key; the lemmas give
a lookup after an insertion or a deletion.
-/

namespace FiniteMap

/-- A finite map from `κ` to `ν`. -/
structure FMap (κ ν : Type) where
  toAList : AList fun _ : κ => ν

namespace FMap

variable {κ ν : Type}

instance : EmptyCollection (FMap κ ν) := ⟨⟨∅⟩⟩

def keys (map : FMap κ ν) : List κ :=
  map.toAList.keys

theorem keys_nodup (map : FMap κ ν) : map.keys.Nodup :=
  map.toAList.keys_nodup

variable [DecidableEq κ]

def lookup (map : FMap κ ν) (read : κ) : Option ν :=
  map.toAList.lookup read

def insert (map : FMap κ ν) (written : κ) (value : ν) : FMap κ ν :=
  ⟨map.toAList.insert written value⟩

def erase (map : FMap κ ν) (erased : κ) : FMap κ ν :=
  ⟨map.toAList.erase erased⟩

end FMap

/-- The order in which a loop walks the keys of a map. -/
structure MapOrder (κ : Type) where
  visit : List κ → List κ
  perm : ∀ keys, (visit keys).Perm keys

def MapOrder.inOrder {κ : Type} : MapOrder κ where
  visit := id
  perm _ := List.Perm.refl _

variable {κ ν : Type} [DecidableEq κ]

theorem lookup_insert (map : FMap κ ν) (written read : κ) (value : ν) :
    (map.insert written value).lookup read =
      if read = written then some value else map.lookup read := by
  simp only [FMap.lookup, FMap.insert]
  split
  next same => rw [same, AList.lookup_insert]
  next different => rw [AList.lookup_insert_ne different]

theorem lookup_erase (map : FMap κ ν) (erased read : κ) :
    (map.erase erased).lookup read = if read = erased then none else map.lookup read := by
  simp only [FMap.lookup, FMap.erase]
  split
  next same => rw [same, AList.lookup_erase]
  next different => rw [AList.lookup_erase_ne different]

@[simp]
theorem lookup_empty (read : κ) : (∅ : FMap κ ν).lookup read = none :=
  AList.lookup_empty read

theorem mem_keys_iff (map : FMap κ ν) (read : κ) :
    read ∈ map.keys ↔ (map.lookup read).isSome = true := by
  unfold FMap.keys FMap.lookup
  rw [AList.lookup_isSome, AList.mem_keys]

end FiniteMap
