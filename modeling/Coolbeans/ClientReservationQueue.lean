import Coolbeans.FiniteMap
import Coolbeans.JobRecord
import Mathlib.Data.List.Perm.Basic
import Mathlib.Data.List.Nodup

/-!
# Queues of client entries

`clientResvQueue` keeps client entries twice: in a linked list, in the order
in which they were enqueued, and in a map from client ids to list elements.
Here both are kept together with the facts that tie them to each other, so
that the two sides of a queue cannot disagree.

Entries are pointers into the memory of the state machine.  The id of an entry
never changes, so its pointer carries it.
-/

namespace Coolbeans

open FiniteMap

/-- A pointer to a client entry. -/
structure CliPtr where
  cliID : ClientID
  addr : Nat
  deriving DecidableEq, Repr, Inhabited

/-- An element of a linked list, and the entry it holds. -/
structure Element where
  addr : Nat
  value : CliPtr
  deriving DecidableEq, Repr

/-- A queue of client entries, indexed by client id. -/
structure ClientResvQueue where
  m : FMap ClientID Element
  l : List Element
  next : Nat
  indexed : ∀ id elem, m.lookup id = some elem ↔ elem ∈ l ∧ elem.value.cliID = id
  ids_nodup : (l.map (·.value.cliID)).Nodup
  addrs_nodup : (l.map (·.addr)).Nodup
  fresh : ∀ elem ∈ l, elem.addr < next

namespace ClientResvQueue

/-- `newClientResvQueue` -/
def empty : ClientResvQueue where
  m := ∅
  l := []
  next := 0
  indexed := by simp
  ids_nodup := by simp
  addrs_nodup := by simp
  fresh := by simp

instance : Inhabited ClientResvQueue := ⟨empty⟩

variable (queue : ClientResvQueue)

/-- The entries of a queue, first come first. -/
def entries : List CliPtr :=
  queue.l.map (·.value)

def contains (entry : CliPtr) : Bool :=
  (queue.m.lookup entry.cliID).isSome

theorem contains_iff (entry : CliPtr) :
    queue.contains entry = true ↔ entry.cliID ∈ queue.entries.map (·.cliID) := by
  simp only [contains, Option.isSome_iff_exists, queue.indexed, entries, List.map_map,
    List.mem_map, Function.comp]

def enqueue (entry : CliPtr) : Except Err ClientResvQueue :=
  if present : queue.contains entry = true then
    .error .entryExists
  else
    .ok
      { m := queue.m.insert entry.cliID ⟨queue.next, entry⟩
        l := queue.l ++ [⟨queue.next, entry⟩]
        next := queue.next + 1
        indexed := by
          have absent : ∀ elem ∈ queue.l, elem.value.cliID ≠ entry.cliID := by
            intro elem member same
            apply present
            rw [contains_iff]
            exact List.mem_map.mpr ⟨elem.value, List.mem_map.mpr ⟨elem, member, rfl⟩, same⟩
          intro id elem
          rw [lookup_insert]
          split
          next same =>
            subst id
            constructor
            · intro found
              cases found
              simp
            · rintro ⟨member, sameId⟩
              rcases List.mem_append.mp member with old | new
              · exact absurd sameId (absent elem old)
              · rw [List.mem_singleton.mp new]
          next different =>
            rw [queue.indexed]
            constructor
            · rintro ⟨member, sameId⟩
              exact ⟨List.mem_append_left _ member, sameId⟩
            · rintro ⟨member, sameId⟩
              rcases List.mem_append.mp member with old | new
              · exact ⟨old, sameId⟩
              · rw [List.mem_singleton.mp new] at sameId
                exact absurd sameId.symm different
        ids_nodup := by
          rw [List.map_append, List.nodup_append]
          refine ⟨queue.ids_nodup, by simp, ?_⟩
          intro id old other new same
          apply present
          rw [contains_iff]
          simp only [List.map_cons, List.map_nil, List.mem_singleton] at new
          simpa [entries, ← new, ← same] using old
        addrs_nodup := by
          rw [List.map_append, List.nodup_append]
          refine ⟨queue.addrs_nodup, by simp, ?_⟩
          intro addr old other new same
          obtain ⟨elem, member, rfl⟩ := List.mem_map.mp old
          simp only [List.map_cons, List.map_nil, List.mem_singleton] at new
          have := queue.fresh elem member
          omega
        fresh := by
          intro elem member
          rcases List.mem_append.mp member with old | new
          · have := queue.fresh elem old
            omega
          · rw [List.mem_singleton.mp new]
            exact Nat.lt_succ_self queue.next }

def find (clientID : ClientID) : Except Err CliPtr :=
  match queue.m.lookup clientID with
  | none => .error .entryMissing
  | some elem => .ok elem.value

def remove (entry : CliPtr) : Except Err ClientResvQueue :=
  match found : queue.m.lookup entry.cliID with
  | none => .error .entryMissing
  | some elem =>
      .ok
        { m := queue.m.erase entry.cliID
          l := queue.l.filter (·.addr ≠ elem.addr)
          next := queue.next
          indexed := by
            have listed := (queue.indexed _ _).mp found
            intro id other
            rw [lookup_erase, List.mem_filter, decide_eq_true_eq]
            split
            next same =>
              subst id
              constructor
              · intro impossible
                cases impossible
              · rintro ⟨⟨member, different⟩, sameId⟩
                have again := (queue.indexed _ _).mpr ⟨member, sameId⟩
                rw [found] at again
                exact absurd (congrArg Element.addr (Option.some.inj again)).symm different
            next different =>
              rw [queue.indexed]
              constructor
              · rintro ⟨member, sameId⟩
                refine ⟨⟨member, fun sameAddr => different ?_⟩, sameId⟩
                have := List.inj_on_of_nodup_map queue.addrs_nodup member listed.1 sameAddr
                rw [← sameId, this, listed.2]
              · rintro ⟨⟨member, _⟩, sameId⟩
                exact ⟨member, sameId⟩
          ids_nodup := queue.ids_nodup.sublist (List.filter_sublist.map _)
          addrs_nodup := queue.addrs_nodup.sublist (List.filter_sublist.map _)
          fresh := fun other member => queue.fresh other (List.mem_of_mem_filter member) }

def len : Nat :=
  queue.m.keys.length

/-- The first entry.  Despite its name it does not leave the queue. -/
def dequeue : Except Err CliPtr :=
  match queue.l with
  | [] => .error .containerEmpty
  | first :: _ => .ok first.value

/-! ## What the operations do to the entries -/

@[simp]
theorem entries_empty : empty.entries = [] :=
  rfl

theorem nodup_ids : (queue.entries.map (·.cliID)).Nodup := by
  have ids := queue.ids_nodup
  rwa [entries, List.map_map]

theorem nodup_entries : queue.entries.Nodup :=
  queue.nodup_ids.of_map _

theorem eq_of_cliID_eq {first second : CliPtr} (firstMem : first ∈ queue.entries)
    (secondMem : second ∈ queue.entries) (same : first.cliID = second.cliID) :
    first = second :=
  List.inj_on_of_nodup_map queue.nodup_ids firstMem secondMem same

theorem find_eq_ok_iff (clientID : ClientID) (entry : CliPtr) :
    queue.find clientID = .ok entry ↔ entry ∈ queue.entries ∧ entry.cliID = clientID := by
  unfold find
  constructor
  · intro found
    cases present : queue.m.lookup clientID with
    | none => simp [present] at found
    | some elem =>
        simp only [present, Except.ok.injEq] at found
        obtain ⟨member, same⟩ := (queue.indexed _ _).mp present
        subst entry
        exact ⟨List.mem_map.mpr ⟨elem, member, rfl⟩, same⟩
  · rintro ⟨member, same⟩
    obtain ⟨elem, elemMem, rfl⟩ := List.mem_map.mp member
    rw [(queue.indexed _ _).mpr ⟨elemMem, same⟩]

theorem find_eq_error_iff (clientID : ClientID) (error : Err) :
    queue.find clientID = .error error ↔
      error = .entryMissing ∧ ∀ entry ∈ queue.entries, entry.cliID ≠ clientID := by
  constructor
  · intro missing
    refine ⟨?_, fun entry member same => ?_⟩
    · unfold find at missing
      cases present : queue.m.lookup clientID <;> simp_all
    · rw [(queue.find_eq_ok_iff clientID entry).mpr ⟨member, same⟩] at missing
      cases missing
  · rintro ⟨rfl, absent⟩
    cases found : queue.find clientID with
    | ok entry =>
        obtain ⟨member, same⟩ := (queue.find_eq_ok_iff clientID entry).mp found
        exact absurd same (absent entry member)
    | error other =>
        unfold find at found
        cases present : queue.m.lookup clientID <;> simp_all

theorem enqueue_of_absent (entry : CliPtr)
    (absent : ∀ other ∈ queue.entries, other.cliID ≠ entry.cliID) :
    ∃ after, queue.enqueue entry = .ok after ∧ after.entries = queue.entries ++ [entry] := by
  have missing : ¬ queue.contains entry = true := by
    rw [contains_iff]
    intro member
    obtain ⟨other, otherMem, same⟩ := List.mem_map.mp member
    exact absent other otherMem same
  unfold enqueue
  rw [dif_neg missing]
  exact ⟨_, rfl, by simp [entries]⟩

theorem enqueue_of_present {entry other : CliPtr} (member : other ∈ queue.entries)
    (same : other.cliID = entry.cliID) : queue.enqueue entry = .error .entryExists := by
  have present : queue.contains entry = true := by
    rw [contains_iff]
    exact List.mem_map.mpr ⟨other, member, same⟩
  unfold enqueue
  rw [dif_pos present]

theorem remove_of_mem {entry : CliPtr} (member : entry ∈ queue.entries) :
    ∃ after, queue.remove entry = .ok after ∧
      after.entries = queue.entries.filter (· ≠ entry) := by
  obtain ⟨elem, elemMem, rfl⟩ := List.mem_map.mp member
  have found := (queue.indexed _ _).mpr ⟨elemMem, rfl⟩
  unfold remove
  split
  next missing => rw [found] at missing; cases missing
  next other present =>
    rw [found] at present
    cases present
    refine ⟨_, rfl, ?_⟩
    simp only [entries, List.filter_map]
    congr 1
    apply List.filter_congr
    intro other otherMem
    simp only [Function.comp, decide_eq_decide, ne_eq, not_iff_not]
    constructor
    · intro sameAddr
      exact congrArg Element.value
        (List.inj_on_of_nodup_map queue.addrs_nodup otherMem elemMem sameAddr)
    · intro sameValue
      exact congrArg Element.addr (List.inj_on_of_nodup_map queue.ids_nodup otherMem elemMem
        (congrArg CliPtr.cliID sameValue))

theorem subset_of_remove {entry : CliPtr} {after : ClientResvQueue}
    (removes : queue.remove entry = .ok after) :
    ∀ other ∈ after.entries, other ∈ queue.entries := by
  unfold remove at removes
  split at removes
  next => cases removes
  next elem _ =>
    cases removes
    intro other member
    obtain ⟨kept, inside, rfl⟩ := List.mem_map.mp member
    exact List.mem_map.mpr ⟨kept, List.mem_of_mem_filter inside, rfl⟩

theorem eq_entryMissing_of_remove {entry : CliPtr} {error : Err}
    (fails : queue.remove entry = .error error) : error = .entryMissing := by
  unfold remove at fails
  split at fails
  next => cases fails; rfl
  next => cases fails

theorem remove_of_absent {entry : CliPtr}
    (absent : ∀ other ∈ queue.entries, other.cliID ≠ entry.cliID) :
    queue.remove entry = .error .entryMissing := by
  unfold remove
  split
  next => rfl
  next elem present =>
    obtain ⟨member, same⟩ := (queue.indexed _ _).mp present
    exact absurd same (absent elem.value (List.mem_map.mpr ⟨elem, member, rfl⟩))

theorem len_eq_length : queue.len = queue.entries.length := by
  have perm : queue.m.keys.Perm (queue.entries.map (·.cliID)) := by
    rw [List.perm_ext_iff_of_nodup queue.m.keys_nodup queue.nodup_ids]
    intro id
    rw [mem_keys_iff, Option.isSome_iff_exists]
    simp [queue.indexed, entries]
  simpa [len] using perm.length_eq

theorem dequeue_eq (queue : ClientResvQueue) :
    queue.dequeue =
      match queue.entries.head? with
      | none => .error .containerEmpty
      | some entry => .ok entry := by
  unfold dequeue entries
  cases queue.l <;> rfl

end ClientResvQueue

end Coolbeans
