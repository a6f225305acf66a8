import Coolbeans.ClientInvariant
import Coolbeans.HeapRuns

/-!
# Histories of the heaps

A heap of the state machine through any sequence of its operations, from the moment it
is new.  A history keeps the set of the entries that are inside the heap and the set of
those that have left it.  Between two operations the rest of the program may do anything
that leaves the heap, the positions and the keys of the entries inside it alone.

Removing an entry that has left its heap reads the slice at the position -1, so it
panics; an entry that carries another position is refused with an error.
-/

namespace Coolbeans

open PositionHeap StatefulProgram

/-! ## Job heaps -/

/-- What the rest of the program does between two operations on a job heap. -/
structure AsideOfHeap (key : HeapKey) (inside gone : Set Nat) (before after : JSM) : Prop where
  heap : after.heapAt key = before.heapAt key
  present : after.Present key
  positions : ∀ entry ∈ inside ∪ gone,
    (after.entryAt entry).index = (before.entryAt entry).index
  keys : ∀ entry ∈ inside, after.keyIn key entry = before.keyIn key entry
  nextEntry : before.nextEntry ≤ after.nextEntry

/-- A history of one job heap. -/
inductive JobHeapRun (key : HeapKey) : Set Nat → Set Nat → JSM → Prop
  | new {jsm : JSM} (present : jsm.Present key) (empty : jsm.heapAt key = []) :
      JobHeapRun key ∅ ∅ jsm
  | enqueue {inside gone : Set Nat} {before after : JSM} {job entry : Nat}
      (run : JobHeapRun key inside gone before)
      (newID : ∀ other ∈ inside, (before.jobOf other).id ≠ (before.jobAt job).id)
      (ran : enqueueAt key job before = .ok entry after) :
      JobHeapRun key (insert entry inside) gone after
  | dequeue {inside gone : Set Nat} {before after : JSM} {entry : Nat}
      (run : JobHeapRun key inside gone before) (ran : dequeueAt key before = .ok entry after) :
      JobHeapRun key (inside \ {entry}) (insert entry gone) after
  | removeAt {inside gone : Set Nat} {before after : JSM} {entry found : Nat}
      (run : JobHeapRun key inside gone before) (member : entry ∈ inside)
      (ran : removeAt key entry before = .ok found after) :
      JobHeapRun key (inside \ {entry}) (insert entry gone) after
  | elsewhere {inside gone : Set Nat} {before after : JSM}
      (run : JobHeapRun key inside gone before) (aside : AsideOfHeap key inside gone before after) :
      JobHeapRun key inside gone after

/-- The invariant of a history of a job heap. -/
structure JobHeapOk (key : HeapKey) (inside gone : Set Nat) (jsm : JSM) : Prop where
  sound : Sound entryStore (jsm.keyIn key) inside gone (jsm.heapState key)
  present : jsm.Present key
  allocated : ∀ entry ∈ inside ∪ gone, entry < jsm.nextEntry

theorem HeapKey.sortKey_ne (key : HeapKey) {first second : Job} (different : first.id ≠ second.id) :
    key.sortKey first ≠ key.sortKey second := by
  intro same
  apply different
  apply UInt64.toNat.inj
  cases key <;> exact (Prod.mk.inj (toLex.injective same)).2

section JobHeaps

variable {key : HeapKey} {inside gone : Set Nat} {jsm : JSM} {job entry : Nat}

theorem JSM.present_putHeap (present : jsm.Present key)
    (heap : HeapState Nat (Nat → JobEntry)) : (jsm.putHeap key heap).Present key := by
  cases key with
  | reserved clientID => trivial
  | ready tubeName | delayed tubeName | buried tubeName =>
      exact (JSM.hasTube_setHeap heap.items tubeName).trans present

theorem nextEntry_putHeap (heap : HeapState Nat (Nat → JobEntry)) :
    (jsm.putHeap key heap).nextEntry = jsm.nextEntry :=
  (JSM.setHeap_fields jsm key heap.items).2.2.2.1

theorem dequeueAt_eq (head : (jsm.heapAt key).head? = some entry) :
    dequeueAt key jsm =
      .ok entry (jsm.putHeap key (pop entryStore (jsm.lessIn key) (jsm.heapState key))) := by
  unfold dequeueAt
  cases items : jsm.heapAt key with
  | nil => simp [items] at head
  | cons first rest =>
      rw [items, List.head?_cons] at head
      cases head
      rfl

theorem removeAt_eq {i : Nat} (position : (jsm.entryAt entry).index = i)
    (occupied : (jsm.heapAt key)[i]? = some entry) :
    removeAt key entry jsm = .ok entry
      (jsm.putHeap key (remove entryStore (jsm.lessIn key) i (jsm.heapState key))) := by
  obtain ⟨bound, _⟩ := List.getElem?_eq_some_iff.mp occupied
  have small : ¬ ((jsm.heapAt key).length : Int) ≤ i := by omega
  have nonneg : ¬ (i : Int) < 0 := by omega
  simp only [removeAt, position, if_neg small, if_neg nonneg, Int.toNat_natCast, occupied, ne_eq,
    not_true_eq_false, if_false]

namespace JobHeapOk

theorem fresh (ok : JobHeapOk key inside gone jsm) : jsm.nextEntry ∉ inside ∪ gone :=
  fun member => Nat.lt_irrefl _ (ok.allocated _ member)

theorem newEntry (ok : JobHeapOk key inside gone jsm) (job : Nat) :
    Sound entryStore ((jsm.newEntry job).keyIn key) inside gone
      ((jsm.newEntry job).heapState key) := by
  have old : ∀ entry ∈ inside ∪ gone, (jsm.newEntry job).entryAt entry = jsm.entryAt entry := by
    intro entry member
    apply if_neg
    rintro rfl
    exact ok.fresh member
  refine ok.sound.congr ?_ ?_ ?_
  · cases key <;> rfl
  · intro entry member
    exact congrArg JobEntry.index (old entry member)
  · intro entry member
    simp only [JSM.keyIn, JSM.jobOf, old entry (.inl member)]
    rfl

theorem enqueue (ok : JobHeapOk key inside gone jsm)
    (newID : ∀ other ∈ inside, (jsm.jobOf other).id ≠ (jsm.jobAt job).id) :
    JobHeapOk key (insert jsm.nextEntry inside) gone
      ((jsm.newEntry job).pushEntry key jsm.nextEntry) := by
  have middle := ok.newEntry job
  have present : (jsm.newEntry job).Present key := by
    cases key <;> exact ok.present
  have notIn : jsm.nextEntry ∉ inside := fun member => ok.fresh (.inl member)
  have notGone : gone \ {jsm.nextEntry} = gone :=
    Set.sdiff_singleton_eq_self fun member => ok.fresh (.inr member)
  have newKey : ∀ other ∈ inside, (jsm.newEntry job).keyIn key other ≠
      (jsm.newEntry job).keyIn key jsm.nextEntry := by
    intro other member
    apply key.sortKey_ne
    have different : other ≠ jsm.nextEntry := by
      rintro rfl
      exact notIn member
    have ids := newID other member
    simpa [JSM.jobOf, JSM.newEntry, different] using ids
  have pushed := middle.push ((jsm.newEntry job).compares_lessIn key) notIn newKey
  have inserted := inserted_push entryStore ((jsm.newEntry job).lessIn key) jsm.nextEntry
    ((jsm.newEntry job).heapState key)
  rw [notGone] at pushed
  unfold JSM.pushEntry
  refine ⟨?_, JSM.present_putHeap present _, ?_⟩
  · rw [heapState_putHeap present, keyIn_putHeap]
    · exact pushed
    · intro other
      exact inserted.frame (fun memory => (memory other).job)
        fun memory item position => entryStore_job memory item position other
  · intro other member
    rw [nextEntry_putHeap]
    change other < jsm.nextEntry + 1
    rcases member with (rfl | member) | left
    · exact Nat.lt_succ_self _
    · exact Nat.lt_succ_of_lt (ok.allocated other (.inl member))
    · exact Nat.lt_succ_of_lt (ok.allocated other (.inr left))

theorem leave (ok : JobHeapOk key inside gone jsm) {heap : HeapState Nat (Nat → JobEntry)}
    (member : entry ∈ inside) (removed : Removed entryStore entry (jsm.heapState key) heap)
    (sound : Sound entryStore (jsm.keyIn key) (inside \ {entry}) (insert entry gone) heap) :
    JobHeapOk key (inside \ {entry}) (insert entry gone) (jsm.putHeap key heap) := by
  refine ⟨?_, JSM.present_putHeap ok.present heap, ?_⟩
  · rw [heapState_putHeap ok.present, keyIn_putHeap]
    · exact sound
    · intro other
      exact removed.frame (fun memory => (memory other).job)
        fun memory item position => entryStore_job memory item position other
  · intro other inEither
    rw [nextEntry_putHeap]
    rcases inEither with ⟨inHeap, _⟩ | rfl | left
    · exact ok.allocated other (.inl inHeap)
    · exact ok.allocated other (.inl member)
    · exact ok.allocated other (.inr left)

theorem dequeues (ok : JobHeapOk key inside gone jsm)
    (head : (jsm.heapAt key).head? = some entry) :
    ∃ after, dequeueAt key jsm = .ok entry after ∧ Took key entry jsm after ∧
      JobHeapOk key (inside \ {entry}) (insert entry gone) after := by
  have compares := jsm.compares_lessIn key
  have removed := removed_pop entryStore (jsm.lessIn key) ok.sound.tracked head
  have popped := ok.sound.pop compares head
  have member : entry ∈ jsm.heapAt key := List.mem_of_mem_head? head
  refine ⟨_, dequeueAt_eq head, ?_, ok.leave ((ok.sound.holds entry).mp member) removed popped⟩
  exact took_putHeap ok.present removed fun _ => popped.ordered

theorem removes (ok : JobHeapOk key inside gone jsm) (member : entry ∈ inside) :
    ∃ after, removeAt key entry jsm = .ok entry after ∧
      JobHeapOk key (inside \ {entry}) (insert entry gone) after := by
  obtain ⟨i, position, occupied⟩ := ok.sound.occupied member
  refine ⟨_, removeAt_eq position occupied, ok.leave member ?_ ?_⟩
  · exact removed_remove entryStore (jsm.lessIn key) ok.sound.tracked occupied
  · exact ok.sound.remove (jsm.compares_lessIn key) occupied

theorem elsewhere {after : JSM} (ok : JobHeapOk key inside gone jsm)
    (aside : AsideOfHeap key inside gone jsm after) : JobHeapOk key inside gone after where
  sound := ok.sound.congr aside.heap aside.positions aside.keys
  present := aside.present
  allocated entry member := (ok.allocated entry member).trans_le aside.nextEntry

/-- Dequeuing again and again yields the entries in order. -/
theorem drains (ok : JobHeapOk key inside gone jsm) :
    ∃ drained last, times (dequeueAt key) (jsm.heapAt key).length jsm = .ok drained last ∧
      drained.Perm (jsm.heapAt key) ∧ drained.Pairwise (fun a b => jsm.lessIn key a b = true) ∧
      last.heapAt key = [] := by
  apply times_sorted (fun jsm => jsm.heapAt key) (fun jsm => jsm.lessIn key)
    (fun jsm => ∃ inside gone, JobHeapOk key inside gone jsm)
  · rintro state ⟨inside, gone, ok⟩ nonempty
    obtain ⟨first, rest, items⟩ := List.exists_cons_of_ne_nil nonempty
    have head : (state.heapAt key).head? = some first := by rw [items, List.head?_cons]
    obtain ⟨next, ran, took, nextOk⟩ := ok.dequeues head
    refine ⟨first, next, ran, ⟨_, _, nextOk⟩, took.perm, ?_, ?_⟩
    · intro other member
      obtain ⟨inHeap, different⟩ := (nextOk.sound.holds other).mp member
      exact ok.sound.first_less (state.compares_lessIn key) head inHeap different
    · intro a _ b _
      simp only [JSM.lessIn, JSM.jobOf, took.jobAt, took.sameJob]
  · exact ⟨inside, gone, ok⟩

end JobHeapOk

theorem JobHeapRun.ok (run : JobHeapRun key inside gone jsm) : JobHeapOk key inside gone jsm := by
  induction run with
  | @new jsm present empty =>
      refine ⟨?_, present, by simp⟩
      rw [JSM.heapState, empty]
      exact .new entryStore _ _
  | @enqueue inside gone before after job entry run newID ran ok =>
      cases ran
      exact ok.enqueue newID
  | @dequeue inside gone before after entry run ran ok =>
      cases items : before.heapAt key with
      | nil => simp [dequeueAt, items] at ran
      | cons first rest =>
          have head : (before.heapAt key).head? = some first := by rw [items, List.head?_cons]
          obtain ⟨next, dequeued, _, nextOk⟩ := ok.dequeues head
          cases ran.symm.trans dequeued
          exact nextOk
  | @removeAt inside gone before after entry found run member ran ok =>
      obtain ⟨next, removed, nextOk⟩ := ok.removes member
      cases ran.symm.trans removed
      exact nextOk
  | elsewhere run aside ok => exact ok.elsewhere aside

end JobHeaps

/-! ## The client heap -/

/-- `clientResvHeap.UpdateTickAt` -/
def clientHeapUpdateTickAt (cli : CliPtr) (newTickAt : Int64) : JSMProg Unit := do
  updateClient cli fun record => { record with tickAt := newTickAt }
  clientHeapFix cli

/-- What the rest of the program does between two operations on the client heap. -/
structure AsideOfClients (inside gone : Set CliPtr) (before after : JSM) : Prop where
  heap : after.clientHeap = before.clientHeap
  positions : ∀ cli ∈ inside ∪ gone,
    (after.clientAt cli).heapIndex = (before.clientAt cli).heapIndex
  keys : ∀ cli ∈ inside, (after.clientAt cli).tickAt = (before.clientAt cli).tickAt

/-- A history of the client heap.  An entry that has left it may come back. -/
inductive ClientHeapRun : Set CliPtr → Set CliPtr → JSM → Prop
  | new {jsm : JSM} (empty : jsm.clientHeap = []) : ClientHeapRun ∅ ∅ jsm
  | enqueue {inside gone : Set CliPtr} {before : JSM} {cli : CliPtr}
      (run : ClientHeapRun inside gone before)
      (newID : ∀ other ∈ inside, other.cliID ≠ cli.cliID) :
      ClientHeapRun (insert cli inside) (gone \ {cli}) (before.clientHeapEnqueue cli)
  | dequeue {inside gone : Set CliPtr} {before after : JSM} {cli : CliPtr}
      (run : ClientHeapRun inside gone before) (ran : clientHeapDequeue before = .ok cli after) :
      ClientHeapRun (inside \ {cli}) (insert cli gone) after
  | remove {inside gone : Set CliPtr} {before after : JSM} {cli : CliPtr}
      (run : ClientHeapRun inside gone before) (member : cli ∈ inside)
      (ran : clientHeapRemove cli before = .ok () after) :
      ClientHeapRun (inside \ {cli}) (insert cli gone) after
  | updateTickAt {inside gone : Set CliPtr} {before after : JSM} {cli : CliPtr}
      {newTickAt : Int64} (run : ClientHeapRun inside gone before) (member : cli ∈ inside)
      (ran : clientHeapUpdateTickAt cli newTickAt before = .ok () after) :
      ClientHeapRun inside gone after
  | elsewhere {inside gone : Set CliPtr} {before after : JSM}
      (run : ClientHeapRun inside gone before)
      (aside : AsideOfClients inside gone before after) : ClientHeapRun inside gone after

/-- The invariant of a history of the client heap. -/
structure ClientHeapOk (inside gone : Set CliPtr) (jsm : JSM) : Prop where
  sound : Sound clientStore (clientSortKey jsm.clientAt) inside gone jsm.clientHeapState
  ids : Set.InjOn CliPtr.cliID inside

section ClientHeap

variable {inside gone : Set CliPtr} {jsm : JSM} {cli : CliPtr}

/-- A heap operation writes nothing but positions, so no key changes. -/
theorem clientSortKey_of_frame {heap : HeapState CliPtr (CliPtr → ClientResvEntry)}
    (frame : ∀ view : (CliPtr → ClientResvEntry) → CliPtr → ClientResvEntry,
      (∀ memory item position, view (clientStore.set memory item position) = view memory) →
        view heap.mem = view jsm.clientAt) :
    clientSortKey heap.mem = clientSortKey jsm.clientAt := by
  have same := frame (fun memory other => (memory other).content) fun memory item position =>
    funext fun other => clientStore_content memory item position other
  exact clientSortKey_congr (congrFun same)

theorem clientSortKey_injOn (clientAt : CliPtr → ClientResvEntry)
    (ids : Set.InjOn CliPtr.cliID inside) : Set.InjOn (clientSortKey clientAt) inside := by
  intro first firstIn second secondIn same
  exact ids firstIn secondIn (Prod.mk.inj (toLex.injective same)).2

namespace ClientHeapOk

theorem enqueue (ok : ClientHeapOk inside gone jsm)
    (newID : ∀ other ∈ inside, other.cliID ≠ cli.cliID) :
    ClientHeapOk (insert cli inside) (gone \ {cli}) (jsm.clientHeapEnqueue cli) := by
  have compares := compares_clientResvLess jsm.clientAt
  have absent : cli ∉ inside := fun member => newID cli member rfl
  have newKey : ∀ other ∈ inside,
      clientSortKey jsm.clientAt other ≠ clientSortKey jsm.clientAt cli := by
    intro other member same
    exact newID other member (Prod.mk.inj (toLex.injective same)).2
  have pushed := ok.sound.push compares absent newKey
  have inserted := inserted_push clientStore (clientResvLess jsm.clientAt) cli jsm.clientHeapState
  constructor
  · rw [← clientSortKey_of_frame inserted.frame] at pushed
    exact pushed
  · rw [Set.injOn_insert absent]
    refine ⟨ok.ids, ?_⟩
    rintro ⟨other, member, same⟩
    exact newID other member same

theorem leave (ok : ClientHeapOk inside gone jsm)
    {heap : HeapState CliPtr (CliPtr → ClientResvEntry)}
    (removed : Removed clientStore cli jsm.clientHeapState heap)
    (sound : Sound clientStore (clientSortKey jsm.clientAt) (inside \ {cli}) (insert cli gone)
      heap) :
    ClientHeapOk (inside \ {cli}) (insert cli gone) (jsm.putClientHeap heap) := by
  constructor
  · rw [← clientSortKey_of_frame removed.frame] at sound
    exact sound
  · exact ok.ids.mono Set.sdiff_subset

theorem dequeues (ok : ClientHeapOk inside gone jsm) (head : jsm.clientHeap.head? = some cli) :
    ∃ after, clientHeapDequeue jsm = .ok cli after ∧
      ClientHeapOk (inside \ {cli}) (insert cli gone) after ∧
      (cli :: after.clientHeap).Perm jsm.clientHeap ∧
      clientSortKey after.clientAt = clientSortKey jsm.clientAt := by
  have compares := compares_clientResvLess jsm.clientAt
  have removed := removed_pop clientStore (clientResvLess jsm.clientAt) ok.sound.tracked head
  exact ⟨_, clientHeapDequeue_eq head, ok.leave removed (ok.sound.pop compares head),
    removed.perm, clientSortKey_of_frame removed.frame⟩

theorem removes (ok : ClientHeapOk inside gone jsm) (member : cli ∈ inside) :
    ∃ after, clientHeapRemove cli jsm = .ok () after ∧
      ClientHeapOk (inside \ {cli}) (insert cli gone) after ∧
      (cli :: after.clientHeap).Perm jsm.clientHeap := by
  have compares := compares_clientResvLess jsm.clientAt
  obtain ⟨i, position, occupied⟩ := ok.sound.occupied member
  have removed := removed_remove clientStore (clientResvLess jsm.clientAt) ok.sound.tracked
    occupied
  exact ⟨_, clientHeapRemove_eq position occupied,
    ok.leave removed (ok.sound.remove compares occupied), removed.perm⟩

theorem updatesTickAt (ok : ClientHeapOk inside gone jsm) (member : cli ∈ inside)
    (newTickAt : Int64) :
    ∃ after, clientHeapUpdateTickAt cli newTickAt jsm = .ok () after ∧
      ClientHeapOk inside gone after := by
  have ticked := ticked_updateClient jsm cli newTickAt
  obtain ⟨i, position, occupied⟩ := ok.sound.occupied member
  let middle := jsm.updateClient cli fun record => { record with tickAt := newTickAt }
  have moved : (middle.clientAt cli).heapIndex = i := (ticked.position cli).trans position
  -- the new key is written before the entry is sifted to its place
  have written : Sound clientStore (clientSortKey jsm.clientAt) inside gone
      middle.clientHeapState :=
    ok.sound.congr rfl (fun other _ => ticked.position other) fun _ _ => rfl
  have fixed := written.fix (compares_clientResvLess middle.clientAt) occupied
    (fun other _ different => ticked.otherKey other different)
    (clientSortKey_injOn middle.clientAt ok.ids)
  have rearranged := rearranged_fix clientStore (clientResvLess middle.clientAt) i
    middle.clientHeapState
  refine ⟨_, clientHeapFix_eq moved occupied, ?_, ok.ids⟩
  rw [← clientSortKey_of_frame rearranged.frame] at fixed
  exact fixed

theorem elsewhere {after : JSM} (ok : ClientHeapOk inside gone jsm)
    (aside : AsideOfClients inside gone jsm after) : ClientHeapOk inside gone after := by
  refine ⟨ok.sound.congr aside.heap aside.positions ?_, ok.ids⟩
  intro other member
  simp only [clientSortKey, aside.keys other member]

/-- Dequeuing again and again yields the entries in order. -/
theorem drains (ok : ClientHeapOk inside gone jsm) :
    ∃ drained last, times clientHeapDequeue jsm.clientHeap.length jsm = .ok drained last ∧
      drained.Perm jsm.clientHeap ∧
      drained.Pairwise (fun a b => clientResvLess jsm.clientAt a b = true) ∧
      last.clientHeap = [] := by
  apply times_sorted (fun jsm => jsm.clientHeap) (fun jsm => clientResvLess jsm.clientAt)
    (fun jsm => ∃ inside gone, ClientHeapOk inside gone jsm)
  · rintro state ⟨inside, gone, ok⟩ nonempty
    obtain ⟨first, rest, items⟩ := List.exists_cons_of_ne_nil nonempty
    have head : state.clientHeap.head? = some first := by rw [items, List.head?_cons]
    obtain ⟨next, ran, nextOk, perm, keys⟩ := ok.dequeues head
    refine ⟨first, next, ran, ⟨_, _, nextOk⟩, perm, ?_, ?_⟩
    · intro other member
      obtain ⟨inHeap, different⟩ := (nextOk.sound.holds other).mp member
      exact ok.sound.first_less (compares_clientResvLess state.clientAt) head inHeap different
    · intro a _ b _
      rw [Bool.eq_iff_iff, compares_clientResvLess, compares_clientResvLess, keys]
  · exact ⟨inside, gone, ok⟩

end ClientHeapOk

theorem ClientHeapRun.ok (run : ClientHeapRun inside gone jsm) : ClientHeapOk inside gone jsm := by
  induction run with
  | @new jsm empty =>
      refine ⟨?_, Set.injOn_empty _⟩
      rw [JSM.clientHeapState, empty]
      exact .new clientStore _ _
  | enqueue run newID ok => exact ok.enqueue newID
  | @dequeue inside gone before after cli run ran ok =>
      cases items : before.clientHeap with
      | nil => simp [clientHeapDequeue, items] at ran
      | cons first rest =>
          have head : before.clientHeap.head? = some first := by rw [items, List.head?_cons]
          obtain ⟨next, dequeued, nextOk, _⟩ := ok.dequeues head
          cases ran.symm.trans dequeued
          exact nextOk
  | @remove inside gone before after cli run member ran ok =>
      obtain ⟨next, removed, nextOk, _⟩ := ok.removes member
      cases ran.symm.trans removed
      exact nextOk
  | @updateTickAt inside gone before after cli newTickAt run member ran ok =>
      obtain ⟨next, updated, nextOk⟩ := ok.updatesTickAt member newTickAt
      cases ran.symm.trans updated
      exact nextOk
  | elsewhere run aside ok => exact ok.elsewhere aside

end ClientHeap

end Coolbeans
