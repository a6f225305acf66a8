import Coolbeans.HeapHistories

/-!
# What the heaps promise

Two statements over all histories of the four kinds of job heaps and of the client heap:
what a heap shows after any history, and what happens when an entry is to be removed from
a heap that it is not in.
-/

namespace Coolbeans

open PositionHeap StatefulProgram

/-! ## Content, positions and order -/

/-- What a job heap shows: its content, the removal of any entry inside, and the order in
which its entries are dequeued. -/
structure JobHeapExact (key : HeapKey) (inside gone : Set Nat) (jsm : JSM) : Prop where
  heap : Exact entryStore (jsm.lessIn key) inside gone (jsm.heapState key)
  removes : ∀ entry ∈ inside, ∃ after, removeAt key entry jsm = .ok entry after
  drains : ∃ drained last, times (dequeueAt key) (jsm.heapAt key).length jsm = .ok drained last ∧
    drained.Perm (jsm.heapAt key) ∧ drained.Pairwise (fun a b => jsm.lessIn key a b = true) ∧
    last.heapAt key = []

/-- What the client heap shows. -/
structure ClientHeapExact (inside gone : Set CliPtr) (jsm : JSM) : Prop where
  heap : Exact clientStore (clientResvLess jsm.clientAt) inside gone jsm.clientHeapState
  removes : ∀ cli ∈ inside, ∃ after, clientHeapRemove cli jsm = .ok () after ∧
    (cli :: after.clientHeap).Perm jsm.clientHeap
  drains : ∃ drained last, times clientHeapDequeue jsm.clientHeap.length jsm = .ok drained last ∧
    drained.Perm jsm.clientHeap ∧
    drained.Pairwise (fun a b => clientResvLess jsm.clientAt a b = true) ∧ last.clientHeap = []

theorem heaps_exact :
    (∀ {key : HeapKey} {inside gone : Set Nat} {jsm : JSM}, JobHeapRun key inside gone jsm →
      JobHeapExact key inside gone jsm) ∧
    (∀ {inside gone : Set CliPtr} {jsm : JSM}, ClientHeapRun inside gone jsm →
      ClientHeapExact inside gone jsm) := by
  constructor
  · intro key inside gone jsm run
    have ok := run.ok
    refine ⟨ok.sound.exact (jsm.compares_lessIn key), ?_, ok.drains⟩
    intro entry member
    obtain ⟨after, removed, _⟩ := ok.removes member
    exact ⟨after, removed⟩
  · intro inside gone jsm run
    have ok := run.ok
    refine ⟨ok.sound.exact (compares_clientResvLess jsm.clientAt), ?_, ok.drains⟩
    intro cli member
    obtain ⟨after, removed, _, perm⟩ := ok.removes member
    exact ⟨after, removed, perm⟩

/-- A state machine whose jobs have their addresses as ids. -/
def numberedJobs : JSM :=
  { newJSM with jobAt := fun job => { (default : Job) with id := UInt64.ofNat job } }

/-- The job 5 has entered a heap. -/
def fiveEntered : JSM := (numberedJobs.newEntry 5).pushEntry (.reserved []) 0

/-- Then the job 3 has entered it. -/
def threeEntered : JSM := (fiveEntered.newEntry 3).pushEntry (.reserved []) 1

theorem run_fiveEntered : JobHeapRun (.reserved []) (insert 0 ∅) ∅ fiveEntered := by
  have ran : enqueueAt (.reserved []) 5 numberedJobs = .ok 0 fiveEntered := rfl
  exact .enqueue (.new trivial rfl) (by simp) ran

/-- Two clients have entered the client heap. -/
def clientsEntered : JSM :=
  (newJSM.clientHeapEnqueue ⟨[7], 0⟩).clientHeapEnqueue ⟨[8], 1⟩

theorem run_clientsEntered :
    ClientHeapRun (insert ⟨[8], 1⟩ (insert ⟨[7], 0⟩ ∅)) ((∅ \ {⟨[7], 0⟩}) \ {⟨[8], 1⟩})
      clientsEntered := by
  refine .enqueue (.enqueue (.new rfl) (by simp)) ?_
  rintro other (rfl | none)
  · decide
  · exact absurd none (by simp)

/-- The job 3 comes first, and the client 8 after the clock of the client 7 was put back. -/
theorem heaps_exact_threeFirst :
    JobHeapExact (.reserved []) (insert 1 (insert 0 ∅)) ∅ threeEntered ∧
      threeEntered.heapAt (.reserved []) = [1, 0] ∧
      ∃ after, clientHeapUpdateTickAt ⟨[7], 0⟩ 5 clientsEntered = .ok () after ∧
        ClientHeapExact (insert ⟨[8], 1⟩ (insert ⟨[7], 0⟩ ∅)) ((∅ \ {⟨[7], 0⟩}) \ {⟨[8], 1⟩})
          after ∧
        after.clientHeap = [⟨[8], 1⟩, ⟨[7], 0⟩] := by
  have ran : enqueueAt (.reserved []) 3 fiveEntered = .ok 1 threeEntered := rfl
  have newID : ∀ other ∈ (insert 0 ∅ : Set Nat),
      (fiveEntered.jobOf other).id ≠ (fiveEntered.jobAt 3).id := by
    rintro other (rfl | none)
    · decide +kernel
    · exact absurd none (by simp)
  have jobs := heaps_exact.1 (run_fiveEntered.enqueue newID ran)
  have member : (⟨[7], 0⟩ : CliPtr) ∈ (insert ⟨[8], 1⟩ (insert ⟨[7], 0⟩ ∅) : Set CliPtr) := by
    simp
  refine ⟨jobs, by decide +kernel, _, rfl, ?_, by decide +kernel⟩
  exact heaps_exact.2 (run_clientsEntered.updateTickAt member rfl)

/-! ## Removing an entry that is not inside -/

/-- The removal ends with one of the two errors, and changes nothing. -/
def Refused {α : Type} (removal : JSMProg α) (jsm : JSM) : Prop :=
  ∃ error, (error = .invalidIndex ∨ error = .mismatchJobEntry) ∧ removal jsm = .err error jsm

section Refusal

variable {key : HeapKey} {inside gone : Set Nat} {jsm : JSM} {entry : Nat}

/-- A position below zero is not looked at before the slice is read there. -/
theorem removeAt_of_negative (negative : (jsm.entryAt entry).index < 0) :
    removeAt key entry jsm = .panic .indexOutOfRange := by
  have small : ¬ ((jsm.heapAt key).length : Int) ≤ (jsm.entryAt entry).index := by omega
  simp only [removeAt, if_neg small, if_pos negative]

theorem clientHeapRemove_of_negative {cli : CliPtr} (negative : (jsm.clientAt cli).heapIndex < 0) :
    clientHeapRemove cli jsm = .panic .indexOutOfRange := by
  have small : ¬ (jsm.clientHeap.length : Int) ≤ (jsm.clientAt cli).heapIndex := by omega
  simp only [clientHeapRemove, if_neg small, if_pos negative]

theorem not_refused_of_panic {α : Type} {removal : JSMProg α} {cause : Panic}
    (panics : removal jsm = .panic cause) : ¬ Refused removal jsm := by
  rintro ⟨error, _, fails⟩
  rw [panics] at fails
  cases fails

/-- An outsider that is refused wherever it carries a position is refused nowhere else. -/
theorem refused_iff {α : Type} {removal : JSMProg α} {position : Int} {otherIDs : Prop}
    (panics : position < 0 → removal jsm = .panic .indexOutOfRange)
    (refuses : 0 ≤ position → otherIDs → Refused removal jsm)
    (outsider : position = -1 ∨ otherIDs) : Refused removal jsm ↔ 0 ≤ position := by
  constructor
  · intro refused
    by_contra negative
    exact not_refused_of_panic (panics (by omega)) refused
  · intro nonneg
    rcases outsider with left | others
    · omega
    · exact refuses nonneg others

theorem removeAt_refused (nonneg : 0 ≤ (jsm.entryAt entry).index)
    (otherIDs : ∀ other ∈ jsm.heapAt key, (jsm.jobOf other).id ≠ (jsm.jobOf entry).id) :
    Refused (removeAt key entry) jsm := by
  unfold Refused removeAt
  dsimp only
  split
  next => exact ⟨_, .inl rfl, rfl⟩
  next inRange =>
    rw [if_neg (by omega)]
    have bound : (jsm.entryAt entry).index.toNat < (jsm.heapAt key).length := by omega
    rw [List.getElem?_eq_getElem bound]
    have different := otherIDs _ (List.getElem_mem bound)
    exact ⟨.mismatchJobEntry, .inr rfl, if_pos different.symm⟩

theorem clientHeapRemove_refused {cli : CliPtr} (nonneg : 0 ≤ (jsm.clientAt cli).heapIndex)
    (otherIDs : ∀ other ∈ jsm.clientHeap, other.cliID ≠ cli.cliID) :
    Refused (clientHeapRemove cli) jsm := by
  unfold Refused clientHeapRemove
  dsimp only
  split
  next => exact ⟨_, .inl rfl, rfl⟩
  next inRange =>
    rw [if_neg (by omega)]
    have bound : (jsm.clientAt cli).heapIndex.toNat < jsm.clientHeap.length := by omega
    rw [List.getElem?_eq_getElem bound]
    have different := otherIDs _ (List.getElem_mem bound)
    exact ⟨.mismatchJobEntry, .inr rfl, if_pos different.symm⟩

/-- An entry that has left the heap, or one of another heap whose id is not inside, is
refused exactly if it carries a position.  Entries inside a heap do, and those that have left
it do not. -/
theorem removal_refused_iff {key : HeapKey} {inside gone : Set Nat} {jsm : JSM}
    (jobRun : JobHeapRun key inside gone jsm) {clients left : Set CliPtr} {state : JSM}
    (clientRun : ClientHeapRun clients left state) :
    ((∀ entry ∈ inside, 0 ≤ (jsm.entryAt entry).index) ∧
      (∀ entry ∈ gone, entry ∉ inside ∧ (jsm.entryAt entry).index = -1) ∧
      ∀ entry, (entry ∈ gone ∨ ∀ other ∈ inside, (jsm.jobOf other).id ≠ (jsm.jobOf entry).id) →
        (Refused (removeAt key entry) jsm ↔ 0 ≤ (jsm.entryAt entry).index)) ∧
    (∀ cli ∈ clients, 0 ≤ (state.clientAt cli).heapIndex) ∧
      (∀ cli ∈ left, cli ∉ clients ∧ (state.clientAt cli).heapIndex = -1) ∧
      ∀ cli, (cli ∈ left ∨ ∀ other ∈ clients, other.cliID ≠ cli.cliID) →
        (Refused (clientHeapRemove cli) state ↔ 0 ≤ (state.clientAt cli).heapIndex) := by
  constructor
  · have sound := jobRun.ok.sound
    have out : ∀ entry ∈ gone, entry ∉ inside ∧ (jsm.entryAt entry).index = -1 := sound.out
    refine ⟨?_, out, ?_⟩
    · intro entry member
      obtain ⟨i, position, _⟩ := sound.occupied member
      have isAt : (jsm.entryAt entry).index = i := position
      omega
    · intro entry outsider
      apply refused_iff removeAt_of_negative
      · intro nonneg otherIDs
        exact removeAt_refused nonneg otherIDs
      · exact outsider.imp (fun hasLeft => (out entry hasLeft).2) fun otherIDs other member =>
          otherIDs other ((sound.holds other).mp member)
  · have sound := clientRun.ok.sound
    have out : ∀ cli ∈ left, cli ∉ clients ∧ (state.clientAt cli).heapIndex = -1 := sound.out
    refine ⟨?_, out, ?_⟩
    · intro cli member
      obtain ⟨i, position, _⟩ := sound.occupied member
      have isAt : (state.clientAt cli).heapIndex = i := position
      omega
    · intro cli outsider
      apply refused_iff clientHeapRemove_of_negative
      · intro nonneg otherIDs
        exact clientHeapRemove_refused nonneg otherIDs
      · exact outsider.imp (fun hasLeft => (out cli hasLeft).2) fun otherIDs other member =>
          otherIDs other ((sound.holds other).mp member)

/-- The job 3 has entered another heap. -/
def threeElsewhere : JSM := (fiveEntered.newEntry 3).pushEntry (.reserved [1]) 1

/-- A third client carries a position of another heap. -/
def clientElsewhere : JSM :=
  clientsEntered.updateClient ⟨[9], 2⟩ fun record => { record with heapIndex := 4 }

/-- An entry of another heap is refused. -/
theorem removal_refused_iff_otherHeap :
    Refused (removeAt (.reserved []) 1) threeElsewhere ∧
      Refused (clientHeapRemove ⟨[9], 2⟩) clientElsewhere := by
  have jobs : JobHeapRun (.reserved []) (insert 0 ∅) ∅ threeElsewhere := by
    refine run_fiveEntered.elsewhere ⟨rfl, trivial, ?_, ?_, by decide⟩
    · rintro entry ((rfl | none) | none)
      · decide +kernel
      · exact absurd none (by simp)
      · exact absurd none (by simp)
    · rintro entry (rfl | none)
      · rfl
      · exact absurd none (by simp)
  have clients : ClientHeapRun (insert ⟨[8], 1⟩ (insert ⟨[7], 0⟩ ∅))
      ((∅ \ {⟨[7], 0⟩}) \ {⟨[8], 1⟩}) clientElsewhere :=
    run_clientsEntered.elsewhere ⟨rfl, by simp [clientElsewhere, JSM.updateClient],
      by simp [clientElsewhere, JSM.updateClient]⟩
  obtain ⟨⟨_, _, entry_iff⟩, _, _, client_iff⟩ := removal_refused_iff jobs clients
  constructor
  · refine (entry_iff 1 (.inr ?_)).mpr (by decide +kernel)
    rintro other (rfl | none)
    · decide +kernel
    · exact absurd none (by simp)
  · refine (client_iff ⟨[9], 2⟩ (.inr ?_)).mpr (by decide +kernel)
    rintro other (rfl | rfl | none)
    · decide
    · decide
    · exact absurd none (by simp)

/-- The job 5 has left its heap again. -/
def fiveLeft : JSM :=
  fiveEntered.putHeap (.reserved [])
    (pop entryStore (fiveEntered.lessIn (.reserved [])) (fiveEntered.heapState (.reserved [])))

/-- The client 7 has been removed from the client heap. -/
def clientRemoved : JSM :=
  clientsEntered.putClientHeap
    (remove clientStore (clientResvLess clientsEntered.clientAt) 0 clientsEntered.clientHeapState)

/-- Removing an entry that has left its heap panics, in an empty heap and in another one. -/
theorem removedTwice_panics :
    JobHeapRun (.reserved []) (insert 0 ∅ \ {0}) (insert 0 ∅) fiveLeft ∧
      removeAt (.reserved []) 0 fiveLeft = .panic .indexOutOfRange ∧
      ¬ Refused (removeAt (.reserved []) 0) fiveLeft ∧
      clientHeapRemove ⟨[7], 0⟩ clientsEntered = .ok () clientRemoved ∧
      clientRemoved.clientHeap = [⟨[8], 1⟩] ∧
      clientHeapRemove ⟨[7], 0⟩ clientRemoved = .panic .indexOutOfRange := by
  have left : (fiveLeft.entryAt 0).index < 0 := by decide +kernel
  have removed : (clientRemoved.clientAt ⟨[7], 0⟩).heapIndex < 0 := by decide +kernel
  refine ⟨run_fiveEntered.dequeue rfl, removeAt_of_negative left,
    not_refused_of_panic (removeAt_of_negative left), ?_, by decide +kernel,
    clientHeapRemove_of_negative removed⟩
  exact clientHeapRemove_eq (by decide +kernel) (by decide +kernel)

end Refusal

end Coolbeans
