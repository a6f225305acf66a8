import Coolbeans.Operation

/-!
# The two views of a state

The state machine has two halves.  The job view holds the job index, the job
heaps and the memory of jobs and heap entries; the client view holds the
client queue, the client heap, the wait queues and the memory of client
entries.  A tube record carries parts of both, so its creation, its deletion
and its updates are looked at here once, through the heaps and queues that the
views read.
-/

namespace Coolbeans

open FiniteMap PositionHeap StatefulProgram

namespace JSM

/-- What the operations on clients leave alone. -/
def jobView (jsm : JSM) :=
  (jsm.jobs, jsm.jobAt, jsm.nextJob, jsm.entryAt, jsm.nextEntry, jsm.heapAt)

/-- What the operations on jobs leave alone. -/
def clientView (jsm : JSM) :=
  (jsm.clients, jsm.clientHeap, jsm.clientAt, jsm.nextClient,
    fun tubeName => (jsm.waitingAt tubeName).entries)

/-- The record that a heap is part of is there. -/
def Present (jsm : JSM) : HeapKey → Prop
  | .ready tubeName | .delayed tubeName | .buried tubeName => jsm.hasTube tubeName = true
  | .reserved _ => True

/-! ## Tube records -/

section Tubes

variable (jsm : JSM) (tubeName other : TubeName)

theorem lookup_modifyTube (change : TubeState → TubeState) :
    (jsm.modifyTube tubeName change).tubes.lookup other =
      if other = tubeName then (jsm.tubes.lookup tubeName).map change
      else jsm.tubes.lookup other := by
  unfold modifyTube
  cases present : jsm.tubes.lookup tubeName with
  | none =>
      by_cases same : other = tubeName
      · subst same
        simp [present]
      · simp [same]
  | some tube =>
      simp only [lookup_insert]
      by_cases same : other = tubeName <;> simp [same]

theorem lookup_createTube :
    (jsm.createTube tubeName).tubes.lookup other =
      if other = tubeName then some ((jsm.tubes.lookup tubeName).getD TubeState.new)
      else jsm.tubes.lookup other := by
  unfold createTube
  cases present : jsm.tubes.lookup tubeName with
  | none =>
      simp only [lookup_insert]
      by_cases same : other = tubeName <;> simp [same]
  | some tube =>
      by_cases same : other = tubeName
      · subst same
        simp [present]
      · simp [same]

@[simp]
theorem heapAt_createTube (key : HeapKey) :
    (jsm.createTube tubeName).heapAt key = jsm.heapAt key := by
  have reserved : (jsm.createTube tubeName).reservedJobs = jsm.reservedJobs := by
    unfold createTube
    split <;> rfl
  cases key with
  | reserved clientID => simp [heapAt, reserved]
  | ready other | delayed other | buried other =>
      simp only [heapAt, lookup_createTube]
      by_cases same : other = tubeName
      · subst same
        cases jsm.tubes.lookup other <;> simp [TubeState.new]
      · simp [same]

@[simp]
theorem waitingAt_createTube : (jsm.createTube tubeName).waitingAt other = jsm.waitingAt other := by
  simp only [waitingAt, lookup_createTube]
  by_cases same : other = tubeName
  · subst same
    cases jsm.tubes.lookup other <;> simp [TubeState.new]
  · simp [same]

theorem hasTube_createTube :
    (jsm.createTube tubeName).hasTube other = (decide (other = tubeName) || jsm.hasTube other) := by
  simp only [hasTube, lookup_createTube]
  by_cases same : other = tubeName <;> simp [same]

theorem hasTube_modifyTube (change : TubeState → TubeState) :
    (jsm.modifyTube tubeName change).hasTube other = jsm.hasTube other := by
  simp only [hasTube, lookup_modifyTube]
  by_cases same : other = tubeName
  · subst same
    simp
  · simp [same]

theorem lookup_cleanup :
    (jsm.cleanup tubeName).tubes.lookup other = jsm.tubes.lookup other ∨
      other = tubeName ∧ (jsm.cleanup tubeName).tubes.lookup other = none ∧
        ∃ tube, jsm.tubes.lookup other = some tube ∧ tube.readyJobs = [] ∧
          tube.delayedJobs = [] ∧ tube.waiting.entries = [] ∧ tube.buriedJobs = [] := by
  unfold cleanup
  cases present : jsm.tubes.lookup tubeName with
  | none => simp
  | some tube =>
      simp only
      split
      next emptied =>
        by_cases same : other = tubeName
        · subst same
          right
          have noneWaiting : tube.waiting.entries = [] := by
            have := emptied.2.2.1
            rwa [ClientResvQueue.len_eq_length, List.length_eq_zero_iff] at this
          exact ⟨rfl, by simp [lookup_erase], tube, present,
            emptied.1, emptied.2.1, noneWaiting, emptied.2.2.2⟩
        · left
          simp [lookup_erase, same]
      next => left; rfl

@[simp]
theorem heapAt_cleanup (key : HeapKey) : (jsm.cleanup tubeName).heapAt key = jsm.heapAt key := by
  have reserved : (jsm.cleanup tubeName).reservedJobs = jsm.reservedJobs := by
    unfold cleanup
    split
    · rfl
    · split <;> rfl
  cases key with
  | reserved clientID => simp [heapAt, reserved]
  | ready other | delayed other | buried other =>
      rcases jsm.lookup_cleanup tubeName other with same | ⟨_, gone, tube, present, emptied⟩
      · simp [heapAt, same]
      · simp [heapAt, gone, present, emptied]

@[simp]
theorem waiting_cleanup :
    ((jsm.cleanup tubeName).waitingAt other).entries = (jsm.waitingAt other).entries := by
  rcases jsm.lookup_cleanup tubeName other with same | ⟨_, gone, tube, present, emptied⟩
  · simp [waitingAt, same]
  · simp [waitingAt, gone, present, emptied]

theorem hasTube_of_waiting {cli : CliPtr} (member : cli ∈ (jsm.waitingAt tubeName).entries) :
    jsm.hasTube tubeName = true := by
  unfold waitingAt at member
  unfold hasTube
  cases present : jsm.tubes.lookup tubeName with
  | none => simp [present] at member
  | some tube => rfl

theorem present_of_mem {key : HeapKey} {entry : Nat} (member : entry ∈ jsm.heapAt key) :
    jsm.Present key := by
  cases key with
  | reserved clientID => trivial
  | ready tubeName | delayed tubeName | buried tubeName =>
      simp only [heapAt] at member
      simp only [Present, hasTube]
      cases present : jsm.tubes.lookup tubeName with
      | none => simp [present] at member
      | some tube => rfl

theorem mem_keys_iff_hasTube : tubeName ∈ jsm.tubes.keys ↔ jsm.hasTube tubeName = true :=
  mem_keys_iff _ _

end Tubes

/-! ## Heaps and queues -/

section Heaps

variable {jsm : JSM} {key : HeapKey}

theorem heapAt_setHeap (present : jsm.Present key) (items : List Nat) (other : HeapKey) :
    (jsm.setHeap key items).heapAt other = if other = key then items else jsm.heapAt other := by
  cases key with
  | reserved clientID =>
      cases other with
      | reserved otherID =>
          simp only [setHeap, heapAt, lookup_insert, HeapKey.reserved.injEq]
          split <;> rfl
      | ready _ | delayed _ | buried _ => rfl
  | ready tubeName | delayed tubeName | buried tubeName =>
      obtain ⟨tube, found⟩ := Option.isSome_iff_exists.mp present
      cases other with
      | reserved clientID => simp [setHeap, heapAt, modifyTube, found]
      | ready other | delayed other | buried other =>
          by_cases same : other = tubeName
          · subst other
            simp [setHeap, heapAt, lookup_modifyTube, found]
          · simp [setHeap, heapAt, lookup_modifyTube, same]

theorem setHeap_fields (jsm : JSM) (key : HeapKey) (items : List Nat) :
    (jsm.setHeap key items).jobs = jsm.jobs ∧ (jsm.setHeap key items).jobAt = jsm.jobAt ∧
      (jsm.setHeap key items).nextJob = jsm.nextJob ∧
      (jsm.setHeap key items).nextEntry = jsm.nextEntry ∧
      (jsm.setHeap key items).clients = jsm.clients ∧
      (jsm.setHeap key items).clientHeap = jsm.clientHeap ∧
      (jsm.setHeap key items).clientAt = jsm.clientAt ∧
      (jsm.setHeap key items).nextClient = jsm.nextClient ∧
      (jsm.setHeap key items).nextDelayTickAt = jsm.nextDelayTickAt ∧
      (jsm.setHeap key items).maxJobID = jsm.maxJobID := by
  cases key <;> simp only [setHeap, modifyTube] <;> try split
  all_goals simp

theorem waitingAt_setHeap (items : List Nat) (tubeName : TubeName) :
    (jsm.setHeap key items).waitingAt tubeName = jsm.waitingAt tubeName := by
  cases key with
  | reserved clientID => rfl
  | ready other | delayed other | buried other =>
      simp only [setHeap, waitingAt, lookup_modifyTube]
      by_cases same : tubeName = other
      · subst same
        cases jsm.tubes.lookup tubeName <;> simp
      · simp [same]

theorem hasTube_setHeap (items : List Nat) (tubeName : TubeName) :
    (jsm.setHeap key items).hasTube tubeName = jsm.hasTube tubeName := by
  cases key with
  | reserved clientID => rfl
  | ready other | delayed other | buried other => exact hasTube_modifyTube _ _ _ _

theorem heapAt_setWaiting (tubeName : TubeName) (queue : ClientResvQueue) (other : HeapKey) :
    (jsm.setWaiting tubeName queue).heapAt other = jsm.heapAt other := by
  have reserved : (jsm.setWaiting tubeName queue).reservedJobs = jsm.reservedJobs := by
    unfold setWaiting modifyTube
    split <;> rfl
  cases other with
  | reserved clientID => simp [heapAt, reserved]
  | ready other | delayed other | buried other =>
      simp only [heapAt, setWaiting, lookup_modifyTube]
      by_cases same : other = tubeName
      · subst same
        cases jsm.tubes.lookup other <;> simp
      · simp [same]

theorem waitingAt_setWaiting {tubeName : TubeName} (present : jsm.hasTube tubeName = true)
    (queue : ClientResvQueue) (other : TubeName) :
    (jsm.setWaiting tubeName queue).waitingAt other =
      if other = tubeName then queue else jsm.waitingAt other := by
  obtain ⟨tube, found⟩ := Option.isSome_iff_exists.mp present
  simp only [waitingAt, setWaiting, lookup_modifyTube]
  by_cases same : other = tubeName <;> simp [same, found]

@[simp]
theorem heapAt_dropReserved (clientID : ClientID) (other : HeapKey) :
    (jsm.dropReserved clientID).heapAt other = jsm.heapAt other := by
  unfold dropReserved
  split
  next emptied =>
    cases other with
    | reserved otherID =>
        by_cases same : otherID = clientID
        · subst same
          simp only [heapAt, lookup_erase] at emptied ⊢
          simp [emptied]
        · simp [heapAt, lookup_erase, same]
    | ready _ | delayed _ | buried _ => rfl
  next => rfl

end Heaps

end JSM

end Coolbeans
