import Coolbeans.JobRestore
import Mathlib.Data.List.Sort

/-!
# The order of restored jobs

A snapshot emits the jobs in the order of a Go map, so two snapshots of one state differ in
it, and the layout of the restored heaps differs with it.  Each heap orders its jobs by a
field and then by their ids, so no two jobs of a heap are alike to it: which job is on top
and in which order the jobs leave depends on the jobs alone.
-/

namespace Coolbeans

open FiniteMap PositionHeap StatefulProgram

/-! ## Leaving a heap -/

/-- The first jobs that leave a heap, one after the other. -/
def leave (key : HeapKey) : Nat → JSM → List Job
  | 0, _ => []
  | rounds + 1, jsm =>
      match dequeueAt key jsm with
      | .ok entry after => jsm.jobOf entry :: leave key rounds after
      | _ => []

/-- The jobs of a heap in the order in which they leave it. -/
def leavingOrder (key : HeapKey) (jsm : JSM) : List Job :=
  leave key (jsm.heapAt key).length jsm

/-- The job that a peek returns, if it returns one. -/
def peeked (peek : JSMProg Nat) (jsm : JSM) : Option Job :=
  match peek jsm with
  | .ok entry _ => some (jsm.jobOf entry)
  | _ => none

section Leaving

variable {key : HeapKey} {jsm : JSM}

theorem peeked_peekAt : peeked (peekAt key) jsm = (jsm.heapAt key).head?.map jsm.jobOf := by
  unfold peeked peekAt
  cases (jsm.heapAt key).head? <;> rfl

/-- A job that leaves a heap is a least one, and the others stay. -/
theorem took_dequeueAt (tracked : Tracked entryStore (jsm.heapState key)) {first : Nat}
    {rest : List Nat} (items : jsm.heapAt key = first :: rest) :
    ∃ after, dequeueAt key jsm = .ok first after ∧ Took key first jsm after := by
  have isFirst : (jsm.entryAt first).index = 0 := by
    apply tracked 0 first
    change (jsm.heapAt key)[0]? = some first
    rw [items]
    rfl
  have member : first ∈ jsm.heapAt key := by
    rw [items]
    exact List.mem_cons_self
  have ends := (ends_dequeueAt tracked isFirst).mono (fun _ _ => id) (fun _ _ => id)
    (fun absent => absent member)
  obtain ⟨found, after, returns, took, same, _⟩ := ends.returns
  rw [same member] at returns took
  exact ⟨after, returns, took⟩

theorem Took.jobOf {entry : Nat} {after : JSM} (took : Took key entry jsm after) :
    after.jobOf = jsm.jobOf := by
  funext other
  simp only [JSM.jobOf, took.jobAt, took.sameJob]

theorem Took.keyIn {entry : Nat} {after : JSM} (took : Took key entry jsm after) :
    after.keyIn = jsm.keyIn := by
  funext other item
  simp only [JSM.keyIn, took.jobOf]

theorem leave_sorted {rounds : Nat} (tracked : Tracked entryStore (jsm.heapState key))
    (ordered : Ordered (jsm.keyIn key) (jsm.heapAt key))
    (length : (jsm.heapAt key).length = rounds) :
    (leave key rounds jsm).Perm ((jsm.heapAt key).map jsm.jobOf) ∧
      (leave key rounds jsm).Pairwise fun first second =>
        key.sortKey first ≤ key.sortKey second := by
  induction rounds generalizing jsm with
  | zero =>
      rw [List.length_eq_zero_iff.mp length]
      exact ⟨.nil, .nil⟩
  | succ rounds induction =>
      obtain ⟨first, rest, items⟩ := List.exists_cons_of_length_eq_add_one length
      obtain ⟨after, returns, took⟩ := took_dequeueAt tracked items
      have remaining : (after.heapAt key).length = rounds := by
        have lengths := took.perm.length_eq
        rw [List.length_cons] at lengths
        omega
      have stillOrdered : Ordered (after.keyIn key) (after.heapAt key) := by
        rw [took.keyIn]
        exact took.ordered ordered
      obtain ⟨perm, sorted⟩ := induction took.tracked stillOrdered remaining
      rw [took.jobOf] at perm
      simp only [leave, returns]
      constructor
      · exact (perm.cons (jsm.jobOf first)).trans (took.perm.map jsm.jobOf)
      · refine List.pairwise_cons.mpr ⟨?_, sorted⟩
        intro job member
        obtain ⟨entry, isEntry, rfl⟩ := List.mem_map.mp (perm.mem_iff.mp member)
        have head : (jsm.heapAt key).head? = some first := by
          rw [items]
          rfl
        exact ordered.head_le head (took.perm.mem_iff.mp (List.mem_cons_of_mem first isEntry))

theorem head_leavingOrder (tracked : Tracked entryStore (jsm.heapState key)) :
    (leavingOrder key jsm).head? = (jsm.heapAt key).head?.map jsm.jobOf := by
  unfold leavingOrder
  cases items : jsm.heapAt key with
  | nil => rfl
  | cons first rest =>
      obtain ⟨after, returns, _⟩ := took_dequeueAt tracked items
      rw [List.length_cons]
      simp only [leave, returns]
      rfl

end Leaving

/-! ## What a restore depends on -/

section Rebuilt

variable {records : List Job} {before after : JSM}

theorem Rebuilt.mem_records (rebuilt : Rebuilt records before after)
    (ids : (records.map (·.id)).Nodup) (job : Job) :
    job ∈ records ↔ after.recordOf job.id = some job := by
  rw [rebuilt.recordOf]
  constructor
  · exact find_id_of_nodup ids
  · exact List.mem_of_find?_eq_some

theorem Rebuilt.heap_perm (rebuilt : Rebuilt records before after)
    (ids : (records.map (·.id)).Nodup) (key : HeapKey) :
    ((after.heapAt key).map after.jobOf).Perm
      (records.filter fun record => record.home = some key) := by
  obtain ⟨index, inv, sameIndex⟩ := rebuilt.homed
  have ofIndex : ∀ id found, index.lookup id = some found → after.jobs.lookup id = some found := by
    intro id found present
    rw [sameIndex] at present
    exact (Option.filter_eq_some_iff.mp present).1
  have injective : ∀ first ∈ after.heapAt key, ∀ second ∈ after.heapAt key,
      after.jobOf first = after.jobOf second → first = second := by
    intro first isFirst second isSecond same
    have firstPresent := (inv.exact key first trivial isFirst).2.1
    have secondPresent := (inv.exact key second trivial isSecond).2.1
    rw [same, secondPresent] at firstPresent
    have sameEntry := congrArg IndexEntry.entry (Option.some.inj firstPresent)
    exact (Option.some.inj sameEntry).symm
  rw [List.perm_ext_iff_of_nodup]
  · intro job
    rw [List.mem_filter, rebuilt.mem_records ids, decide_eq_true_iff]
    constructor
    · intro member
      obtain ⟨entry, isEntry, rfl⟩ := List.mem_map.mp member
      obtain ⟨_, present, home⟩ := inv.exact key entry trivial isEntry
      exact ⟨JSM.recordOf_eq (ofIndex _ _ present), home⟩
    · rintro ⟨recorded, home⟩
      obtain ⟨found, present, rfl⟩ := Option.map_eq_some_iff.mp recorded
      have isIndexed : index.lookup (after.jobAt found.job).id = some found := by
        rw [sameIndex, present, Option.filter_some, home]
        rfl
      obtain ⟨entry, other, _, _, ownJob, isHome, held⟩ :=
        inv.entered _ found isIndexed (by simp)
      obtain rfl := Option.some.inj (home.symm.trans isHome)
      refine List.mem_map.mpr ⟨entry, held trivial, ?_⟩
      rw [JSM.jobOf, ownJob]
  · apply List.Nodup.map_on injective (inv.tracked key).nodup
  · exact (List.Nodup.of_map _ ids).filter _

theorem Rebuilt.entryOf (rebuilt : Rebuilt records before after) (id : JobID) :
    ((after.jobs.lookup id).bind (·.entry)).map after.jobOf =
      (records.find? (·.id = id)).filter fun record => record.home.isSome := by
  obtain ⟨index, inv, sameIndex⟩ := rebuilt.homed
  rw [← rebuilt.recordOf]
  cases present : after.jobs.lookup id with
  | none => simp [JSM.recordOf, present]
  | some found =>
      rw [JSM.recordOf_eq present, Option.filter_some, Option.bind_some]
      cases isHome : (after.jobAt found.job).home with
      | none =>
          rw [(rebuilt.indexed id found present).2.2 isHome]
          rfl
      | some key =>
          have isIndexed : index.lookup id = some found := by
            rw [sameIndex, present, Option.filter_some, isHome]
            rfl
          obtain ⟨entry, _, named, _, ownJob, _, _⟩ := inv.entered id found isIndexed (by simp)
          rw [named]
          simp [JSM.jobOf, ownJob]

theorem Rebuilt.leavingOrder_sorted (rebuilt : Rebuilt records before after)
    (ids : (records.map (·.id)).Nodup) (key : HeapKey) :
    (leavingOrder key after).Perm (records.filter fun record => record.home = some key) ∧
      (leavingOrder key after).Pairwise fun first second =>
        key.sortKey first ≤ key.sortKey second := by
  obtain ⟨index, inv, _⟩ := id rebuilt.homed
  obtain ⟨perm, sorted⟩ := leave_sorted (inv.tracked key) (inv.ordered key trivial) rfl
  exact ⟨perm.trans (rebuilt.heap_perm ids key), sorted⟩

end Rebuilt

theorem HighestID.unique {records others : List Job} {first second : JobID}
    (isFirst : HighestID records first) (isSecond : HighestID others second)
    (perm : records.Perm others) : first = second := by
  have atMost : ∀ {records others : List Job} {first second : JobID}, HighestID records first →
      HighestID others second → records.Perm others → first ≤ second := by
    intro records others first second isFirst isSecond perm
    rcases isFirst.2 with isZero | ⟨record, member, rfl⟩
    · rw [isZero]
      exact UInt64.le_iff_toNat_le.mpr (Nat.zero_le _)
    · exact isSecond.1 record (perm.mem_iff.mp member)
  exact UInt64.le_antisymm (atMost isFirst isSecond perm) (atMost isSecond isFirst perm.symm)

/-! ## Two orders -/

/-- Two states hold the same jobs in their containers, which show and give up the same jobs. -/
structure SameJobs (first second : JSM) : Prop where
  recordOf : ∀ id, first.recordOf id = second.recordOf id
  entryOf : ∀ id, ((first.jobs.lookup id).bind (·.entry)).map first.jobOf =
    ((second.jobs.lookup id).bind (·.entry)).map second.jobOf
  maxJobID : first.maxJobID = second.maxJobID
  heaps : ∀ key, ((first.heapAt key).map first.jobOf).Perm ((second.heapAt key).map second.jobOf)
  peekReady : ∀ tubeName,
    peeked (peekReadyJob tubeName) first = peeked (peekReadyJob tubeName) second
  peekDelayed : ∀ tubeName,
    peeked (peekDelayedJob tubeName) first = peeked (peekDelayedJob tubeName) second
  peekBuried : ∀ tubeName,
    peeked (peekBuriedJob tubeName) first = peeked (peekBuriedJob tubeName) second
  nextReserved : ∀ clientID,
    peeked (nextReservedJob clientID) first = peeked (nextReservedJob clientID) second
  leaving : ∀ key, leavingOrder key first = leavingOrder key second

theorem Rebuilt.sameJobs {records others : List Job} {before first second : JSM}
    (isFirst : Rebuilt records before first) (isSecond : Rebuilt others before second)
    (ids : (records.map (·.id)).Nodup) (perm : records.Perm others) : SameJobs first second := by
  have otherIds : (others.map (·.id)).Nodup := (perm.map _).nodup_iff.mp ids
  have sameFind : ∀ id, records.find? (·.id = id) = others.find? (·.id = id) := by
    intro id
    cases found : records.find? (·.id = id) with
    | none =>
        rw [List.find?_eq_none] at found
        refine (List.find?_eq_none.mpr ?_).symm
        intro record member
        exact found record (perm.mem_iff.mpr member)
    | some record =>
        have member := perm.mem_iff.mp (List.mem_of_find?_eq_some found)
        have sameId : record.id = id := by simpa using List.find?_some found
        rw [← sameId]
        exact (find_id_of_nodup otherIds member).symm
  have leaving : ∀ key, leavingOrder key first = leavingOrder key second := by
    intro key
    obtain ⟨firstPerm, firstSorted⟩ := isFirst.leavingOrder_sorted ids key
    obtain ⟨secondPerm, secondSorted⟩ := isSecond.leavingOrder_sorted otherIds key
    apply List.Perm.eq_of_pairwise _ firstSorted secondSorted
    · exact firstPerm.trans ((perm.filter _).trans secondPerm.symm)
    · intro one two isOne isTwo below above
      have oneMember := (List.mem_filter.mp (firstPerm.mem_iff.mp isOne)).1
      have twoMember := perm.mem_iff.mpr (List.mem_filter.mp (secondPerm.mem_iff.mp isTwo)).1
      exact List.inj_on_of_nodup_map ids oneMember twoMember
        (key.id_of_sortKey (le_antisymm below above))
  have peeks : ∀ key, peeked (peekAt key) first = peeked (peekAt key) second := by
    intro key
    obtain ⟨_, firstInv, _⟩ := isFirst.homed
    obtain ⟨_, secondInv, _⟩ := isSecond.homed
    rw [peeked_peekAt, peeked_peekAt, ← head_leavingOrder (firstInv.tracked key),
      ← head_leavingOrder (secondInv.tracked key), leaving key]
  exact
    { recordOf := fun id => by rw [isFirst.recordOf, isSecond.recordOf, sameFind]
      entryOf := fun id => by rw [isFirst.entryOf, isSecond.entryOf, sameFind]
      maxJobID := isFirst.highest.unique isSecond.highest perm
      heaps := fun key => (isFirst.heap_perm ids key).trans
        ((perm.filter _).trans (isSecond.heap_perm otherIds key).symm)
      peekReady := fun tubeName => peeks (.ready tubeName)
      peekDelayed := fun tubeName => peeks (.delayed tubeName)
      peekBuried := fun tubeName => peeks (.buried tubeName)
      nextReserved := fun clientID => peeks (.reserved clientID)
      leaving := leaving }

theorem Rebuilt.finalize {records : List Job} {before after : JSM}
    (rebuilt : Rebuilt records before after) (target : JSM) :
    Rebuilt records (finalizeRestore before target) (finalizeRestore after target) where
  homed := by
    obtain ⟨index, inv, sameIndex⟩ := rebuilt.homed
    exact ⟨index, inv.congr rfl rfl rfl rfl fun key => by cases key <;> rfl, sameIndex⟩
  indexed := rebuilt.indexed
  recordOf := rebuilt.recordOf
  clients := rebuilt.clients
  nextDelayTickAt := rfl
  highest := rebuilt.highest

/-- Jobs with different ids are restored, in whatever order they come, and the order makes no
difference to the index, the heaps, what a peek shows and the order in which jobs leave. -/
theorem restoreJobs_perm (target before : JSM) (noJobs : NoJobs before) (jobs others : List Job)
    (ids : (jobs.map (·.id)).Nodup) (perm : jobs.Perm others) :
    ∃ first second, forEach restoreJob jobs before = .ok () first ∧
      forEach restoreJob others before = .ok () second ∧
      SameJobs (finalizeRestore first target) (finalizeRestore second target) := by
  obtain ⟨first, firstReturns, isFirst⟩ := forEach_restoreJob noJobs ids
  obtain ⟨second, secondReturns, isSecond⟩ :=
    forEach_restoreJob noJobs ((perm.map (·.id)).nodup_iff.mp ids)
  exact ⟨first, second, firstReturns, secondReturns,
    (isFirst.finalize target).sameJobs (isSecond.finalize target) ids perm⟩

/-- A job with this id, which is ready or has no heap. -/
def someJob (id : JobID) (state : JobState) : Job where
  id
  priority := 0
  delay := 0
  ttr := 10
  bodySize := 0
  body := none
  tubeName := [1]
  createdAt := 0
  readyAt := 0
  state

theorem restoreJobs_perm_threeJobs :
    ∃ first second,
      forEach restoreJob [someJob 3 .ready, someJob 5 .initial, someJob 2 .ready]
        (newLocalSnapshot newJSM) = .ok () first ∧
      forEach restoreJob [someJob 2 .ready, someJob 5 .initial, someJob 3 .ready]
        (newLocalSnapshot newJSM) = .ok () second ∧
      SameJobs (finalizeRestore first newJSM) (finalizeRestore second newJSM) :=
  restoreJobs_perm newJSM (newLocalSnapshot newJSM)
    ⟨fun key => by cases key <;> rfl, fun _ => rfl, rfl⟩ _ _ (by decide) (by decide)

end Coolbeans
