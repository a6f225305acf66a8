import Coolbeans.PositionHeapOrder
import Coolbeans.StateViews
import Mathlib.Data.Prod.Lex

/-!
# The invariant of the job containers

Each indexed job has one heap entry, in the heap that its state calls for, and
that heap holds nothing else.  The transitions of a job break this for the one
job they move: they take its entry out of a heap, change the job, and enter it
into another heap.  `JobInv` therefore carries a hole, the id of the job that
is being moved, and says the rest of the invariant about all other jobs.

How well a heap is kept is a parameter: the operations keep the ready and the
delayed heaps exact in every run, and the buried and reserved heaps in the
runs that avoid certain steps.
-/

namespace Coolbeans

open FiniteMap PositionHeap StatefulProgram

/-- The four kinds of job heaps. -/
inductive HeapKind where
  | ready
  | delayed
  | buried
  | reserved
  deriving DecidableEq, Repr

/-- How well the heaps of each kind are kept.  A heap that is held has an entry
for every job that belongs there; one that is exact has no other entries. -/
structure Kinds where
  exact : HeapKind → Prop
  held : HeapKind → Prop
  held_of_exact : ∀ kind, exact kind → held kind
  held_buried : held .buried

instance : CoeFun Kinds fun _ => HeapKind → Prop := ⟨Kinds.exact⟩

def HeapKey.kind : HeapKey → HeapKind
  | .ready _ => .ready
  | .delayed _ => .delayed
  | .buried _ => .buried
  | .reserved _ => .reserved

/-- The heap that the state of a job calls for. -/
def Job.home (job : Job) : Option HeapKey :=
  match job.state with
  | .ready => some (.ready job.tubeName)
  | .delayed => some (.delayed job.tubeName)
  | .buried => some (.buried job.tubeName)
  | .reserved => some (.reserved job.reservedBy)
  | _ => none

section Home

variable (job : Job)

theorem Job.home_eq_ready_iff (tubeName : TubeName) :
    job.home = some (.ready tubeName) ↔ job.state = .ready ∧ job.tubeName = tubeName := by
  unfold Job.home
  split <;> simp_all

theorem Job.home_eq_delayed_iff (tubeName : TubeName) :
    job.home = some (.delayed tubeName) ↔ job.state = .delayed ∧ job.tubeName = tubeName := by
  unfold Job.home
  split <;> simp_all

theorem Job.home_eq_buried_iff (tubeName : TubeName) :
    job.home = some (.buried tubeName) ↔ job.state = .buried ∧ job.tubeName = tubeName := by
  unfold Job.home
  split <;> simp_all

theorem Job.home_eq_reserved_iff (clientID : ClientID) :
    job.home = some (.reserved clientID) ↔
      job.state = .reserved ∧ job.reservedBy = clientID := by
  unfold Job.home
  split <;> simp_all

end Home

/-! ## The order of a heap -/

/-- The pair that a heap orders its jobs by. -/
def HeapKey.sortKey : HeapKey → Job → Lex (Int × Nat)
  | .ready _, job => toLex (job.priority.toNat, job.id.toNat)
  | .delayed _, job => toLex (job.readyAt.toInt, job.id.toNat)
  | .buried _, job => toLex (job.buriedAt.toInt, job.id.toNat)
  | .reserved _, job => toLex (job.expiresAt.toInt, job.id.toNat)

theorem HeapKey.id_of_sortKey (key : HeapKey) {first second : Job}
    (same : key.sortKey first = key.sortKey second) : first.id = second.id := by
  apply UInt64.toNat.inj
  cases key <;> exact (Prod.mk.inj (toLex.injective same)).2

theorem fieldThenIdLess_iff {κ : Type} [DecidableEq κ] [LT κ] [DecidableLT κ]
    {field : Job → κ} (rank : κ → Int) (injective : ∀ a b, rank a = rank b → a = b)
    (monotone : ∀ a b, a < b ↔ rank a < rank b) (first second : Job) :
    fieldThenIdLess field first second = true ↔
      toLex (rank (field first), first.id.toNat) <
        toLex (rank (field second), second.id.toNat) := by
  rw [Prod.Lex.toLex_lt_toLex]
  unfold fieldThenIdLess
  split
  next same => simp [same, UInt64.lt_iff_toNat_lt]
  next different =>
    have ranksDiffer : rank (field first) ≠ rank (field second) :=
      fun same => different (injective _ _ same)
    simp [monotone, ranksDiffer]

theorem HeapKey.less_iff (key : HeapKey) (first second : Job) :
    key.less first second = true ↔ key.sortKey first < key.sortKey second := by
  have times : ∀ a b : Int64, a.toInt = b.toInt → a = b := fun _ _ => Int64.toInt.inj
  cases key with
  | ready tubeName =>
      exact fieldThenIdLess_iff (fun priority => (priority.toNat : Int))
        (fun a b same => UInt32.toNat.inj (by exact_mod_cast same))
        (fun a b => by rw [UInt32.lt_iff_toNat_lt]; exact Int.ofNat_lt.symm) first second
  | delayed _ | buried _ | reserved _ =>
      exact fieldThenIdLess_iff Int64.toInt times (fun _ _ => Int64.lt_iff_toInt_lt) first second

namespace JSM

/-- The key of a heap entry. -/
def keyIn (jsm : JSM) (key : HeapKey) (entry : Nat) : Lex (Int × Nat) :=
  key.sortKey (jsm.jobOf entry)

theorem compares_lessIn (jsm : JSM) (key : HeapKey) :
    Compares (jsm.lessIn key) (jsm.keyIn key) :=
  fun _ _ => key.less_iff _ _

end JSM

/-! ## The invariant -/

/-- The containers hold what the index says, for every job but the one in the
hole, as well as the kinds of the heaps ask. -/
structure JobInv (kinds : Kinds) (hole : Option JobID)
    (index : FMap JobID IndexEntry) (jsm : JSM) : Prop where
  tracked : ∀ key, Tracked entryStore (jsm.heapState key)
  disjoint : ∀ key other entry, entry ∈ jsm.heapAt key → entry ∈ jsm.heapAt other → key = other
  allocated : ∀ key entry, entry ∈ jsm.heapAt key → entry < jsm.nextEntry
  indexed : ∀ id found, index.lookup id = some found →
    (jsm.jobAt found.job).id = id ∧ found.job < jsm.nextJob
  entered : ∀ id found, index.lookup id = some found → hole ≠ some id →
    ∃ entry key, found.entry = some entry ∧ entry < jsm.nextEntry ∧
      (jsm.entryAt entry).job = found.job ∧ (jsm.jobAt found.job).home = some key ∧
      (kinds.held key.kind → entry ∈ jsm.heapAt key)
  exact : ∀ key entry, kinds key.kind → entry ∈ jsm.heapAt key →
    hole ≠ some (jsm.jobOf entry).id ∧
      index.lookup (jsm.jobOf entry).id = some ⟨(jsm.entryAt entry).job, some entry⟩ ∧
      (jsm.jobOf entry).home = some key
  ordered : ∀ key, kinds key.kind → Ordered (jsm.keyIn key) (jsm.heapAt key)

/-- The invariant of a state between two operations. -/
def JobsOk (kinds : Kinds) (jsm : JSM) : Prop :=
  JobInv kinds none jsm.jobs jsm

theorem jobsOk_of_empty {kinds : Kinds} {jsm : JSM} (noHeap : ∀ key, jsm.heapAt key = [])
    (noIndex : ∀ id found, jsm.jobs.lookup id ≠ some found) : JobsOk kinds jsm := by
  refine ⟨?_, ?_, ?_, ?_, ?_, ?_, ?_⟩
  · intro key i entry occupied
    simp [JSM.heapState, noHeap] at occupied
  · intro key other entry member
    simp [noHeap] at member
  · intro key entry member
    simp [noHeap] at member
  · intro id found present
    exact absurd present (noIndex id found)
  · intro id found present
    exact absurd present (noIndex id found)
  · intro key entry _ member
    simp [noHeap] at member
  · intro key _
    rw [noHeap]
    intro c _ bound
    simp at bound

theorem jobsOk_newJSM (kinds : Kinds) : JobsOk kinds newJSM := by
  apply jobsOk_of_empty
  · intro key
    cases key <;> rfl
  · intro id found present
    cases present

namespace JobInv

variable {kinds : Kinds} {hole : Option JobID} {index : FMap JobID IndexEntry}
variable {jsm after : JSM}

theorem congr (inv : JobInv kinds hole index jsm) (jobAt : after.jobAt = jsm.jobAt)
    (nextJob : after.nextJob = jsm.nextJob) (entryAt : after.entryAt = jsm.entryAt)
    (nextEntry : after.nextEntry = jsm.nextEntry)
    (heapAt : ∀ key, after.heapAt key = jsm.heapAt key) :
    JobInv kinds hole index after := by
  have jobOf : after.jobOf = jsm.jobOf := by
    funext entry
    simp only [JSM.jobOf, jobAt, entryAt]
  have keyIn : after.keyIn = jsm.keyIn := by
    funext key entry
    simp only [JSM.keyIn, jobOf]
  obtain ⟨tracked, disjoint, allocated, indexed, entered, exact', ordered⟩ := inv
  refine ⟨?_, ?_, ?_, ?_, ?_, ?_, ?_⟩
  · simpa only [JSM.heapState, heapAt, entryAt] using tracked
  · simpa only [heapAt] using disjoint
  · simpa only [heapAt, nextEntry] using allocated
  · simpa only [jobAt, nextJob] using indexed
  · simpa only [heapAt, jobAt, entryAt, nextEntry] using entered
  · simpa only [heapAt, jobOf, entryAt] using exact'
  · simpa only [heapAt, keyIn] using ordered

/-- Two indexed jobs at one address have one id. -/
theorem id_of_job (inv : JobInv kinds hole index jsm) {id : JobID} {found : IndexEntry}
    (present : index.lookup id = some found) : (jsm.jobAt found.job).id = id :=
  (inv.indexed id found present).1

/-- In an exact heap, the entries of a job are the one that the index names. -/
theorem eq_entry (inv : JobInv kinds hole index jsm) {id : JobID} {found : IndexEntry}
    (present : index.lookup id = some found) {key : HeapKey} {entry : Nat}
    (isKind : kinds key.kind) (member : entry ∈ jsm.heapAt key)
    (sameId : (jsm.jobOf entry).id = id) :
    found.entry = some entry ∧ (jsm.jobAt found.job).home = some key := by
  obtain ⟨_, indexed, home⟩ := inv.exact key entry isKind member
  rw [sameId, present] at indexed
  cases indexed
  exact ⟨rfl, home⟩

/-- Writing the job in the hole changes nothing that the invariant reads. -/
theorem updateJob {id : JobID} (inv : JobInv kinds (some id) index jsm) {job : Nat}
    (sameId : (jsm.jobAt job).id = id) {change : Job → Job}
    (keepsId : (change (jsm.jobAt job)).id = id) :
    JobInv kinds (some id) index (jsm.updateJob job change) := by
  have otherJob : ∀ other, (jsm.jobAt other).id ≠ id →
      (jsm.updateJob job change).jobAt other = jsm.jobAt other := by
    intro other different
    simp only [JSM.updateJob]
    rw [if_neg]
    rintro rfl
    exact different sameId
  have otherEntry : ∀ key entry, kinds key.kind → entry ∈ jsm.heapAt key →
      (jsm.updateJob job change).jobOf entry = jsm.jobOf entry := by
    intro key entry isKind member
    apply otherJob
    intro same
    exact (inv.exact key entry isKind member).1 (congrArg some same.symm)
  refine ⟨inv.tracked, inv.disjoint, inv.allocated, ?_, ?_, ?_, ?_⟩
  · intro other found present
    obtain ⟨foundId, bound⟩ := inv.indexed other found present
    refine ⟨?_, bound⟩
    by_cases same : found.job = job
    · simp only [JSM.updateJob, same, if_true]
      rw [keepsId, ← sameId, ← same, foundId]
    · simp only [JSM.updateJob, if_neg same]
      exact foundId
  · intro other found present notHole
    obtain ⟨entry, key, named, bound, entryJob, home, held⟩ :=
      inv.entered other found present notHole
    refine ⟨entry, key, named, bound, entryJob, ?_, held⟩
    rw [otherJob found.job]
    · exact home
    · rw [inv.id_of_job present]
      rintro rfl
      exact notHole rfl
  · intro key entry isKind member
    have member : entry ∈ jsm.heapAt key := member
    rw [otherEntry key entry isKind member]
    exact inv.exact key entry isKind member
  · intro key isKind
    apply (inv.ordered key isKind).congr
    intro entry member
    rw [JSM.keyIn, otherEntry key entry isKind member, JSM.keyIn]

/-- A job outside the index leaves the hole empty. -/
theorem close {id : JobID} (inv : JobInv kinds (some id) index jsm)
    (absent : index.lookup id = none) : JobInv kinds none index jsm := by
  refine ⟨inv.tracked, inv.disjoint, inv.allocated, inv.indexed, ?_, ?_, inv.ordered⟩
  · intro other found present _
    apply inv.entered other found present
    rintro ⟨rfl⟩
    rw [absent] at present
    cases present
  · intro key entry isKind member
    obtain ⟨_, rest⟩ := inv.exact key entry isKind member
    exact ⟨by simp, rest⟩

/-- The index entry of the job in the hole may be erased. -/
theorem eraseIndex {id : JobID} (inv : JobInv kinds (some id) index jsm) :
    JobInv kinds (some id) (index.erase id) jsm := by
  refine ⟨inv.tracked, inv.disjoint, inv.allocated, ?_, ?_, ?_, inv.ordered⟩
  · intro other found present
    rw [lookup_erase] at present
    split at present
    · cases present
    · exact inv.indexed other found present
  · intro other found present notHole
    rw [lookup_erase] at present
    split at present
    · cases present
    · exact inv.entered other found present notHole
  · intro key entry isKind member
    obtain ⟨notHole, present, home⟩ := inv.exact key entry isKind member
    refine ⟨notHole, ?_, home⟩
    rw [lookup_erase, if_neg, present]
    intro same
    exact notHole (congrArg some same.symm)

/-- A new job may be indexed into the hole. -/
theorem insertIndex {id : JobID} (inv : JobInv kinds none index jsm)
    (absent : index.lookup id = none) {job : Nat} (sameId : (jsm.jobAt job).id = id)
    (bound : job < jsm.nextJob) :
    JobInv kinds (some id) (index.insert id ⟨job, none⟩) jsm := by
  refine ⟨inv.tracked, inv.disjoint, inv.allocated, ?_, ?_, ?_, inv.ordered⟩
  · intro other found present
    rw [lookup_insert] at present
    split at present
    next same =>
      cases present
      exact ⟨by rw [same, sameId], bound⟩
    next => exact inv.indexed other found present
  · intro other found present notHole
    rw [lookup_insert, if_neg (fun same => notHole (congrArg some same.symm))] at present
    exact inv.entered other found present (by simp)
  · intro key entry isKind member
    obtain ⟨_, present, home⟩ := inv.exact key entry isKind member
    have different : (jsm.jobOf entry).id ≠ id := by
      intro same
      rw [same, absent] at present
      cases present
    refine ⟨fun same => different (Option.some.inj same).symm, ?_, home⟩
    rw [lookup_insert, if_neg different, present]

theorem allocJob (inv : JobInv kinds hole index jsm) (record : Job) :
    JobInv kinds hole index (jsm.allocJob record) := by
  have oldJob : ∀ id found, index.lookup id = some found → found.job ≠ jsm.nextJob := by
    intro id found present
    have := (inv.indexed id found present).2
    omega
  have oldEntry : ∀ key entry, kinds key.kind → entry ∈ jsm.heapAt key →
      (jsm.entryAt entry).job ≠ jsm.nextJob := by
    intro key entry isKind member
    exact oldJob _ _ (inv.exact key entry isKind member).2.1
  refine ⟨inv.tracked, inv.disjoint, inv.allocated, ?_, ?_, ?_, ?_⟩
  · intro id found present
    obtain ⟨foundId, bound⟩ := inv.indexed id found present
    simp only [JSM.allocJob, if_neg (oldJob id found present)]
    exact ⟨foundId, by omega⟩
  · intro id found present notHole
    obtain ⟨entry, key, named, bound, entryJob, home, held⟩ :=
      inv.entered id found present notHole
    refine ⟨entry, key, named, bound, entryJob, ?_, held⟩
    simp only [JSM.allocJob, if_neg (oldJob id found present)]
    exact home
  · intro key entry isKind member
    have member : entry ∈ jsm.heapAt key := member
    simp only [JSM.jobOf, JSM.allocJob, if_neg (oldEntry key entry isKind member)]
    exact inv.exact key entry isKind member
  · intro key isKind
    apply (inv.ordered key isKind).congr
    intro entry member
    simp only [JSM.keyIn, JSM.jobOf, JSM.allocJob, if_neg (oldEntry key entry isKind member)]

/-- A job whose heap need not be exact may be put into the hole. -/
theorem open_of_not_kind {id : JobID} {found : IndexEntry} {key : HeapKey}
    (inv : JobInv kinds none index jsm) (present : index.lookup id = some found)
    (home : (jsm.jobAt found.job).home = some key) (notKind : ¬ kinds key.kind) :
    JobInv kinds (some id) index jsm := by
  refine ⟨inv.tracked, inv.disjoint, inv.allocated, inv.indexed, ?_, ?_, inv.ordered⟩
  · intro other otherFound otherPresent _
    exact inv.entered other otherFound otherPresent (by simp)
  · intro other entry isKind member
    obtain ⟨_, rest⟩ := inv.exact other entry isKind member
    refine ⟨fun same => notKind ?_, rest⟩
    obtain ⟨_, sameHome⟩ := inv.eq_entry present isKind member (Option.some.inj same).symm
    rw [home] at sameHome
    cases sameHome
    exact isKind

end JobInv

end Coolbeans
