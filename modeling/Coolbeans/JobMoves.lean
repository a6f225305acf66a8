import Coolbeans.JobHeapSteps

/-!
# The transitions keep the containers exact

A transition takes the entry of its job out of a heap, which opens the hole of
the invariant, changes the job in the hole, and closes the hole by entering
the job into another heap.  `ends_moveJob` makes this argument once for the
shape that all transitions share.
-/

namespace Coolbeans

open FiniteMap PositionHeap StatefulProgram

/-- The record of an indexed job, which is what `GetJob` returns. -/
def JSM.recordOf (jsm : JSM) (id : JobID) : Option Job :=
  (jsm.jobs.lookup id).map fun found => jsm.jobAt found.job

theorem JSM.mem_keys_of_recordOf {jsm : JSM} {id : JobID} {record : Job}
    (recorded : jsm.recordOf id = some record) : id ∈ jsm.jobs.keys := by
  obtain ⟨found, present, _⟩ := Option.map_eq_some_iff.mp recorded
  rw [mem_keys_iff, present]
  rfl

theorem JSM.holds_of_recordOf {jsm : JSM} {id : JobID} {record : Job} (check : Job → Bool)
    (checked : (jsm.jobs.keys.all fun id => (jsm.recordOf id).all check) = true)
    (recorded : jsm.recordOf id = some record) : check record = true := by
  have found := List.all_eq_true.mp checked id (JSM.mem_keys_of_recordOf recorded)
  rw [recorded] at found
  exact found

namespace Entered

variable {key : HeapKey} {job entry : Nat} {before after : JSM}

theorem mem_iff (into : Entered key job entry before after) {other : HeapKey} {item : Nat} :
    item ∈ after.heapAt other ↔ item = entry ∧ other = key ∨ item ∈ before.heapAt other := by
  by_cases same : other = key
  · subst other
    rw [into.perm.mem_iff, List.mem_cons]
    simp
  · rw [into.others other same]
    simp [same]

theorem jobOf_of_ne (into : Entered key job entry before after) {item : Nat}
    (different : item ≠ entry) : after.jobOf item = before.jobOf item := by
  simp only [JSM.jobOf, into.jobAt, into.sameJob item different]

theorem jobOf_entry (into : Entered key job entry before after) :
    after.jobOf entry = before.jobAt job := by
  simp only [JSM.jobOf, into.jobAt, into.newJob]

end Entered

namespace JobInv

variable {kinds : Kinds} {index : FMap JobID IndexEntry} {jsm after : JSM}
variable {id : JobID} {found : IndexEntry}

/-- An entry of the job's home heap leaves it: the job is in the hole. -/
theorem took (inv : JobInv kinds none index jsm) (present : index.lookup id = some found)
    {key : HeapKey} (home : (jsm.jobAt found.job).home = some key) {entry : Nat}
    (left : Took key entry jsm after) (own : kinds.held key.kind → found.entry = some entry) :
    JobInv kinds (some id) index after := by
  have nodup : (entry :: after.heapAt key).Nodup :=
    left.perm.nodup_iff.mpr (inv.tracked key).nodup
  have gone : entry ∉ after.heapAt key := (List.nodup_cons.mp nodup).1
  have stays : ∀ other item, item ∈ after.heapAt other → item ∈ jsm.heapAt other := by
    intro other item member
    by_cases same : other = key
    · subst other
      exact left.perm.mem_iff.mp (List.mem_cons_of_mem _ member)
    · rwa [left.others other same] at member
  have jobOf : after.jobOf = jsm.jobOf := by
    funext item
    simp only [JSM.jobOf, left.jobAt, left.sameJob]
  have keyIn : after.keyIn = jsm.keyIn := by
    funext other item
    simp only [JSM.keyIn, jobOf]
  constructor
  case tracked =>
    intro other
    by_cases same : other = key
    · subst other
      exact left.tracked
    · intro i item occupied
      have occupied : (after.heapAt other)[i]? = some item := occupied
      rw [left.others other same] at occupied
      refine (left.outside item fun member => same ?_).trans (inv.tracked other i item occupied)
      exact inv.disjoint other key item (List.mem_of_getElem? occupied) member
  case disjoint =>
    intro first second item firstMem secondMem
    exact inv.disjoint first second item (stays _ _ firstMem) (stays _ _ secondMem)
  case allocated =>
    intro other item member
    rw [left.nextEntry]
    exact inv.allocated other item (stays _ _ member)
  case indexed =>
    rw [left.jobAt, left.nextJob]
    exact inv.indexed
  case entered =>
    intro otherId other otherPresent notHole
    obtain ⟨item, itemKey, named, bound, itemJob, itemHome, held⟩ :=
      inv.entered otherId other otherPresent (by simp)
    refine ⟨item, itemKey, named, ?_, ?_, ?_, ?_⟩
    · rwa [left.nextEntry]
    · rwa [left.sameJob]
    · rwa [left.jobAt]
    intro isKind
    by_cases same : itemKey = key
    swap
    · rw [left.others itemKey same]
      exact held isKind
    subst itemKey
    rcases List.mem_cons.mp (left.perm.mem_iff.mpr (held isKind)) with isEntry | remains
    swap
    · exact remains
    -- the entry that left belongs to the job in the hole
    exfalso
    apply notHole
    obtain ⟨ownEntry, _, ownNamed, _, ownJob, _⟩ := inv.entered id found present (by simp)
    rw [own isKind] at ownNamed
    cases ownNamed
    rw [isEntry, ownJob] at itemJob
    rw [← inv.id_of_job present, ← inv.id_of_job otherPresent, itemJob]
  case «exact» =>
    intro other item isKind member
    obtain ⟨_, itemIndexed, itemHome⟩ := inv.exact other item isKind (stays _ _ member)
    rw [jobOf, left.sameJob]
    refine ⟨?_, itemIndexed, itemHome⟩
    intro same
    obtain ⟨named, sameHome⟩ :=
      inv.eq_entry present isKind (stays _ _ member) (Option.some.inj same).symm
    rw [home] at sameHome
    cases sameHome
    rw [own (kinds.held_of_exact _ isKind)] at named
    cases named
    exact gone member
  case ordered =>
    intro other isKind
    rw [keyIn]
    by_cases same : other = key
    · subst other
      exact left.ordered (inv.ordered _ isKind)
    · rw [left.others other same]
      exact inv.ordered other isKind

/-- The job in the hole enters its home heap, and the hole is closed. -/
theorem entered_home (inv : JobInv kinds (some id) index jsm)
    (present : index.lookup id = some found) {home key : HeapKey}
    (isHome : (jsm.jobAt found.job).home = some home)
    (fits : home = key ∨ ¬ kinds.held key.kind ∧ ¬ kinds.held home.kind) {entry : Nat}
    (into : Entered key found.job entry jsm after) :
    JobInv kinds none (index.insert id ⟨found.job, some entry⟩) after := by
  have unused : ∀ other, entry ∉ jsm.heapAt other := by
    intro other member
    have := inv.allocated other entry member
    rw [into.fresh] at this
    omega
  have notNew : ∀ {other item}, item ∈ jsm.heapAt other → item ≠ entry :=
    fun {other _} member isNew => unused other (isNew ▸ member)
  have ownId := inv.id_of_job present
  have homeOfKind : kinds key.kind → home = key := fun isKind =>
    fits.resolve_right fun neither => neither.1 (kinds.held_of_exact _ isKind)
  constructor
  case tracked =>
    intro other
    by_cases same : other = key
    · subst other
      exact into.tracked (inv.tracked _) (unused _)
    · intro i item occupied
      have occupied : (after.heapAt other)[i]? = some item := occupied
      rw [into.others other same] at occupied
      have member := List.mem_of_getElem? occupied
      refine (into.outside item ?_ ?_).trans (inv.tracked other i item occupied)
      · exact fun inKey => same (inv.disjoint other key item member inKey)
      · exact notNew member
  case disjoint =>
    intro first second item firstMem secondMem
    rcases into.mem_iff.mp firstMem with ⟨isNew, rfl⟩ | firstOld
    · rcases into.mem_iff.mp secondMem with ⟨_, rfl⟩ | secondOld
      · rfl
      · exact absurd isNew (notNew secondOld)
    · rcases into.mem_iff.mp secondMem with ⟨isNew, _⟩ | secondOld
      · exact absurd isNew (notNew firstOld)
      · exact inv.disjoint first second item firstOld secondOld
  case allocated =>
    intro other item member
    rw [into.nextEntry]
    rcases into.mem_iff.mp member with ⟨isNew, _⟩ | old
    · rw [isNew, into.fresh]
      omega
    · have := inv.allocated other item old
      omega
  case indexed =>
    intro otherId other otherPresent
    rw [into.jobAt, into.nextJob]
    rw [lookup_insert] at otherPresent
    split at otherPresent
    next same =>
      cases otherPresent
      rw [same]
      exact inv.indexed id found present
    next => exact inv.indexed otherId other otherPresent
  case entered =>
    intro otherId other otherPresent _
    rw [lookup_insert] at otherPresent
    split at otherPresent
    next same =>
      cases otherPresent
      refine ⟨entry, home, rfl, ?_, into.newJob, ?_, ?_⟩
      · rw [into.nextEntry, into.fresh]
        omega
      · rw [into.jobAt]
        exact isHome
      · intro isKind
        rcases fits with rfl | neither
        · exact into.mem_iff.mpr (Or.inl ⟨rfl, rfl⟩)
        · exact absurd isKind neither.2
    next different =>
      obtain ⟨item, itemKey, named, bound, itemJob, itemHome, held⟩ :=
        inv.entered otherId other otherPresent fun same => different (Option.some.inj same).symm
      have old : item ≠ entry := by
        rw [into.fresh]
        omega
      refine ⟨item, itemKey, named, ?_, ?_, ?_, ?_⟩
      · rw [into.nextEntry]
        omega
      · rw [into.sameJob item old]
        exact itemJob
      · rw [into.jobAt]
        exact itemHome
      · exact fun isKind => into.mem_iff.mpr (Or.inr (held isKind))
  case «exact» =>
    intro other item isKind member
    refine ⟨by simp, ?_⟩
    rcases into.mem_iff.mp member with ⟨rfl, rfl⟩ | old
    · rw [into.jobOf_entry, ownId, lookup_insert, if_pos rfl, into.newJob]
      exact ⟨rfl, by rw [isHome, homeOfKind isKind]⟩
    · obtain ⟨notHole, itemIndexed, itemHome⟩ := inv.exact other item isKind old
      rw [into.jobOf_of_ne (notNew old), into.sameJob item (notNew old),
        lookup_insert, if_neg]
      · exact ⟨itemIndexed, itemHome⟩
      · exact fun same => notHole (congrArg some same.symm)
  case ordered =>
    intro other isKind
    have sameKeys : Ordered (after.keyIn other) (jsm.heapAt other) := by
      apply (inv.ordered other isKind).congr
      intro item member
      rw [JSM.keyIn, into.jobOf_of_ne (notNew member), JSM.keyIn]
    by_cases same : other = key
    · subst other
      exact into.ordered sameKeys
    · rw [into.others other same]
      exact sameKeys

end JobInv

/-! ## The shape of a transition -/

/-- The guard of a transition decides on a predicate and leaves the state as
it is. -/
def Decides (guard : JSMProg Unit) (jsm : JSM) (pass : Prop) : Prop :=
  (guard jsm).Ends (fun _ after => after = jsm ∧ pass) (fun _ after => after = jsm ∧ ¬ pass) False

section MoveJob

variable {kinds : Kinds} {jsm : JSM} {id : JobID}

theorem JSM.recordOf_eq {found : IndexEntry} (present : jsm.jobs.lookup id = some found) :
    jsm.recordOf id = some (jsm.jobAt found.job) := by
  simp [JSM.recordOf, present]

/-- Entering the job in the hole and pointing the index at its entry closes the
hole. -/
theorem JobInv.closed (found : IndexEntry) {home key : HeapKey} {entry : Nat} {after : JSM}
    (inv : JobInv kinds (some id) jsm.jobs jsm) (present : jsm.jobs.lookup id = some found)
    (isHome : (jsm.jobAt found.job).home = some home)
    (fits : home = key ∨ ¬ kinds.held key.kind ∧ ¬ kinds.held home.kind)
    (into : Entered key found.job entry jsm after) :
    JobsOk kinds { after with jobs := after.jobs.insert id ⟨found.job, some entry⟩ } ∧
      ∀ other,
        { after with jobs := after.jobs.insert id ⟨found.job, some entry⟩ }.recordOf other =
          if other = id then some (jsm.jobAt found.job) else jsm.recordOf other := by
  constructor
  · unfold JobsOk
    simp only [into.jobs]
    exact (inv.entered_home present isHome fits into).congr rfl rfl rfl rfl
      fun key => by cases key <;> rfl
  · intro other
    simp only [JSM.recordOf, into.jobs, into.jobAt, lookup_insert]
    split <;> rfl

/-- A job has left the heap where it was at home, and with its new record it has entered the
heap of a key. -/
inductive Transferred (kinds : Kinds) (id : JobID) (found : IndexEntry) (change : Job → Job)
    (key target : HeapKey) (before : JSM) : JSM → Prop where
  | intro {left entry : Nat} {taken entered : JSM} (took : Took key left before taken)
      (own : kinds.held key.kind → found.entry = some left)
      (into : Entered target found.job entry (taken.updateJob found.job change) entered) :
      Transferred kinds id found change key target before
        { entered with jobs := entered.jobs.insert id ⟨found.job, some entry⟩ }

namespace Transferred

variable {found : IndexEntry} {change : Job → Job} {key target : HeapKey} {after : JSM}

theorem heapAt_other (transferred : Transferred kinds id found change key target jsm after)
    {other : HeapKey} (notKey : other ≠ key) (notTarget : other ≠ target) :
    after.heapAt other = jsm.heapAt other := by
  cases transferred with
  | @intro left entry taken entered took own into =>
      have sameHeap : (taken.updateJob found.job change).heapAt other = taken.heapAt other := by
        cases other <;> rfl
      rw [← took.others other notKey, ← sameHeap, ← into.others other notTarget]
      cases other <;> rfl

theorem subset_heapAt (transferred : Transferred kinds id found change key target jsm after)
    {other : HeapKey} (notTarget : other ≠ target) : after.heapAt other ⊆ jsm.heapAt other := by
  by_cases isKey : other = key
  · cases transferred with
    | @intro left entry taken entered took own into =>
        have remaining : entered.heapAt other = taken.heapAt other := by
          rw [into.others other notTarget]
          cases other <;> rfl
        intro item member
        subst other
        apply took.perm.subset
        apply List.mem_cons_of_mem
        rw [← remaining]
        cases key <;> exact member
  · rw [transferred.heapAt_other isKey notTarget]
    exact List.Subset.refl _

theorem length_heapAt (transferred : Transferred kinds id found change key target jsm after)
    (elsewhere : key ≠ target) :
    (after.heapAt key).length + 1 = (jsm.heapAt key).length := by
  cases transferred with
  | @intro left entry taken entered took own into =>
      have remaining : (entered.heapAt key).length = (taken.heapAt key).length := by
        rw [into.others key elsewhere]
        cases key <;> rfl
      have length := took.perm.length_eq
      rw [List.length_cons, ← remaining] at length
      rw [← length]
      cases key <;> rfl

theorem jobOf (transferred : Transferred kinds id found change key target jsm after) {item : Nat}
    (old : item < jsm.nextEntry) :
    after.jobOf item = if (jsm.entryAt item).job = found.job then change (jsm.jobAt found.job)
      else jsm.jobOf item := by
  cases transferred with
  | @intro left entry taken entered took own into =>
      have notNew : item ≠ entry := by
        have fresh : entry = taken.nextEntry := into.fresh
        rw [fresh, took.nextEntry]
        omega
      have sameJob : (entered.entryAt item).job = (jsm.entryAt item).job :=
        (into.sameJob item notNew).trans (took.sameJob item)
      change entered.jobAt (entered.entryAt item).job = _
      rw [into.jobAt, sameJob]
      simp only [JSM.updateJob, took.jobAt]
      rfl

end Transferred

/-- One job has moved to the heap that its new record calls for; nothing else
has changed. -/
structure Moved (kinds : Kinds) (id : JobID) (record next : Job)
    (before after : JSM) : Prop where
  inv : JobsOk kinds after
  was : before.recordOf id = some record
  records : ∀ other, after.recordOf other =
    if other = id then some next else before.recordOf other
  shrinks : ∀ key, kinds key.kind → record.home = some key → next.home ≠ some key →
    (after.heapAt key).length + 1 = (before.heapAt key).length
  frame : JobFrame before after
  transfers : ∃ found change key target home, before.jobs.lookup id = some found ∧
    before.jobAt found.job = record ∧ change record = next ∧ record.home = some key ∧
    next.home = some home ∧ (home = target ∨ ¬ kinds.held target.kind ∧ ¬ kinds.held home.kind) ∧
    Transferred kinds id found change key target before after

theorem Moved.heapAt_other {record next : Job} {after : JSM} {home other : HeapKey}
    (moved : Moved kinds id record next jsm after) (newHome : next.home = some home)
    (isHeld : kinds.held home.kind) (left : record.home ≠ some other) (entered : home ≠ other) :
    after.heapAt other = jsm.heapAt other := by
  obtain ⟨found, change, key, target, itsHome, _, _, _, isHome, isNext, fits, transferred⟩ :=
    moved.transfers
  rw [newHome] at isNext
  cases isNext
  have isTarget : home = target := fits.resolve_right fun neither => neither.2 isHeld
  apply transferred.heapAt_other
  · rintro rfl
    exact left isHome
  · exact fun same => entered (isTarget.trans same.symm)

/-- The hole that the job has left is closed where its new record is at home. -/
theorem Transferred.moved {found : IndexEntry} {change : Job → Job} {key target : HeapKey}
    {after : JSM} {home : HeapKey}
    (transferred : Transferred kinds id found change key target jsm after)
    (inv : JobsOk kinds jsm) (present : jsm.jobs.lookup id = some found)
    (isHome : (jsm.jobAt found.job).home = some key)
    (keepsId : (change (jsm.jobAt found.job)).id = (jsm.jobAt found.job).id)
    (newHome : (change (jsm.jobAt found.job)).home = some home)
    (fits : home = target ∨ ¬ kinds.held target.kind ∧ ¬ kinds.held home.kind) :
    Moved kinds id (jsm.jobAt found.job) (change (jsm.jobAt found.job)) jsm after := by
  have transfers := transferred
  have shrinks : kinds key.kind → home ≠ key →
      (after.heapAt key).length + 1 = (jsm.heapAt key).length := by
    intro isKind notHome
    apply transferred.length_heapAt
    rintro rfl
    rcases fits with rfl | neither
    · exact notHome rfl
    · exact neither.1 (kinds.held_of_exact _ isKind)
  cases transferred with
  | @intro left entry taken entered took own into =>
  have ownId := inv.id_of_job present
  have jobs : (taken.updateJob found.job change).jobs = jsm.jobs := took.jobs
  have jobAt : ∀ read, (taken.updateJob found.job change).jobAt read =
      if read = found.job then change (jsm.jobAt found.job) else jsm.jobAt read := by
    simp only [JSM.updateJob, took.jobAt, implies_true]
  have changed : JobInv kinds (some id) jsm.jobs (taken.updateJob found.job change) := by
    apply (inv.took present isHome took own).updateJob
    · rw [took.jobAt, ownId]
    · rw [took.jobAt, keepsId, ownId]
  rw [← jobs] at changed
  have atHome : ((taken.updateJob found.job change).jobAt found.job).home = some home := by
    rw [jobAt, if_pos rfl]
    exact newHome
  obtain ⟨invAfter, records⟩ := changed.closed found (jobs ▸ present) atHome fits into
  refine ⟨invAfter, JSM.recordOf_eq present, ?_, ?_, ?_, ?_⟩
  · intro other
    rw [records]
    split
    next => rw [jobAt, if_pos rfl]
    next different =>
      simp only [JSM.recordOf, jobs]
      cases otherPresent : jsm.jobs.lookup other with
      | none => rfl
      | some otherFound =>
          have otherJob : otherFound.job ≠ found.job := by
            intro same
            apply different
            rw [← inv.id_of_job otherPresent, same, ownId]
          simp [jobAt, otherJob]
  · intro other isKind wasHome notHome
    rw [isHome] at wasHome
    cases wasHome
    exact shrinks isKind fun same => notHome (same ▸ newHome)
  · exact (took.frame.trans (.updateJob taken found.job change)).trans
      (into.frame.trans (.setJobs entered _))
  · exact ⟨found, change, key, target, home, present, rfl, rfl, isHome, newHome, fits, transfers⟩

section Transition

variable (inv : JobsOk kinds jsm) {guard : IndexEntry → Job → JSMProg Unit}
    {remove : Nat → JSMProg Nat} {change : Job → Job} {enqueue : Nat → JSMProg Nat}
    {kind : HeapKind} {keyOf : Job → HeapKey} (pass : IndexEntry → Prop)
    (guarded : ∀ found, jsm.jobs.lookup id = some found →
      Decides (guard found (jsm.jobAt found.job)) jsm (pass found))
    (removes : Removes remove kind) (enters : Enters enqueue keyOf)
    (isKind : ∀ found key, pass found → (jsm.jobAt found.job).home = some key → key.kind = kind)

include inv guarded removes enters isKind

theorem ends_transfer :
    (moveJob id guard remove change enqueue jsm).Ends
      (fun _ after => ∃ found key, jsm.jobs.lookup id = some found ∧ pass found ∧
        (jsm.jobAt found.job).home = some key ∧
        Transferred kinds id found change key (keyOf (change (jsm.jobAt found.job))) jsm after ∧
        (kind ≠ .delayed → ∀ tubeName, jsm.hasTube tubeName = true →
          after.hasTube tubeName = true))
      (fun _ after => SameViews jsm after ∧
        (kinds.held kind → ∀ found, jsm.jobs.lookup id = some found → ¬ pass found))
      (¬ kinds.held kind) := by
  unfold moveJob
  rw [Prog.bind_apply]
  unfold JobIndex.get
  cases present : jsm.jobs.lookup id with
  | none => exact ⟨.refl jsm, by simp⟩
  | some found =>
  rw [Outcome.ok_andThen, readJob_bind]
  refine Prog.ends_bind ((guarded found present).mono (fun _ _ holds => holds) ?_ False.elim) ?_
  · rintro _ after ⟨rfl, fails⟩
    refine ⟨.refl after, fun _ other same => ?_⟩
    cases same
    exact fails
  rintro _ after ⟨rfl, passes⟩
  obtain ⟨entry, key, named, _, entryJob, isHome, held⟩ := inv.entered id found present (by simp)
  have homeKind := isKind found key passes isHome
  have entryHome : (after.jobOf entry).home = some key := by
    simp only [JSM.jobOf, entryJob]
    exact isHome
  rw [IndexEntry.heapEntry, named, Prog.deref_some, Prog.bind_apply, Prog.pure_apply,
    Outcome.ok_andThen]
  refine Prog.ends_bind ((removes after entry key (inv.tracked key) entryHome homeKind).mono
    (fun _ _ holds => holds) ?_ ?_) ?_
  · rintro _ failed ⟨same, missing⟩
    exact ⟨same, fun exactKind => absurd (held (homeKind ▸ exactKind)) missing⟩
  · exact fun missing exactKind => missing (held (homeKind ▸ exactKind))
  rintro left taken ⟨took, own, tubes⟩
  rw [updateJob, Prog.bind_apply, Prog.modify_apply, Outcome.ok_andThen]
  refine Prog.ends_bind ((enters _ found.job).mono (fun _ _ holds => holds) (fun _ _ => False.elim)
    False.elim) ?_
  rintro newEntry entered ⟨into, created⟩
  have targetRecord : (taken.updateJob found.job change).jobAt found.job =
      change (after.jobAt found.job) := by
    simp [JSM.updateJob, took.jobAt]
  rw [targetRecord] at into
  refine ⟨found, key, rfl, passes, isHome, .intro took (fun exactKind => ?_) into, ?_⟩
  · rw [named, own (held exactKind)]
  · intro notDelayed tubeName old
    apply created
    have := tubes notDelayed tubeName
    rw [old] at this
    exact this

theorem ends_moveJob (keepsId : ∀ record, (change record).id = record.id)
    (fits : ∀ found, jsm.jobs.lookup id = some found → pass found →
      ∃ home, (change (jsm.jobAt found.job)).home = some home ∧
        (home = keyOf (change (jsm.jobAt found.job)) ∨
          ¬ kinds.held (keyOf (change (jsm.jobAt found.job))).kind ∧ ¬ kinds.held home.kind)) :
    (moveJob id guard remove change enqueue jsm).Ends
      (fun _ after => ∃ found, jsm.jobs.lookup id = some found ∧ pass found ∧
        Moved kinds id (jsm.jobAt found.job) (change (jsm.jobAt found.job)) jsm after ∧
        (kind ≠ .delayed → ∀ tubeName, jsm.hasTube tubeName = true →
          after.hasTube tubeName = true))
      (fun _ after => SameViews jsm after ∧
        (kinds.held kind → ∀ found, jsm.jobs.lookup id = some found → ¬ pass found))
      (¬ kinds.held kind) := by
  refine (ends_transfer inv pass guarded removes enters isKind).mono ?_
    (fun _ _ failed => failed) fun unheld => unheld
  rintro _ after ⟨found, key, present, passes, isHome, transferred, tubes⟩
  obtain ⟨home, newHome, fitting⟩ := fits found present passes
  exact ⟨found, present, passes,
    transferred.moved inv present isHome (keepsId _) newHome fitting, tubes⟩

end Transition

end MoveJob

/-! ## Looking into an exact heap -/

section Look

variable {kinds : Kinds} {jsm : JSM} {id : JobID}

theorem JobsOk.recordOf_jobOf (inv : JobsOk kinds jsm) (key : HeapKey) {entry : Nat}
    (isKind : kinds key.kind) (member : entry ∈ jsm.heapAt key) :
    jsm.recordOf (jsm.jobOf entry).id = some (jsm.jobOf entry) ∧
      (jsm.jobOf entry).home = some key := by
  obtain ⟨_, indexed, home⟩ := inv.exact key entry isKind member
  refine ⟨?_, home⟩
  simp only [JSM.recordOf, indexed, Option.map_some]
  rfl

theorem JobsOk.exists_entry (inv : JobsOk kinds jsm) {key : HeapKey} {record : Job}
    (recorded : jsm.recordOf id = some record) (home : record.home = some key)
    (isKind : kinds key.kind) : ∃ entry ∈ jsm.heapAt key, jsm.jobOf entry = record := by
  obtain ⟨found, present, rfl⟩ := Option.map_eq_some_iff.mp recorded
  obtain ⟨entry, own, _, _, entryJob, ownHome, held⟩ := inv.entered id found present (by simp)
  rw [home] at ownHome
  cases ownHome
  refine ⟨entry, held (kinds.held_of_exact _ isKind), ?_⟩
  simp only [JSM.jobOf, entryJob]

/-- A heap has an entry of the job with an id. -/
def JSM.HoldsJob (jsm : JSM) (key : HeapKey) (id : JobID) : Prop :=
  ∃ entry ∈ jsm.heapAt key, (jsm.jobOf entry).id = id

theorem JobsOk.recordOf_id (inv : JobsOk kinds jsm) {record : Job}
    (recorded : jsm.recordOf id = some record) : record.id = id := by
  obtain ⟨found, present, rfl⟩ := Option.map_eq_some_iff.mp recorded
  exact inv.id_of_job present

theorem JobsOk.holdsJob_iff (inv : JobsOk kinds jsm) (key : HeapKey) (isKind : kinds key.kind) :
    jsm.HoldsJob key id ↔ ∃ record, jsm.recordOf id = some record ∧ record.home = some key := by
  constructor
  · rintro ⟨entry, member, rfl⟩
    exact ⟨_, inv.recordOf_jobOf key isKind member⟩
  · rintro ⟨record, recorded, home⟩
    obtain ⟨entry, member, isRecord⟩ := inv.exists_entry recorded home isKind
    refine ⟨entry, member, ?_⟩
    rw [isRecord, inv.recordOf_id recorded]

theorem JobsOk.exists_home (inv : JobsOk kinds jsm) {record : Job}
    (recorded : jsm.recordOf id = some record) : ∃ key, record.home = some key := by
  obtain ⟨found, present, rfl⟩ := Option.map_eq_some_iff.mp recorded
  obtain ⟨_, key, _, _, _, home, _⟩ := inv.entered id found present (by simp)
  exact ⟨key, home⟩

/-- The first entry of an exact heap is the least of the jobs that belong
there. -/
theorem JobsOk.head_le (inv : JobsOk kinds jsm) (key : HeapKey) (isKind : kinds key.kind)
    {first : Nat} (head : (jsm.heapAt key).head? = some first) {record : Job}
    (recorded : jsm.recordOf id = some record) (home : record.home = some key) :
    key.sortKey (jsm.jobOf first) ≤ key.sortKey record := by
  obtain ⟨entry, member, rfl⟩ := inv.exists_entry recorded home isKind
  exact (inv.ordered key isKind).head_le head member

theorem JobsOk.home_ne_of_empty (inv : JobsOk kinds jsm) (key : HeapKey)
    (isKind : kinds key.kind) (empty : jsm.heapAt key = []) {record : Job}
    (recorded : jsm.recordOf id = some record) :
    record.home ≠ some key := by
  intro home
  obtain ⟨entry, member, _⟩ := inv.exists_entry recorded home isKind
  rw [empty] at member
  cases member

theorem SameViews.recordOf {before after : JSM} (same : SameViews before after) :
    after.recordOf = before.recordOf := by
  obtain ⟨jobs, jobAt, _⟩ := JSM.fields_of_jobView same.jobs
  funext id
  simp only [JSM.recordOf, jobs, jobAt]

end Look

end Coolbeans
