import Coolbeans.JobRuns

/-!
# What the job containers hold

The invariant of the job containers, read as a statement about the index and
the heaps: every indexed job has exactly one slot, the one that its index
entry designates, in the heap that its state calls for, and each heap is in
the order of its comparator.
-/

namespace Coolbeans

open FiniteMap PositionHeap StatefulProgram

/-- The heaps of the given kinds hold exactly the indexed jobs that belong
there, each once and in order. -/
structure HeapsExact (kinds : HeapKind → Prop) (jsm : JSM) : Prop where
  /-- The index entry of a job designates its slot. -/
  slot : ∀ id found key, jsm.jobs.lookup id = some found →
    (jsm.jobAt found.job).home = some key → kinds key.kind →
    ∃ (entry position : Nat), found.entry = some entry ∧ (jsm.heapAt key)[position]? = some entry ∧
      (jsm.entryAt entry).index = position ∧ (jsm.entryAt entry).job = found.job
  /-- No job has a second slot, in the same heap or in another one. -/
  once : ∀ (first second : HeapKey) (i j a b : Nat), kinds first.kind → kinds second.kind →
    (jsm.heapAt first)[i]? = some a → (jsm.heapAt second)[j]? = some b →
    (jsm.jobOf a).id = (jsm.jobOf b).id → first = second ∧ i = j
  /-- Nothing else is in a heap. -/
  only : ∀ key entry, kinds key.kind → entry ∈ jsm.heapAt key →
    ∃ id found, jsm.jobs.lookup id = some found ∧ found.job = (jsm.entryAt entry).job ∧
      found.entry = some entry ∧ (jsm.jobOf entry).id = id ∧ (jsm.jobOf entry).home = some key
  /-- No child comes before its parent. -/
  ordered : ∀ (key : HeapKey) (c parent child : Nat), kinds key.kind → 0 < c →
    (jsm.heapAt key)[(c - 1) / 2]? = some parent → (jsm.heapAt key)[c]? = some child →
    key.less (jsm.jobOf child) (jsm.jobOf parent) = false

/-- A peek returns the least of the indexed jobs that belong into a heap, or a
missing entry if there is none. -/
def PeeksLeast (jsm : JSM) (peek : JSMProg Nat) (key : HeapKey) : Prop :=
  (peek jsm).Ends
    (fun entry after => after = jsm ∧
      jsm.recordOf (jsm.jobOf entry).id = some (jsm.jobOf entry) ∧
      (jsm.jobOf entry).home = some key ∧
      ∀ id record, jsm.recordOf id = some record → record.home = some key →
        key.less record (jsm.jobOf entry) = false)
    (fun error after => after = jsm ∧ error = .entryMissing ∧
      ∀ id record, jsm.recordOf id = some record → record.home ≠ some key)
    False

section Exact

variable {kinds : Kinds} {jsm : JSM}

theorem HeapKey.not_less_of_le {key : HeapKey} {first second : Job}
    (le : key.sortKey first ≤ key.sortKey second) : key.less second first = false := by
  rw [Bool.eq_false_iff, Ne, key.less_iff]
  exact not_lt.mpr le

theorem heapsExact_of_jobsOk (inv : JobsOk kinds jsm) {chosen : HeapKind → Prop}
    (subset : ∀ kind, chosen kind → kinds kind) : HeapsExact chosen jsm := by
  refine ⟨?_, ?_, ?_, ?_⟩
  · intro id found key present home isKind
    obtain ⟨entry, own, named, _, entryJob, ownHome, held⟩ := inv.entered id found present (by simp)
    rw [home] at ownHome
    cases ownHome
    obtain ⟨position, occupied⟩ :=
      List.getElem?_of_mem (held (kinds.held_of_exact _ (subset _ isKind)))
    exact ⟨entry, position, named, occupied, inv.tracked key position entry occupied, entryJob⟩
  · intro first second i j a b firstKind secondKind atFirst atSecond sameId
    obtain ⟨_, indexedA, homeA⟩ :=
      inv.exact first a (subset _ firstKind) (List.mem_of_getElem? atFirst)
    obtain ⟨named, homeB⟩ := inv.eq_entry indexedA (subset _ secondKind)
      (List.mem_of_getElem? atSecond) sameId.symm
    cases named
    have sameKey : first = second := Option.some.inj (homeA.symm.trans homeB)
    subst second
    exact ⟨rfl, (inv.tracked first).slot_unique entryStore atFirst atSecond⟩
  · intro key entry isKind member
    obtain ⟨_, indexed, home⟩ := inv.exact key entry (subset _ isKind) member
    exact ⟨_, _, indexed, rfl, rfl, rfl, home⟩
  · intro key c parent child isKind positive atParent atChild
    obtain ⟨bound, _⟩ := List.getElem?_eq_some_iff.mp atChild
    exact HeapKey.not_less_of_le
      (inv.ordered key (subset _ isKind) c positive bound parent child atParent atChild)

theorem peeksLeast_peekAt (inv : JobsOk kinds jsm) (key : HeapKey) (isKind : kinds key.kind) :
    PeeksLeast jsm (peekAt key) key := by
  unfold PeeksLeast peekAt
  cases head : (jsm.heapAt key).head? with
  | none =>
      refine ⟨rfl, rfl, fun id record recorded => ?_⟩
      exact inv.home_ne_of_empty key isKind (List.head?_eq_none_iff.mp head) recorded
  | some entry =>
      obtain ⟨recorded, home⟩ := inv.recordOf_jobOf key isKind (List.mem_of_head? head)
      refine ⟨rfl, recorded, home, fun id record isRecord isHome => ?_⟩
      exact HeapKey.not_less_of_le (inv.head_le key isKind head isRecord isHome)

end Exact

/-! ## Ready, delayed and reserved jobs -/

/-- The client that an operation names. -/
def Op.clientID? : Op → Option ClientID
  | .delete _ clientID | .release _ clientID | .releaseWith _ _ clientID _ _
  | .touch _ _ clientID | .bury _ _ _ clientID | .appendReservation clientID _ _ _ _ =>
      some clientID
  | _ => none

/-- Operations that name a client give its id. -/
def NamesClients (_ : JSM) (op : Op) : Prop :=
  op.clientID? ≠ some []

theorem NamesClients.touchesOwn {jsm : JSM} {op : Op} (named : NamesClients jsm op) :
    TouchesOwn jsm op := by
  unfold TouchesOwn
  split
  next nowSeconds jobID clientID =>
    intro record _ owned
    refine owned.2.resolve_left ?_
    rintro rfl
    exact named rfl
  next => trivial

theorem jobsOk_of_namesClients {jsm : JSM} (reachable : Reachable NamesClients jsm) :
    JobsOk .ownTouches jsm :=
  jobsOk_of_reachable reachable (by simp [Kinds.ownTouches]) (by simp [Kinds.ownTouches])
    (fun _ jsm op named => named.touchesOwn) (fun impossible => absurd rfl impossible)

/-- With clients that give their ids, the ready, delayed and reserved heaps are
exact in every reachable state, and a look at the front of one finds the least
of its jobs. -/
theorem heapsExact_of_namesClients {jsm : JSM} (reachable : Reachable NamesClients jsm) :
    HeapsExact (· ≠ .buried) jsm ∧
      (∀ tubeName, PeeksLeast jsm (peekReadyJob tubeName) (.ready tubeName)) ∧
      (∀ tubeName, PeeksLeast jsm (peekDelayedJob tubeName) (.delayed tubeName)) ∧
      ∀ clientID, PeeksLeast jsm (nextReservedJob clientID) (.reserved clientID) := by
  have inv := jobsOk_of_namesClients reachable
  refine ⟨heapsExact_of_jobsOk inv fun _ isKind => isKind, ?_, ?_, ?_⟩
  all_goals
    intro name
    apply peeksLeast_peekAt inv
    simp [Kinds.ownTouches, HeapKey.kind]

/-- A run with a ready, a delayed and a reserved job. -/
def threeJobs : List Op :=
  [.put 10 5 0 60 0 none [1], .appendReservation [7] [1] [[1]] 10 20,
    .put 11 4 0 60 0 none [1], .put 11 4 30 60 0 none [1]]

theorem heapsExact_threeJobs :
    ((stateAfter threeJobs).recordOf 1).map (·.state) = some .reserved ∧
      ((stateAfter threeJobs).recordOf 2).map (·.state) = some .ready ∧
      ((stateAfter threeJobs).recordOf 3).map (·.state) = some .delayed ∧
      HeapsExact (· ≠ .buried) (stateAfter threeJobs) := by
  refine ⟨by decide +kernel, by decide +kernel, by decide +kernel, ?_⟩
  refine (heapsExact_of_namesClients (reachable_stateAfter threeJobs ?_)).1
  simp [threeJobs, NamesClients, Op.clientID?]

/-! ## Buried jobs -/

/-- On sound containers the loop stops only at its last round or at the last buried job. -/
theorem kickLoop_returns {kinds : Kinds} {jsm : JSM} (inv : JobsOk kinds jsm)
    (isExact : kinds .buried)
    (tubeName : TubeName) (rounds : Nat) (count : Int64) :
    ∃ after, kickLoop tubeName rounds count jsm =
      .ok (count + Int64.ofNat (min rounds (jsm.heapAt (.buried tubeName)).length)) after := by
  induction rounds generalizing count jsm with
  | zero => exact ⟨jsm, by simp [kickLoop]⟩
  | succ rounds induction =>
      cases head : (jsm.heapAt (.buried tubeName)).head? with
      | none =>
          refine ⟨jsm, ?_⟩
          rw [kickLoop_of_none head]
          simp [List.head?_eq_none_iff.mp head]
      | some entry =>
          obtain ⟨recorded, home⟩ := inv.recordOf_jobOf (.buried tubeName) isExact
            (List.mem_of_head? head)
          have isBuried := ((Job.home_eq_buried_iff _ _).mp home).1
          obtain ⟨after, kicked, moved⟩ :=
            kick_returns inv recorded isBuried
          have shrinks := moved.shrinks (.buried tubeName) isExact home
            (by simp [Job.kicked, Job.home])
          obtain ⟨last, returns⟩ := induction moved.inv (count + 1)
          refine ⟨last, ?_⟩
          rw [kickLoop_of_some head, Prog.bind_apply, kicked, Outcome.ok_andThen, returns,
            ← shrinks, Nat.add_min_add_right, Int64.ofNat_add, Int64.add_assoc, Int64.add_comm 1]
          rfl

theorem kickN_returns {kinds : Kinds} {jsm : JSM} (inv : JobsOk kinds jsm)
    (isExact : kinds .buried) (tubeName : TubeName) (n : Int64) : ∃ after, kickN tubeName n jsm =
      .ok (Int64.ofNat (min n.toInt.toNat (jsm.heapAt (.buried tubeName)).length)) after := by
  obtain ⟨after, returns⟩ := kickLoop_returns inv isExact tubeName n.toInt.toNat 0
  rw [Int64.zero_add] at returns
  exact ⟨after, returns⟩

/-- As long as no buried job is deleted, the buried heaps are exact in every
reachable state, a peek finds an indexed job, and `KickN` returns. -/
theorem buriedHeaps_exact {jsm : JSM} (reachable : Reachable DeletesNoBuried jsm) :
    HeapsExact (· = .buried) jsm ∧
      (∀ tubeName, PeeksLeast jsm (peekBuriedJob tubeName) (.buried tubeName)) ∧
      ∀ tubeName n, ∃ count after, kickN tubeName n jsm = .ok count after := by
  have inv : JobsOk .buriedKept jsm :=
    jobsOk_of_reachable reachable (by simp [Kinds.buriedKept]) (by simp [Kinds.buriedKept])
      (fun impossible => absurd rfl impossible)
      fun _ jsm op admitted => admitted
  have buriedExact : Kinds.buriedKept .buried := by simp [Kinds.buriedKept]
  refine ⟨heapsExact_of_jobsOk inv fun kind isBuried => isBuried ▸ buriedExact,
    fun tubeName => ?_, fun tubeName n => ?_⟩
  · exact peeksLeast_peekAt inv (.buried tubeName) buriedExact
  · exact ⟨_, kickN_returns inv buriedExact tubeName n⟩

/-- A run that buries a job. -/
def buryOne : List Op :=
  [.put 10 5 0 60 0 none [1], .appendReservation [7] [1] [[1]] 10 20, .bury 11 1 5 [7]]

theorem buriedHeaps_exact_buryOne :
    ((stateAfter buryOne).recordOf 1).map (·.state) = some .buried ∧
      HeapsExact (· = .buried) (stateAfter buryOne) := by
  refine ⟨by decide +kernel, (buriedHeaps_exact (reachable_stateAfter buryOne ?_)).1⟩
  simp [buryOne, DeletesNoBuried]

/-- Deleting a buried job leaves its entry in the buried heap: a peek returns a
job that is no longer indexed, and `KickN` fails on it. -/
theorem buriedHeaps_not_exact :
    ∃ jsm, Reachable (fun _ _ => True) jsm ∧
      (jsm.heapAt (.buried [1])).map (fun entry => (jsm.jobOf entry).id) = [1] ∧
      jsm.recordOf 1 = none ∧ (getJob 1 jsm).reply? = some (.error .entryMissing) ∧
      (kickN [1] 1 jsm).reply? = some (.error .entryMissing) := by
  refine ⟨stateAfter (buryOne ++ [.delete 1 [7]]), reachable_stateAfter _ (by simp), ?_⟩
  decide +kernel

end Coolbeans
