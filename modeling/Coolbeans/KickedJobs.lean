import Coolbeans.JobRuns

/-!
# The jobs that `KickN` takes

`KickN` peeks at the buried heap of a tube and kicks the job that it finds, again and again.  As
long as the heap has only entries of jobs that are buried in the tube, these are the jobs that
have been buried the longest.
-/

namespace Coolbeans

open FiniteMap PositionHeap StatefulProgram

/-- The ids of the jobs that are buried in a tube. -/
def JSM.buriedIn (jsm : JSM) (tubeName : TubeName) : List JobID :=
  jsm.jobs.keys.filter fun id => (jsm.recordOf id).any fun record =>
    record.state = .buried ∧ record.tubeName = tubeName

/-- The buried heap of a tube holds exactly the jobs that are buried in the tube. -/
structure JSM.HoldsBuried (jsm : JSM) (tubeName : TubeName) : Prop where
  only : ∀ entry ∈ jsm.heapAt (.buried tubeName), ∃ id found, jsm.jobs.lookup id = some found ∧
    found.job = (jsm.entryAt entry).job ∧
    (jsm.jobAt found.job).state = .buried ∧ (jsm.jobAt found.job).tubeName = tubeName
  all : ∀ id found, jsm.jobs.lookup id = some found → (jsm.jobAt found.job).state = .buried →
    (jsm.jobAt found.job).tubeName = tubeName →
    ∃ entry ∈ jsm.heapAt (.buried tubeName), (jsm.entryAt entry).job = found.job

/-- The jobs with the given ids have been kicked: so many as were asked for or as there were,
and the ones that had been buried the longest.  Nothing else has changed. -/
structure KicksFirst (tubeName : TubeName) (n : Nat) (kicked : List JobID) (before after : JSM) :
    Prop where
  count : kicked.length = min n (before.buriedIn tubeName).length
  nodup : kicked.Nodup
  buried : ∀ id ∈ kicked, id ∈ before.buriedIn tubeName
  first : ∀ id ∈ kicked, ∀ other ∈ before.buriedIn tubeName, other ∉ kicked →
    ∀ record otherRecord, before.recordOf id = some record →
    before.recordOf other = some otherRecord →
    record.buriedAt < otherRecord.buriedAt ∨
      record.buriedAt = otherRecord.buriedAt ∧ id < other
  records : ∀ id, after.recordOf id =
    if id ∈ kicked then (before.recordOf id).map Job.kicked else before.recordOf id
  ready : ∀ id, after.HoldsJob (.ready tubeName) id ↔
    before.HoldsJob (.ready tubeName) id ∨ id ∈ kicked
  left : after.HoldsBuried tubeName
  elsewhere : ∀ key, key ≠ .ready tubeName → key ≠ .buried tubeName →
    after.heapAt key = before.heapAt key

section Kicks

variable {kinds : Kinds} {jsm after : JSM} {tubeName : TubeName} {id : JobID}

theorem JSM.mem_buriedIn : id ∈ jsm.buriedIn tubeName ↔
    ∃ record, jsm.recordOf id = some record ∧ record.home = some (.buried tubeName) := by
  rw [buriedIn, List.mem_filter, Option.any_eq_true]
  simp only [Job.home_eq_buried_iff, decide_eq_true_eq]
  constructor
  · exact And.right
  · rintro ⟨record, recorded, home⟩
    exact ⟨JSM.mem_keys_of_recordOf recorded, record, recorded, home⟩

theorem JSM.nodup_buriedIn (jsm : JSM) (tubeName : TubeName) : (jsm.buriedIn tubeName).Nodup :=
  jsm.jobs.keys_nodup.filter _

/-- A job that is buried has an entry on its heap in every run. -/
theorem JobsOk.holdsBuried (inv : JobsOk kinds jsm)
    (only : ∀ entry ∈ jsm.heapAt (.buried tubeName), ∃ id found,
      jsm.jobs.lookup id = some found ∧ found.job = (jsm.entryAt entry).job ∧
      (jsm.jobAt found.job).state = .buried ∧ (jsm.jobAt found.job).tubeName = tubeName) :
    jsm.HoldsBuried tubeName := by
  refine ⟨only, fun id found present isBuried inTube => ?_⟩
  obtain ⟨entry, key, _, _, entryJob, isHome, held⟩ := inv.entered id found present (by simp)
  rw [(Job.home_eq_buried_iff _ _).mpr ⟨isBuried, inTube⟩] at isHome
  cases isHome
  exact ⟨entry, held kinds.held_buried, entryJob⟩

theorem holdsBuried_of_deletesNoBuried (reachable : Reachable DeletesNoBuried jsm)
    (tubeName : TubeName) : jsm.HoldsBuried tubeName := by
  have inv : JobsOk .buriedKept jsm := by
    apply jobsOk_of_reachable reachable
    · simp [Kinds.buriedKept]
    · simp [Kinds.buriedKept]
    · exact fun impossible => absurd rfl impossible
    · exact fun _ _ _ admitted => admitted
  refine inv.holdsBuried fun entry member => ?_
  obtain ⟨_, indexed, home⟩ := inv.exact (.buried tubeName) entry
    (by simp [Kinds.buriedKept, HeapKey.kind]) member
  exact ⟨_, _, indexed, rfl, (Job.home_eq_buried_iff _ _).mp home⟩

namespace JSM.HoldsBuried

theorem recordOf_jobOf (holds : jsm.HoldsBuried tubeName) (inv : JobsOk kinds jsm) {entry : Nat}
    (member : entry ∈ jsm.heapAt (.buried tubeName)) :
    jsm.recordOf (jsm.jobOf entry).id = some (jsm.jobOf entry) ∧
      (jsm.jobOf entry).home = some (.buried tubeName) := by
  obtain ⟨id, found, present, isJob, isBuried, inTube⟩ := holds.only entry member
  have isRecord : jsm.jobOf entry = jsm.jobAt found.job := by rw [JSM.jobOf, isJob]
  rw [isRecord, inv.id_of_job present]
  exact ⟨JSM.recordOf_eq present, (Job.home_eq_buried_iff _ _).mpr ⟨isBuried, inTube⟩⟩

/-- The first entry is the one of the job that has been buried the longest. -/
theorem head_le (holds : jsm.HoldsBuried tubeName) (buried : BuriedInOrder jsm) {entry : Nat}
    (head : (jsm.heapAt (.buried tubeName)).head? = some entry) {record : Job}
    (recorded : jsm.recordOf id = some record) (home : record.home = some (.buried tubeName)) :
    (HeapKey.buried tubeName).sortKey (jsm.jobOf entry) ≤
      (HeapKey.buried tubeName).sortKey record := by
  obtain ⟨found, present, rfl⟩ := Option.map_eq_some_iff.mp recorded
  obtain ⟨isBuried, inTube⟩ := (Job.home_eq_buried_iff _ _).mp home
  obtain ⟨item, member, itemJob⟩ := holds.all id found present isBuried inTube
  have ordered := buried.ordered tubeName fun item member => by
    obtain ⟨id, found, present, isJob, _⟩ := holds.only item member
    exact ⟨id, found, present, isJob⟩
  have le := ordered.head_le head member
  rwa [JSM.keyIn, JSM.keyIn, JSM.jobOf, JSM.jobOf, itemJob] at le

/-- What is left on the heap when a job of the tube has been kicked. -/
theorem kicked {record : Job} (holds : jsm.HoldsBuried tubeName) (inv : JobsOk kinds jsm)
    (buried : BuriedInOrder jsm) (readyHeld : kinds.held .ready)
    (home : record.home = some (.buried tubeName))
    (moved : Moved kinds id record record.kicked jsm after) : after.HoldsBuried tubeName := by
  refine moved.inv.holdsBuried fun item member => ?_
  obtain ⟨found, change, key, target, newHome, present, isRecord, _, isHome, isNext, fits,
    transferred⟩ := moved.transfers
  subst isRecord
  rw [home] at isHome
  cases isHome
  have kickedHome : (jsm.jobAt found.job).kicked.home =
      some (.ready (jsm.jobAt found.job).tubeName) := by
    simp [Job.kicked, Job.home]
  rw [kickedHome] at isNext
  cases isNext
  have isTarget := fits.resolve_right fun neither => neither.2 readyHeld
  subst isTarget
  cases transferred with
  | @intro left entry taken entered took own into =>
      have member : item ∈ taken.heapAt (.buried tubeName) := by
        rwa [← show entered.heapAt (.buried tubeName) = taken.heapAt (.buried tubeName) from
          into.others (.buried tubeName) (by simp)]
      have wasMember := BuriedInOrder.mem_of_took took member
      have notJob := buried.unlisted_of_took inv present home took own tubeName item member
      rw [took.sameJob] at notJob
      have sameJob : (entered.entryAt item).job = (jsm.entryAt item).job := by
        rw [into.sameJob]
        · exact took.sameJob item
        · have bound := inv.allocated (.buried tubeName) item wasMember
          rw [into.fresh]
          change item ≠ taken.nextEntry
          rw [took.nextEntry]
          omega
      obtain ⟨other, otherFound, otherPresent, isJob, isBuried, inTube⟩ :=
        holds.only item wasMember
      have different : other ≠ id := by
        rintro rfl
        rw [present] at otherPresent
        cases otherPresent
        exact notJob isJob.symm
      have sameRecord : entered.jobAt otherFound.job = jsm.jobAt otherFound.job := by
        rw [into.jobAt]
        simp only [JSM.updateJob, took.jobAt, isJob, if_neg notJob]
      refine ⟨other, otherFound, ?_, ?_, ?_, ?_⟩
      · change (entered.jobs.insert id _).lookup other = _
        rw [lookup_insert, if_neg different]
        rw [show entered.jobs = jsm.jobs from into.jobs.trans took.jobs]
        exact otherPresent
      · exact isJob.trans sameJob.symm
      · exact sameRecord ▸ isBuried
      · exact sameRecord ▸ inTube

end JSM.HoldsBuried

/-! ## The loop -/

theorem Moved.buriedIn_perm {record : Job} (moved : Moved kinds id record record.kicked jsm after)
    (home : record.home = some (.buried tubeName)) :
    (jsm.buriedIn tubeName).Perm (id :: after.buriedIn tubeName) := by
  have mem_after : ∀ other, other ∈ after.buriedIn tubeName ↔
      other ≠ id ∧ other ∈ jsm.buriedIn tubeName := by
    intro other
    rw [JSM.mem_buriedIn, JSM.mem_buriedIn, moved.records]
    split
    next same => simp [same, Job.kicked, Job.home]
    next different => simp [different]
  rw [List.perm_ext_iff_of_nodup (jsm.nodup_buriedIn tubeName)]
  · intro other
    rw [List.mem_cons, mem_after]
    by_cases same : other = id
    · simp only [same, true_or, iff_true]
      exact JSM.mem_buriedIn.mpr ⟨record, moved.was, home⟩
    · simp [same]
  · refine List.nodup_cons.mpr ⟨fun inside => ?_, after.nodup_buriedIn tubeName⟩
    exact ((mem_after id).mp inside).1 rfl

theorem KicksFirst.nil (holds : jsm.HoldsBuried tubeName) {n : Nat}
    (done : n = 0 ∨ jsm.buriedIn tubeName = []) : KicksFirst tubeName n [] jsm jsm where
  count := by rcases done with rfl | empty <;> simp [*]
  nodup := List.nodup_nil
  buried := by simp
  first := by simp
  records := by simp
  ready := by simp
  left := holds
  elsewhere _ _ _ := rfl

theorem KicksFirst.cons {record : Job} {middle : JSM} {n : Nat} {kicked : List JobID}
    (inv : JobsOk kinds jsm) (readyExact : kinds .ready)
    (home : record.home = some (.buried tubeName))
    (least : ∀ other otherRecord, jsm.recordOf other = some otherRecord →
      otherRecord.home = some (.buried tubeName) →
      (HeapKey.buried tubeName).sortKey record ≤ (HeapKey.buried tubeName).sortKey otherRecord)
    (moved : Moved kinds id record record.kicked jsm middle)
    (rest : KicksFirst tubeName n kicked middle after) :
    KicksFirst tubeName (n + 1) (id :: kicked) jsm after := by
  have perm := moved.buriedIn_perm home
  have inTube := ((Job.home_eq_buried_iff _ _).mp home).2
  have newHome : record.kicked.home = some (.ready tubeName) := by
    simp [Job.kicked, Job.home, inTube]
  have fresh : id ∉ kicked := fun inside =>
    (List.nodup_cons.mp (perm.nodup_iff.mp (jsm.nodup_buriedIn tubeName))).1 (rest.buried id inside)
  have unmoved : ∀ other, other ≠ id → middle.recordOf other = jsm.recordOf other := by
    intro other different
    rw [moved.records, if_neg different]
  exact
    { count := by
        rw [List.length_cons, rest.count, perm.length_eq, List.length_cons, Nat.add_min_add_right]
      nodup := List.nodup_cons.mpr ⟨fresh, rest.nodup⟩
      buried := by
        intro other inside
        apply perm.mem_iff.mpr
        rcases List.mem_cons.mp inside with rfl | later
        · exact List.mem_cons_self
        · exact List.mem_cons_of_mem _ (rest.buried other later)
      first := by
        intro chosen inside other isBuried notKicked chosenRecord otherRecord isChosen isOther
        obtain ⟨notId, notLater⟩ := not_or.mp (mt List.mem_cons.mpr notKicked)
        rcases List.mem_cons.mp inside with rfl | later
        · obtain ⟨_, recorded, otherHome⟩ := JSM.mem_buriedIn.mp isBuried
          have le := least other _ recorded otherHome
          rw [isOther] at recorded
          cases recorded
          rw [moved.was] at isChosen
          cases isChosen
          simp only [HeapKey.sortKey, Prod.Lex.toLex_le_toLex, inv.recordOf_id isOther,
            inv.recordOf_id moved.was] at le
          rcases le with earlier | ⟨sameTime, sameOrLess⟩
          · exact Or.inl (Int64.lt_iff_toInt_lt.mpr earlier)
          · refine Or.inr ⟨Int64.toInt.inj sameTime, UInt64.lt_of_le_of_ne sameOrLess ?_⟩
            exact fun same => notId same.symm
        · have chosenNe : chosen ≠ id := fun same => fresh (same ▸ later)
          apply rest.first chosen later other _ notLater
          · rw [unmoved chosen chosenNe]
            exact isChosen
          · rw [unmoved other notId]
            exact isOther
          · exact (List.mem_cons.mp (perm.mem_iff.mp isBuried)).resolve_left notId
      records := by
        intro other
        rw [rest.records]
        by_cases same : other = id
        · subst other
          simp [fresh, moved.records, moved.was]
        · simp [same, unmoved other same]
      ready := by
        intro other
        rw [rest.ready, moved.inv.holdsJob_iff (.ready tubeName) readyExact,
          inv.holdsJob_iff (.ready tubeName) readyExact, List.mem_cons]
        by_cases same : other = id
        · subst other
          simp [moved.records, newHome]
        · simp [same, unmoved other same]
      left := rest.left
      elsewhere := by
        intro key notReady notBuried
        rw [rest.elsewhere key notReady notBuried]
        apply moved.heapAt_other newHome (kinds.held_of_exact _ readyExact)
        · rw [home]
          exact fun same => notBuried (Option.some.inj same).symm
        · exact fun same => notReady same.symm }

/-- The loop kicks the jobs in the order of the heap. -/
theorem kickLoop_kicks (inv : JobsOk kinds jsm) (readyExact : kinds .ready)
    (buried : BuriedInOrder jsm) (holds : jsm.HoldsBuried tubeName) (rounds : Nat)
    (count : Int64) :
    ∃ kicked after,
      kickLoop tubeName rounds count jsm = .ok (count + Int64.ofNat kicked.length) after ∧
        KicksFirst tubeName rounds kicked jsm after := by
  induction rounds generalizing count jsm with
  | zero => exact ⟨[], jsm, by simp [kickLoop], .nil holds (Or.inl rfl)⟩
  | succ rounds induction =>
      cases head : (jsm.heapAt (.buried tubeName)).head? with
      | none =>
          refine ⟨[], jsm, by simp [kickLoop_of_none head], .nil holds (Or.inr ?_)⟩
          rw [List.head?_eq_none_iff] at head
          rw [List.eq_nil_iff_forall_not_mem]
          intro id isBuried
          obtain ⟨record, recorded, home⟩ := JSM.mem_buriedIn.mp isBuried
          obtain ⟨found, present, rfl⟩ := Option.map_eq_some_iff.mp recorded
          obtain ⟨state, inTube⟩ := (Job.home_eq_buried_iff _ _).mp home
          obtain ⟨entry, member, _⟩ := holds.all id found present state inTube
          simp [head] at member
      | some entry =>
          obtain ⟨recorded, home⟩ := holds.recordOf_jobOf inv (List.mem_of_head? head)
          have isBuried := ((Job.home_eq_buried_iff _ _).mp home).1
          obtain ⟨middle, returns, moved⟩ := kick_returns inv recorded isBuried
          obtain ⟨kicked, after, loops, rest⟩ :=
            induction moved.inv (buried.moved inv moved)
              (holds.kicked inv buried (kinds.held_of_exact _ readyExact) home moved) (count + 1)
          refine ⟨(jsm.jobOf entry).id :: kicked, after, ?_, .cons inv readyExact home
            (fun _ _ isOther otherHome => holds.head_le buried head isOther otherHome) moved rest⟩
          rw [kickLoop_of_some head, Prog.bind_apply, returns, Outcome.ok_andThen, loops,
            List.length_cons, Int64.ofNat_add, Int64.add_assoc, Int64.add_comm 1]
          rfl

end Kicks

/-- In every reachable state in which the buried heap of a tube holds exactly the jobs that are
buried in the tube, `KickN` kicks the first of them and returns their number. -/
theorem kickN_kicksFirst {admits : JSM → Op → Prop} {jsm : JSM} (reachable : Reachable admits jsm)
    (tubeName : TubeName) (holds : jsm.HoldsBuried tubeName) (n : Int64) :
    ∃ kicked after, kickN tubeName n jsm = .ok (Int64.ofNat kicked.length) after ∧
      KicksFirst tubeName n.toInt.toNat kicked jsm after ∧
      ∀ id ∈ kicked, ∃ record, after.recordOf id = some record ∧ record.state = .ready ∧
        record.tubeName = tubeName ∧ record.buriedAt = 0 := by
  obtain ⟨kicked, after, returns, first⟩ :=
    kickLoop_kicks (jobsOk_anyRun_of_reachable reachable) (by simp [Kinds.anyRun])
      (buriedInOrder_of_reachable reachable) holds n.toInt.toNat 0
  rw [Int64.zero_add] at returns
  refine ⟨kicked, after, returns, first, fun id inside => ?_⟩
  obtain ⟨record, recorded, home⟩ := JSM.mem_buriedIn.mp (first.buried id inside)
  refine ⟨record.kicked, ?_, ?_, ?_, ?_⟩
  · rw [first.records, if_pos inside, recorded, Option.map_some]
  · simp [Job.kicked]
  · simpa [Job.kicked] using ((Job.home_eq_buried_iff _ _).mp home).2
  · simp [Job.kicked]

/-- Two clients bury the two jobs of a tube, the second job first. -/
def buryTwo : List Op :=
  [.put 10 5 0 60 0 none [1], .put 10 5 0 60 0 none [1],
    .appendReservation [7] [1] [[1]] 10 20, .appendReservation [8] [1] [[1]] 10 20,
    .bury 11 2 5 [8], .bury 12 1 5 [7]]

theorem kickN_kicksFirst_buryTwo :
    (stateAfter buryTwo).buriedIn [1] = [1, 2] ∧
      ∃ kicked after, kickN [1] 1 (stateAfter buryTwo) =
          .ok (Int64.ofNat kicked.length) after ∧
        KicksFirst [1] 1 kicked (stateAfter buryTwo) after := by
  have reachable : Reachable DeletesNoBuried (stateAfter buryTwo) :=
    reachable_stateAfter buryTwo (by simp [buryTwo, DeletesNoBuried])
  obtain ⟨kicked, after, returns, first, _⟩ := kickN_kicksFirst reachable [1]
    (holdsBuried_of_deletesNoBuried reachable [1]) 1
  exact ⟨by decide +kernel, kicked, after, returns, first⟩

end Coolbeans
