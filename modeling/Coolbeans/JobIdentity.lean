import Coolbeans.SnapshotFidelity

/-!
# Job ids

`Put` takes the id after the highest one so far.  A restore computes the
highest id again, from the jobs that are left: ids stay unique along a history
with restores as long as the job with the highest id is among them.
-/

namespace Coolbeans

open FiniteMap StatefulProgram

/-- The id that a successful `Put` has returned. -/
def issuedID? : Op × Answer → Option JobID
  | (.put .., .ok (.jobID id)) => some id
  | _ => none

def issuedIDs (events : List (Op × Answer)) : List JobID :=
  events.filterMap issuedID?

def putCount (events : List (Op × Answer)) : Nat :=
  events.countP fun event => event.1.isPut

/-- A history of a state machine: operations, and restores of its snapshots
into any state machine, which then goes on with the history. -/
inductive Lineage (admits : JSM → Op → Prop) (restorable : JSM → Prop) :
    List (Op × Answer) → JSM → Prop where
  | new : Lineage admits restorable [] newJSM
  | step {events : List (Op × Answer)} {before after : JSM} {op : Op} {answer : Answer}
      (lineage : Lineage admits restorable events before) (admitted : admits before op)
      (steps : op.Steps before answer after) :
      Lineage admits restorable (events ++ [(op, answer)]) after
  | restore {events : List (Op × Answer)} {origin target after : JSM} {walk : JobWalk}
      (lineage : Lineage admits restorable events origin) (allowed : restorable origin)
      (restores : restoreSnapshotTo (origin.newSnapshotFrom walk) target = .ok () after) :
      Lineage admits restorable events after

/-- The job with the highest id is still there, or there has never been one. -/
def KeepsHighest (jsm : JSM) : Prop :=
  jsm.maxJobID = 0 ∨ jsm.maxJobID ∈ jsm.jobs.keys

instance (jsm : JSM) : Decidable (KeepsHighest jsm) :=
  inferInstanceAs (Decidable (jsm.maxJobID = 0 ∨ jsm.maxJobID ∈ jsm.jobs.keys))

/-! ## One operation -/

/-- The operation takes no id. -/
structure TakesNone (op : Op) (answer : Answer) (before after : JSM) : Prop where
  highest : after.maxJobID = before.maxJobID
  issued : issuedID? (op, answer) = none
  indexed : ∀ id, after.recordOf id ≠ none → before.recordOf id ≠ none

/-- The operation takes the next id, whether or not it issues it. -/
structure TakesNext (op : Op) (answer : Answer) (before after : JSM) : Prop where
  isPut : op.isPut = true
  highest : after.maxJobID = before.maxJobID + 1
  issued : ∀ id ∈ issuedID? (op, answer), id = before.maxJobID + 1
  indexed : ∀ id, after.recordOf id ≠ none →
    before.recordOf id ≠ none ∨ id = before.maxJobID + 1

section Step

variable {kinds : Kinds} {before after : JSM} {op : Op} {answer : Answer}

theorem indexed_of_replaced {id : JobID} {next : Option Job} (was : before.recordOf id ≠ none)
    (records : ∀ other, after.recordOf other = if other = id then next else before.recordOf other)
    (other : JobID) (indexed : after.recordOf other ≠ none) : before.recordOf other ≠ none := by
  rw [records] at indexed
  split at indexed
  next same =>
    rw [same]
    exact was
  next => exact indexed

theorem Moved.indexed {id : JobID} {record next : Job}
    (moved : Moved kinds id record next before after) (other : JobID)
    (indexed : after.recordOf other ≠ none) : before.recordOf other ≠ none :=
  indexed_of_replaced (by simp [moved.was]) moved.records other indexed

theorem TickDone.indexed {nowSecs : Int64} {walk : TubeWalk} {matched : List (CliPtr × Job)}
    {processed : List CliPtr} {answers : List Reservation} {woken served : JSM}
    (done : TickDone kinds nowSecs walk matched processed answers before woken served after)
    (id : JobID) (indexed : after.recordOf id ≠ none) : before.recordOf id ≠ none := by
  have inServed : served.recordOf id ≠ none := by
    rcases done.clients.released id with same | ⟨record, was, _⟩
    · rwa [same] at indexed
    · simp [was]
  have inWoken : woken.recordOf id ≠ none := by
    by_cases isServed : id ∈ matched.map fun pair => pair.2.id
    · obtain ⟨pair, inside, rfl⟩ := List.mem_map.mp isServed
      simp [(done.ready.wasReady pair inside).1]
    · rwa [done.ready.unserved id isServed] at inServed
  intro missing
  rw [done.delay.records, missing] at inWoken
  exact inWoken rfl

theorem Effect.takes (effect : Effect kinds before op answer after) :
    TakesNone op answer before after ∨ TakesNext op answer before after := by
  cases effect with
  | refused same =>
      left
      refine ⟨same.frame.maxJobID, ?_, fun id indexed => ?_⟩
      · cases op <;> rfl
      · rwa [same.recordOf] at indexed
  | looked =>
      left
      refine ⟨rfl, ?_, fun id indexed => indexed⟩
      cases op <;> rfl
  | put absent done records =>
      right
      refine ⟨rfl, done.maxJobID, fun id issued => (Option.some.inj issued).symm, ?_⟩
      intro id indexed
      rw [records] at indexed
      split at indexed
      next same => exact Or.inr same
      next => exact Or.inl indexed
  | putTaken taken done records =>
      right
      refine ⟨rfl, done.maxJobID, fun id issued => (by cases issued), fun id indexed => ?_⟩
      rw [records] at indexed
      exact Or.inl indexed
  | deleted deleted =>
      left
      refine ⟨deleted.frame.maxJobID, rfl, fun id indexed => ?_⟩
      rw [deleted.records] at indexed
      split at indexed
      · exact absurd rfl indexed
      · exact indexed
  | givenUp gives owned done =>
      left
      refine ⟨done.maxJobID, ?_, indexed_of_replaced (by simp [done.was]) done.records⟩
      cases op <;> rfl
  | kicked _ moved => exact Or.inl ⟨moved.frame.maxJobID, rfl, moved.indexed⟩
  | kickedSome kicked =>
      left
      refine ⟨kicked.frame.maxJobID, rfl, fun id indexed => ?_⟩
      rcases kicked.records id with same | ⟨record, was, _⟩
      · rwa [same] at indexed
      · simp [was]
  | touched _ moved _ _ rescheduled =>
      left
      refine ⟨rescheduled.frame.maxJobID.trans moved.frame.maxJobID, rfl, fun id indexed => ?_⟩
      rw [rescheduled.frame.recordOf] at indexed
      exact moved.indexed id indexed
  | touchedOrphan _ moved => exact Or.inl ⟨moved.frame.maxJobID, rfl, moved.indexed⟩
  | appended _ appended =>
      left
      have asked := appended.asked.frame
      rcases appended.outcome with ⟨_, _, rescheduled⟩ | ⟨_, _, entry, _, served, _⟩
      · refine ⟨rescheduled.frame.maxJobID.trans asked.maxJobID, rfl, fun id indexed => ?_⟩
        rwa [rescheduled.frame.recordOf, asked.recordOf] at indexed
      · refine ⟨served.maxJobID.trans asked.maxJobID, rfl, fun id indexed => ?_⟩
        rw [← asked.recordOf]
        exact indexed_of_replaced (by simp [served.was]) served.records id indexed
  | ticked done =>
      left
      refine ⟨?_, rfl, done.indexed⟩
      rw [done.clients.maxJobID, done.ready.maxJobID, done.delay.maxJobID]

end Step

/-! ## A restore -/

/-- No indexed job has an id above the highest one. -/
def IndexedBelow (jsm : JSM) : Prop :=
  ∀ id, jsm.recordOf id ≠ none → id ≤ jsm.maxJobID

theorem KeepsHighest.recorded {jsm : JSM} (keeps : KeepsHighest jsm) :
    jsm.maxJobID = 0 ∨ jsm.recordOf jsm.maxJobID ≠ none := by
  refine keeps.imp_right fun member => ?_
  rw [mem_keys_iff] at member
  obtain ⟨found, present⟩ := Option.isSome_iff_exists.mp member
  simp [jsm.recordOf_eq present]

/-- A restore finds the highest id again exactly if its job is still there. -/
theorem Restored.maxJobID_eq_iff {origin target after : JSM}
    (restored : Restored origin target after) (below : IndexedBelow origin) :
    after.maxJobID = origin.maxJobID ↔ KeepsHighest origin := by
  constructor
  · intro same
    rcases restored.reached with isZero | ⟨record, recorded⟩
    · left
      rw [← same, isZero]
    · right
      rw [← same]
      exact JSM.mem_keys_of_recordOf recorded
  · intro keeps
    apply UInt64.le_antisymm
    · rcases restored.reached with isZero | ⟨record, recorded⟩
      · rw [isZero]
        exact UInt64.zero_le
      · exact below _ (by simp [recorded])
    · rcases keeps.recorded with isZero | present
      · rw [isZero]
        exact UInt64.zero_le
      · obtain ⟨record, recorded⟩ := Option.ne_none_iff_exists'.mp present
        exact restored.bound _ record recorded

/-! ## A history -/

/-- The ids of a history so far. -/
structure IDsOk (events : List (Op × Answer)) (jsm : JSM) : Prop where
  containers : ContainersOk .anyRun jsm
  below : IndexedBelow jsm
  issued : ∀ id ∈ issuedIDs events, id.toNat ≤ jsm.maxJobID.toNat
  counted : jsm.maxJobID.toNat ≤ putCount events
  nodup : (issuedIDs events).Nodup

section History

variable {events : List (Op × Answer)} {before after : JSM} {op : Op} {answer : Answer}

theorem issuedIDs_snoc (events : List (Op × Answer)) (op : Op) (answer : Answer) :
    issuedIDs (events ++ [(op, answer)]) = issuedIDs events ++ (issuedID? (op, answer)).toList := by
  unfold issuedIDs
  rw [List.filterMap_append]
  cases issued : issuedID? (op, answer) <;> simp [issued]

theorem IDsOk.takesNone (ok : IDsOk events before) (takes : TakesNone op answer before after)
    (containers : ContainersOk .anyRun after) : IDsOk (events ++ [(op, answer)]) after := by
  have sameIDs : issuedIDs (events ++ [(op, answer)]) = issuedIDs events := by
    rw [issuedIDs_snoc, takes.issued]
    exact List.append_nil _
  refine ⟨containers, ?_, ?_, ?_, ?_⟩
  · intro id indexed
    rw [takes.highest]
    exact ok.below id (takes.indexed id indexed)
  · rw [sameIDs, takes.highest]
    exact ok.issued
  · rw [takes.highest, putCount, List.countP_append]
    exact Nat.le_add_right_of_le ok.counted
  · rw [sameIDs]
    exact ok.nodup

theorem IDsOk.takesNext (ok : IDsOk events before) (takes : TakesNext op answer before after)
    (containers : ContainersOk .anyRun after)
    (few : putCount (events ++ [(op, answer)]) < 2 ^ 64) :
    IDsOk (events ++ [(op, answer)]) after := by
  have count : putCount (events ++ [(op, answer)]) = putCount events + 1 := by
    rw [putCount, List.countP_append]
    simp [takes.isPut, putCount]
  have counted := ok.counted
  have next : after.maxJobID.toNat = before.maxJobID.toNat + 1 := by
    rw [takes.highest, UInt64.toNat_add, show (1 : UInt64).toNat = 1 from rfl]
    exact Nat.mod_eq_of_lt (by omega)
  have isNext : ∀ id ∈ (issuedID? (op, answer)).toList, id = after.maxJobID := by
    intro id issued
    rw [takes.issued id (Option.mem_toList.mp issued), takes.highest]
  refine ⟨containers, ?_, ?_, ?_, ?_⟩
  · intro id indexed
    rw [UInt64.le_iff_toNat_le, next]
    rcases takes.indexed id indexed with old | isNew
    · have bound := UInt64.le_iff_toNat_le.mp (ok.below id old)
      omega
    · rw [isNew, ← takes.highest, next]
  · intro id issued
    rw [issuedIDs_snoc] at issued
    rcases List.mem_append.mp issued with old | new
    · have bound := ok.issued id old
      omega
    · rw [isNext id new]
  · omega
  · rw [issuedIDs_snoc, List.nodup_append]
    refine ⟨ok.nodup, ?_, ?_⟩
    · cases issuedID? (op, answer) <;> simp
    · intro id old other new same
      have bound := ok.issued id old
      rw [same, isNext other new] at bound
      omega

/-- Along a history that restores no snapshot without its highest job, the ids
are in order. -/
theorem Lineage.idsOk (lineage : Lineage BoundedRequests KeepsHighest events after)
    (few : putCount events < 2 ^ 64) : IDsOk events after := by
  induction lineage with
  | new =>
      refine ⟨containersOk_newJSM, ?_, by simp [issuedIDs], by simp [newJSM], by simp [issuedIDs]⟩
      intro id indexed
      exact absurd rfl indexed
  | @step events before after op answer lineage admitted steps induction =>
      have fewBefore : putCount events < 2 ^ 64 := by
        rw [putCount, List.countP_append] at few
        exact Nat.lt_of_le_of_lt (Nat.le_add_right _ _) few
      have ok := induction fewBefore
      have effect := admissible_boundedRequests.effect ok.containers admitted steps
      have containers := effect.containersOk ok.containers
      rcases effect.takes with takesNone | takesNext
      · exact ok.takesNone takesNone containers
      · exact ok.takesNext takesNext containers few
  | restore lineage keeps restores induction =>
      have ok := induction few
      have restored := Restored.of_restores ok.containers restores
      have sameHighest := (restored.maxJobID_eq_iff ok.below).mpr keeps
      refine ⟨⟨restored.jobs.of_all, restored.clients⟩, ?_, ?_, ?_, ok.nodup⟩
      · intro id indexed
        obtain ⟨record, recorded⟩ := Option.ne_none_iff_exists'.mp indexed
        rw [restored.recordOf] at recorded
        obtain ⟨old, wasRecorded, _⟩ := Option.map_eq_some_iff.mp recorded
        exact restored.bound id old wasRecorded
      · rw [sameHighest]
        exact ok.issued
      · rw [sameHighest]
        exact ok.counted

end History

/-- As long as every restored snapshot still has the job with the highest id,
no id is issued twice, and exactly then a restored state machine issues the
same id next as the original. -/
theorem jobIDs_unique {events : List (Op × Answer)} {jsm : JSM}
    (lineage : Lineage BoundedRequests KeepsHighest events jsm)
    (few : putCount events < 2 ^ 64) :
    (issuedIDs events).Nodup ∧ ∀ walk target after,
      restoreSnapshotTo (jsm.newSnapshotFrom walk) target = .ok () after →
        ((nextJobID after).reply? = (nextJobID jsm).reply? ↔ KeepsHighest jsm) := by
  have ok := lineage.idsOk few
  refine ⟨ok.nodup, fun walk target after restores => ?_⟩
  rw [← (Restored.of_restores ok.containers restores).maxJobID_eq_iff ok.below]
  constructor
  · intro sameReply
    have sameNext : after.maxJobID + 1 = jsm.maxJobID + 1 :=
      Except.ok.inj (Option.some.inj sameReply)
    exact (UInt64.add_left_inj 1).mp sameNext
  · intro same
    change some (Except.ok (after.maxJobID + 1)) = some (Except.ok (jsm.maxJobID + 1))
    rw [same]

/-! ## Concrete histories -/

/-- The target after a restore that succeeds. -/
def restoredFrom (origin target : JSM) : JSM :=
  (restoreSnapshotTo (origin.newSnapshotFrom .inOrder) target).state?.getD target

section Histories

variable {admits : JSM → Op → Prop} {restorable : JSM → Prop} {events : List (Op × Answer)}

theorem Lineage.append_run {before after : JSM} {more : List (Op × Answer)}
    (lineage : Lineage admits restorable events before) (run : Run admits before more after) :
    Lineage admits restorable (events ++ more) after := by
  induction run with
  | nil =>
      rw [List.append_nil]
      exact lineage
  | snoc run admitted steps induction =>
      rw [← List.append_assoc]
      exact induction.step admitted steps

theorem Lineage.replay {before : JSM} (lineage : Lineage admits restorable events before)
    (ops : List Op) (admitted : Admitted admits ops before)
    (played : (Coolbeans.replay ops before).isSome = true) :
    Lineage admits restorable (events ++ history ops before)
      ((Coolbeans.replay ops before).getD before) := by
  obtain ⟨last, played⟩ := Option.isSome_iff_exists.mp played
  rw [played]
  exact lineage.append_run (Run.of_replay (.nil before) admitted played)

/-- A restore in a concrete history. -/
theorem Lineage.restoredFrom {origin : JSM} (lineage : Lineage admits restorable events origin)
    (target : JSM) (allowed : restorable origin)
    (returns : (restoreSnapshotTo (origin.newSnapshotFrom .inOrder) target).reply? =
      some (.ok ())) :
    Lineage admits restorable events (Coolbeans.restoredFrom origin target) := by
  unfold Coolbeans.restoredFrom
  cases outcome : restoreSnapshotTo (origin.newSnapshotFrom .inOrder) target with
  | ok value after => exact lineage.restore allowed outcome
  | err error after =>
      rw [outcome] at returns
      cases returns
  | panic cause =>
      rw [outcome] at returns
      cases returns

end Histories

/-- A history that restores a snapshot with its highest job. -/
theorem jobIDs_unique_twoPuts :
    ∃ events jsm, Lineage BoundedRequests KeepsHighest events jsm ∧
      issuedIDs events = [1, 2, 3] ∧ (issuedIDs events).Nodup := by
  have first : Lineage BoundedRequests KeepsHighest _ _ := Lineage.new.replay
    [.put 10 5 0 60 0 none [1], .put 10 5 0 60 0 none [1], .delete 1 [7]]
    (by decide +kernel) (by decide +kernel)
  have restored := first.restoredFrom newJSM (by decide +kernel) (by decide +kernel)
  have last := restored.replay [.put 11 5 0 60 0 none [1]] (by decide +kernel) (by decide +kernel)
  exact ⟨_, _, last, by decide +kernel, (jobIDs_unique last (by decide +kernel)).1⟩

/-- The only job is deleted before the snapshot, and its id is issued again. -/
theorem jobID_issued_twice :
    ∃ events jsm, Lineage BoundedRequests (fun _ => True) events jsm ∧
      issuedIDs events = [1, 1] := by
  have first : Lineage BoundedRequests (fun _ => True) _ _ := Lineage.new.replay
    [.put 10 5 0 60 0 none [1], .delete 1 [7]] (by decide +kernel) (by decide +kernel)
  have restored := first.restoredFrom newJSM trivial (by decide +kernel)
  have last := restored.replay [.put 11 5 0 60 0 none [1]] (by decide +kernel) (by decide +kernel)
  exact ⟨_, _, last, by decide +kernel⟩

end Coolbeans
