import Mathlib.Data.List.Basic
import Mathlib.Data.List.Induction
import Mathlib.Logic.Function.Basic
import Mathlib.Logic.Relation

/-!
# A replicated log

Entries are committed to one log, and the replicas of a machine apply them in its order, each at
its own pace.  A replica may write down its state, load what another one has written down, or
start anew.  The machine need not be deterministic: what a step leaves open, each replica
settles for itself.

The replicas agree if the machine refines a specification that leaves nothing open but the form
of an answer: then the view of a replica depends on how many entries it has applied, and on
nothing else.  The specification may ask something of the entries and of the moments at which
states are written down; since the view follows from the log, this asks it of the log.
-/

namespace ReplicatedLog

variable {ρ σ ι ω π α : Type}

/-- A machine: how it starts, applies an entry and answers it, writes down its state, and loads
what was written. -/
structure Machine (σ ι ω π : Type) where
  start : σ
  apply : σ → ι → ω → σ → Prop
  save : σ → π → Prop
  load : π → σ → σ → Prop

/-- The log, and for each replica how many entries it has applied and the state it is in, with
what was written down and answered so far; each note carries the number of entries before it. -/
structure Cluster (ρ σ ι ω π : Type) where
  log : List ι
  applied : ρ → Nat
  state : ρ → σ
  snapshots : List (Nat × π)
  answers : List (Nat × ω)

/-- An empty log. -/
def Machine.cluster (machine : Machine σ ι ω π) : Cluster ρ σ ι ω π where
  log := []
  applied _ := 0
  state _ := machine.start
  snapshots := []
  answers := []

/-- A replica is in a state, and has applied so many entries. -/
def Cluster.place [DecidableEq ρ] (cluster : Cluster ρ σ ι ω π) (replica : ρ) (applied : Nat)
    (state : σ) : Cluster ρ σ ι ω π :=
  { cluster with
    applied := Function.update cluster.applied replica applied
    state := Function.update cluster.state replica state }

/-- What can happen next. -/
inductive Step [DecidableEq ρ] (machine : Machine σ ι ω π) (cluster : Cluster ρ σ ι ω π) :
    Cluster ρ σ ι ω π → Prop where
  | commit (entry : ι) : Step machine cluster { cluster with log := cluster.log ++ [entry] }
  | apply {replica : ρ} {entry : ι} {answer : ω} {after : σ}
      (isNext : cluster.log[cluster.applied replica]? = some entry)
      (applies : machine.apply (cluster.state replica) entry answer after) :
      Step machine cluster
        { cluster.place replica (cluster.applied replica + 1) after with
          answers := (cluster.applied replica, answer) :: cluster.answers }
  | save {replica : ρ} {snapshot : π} (saves : machine.save (cluster.state replica) snapshot) :
      Step machine cluster
        { cluster with
          snapshots := (cluster.applied replica, snapshot) :: cluster.snapshots }
  | load {replica : ρ} {index : Nat} {snapshot : π} {after : σ}
      (saved : (index, snapshot) ∈ cluster.snapshots)
      (loads : machine.load snapshot (cluster.state replica) after) :
      Step machine cluster (cluster.place replica index after)
  | restart (replica : ρ) : Step machine cluster (cluster.place replica 0 machine.start)

/-- The clusters that can come about. -/
inductive Reachable [DecidableEq ρ] (machine : Machine σ ι ω π) : Cluster ρ σ ι ω π → Prop where
  | start : Reachable machine machine.cluster
  | step {before after : Cluster ρ σ ι ω π} (earlier : Reachable machine before)
      (steps : Step machine before after) : Reachable machine after

/-! ## Specifications -/

/-- A specification of a machine: what can be seen of a state, and how an entry changes it.
Given an entry that it allows, all that is open is which of several equivalent answers is given.
A state is written down without loss if its view is lossless. -/
structure Specification (machine : Machine σ ι ω π) (α : Type) where
  ok : σ → Prop
  view : σ → α
  allows : α → ι → Prop
  next : α → ι → ω → α → Prop
  same : ω → ω → Prop
  lossless : α → Prop
  means : π → α → Prop
  startOk : ok machine.start
  responds : ∀ {state entry}, ok state → allows (view state) entry →
    ∃ answer after, machine.apply state entry answer after
  applies : ∀ {state entry answer after}, ok state → allows (view state) entry →
    machine.apply state entry answer after → ok after ∧ next (view state) entry answer (view after)
  saves : ∀ {state snapshot}, ok state → lossless (view state) → machine.save state snapshot →
    means snapshot (view state)
  loads : ∀ {state seen snapshot after}, ok state → means snapshot seen →
    machine.load snapshot state after → ok after ∧ view after = seen
  determined : ∀ {seen entry answer other after otherAfter}, allows seen entry →
    next seen entry answer after → next seen entry other otherAfter →
      same answer other ∧ after = otherAfter

section Agreement

variable {machine : Machine σ ι ω π} (specification : Specification machine α)

/-- The entries lead from the first view to another. -/
inductive Specification.Leads : List ι → α → Prop where
  | nil : Leads [] (specification.view machine.start)
  | snoc {before after : α} {entries : List ι} {entry : ι} {answer : ω}
      (earlier : Leads entries before) (allowed : specification.allows before entry)
      (follows : specification.next before entry answer after) : Leads (entries ++ [entry]) after

/-- The view that the entries lead to is determined. -/
theorem Specification.leads_unique {last other : α} {entries : List ι}
    (leads : specification.Leads entries last) (otherLeads : specification.Leads entries other) :
    last = other := by
  induction leads generalizing other with
  | nil =>
      generalize same : ([] : List ι) = entries at otherLeads
      cases otherLeads with
      | nil => rfl
      | snoc => simp at same
  | @snoc before after entries entry answer _ allowed follows induction =>
      generalize same : entries ++ [entry] = all at otherLeads
      cases otherLeads with
      | nil => simp at same
      | snoc earlier _ otherFollows =>
          obtain ⟨rfl, sameEntry⟩ := List.append_inj' same rfl
          cases sameEntry
          have sameBefore := induction earlier
          subst sameBefore
          exact (specification.determined allowed follows otherFollows).2

/-- The view is the one to which the first entries of the log lead. -/
structure Specification.Follows (log : List ι) (index : Nat) (seen : α) : Prop where
  within : index ≤ log.length
  leads : specification.Leads (log.take index) seen

/-- An answer is one that the specification gives after the first entries of the log. -/
def Specification.Answers (log : List ι) (index : Nat) (answer : ω) : Prop :=
  ∃ seen entry after, specification.Follows log index seen ∧ log[index]? = some entry ∧
    specification.allows seen entry ∧ specification.next seen entry answer after

/-- What the specification asks of a cluster: the log has only entries that are allowed where
they stand, and the states were written down where nothing is lost. -/
structure Specification.Proper (cluster : Cluster ρ σ ι ω π) : Prop where
  log : ∃ last, specification.Leads cluster.log last
  snapshots : ∀ note ∈ cluster.snapshots, ∀ seen,
    specification.Follows cluster.log note.1 seen → specification.lossless seen

variable {specification}

theorem getElem?_append_of_some {log : List ι} {index : Nat} {entry : ι}
    (isNext : log[index]? = some entry) (more : List ι) :
    (log ++ more)[index]? = some entry := by
  obtain ⟨inside, _⟩ := List.getElem?_eq_some_iff.mp isNext
  rw [List.getElem?_append_left inside, isNext]

namespace Specification

theorem Follows.append {log : List ι} {index : Nat} {seen : α}
    (follows : specification.Follows log index seen) (more : List ι) :
    specification.Follows (log ++ more) index seen := by
  have within := follows.within
  constructor
  · rw [List.length_append]
    omega
  · rw [List.take_append_of_le_length within]
    exact follows.leads

theorem Follows.unique {log : List ι} {index : Nat} {seen other : α}
    (follows : specification.Follows log index seen)
    (otherFollows : specification.Follows log index other) : seen = other :=
  specification.leads_unique follows.leads otherFollows.leads

theorem Follows.snoc {log : List ι} {index : Nat} {entry : ι} {answer : ω}
    {seen after : α} (follows : specification.Follows log index seen)
    (isNext : log[index]? = some entry) (allowed : specification.allows seen entry)
    (next : specification.next seen entry answer after) :
    specification.Follows log (index + 1) after := by
  obtain ⟨inside, _⟩ := List.getElem?_eq_some_iff.mp isNext
  constructor
  · exact inside
  · rw [List.take_add_one, isNext]
    exact .snoc follows.leads allowed next

theorem Answers.append {log : List ι} {index : Nat} {answer : ω}
    (answers : specification.Answers log index answer) (more : List ι) :
    specification.Answers (log ++ more) index answer := by
  obtain ⟨seen, entry, after, follows, isNext, allowed, next⟩ := answers
  exact ⟨seen, entry, after, follows.append more, getElem?_append_of_some isNext more, allowed,
    next⟩

/-- An entry of a log that leads somewhere is allowed where it stands. -/
theorem Leads.allows {log : List ι} {last : α} (leads : specification.Leads log last)
    {index : Nat} {entry : ι} {seen : α} (isNext : log[index]? = some entry)
    (follows : specification.Follows log index seen) : specification.allows seen entry := by
  induction leads with
  | nil => cases isNext
  | @snoc before after entries lastEntry answer earlier allowed _ induction =>
      have within := follows.within
      rw [List.length_append, List.length_singleton] at within
      obtain ⟨inside, _⟩ := List.getElem?_eq_some_iff.mp isNext
      rw [List.length_append, List.length_singleton] at inside
      have seenLeads := follows.leads
      rw [List.take_append_of_le_length (by omega)] at seenLeads
      by_cases isLast : index = entries.length
      · subst isLast
        rw [List.getElem?_concat_length] at isNext
        cases isNext
        rw [List.take_length] at seenLeads
        exact specification.leads_unique earlier seenLeads ▸ allowed
      · rw [List.getElem?_append_left (by omega)] at isNext
        exact induction isNext ⟨by omega, seenLeads⟩

theorem Leads.of_append {log : List ι} {entry : ι} {last : α}
    (leads : specification.Leads (log ++ [entry]) last) :
    ∃ before, specification.Leads log before := by
  generalize same : log ++ [entry] = all at leads
  cases leads with
  | nil => simp at same
  | snoc earlier =>
      obtain ⟨rfl, _⟩ := List.append_inj' same rfl
      exact ⟨_, earlier⟩

variable [DecidableEq ρ]

/-- What was not proper never becomes proper. -/
theorem Proper.of_step {before after : Cluster ρ σ ι ω π}
    (proper : specification.Proper after) (steps : Step machine before after) :
    specification.Proper before := by
  cases steps with
  | commit entry =>
      constructor
      · obtain ⟨last, leads⟩ := proper.log
        exact leads.of_append
      · intro note member seen follows
        exact proper.snapshots note member seen (follows.append _)
  | save =>
      exact ⟨proper.log, fun note member => proper.snapshots note (List.mem_cons_of_mem _ member)⟩
  | apply | load | restart => exact ⟨proper.log, proper.snapshots⟩

end Specification

variable [DecidableEq ρ]

/-- What holds of a cluster at all times. -/
structure Sound (specification : Specification machine α) (cluster : Cluster ρ σ ι ω π) :
    Prop where
  ok : ∀ replica, specification.ok (cluster.state replica)
  follows : ∀ replica, specification.Follows cluster.log (cluster.applied replica)
    (specification.view (cluster.state replica))
  snapshots : ∀ note ∈ cluster.snapshots, ∃ seen, specification.means note.2 seen ∧
    specification.Follows cluster.log note.1 seen
  answers : ∀ note ∈ cluster.answers, specification.Answers cluster.log note.1 note.2

/-- A replica may be moved to a state that the log leads to. -/
theorem Sound.place {cluster : Cluster ρ σ ι ω π} (sound : Sound specification cluster)
    (replica : ρ) {applied : Nat} {state : σ} (ok : specification.ok state)
    (follows : specification.Follows cluster.log applied (specification.view state)) :
    Sound specification (cluster.place replica applied state) where
  ok other := by
    by_cases same : other = replica
    · subst other
      simpa [Cluster.place] using ok
    · simpa [Cluster.place, same] using sound.ok other
  follows other := by
    by_cases same : other = replica
    · subst other
      simpa [Cluster.place] using follows
    · simpa [Cluster.place, same] using sound.follows other
  snapshots := sound.snapshots
  answers := sound.answers

theorem Sound.step {before after : Cluster ρ σ ι ω π} (sound : Sound specification before)
    (proper : specification.Proper after) (steps : Step machine before after) :
    Sound specification after := by
  have wasProper := proper.of_step steps
  cases steps with
  | commit entry =>
      refine ⟨sound.ok, fun replica => (sound.follows replica).append [entry], ?_, ?_⟩
      · intro note member
        obtain ⟨seen, means, follows⟩ := sound.snapshots note member
        exact ⟨seen, means, follows.append [entry]⟩
      · exact fun note member => (sound.answers note member).append [entry]
  | @apply replica entry answer state isNext applies =>
      obtain ⟨last, leads⟩ := wasProper.log
      have allowed := leads.allows isNext (sound.follows replica)
      obtain ⟨ok, next⟩ := specification.applies (sound.ok replica) allowed applies
      have follows := (sound.follows replica).snoc isNext allowed next
      have placed := sound.place replica ok follows
      refine ⟨placed.ok, placed.follows, placed.snapshots, fun note member => ?_⟩
      rcases List.mem_cons.mp member with rfl | old
      · exact ⟨_, entry, _, sound.follows replica, isNext, allowed, next⟩
      · exact sound.answers note old
  | @save replica snapshot saves =>
      refine ⟨sound.ok, sound.follows, fun note member => ?_, sound.answers⟩
      rcases List.mem_cons.mp member with rfl | old
      · have lossless := proper.snapshots _ List.mem_cons_self _ (sound.follows replica)
        exact ⟨_, specification.saves (sound.ok replica) lossless saves, sound.follows replica⟩
      · exact sound.snapshots note old
  | @load replica index snapshot state saved loads =>
      obtain ⟨seen, means, follows⟩ := sound.snapshots _ saved
      obtain ⟨ok, isSeen⟩ := specification.loads (sound.ok replica) means loads
      exact sound.place replica ok (isSeen ▸ follows)
  | restart replica =>
      exact sound.place replica specification.startOk ⟨Nat.zero_le _, .nil⟩

section Reachable

variable {cluster : Cluster ρ σ ι ω π} (reachable : Reachable machine cluster)
  (specification : Specification machine α) (proper : specification.Proper cluster)

include reachable proper

theorem Reachable.sound : Sound specification cluster := by
  induction reachable with
  | start =>
      exact ⟨fun _ => specification.startOk, fun _ => ⟨Nat.le_refl 0, .nil⟩,
        by simp [Machine.cluster], by simp [Machine.cluster]⟩
  | step _ steps induction => exact (induction (proper.of_step steps)).step proper steps

/-- Replicas that have applied equally many entries look the same. -/
theorem Reachable.view_eq {replica other : ρ}
    (level : cluster.applied replica = cluster.applied other) :
    specification.view (cluster.state replica) = specification.view (cluster.state other) := by
  have sound := reachable.sound specification proper
  have follows := sound.follows replica
  rw [level] at follows
  exact follows.unique (sound.follows other)

/-- An entry gets the same answer from every replica. -/
theorem Reachable.answers_same {index : Nat} {answer other : ω}
    (answered : (index, answer) ∈ cluster.answers)
    (otherAnswered : (index, other) ∈ cluster.answers) : specification.same answer other := by
  have sound := reachable.sound specification proper
  obtain ⟨seen, entry, after, follows, isNext, allowed, next⟩ := sound.answers _ answered
  obtain ⟨otherSeen, otherEntry, otherAfter, otherFollows, otherIsNext, _, otherNext⟩ :=
    sound.answers _ otherAnswered
  have sameSeen := follows.unique otherFollows
  subst sameSeen
  have sameEntry : some entry = some otherEntry := isNext.symm.trans otherIsNext
  cases sameEntry
  exact (specification.determined allowed next otherNext).1

/-- A replica that lags behind can apply the entries that it has missed, whatever the others
do. -/
theorem Reachable.catchesUp (replica : ρ) :
    ∃ later, Relation.ReflTransGen (Step machine) cluster later ∧ later.log = cluster.log ∧
      later.snapshots = cluster.snapshots ∧ later.applied replica = cluster.log.length ∧
      ∀ other, other ≠ replica → later.applied other = cluster.applied other := by
  generalize missed : cluster.log.length - cluster.applied replica = distance
  induction distance generalizing cluster with
  | zero =>
      have within := ((reachable.sound specification proper).follows replica).within
      exact ⟨cluster, .refl, rfl, rfl, by omega, fun _ _ => rfl⟩
  | succ distance induction =>
      have sound := reachable.sound specification proper
      have inside : cluster.applied replica < cluster.log.length := by omega
      have isNext := List.getElem?_eq_getElem inside
      obtain ⟨last, leadsTo⟩ := proper.log
      have allowed := leadsTo.allows isNext (sound.follows replica)
      obtain ⟨answer, after, applies⟩ := specification.responds (sound.ok replica) allowed
      have steps := Step.apply isNext applies
      obtain ⟨later, leads, sameLog, sameSnapshots, caughtUp, others⟩ :=
        induction (reachable.step steps) ⟨proper.log, proper.snapshots⟩
          (by simp only [Cluster.place, Function.update_self]; omega)
      refine ⟨later, .head steps leads, sameLog, sameSnapshots, caughtUp, ?_⟩
      intro other different
      rw [others other different]
      exact Function.update_of_ne different _ _

end Reachable

theorem Reachable.steps {cluster later : Cluster ρ σ ι ω π} (reachable : Reachable machine cluster)
    (leads : Relation.ReflTransGen (Step machine) cluster later) : Reachable machine later := by
  induction leads with
  | refl => exact reachable
  | tail _ steps induction => exact induction.step steps

/-- Every log can be committed. -/
theorem Reachable.commits (machine : Machine σ ι ω π) (log : List ι) :
    Reachable machine { (machine.cluster : Cluster ρ σ ι ω π) with log := log } := by
  induction log using List.reverseRecOn with
  | nil => exact .start
  | append_singleton log entry induction => exact induction.step (.commit entry)

end Agreement

end ReplicatedLog
