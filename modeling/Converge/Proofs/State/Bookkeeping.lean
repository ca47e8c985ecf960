import Converge.Proofs.State.Fold

/-!
# Keeping the books

A state changes in four ways: a record is stored, one is removed, an entry is added to the history,
or a report is taken in, whether it fits its plan or not. Through all of them the books stay in
order: every record stands under its own id, no two have one place in the order of creation, each
stays in its place until it is removed, and the history holds the latest entries.

Main statement: `State.bookkept_edited`.
-/

namespace Converge

/-! ## Edits -/

/-- Whether a step that has succeeded takes the record of its node out of the state. -/
def Step.Unrecords (step : Step) : Prop :=
  step.action = .delete ∨ step.action = .noop ∧ step.managed = false

/-- A change of a state. -/
inductive Edit where
  | set (record : Record) (now : Instant)
  | remove (id : String) (now : Instant)
  | note (entry : HistoryEntry)
  | fold (plan : Plan) (report : Report) (operation : Operation) (now : Instant)

namespace Edit

/-- What the change adds to the history. -/
def entries : Edit → List HistoryEntry
  | .set .. | .remove .. => []
  | .note entry => [entry]
  | .fold plan report operation now => [State.historyOf plan report operation now]

/-- Whether the change removes the record of an id, if only for a while. -/
def Removes (id : String) : Edit → Prop
  | .set .. | .note .. => False
  | .remove other _ => other = id
  | .fold plan report _ _ => ∃ outcome ∈ report.steps, outcome.status = .succeeded ∧
    ∃ step, plan.steps[outcome.index]? = some step ∧ step.nodeId = id ∧ step.Unrecords

end Edit

namespace State

variable {s : State} {plan : Plan} {report : Report} {operation : Operation} {step : Step}
  {outcome : Outcome} {now : Instant} {id : String} {count : Nat} {entries : List HistoryEntry}

def edit (s : State) : Edit → State
  | .set record now => s.setRecord record now
  | .remove id now => s.remove id now
  | .note entry => s.addHistory entry
  | .fold plan report operation now => s.applyReport plan report operation now

/-- The state after some changes, one after another. -/
def edited (s : State) (edits : List Edit) : State := edits.foldl edit s

/-! ## Creations -/

/-- How many records come to be if one is stored under an id. -/
def creationsBySet (s : State) (id : String) : Nat := if (s.get? id).isSome then 0 else 1

/-- How many records come to be if a step is recorded. -/
def creationsByStep (s : State) (step : Step) : Nat :=
  if step.action = .create then s.creationsBySet step.nodeId else 0

/-- How many records come to be if an outcome is recorded. -/
def creationsByOutcome (plan : Plan) (s : State) (outcome : Outcome) : Nat :=
  if outcome.status = .succeeded then
    match plan.steps[outcome.index]? with
    | some step => s.creationsByStep step
    | none => 0
  else 0

/-- How many records come to be if some outcomes are recorded, one after another. A record that is
removed and stored again comes to be twice. -/
def creationsByOutcomes (plan : Plan) (now : Instant) : State → List Outcome → Nat
  | _, [] => 0
  | s, outcome :: rest =>
    s.creationsByOutcome plan outcome +
      creationsByOutcomes plan now (recordOutcome plan now s outcome) rest

/-- How many records come to be by a change. -/
def creationsByEdit (s : State) : Edit → Nat
  | .set record _ => s.creationsBySet record.id
  | .remove .. | .note .. => 0
  | .fold plan report _ now => creationsByOutcomes plan now s report.steps

/-- How many records come to be by some changes, one after another. -/
def creations : State → List Edit → Nat
  | _, [] => 0
  | s, change :: rest => s.creationsByEdit change + creations (s.edit change) rest

theorem creations_append (s : State) (earlier later : List Edit) :
    s.creations (earlier ++ later) = s.creations earlier + (s.edited earlier).creations later := by
  induction earlier generalizing s with
  | nil => exact (Nat.zero_add _).symm
  | cons change rest ih =>
    rw [List.cons_append, creations, ih, creations, Nat.add_assoc]
    rfl

/-! ## Single changes -/

/-- The place in the order of creation of the record of an id. -/
def sequence? (s : State) (id : String) : Option Nat := (s.get? id).map (·.sequence)

theorem sequence?_setRecord {r : Record} :
    (s.setRecord r now).sequence? id =
      if id = r.id then some ((s.sequence? r.id).getD s.nextSequence) else s.sequence? id := by
  simp only [sequence?, setRecord]
  split
  · next previous hprevious =>
    rw [get?, Table.get?_insert, hprevious]
    split <;> rfl
  · next hnone =>
    rw [get?, Table.get?_insert, hnone]
    split <;> rfl

theorem sequence?_remove {other : String} :
    (s.remove other now).sequence? id = if id = other then none else s.sequence? id := by
  rw [sequence?, get?_remove, apply_ite (Option.map _)]
  rfl

theorem sequence?_modifyRecord {other : String} {f : Record → Record}
    (hf : ∀ r, (f r).sequence = r.sequence) :
    (s.modifyRecord other f).sequence? id = s.sequence? id := by
  rw [sequence?, get?_modifyRecord, sequence?]
  split
  · rw [Option.map_map]
    exact congrArg (Option.map · _) (funext hf)
  · rfl

theorem KeysMatch.setRecord (h : s.KeysMatch) (record : Record) (now : Instant) :
    (s.setRecord record now).KeysMatch := by
  intro id r hr
  by_cases hid : record.id = id
  · subst hid
    obtain ⟨sequence, hset⟩ : ∃ sequence, (s.setRecord record now).get? record.id = _ :=
      get?_setRecord_self
    obtain rfl := Option.some.inj (hset.symm.trans hr)
    rfl
  · rw [get?_setRecord_of_ne hid] at hr
    exact h hr

theorem KeysMatch.remove (h : s.KeysMatch) (other : String) (now : Instant) :
    (s.remove other now).KeysMatch := by
  intro id r hr
  rw [get?_remove] at hr
  split at hr
  · cases hr
  · exact h hr

/-- A step stores a record of its node, or removes it, or changes it where it stands. -/
theorem recordStep_cases (s : State) (step : Step) (outcome : Outcome) (now : Instant) :
    (step.action = .create ∧
      s.recordStep step outcome now = s.setRecord (createdRecord step outcome now) now) ∨
    (step.action ≠ .create ∧ step.Unrecords ∧
      s.recordStep step outcome now = s.remove step.nodeId now) ∨
    step.action ≠ .create ∧ ¬ step.Unrecords ∧
      ∃ f : Record → Record, (∀ r, (f r).id = r.id ∧ (f r).sequence = r.sequence) ∧
        s.recordStep step outcome now = s.modifyRecord step.nodeId f := by
  rw [recordStep, Step.Unrecords]
  cases haction : step.action with
  | create => exact .inl ⟨rfl, rfl⟩
  | update =>
    refine .inr (.inr ⟨by decide, by simp, _, ?_, rfl⟩)
    exact fun r => ⟨rfl, rfl⟩
  | delete => exact .inr (.inl ⟨by decide, .inl rfl, rfl⟩)
  | noop =>
    cases hmanaged : step.managed with
    | true =>
      refine .inr (.inr ⟨by decide, by simp, _, ?_, rfl⟩)
      exact fun r => ⟨rfl, rfl⟩
    | false => exact .inr (.inl ⟨by decide, .inr ⟨rfl, rfl⟩, rfl⟩)

/-! ## The books -/

/-- The books are in order after a number of creations and some entries to the history. -/
structure Bookkept (s : State) (count : Nat) (entries : List HistoryEntry) : Prop where
  keys : s.KeysMatch
  /-- The next record gets a place after all others. -/
  earlier : ∀ {id n}, s.sequence? id = some n → n < s.nextSequence
  /-- No two records have one place. -/
  distinct : ∀ {id other n}, s.sequence? id = some n → s.sequence? other = some n → id = other
  next : s.nextSequence = count
  /-- The history holds the latest entries, the oldest first. -/
  latest : s.history = entries.drop (entries.length - historyLimit)

namespace Bookkept

/-- No record comes to be and none gets another place. -/
theorem of_sequence? {after : State} (h : s.Bookkept count entries) (hkeys : after.KeysMatch)
    (hsequence : ∀ {id n}, after.sequence? id = some n → s.sequence? id = some n)
    (hnext : after.nextSequence = s.nextSequence) (hhistory : after.history = s.history) :
    after.Bookkept count entries where
  keys := hkeys
  earlier hn := hnext ▸ h.earlier (hsequence hn)
  distinct hn hother := h.distinct (hsequence hn) (hsequence hother)
  next := hnext.trans h.next
  latest := hhistory.trans h.latest

theorem new (project environment : String) (now : Instant) :
    (State.new project environment now).Bookkept 0 [] where
  keys := nofun
  earlier := nofun
  distinct := nofun
  next := rfl
  latest := rfl

theorem setRecord (h : s.Bookkept count entries) (record : Record) (now : Instant)
    (hfew : count + s.creationsBySet record.id < sequenceBound) :
    (s.setRecord record now).Bookkept (count + s.creationsBySet record.id) entries := by
  have hkeys : (s.setRecord record now).KeysMatch := KeysMatch.setRecord h.keys record now
  cases hheld : s.get? record.id with
  | some previous =>
    have hnone : s.creationsBySet record.id = 0 := by rw [creationsBySet, hheld]; rfl
    rw [hnone]
    refine h.of_sequence? hkeys (fun {id n} hn => ?_) ?_ ?_
    · rw [sequence?_setRecord] at hn
      split at hn
      · next heq => rwa [heq, sequence?, hheld] at *
      · exact hn
    · rw [State.setRecord, hheld]
    · rw [State.setRecord, hheld]
  | none =>
    have hone : s.creationsBySet record.id = 1 := by rw [creationsBySet, hheld]; rfl
    have hnext : (s.setRecord record now).nextSequence = s.nextSequence + 1 := by
      rw [State.setRecord, hheld]
      exact Nat.mod_eq_of_lt (by rw [h.next, ← hone]; exact hfew)
    have hsequence : ∀ {id n}, (s.setRecord record now).sequence? id = some n →
        id = record.id ∧ n = s.nextSequence ∨ id ≠ record.id ∧ s.sequence? id = some n := by
      intro id n hn
      rw [sequence?_setRecord, sequence?, hheld] at hn
      split at hn
      · next heq => exact .inl ⟨heq, (Option.some.inj hn).symm⟩
      · next hne => exact .inr ⟨hne, hn⟩
    refine ⟨hkeys, fun {id n} hn => ?_, fun {id other n} hn hother => ?_, ?_, ?_⟩
    · rw [hnext]
      rcases hsequence hn with ⟨-, rfl⟩ | ⟨-, hn⟩
      · exact Nat.lt_succ_self _
      · exact Nat.lt_succ_of_lt (h.earlier hn)
    · rcases hsequence hn with ⟨rfl, hfresh⟩ | ⟨-, hn⟩ <;>
        rcases hsequence hother with ⟨rfl, hfresh'⟩ | ⟨-, hother⟩
      · rfl
      · exact absurd (h.earlier hother) (by omega)
      · exact absurd (h.earlier hn) (by omega)
      · exact h.distinct hn hother
    · rw [hnext, h.next, hone]
    · rw [State.setRecord, hheld]
      exact h.latest

theorem remove (h : s.Bookkept count entries) (id : String) (now : Instant) :
    (s.remove id now).Bookkept count entries := by
  refine h.of_sequence? (KeysMatch.remove h.keys id now) (fun hn => ?_) ?_ ?_
  · rw [sequence?_remove] at hn
    split at hn
    · cases hn
    · exact hn
  · rw [State.remove]
    split <;> rfl
  · rw [State.remove]
    split <;> rfl

theorem addHistory (h : s.Bookkept count entries) (entry : HistoryEntry) :
    (s.addHistory entry).Bookkept count (entries ++ [entry]) := by
  refine ⟨h.keys, h.earlier, h.distinct, h.next, ?_⟩
  have hlimit : historyLimit = 100 := rfl
  have hlength : s.history.length = min entries.length historyLimit := by
    rw [h.latest, List.length_drop]
    omega
  have hcut : entries.length + 1 - historyLimit ≤ entries.length := by omega
  rw [State.addHistory, List.length_append, List.length_singleton,
    List.drop_append_of_le_length hcut, hlength]
  refine congrArg (· ++ [entry]) ?_
  split
  · next hfull =>
    have hmore : entries.length - historyLimit + 1 = entries.length + 1 - historyLimit := by omega
    rw [h.latest, List.drop_drop, hmore]
  · next hroom =>
    have hnone : entries.length - historyLimit = entries.length + 1 - historyLimit := by omega
    rw [h.latest, hnone]

theorem recordStep (h : s.Bookkept count entries) (step : Step) (outcome : Outcome) (now : Instant)
    (hfew : count + s.creationsByStep step < sequenceBound) :
    (s.recordStep step outcome now).Bookkept (count + s.creationsByStep step) entries := by
  rw [creationsByStep] at hfew ⊢
  rcases s.recordStep_cases step outcome now with
    ⟨haction, heq⟩ | ⟨haction, -, heq⟩ | ⟨haction, -, f, hf, heq⟩
  · rw [if_pos haction] at hfew ⊢
    rw [heq]
    exact h.setRecord (createdRecord step outcome now) now hfew
  · rw [if_neg haction, heq]
    exact h.remove step.nodeId now
  · rw [if_neg haction]
    refine h.of_sequence? (KeysMatch.recordStep h.keys) (fun hn => ?_) ?_ ?_
    · rwa [heq, sequence?_modifyRecord fun r => (hf r).2] at hn
    · rw [heq, modifyRecord]
      split <;> rfl
    · rw [heq, modifyRecord]
      split <;> rfl

theorem recordOutcome (h : s.Bookkept count entries) (outcome : Outcome)
    (hfew : count + s.creationsByOutcome plan outcome < sequenceBound) :
    (State.recordOutcome plan now s outcome).Bookkept
      (count + s.creationsByOutcome plan outcome) entries := by
  rw [creationsByOutcome] at hfew ⊢
  rw [State.recordOutcome]
  by_cases hsucceeded : outcome.status = .succeeded
  · rw [if_pos hsucceeded] at hfew ⊢
    rw [if_pos hsucceeded]
    cases hstep : plan.steps[outcome.index]? with
    | some step =>
      rw [hstep] at hfew
      exact h.recordStep step outcome now hfew
    | none => exact h
  · rw [if_neg hsucceeded, if_neg hsucceeded]
    exact h

/-- The books stay in order while outcomes are recorded. -/
theorem recordOutcomes {outcomes : List Outcome} (h : s.Bookkept count entries)
    (hfew : count + creationsByOutcomes plan now s outcomes < sequenceBound) :
    (outcomes.foldl (State.recordOutcome plan now) s).Bookkept
      (count + creationsByOutcomes plan now s outcomes) entries := by
  induction outcomes generalizing s count with
  | nil => exact h
  | cons outcome rest ih =>
    rw [creationsByOutcomes, ← Nat.add_assoc] at hfew ⊢
    exact ih (h.recordOutcome outcome (by omega)) hfew

theorem edit (h : s.Bookkept count entries) (change : Edit)
    (hfew : count + s.creationsByEdit change < sequenceBound) :
    (s.edit change).Bookkept (count + s.creationsByEdit change) (entries ++ change.entries) := by
  cases change with
  | set record now => exact (List.append_nil entries).symm ▸ h.setRecord record now hfew
  | remove id now => exact (List.append_nil entries).symm ▸ h.remove id now
  | note entry => exact h.addHistory entry
  | fold plan report operation now =>
    have hfold := (h.recordOutcomes hfew).addHistory (historyOf plan report operation now)
    rw [State.edit, applyReport]
    split <;> exact ⟨hfold.keys, hfold.earlier, hfold.distinct, hfold.next, hfold.latest⟩

/-- The books stay in order through all changes. -/
theorem edited {edits : List Edit} (h : s.Bookkept count entries)
    (hfew : count + s.creations edits < sequenceBound) :
    (s.edited edits).Bookkept (count + s.creations edits)
      (entries ++ edits.flatMap Edit.entries) := by
  induction edits generalizing s count entries with
  | nil => exact (List.append_nil entries).symm ▸ h
  | cons change rest ih =>
    rw [creations, ← Nat.add_assoc] at hfew ⊢
    rw [List.flatMap_cons, ← List.append_assoc]
    exact ih (h.edit change (by omega)) hfew

end Bookkept

/-! ## Staying in place -/

theorem sequence?_recordStep {n : Nat} (hn : s.sequence? id = some n)
    (h : step.nodeId = id → ¬ step.Unrecords) :
    (s.recordStep step outcome now).sequence? id = some n := by
  rcases s.recordStep_cases step outcome now with ⟨-, heq⟩ | ⟨-, hgone, heq⟩ | ⟨-, -, f, hf, heq⟩
  · rw [heq, sequence?_setRecord]
    split
    · next hid => rw [← hid, hn]; rfl
    · exact hn
  · rw [heq, sequence?_remove, if_neg fun hid => h hid.symm hgone]
    exact hn
  · rw [heq, sequence?_modifyRecord fun r => (hf r).2]
    exact hn

theorem sequence?_edit {n : Nat} {change : Edit} (hn : s.sequence? id = some n)
    (h : ¬ change.Removes id) : (s.edit change).sequence? id = some n := by
  cases change with
  | set record now =>
    rw [edit, sequence?_setRecord]
    split
    · next hid => rw [← hid, hn]; rfl
    · exact hn
  | remove other now =>
    rw [edit, sequence?_remove, if_neg fun hid => h hid.symm]
    exact hn
  | note entry => exact hn
  | fold plan report operation now =>
    rw [edit, sequence?, get?_applyReport]
    refine foldl_recordOutcome (P := fun s => s.sequence? id = some n) hn ?_
    exact fun outcome houtcome hsucceeded step hstep s hs => sequence?_recordStep hs
      fun hid hgone => h ⟨outcome, houtcome, hsucceeded, step, hstep, hid, hgone⟩

theorem sequence?_edited {n : Nat} {edits : List Edit} (hn : s.sequence? id = some n)
    (h : ∀ change ∈ edits, ¬ change.Removes id) : (s.edited edits).sequence? id = some n :=
  List.foldlRecOn (motive := fun s => s.sequence? id = some n) edits edit hn
    fun _ hs change hchange => sequence?_edit hs (h change hchange)

/-! ## All changes -/

/-- Whatever changes are made to a new state, the books are in order, as long as fewer records come
to be than there are places for them. The place that the next record takes is the number of records
that have come to be, and only grows. A record stays in its place until it is removed. A report
changes only the records of nodes with a step that it says has succeeded. -/
theorem bookkept_edited (project environment : String) (start : Instant) (edits : List Edit)
    (hfew : (State.new project environment start).creations edits < sequenceBound) :
    let s := State.new project environment start
    (s.edited edits).Bookkept (s.creations edits) (edits.flatMap Edit.entries) ∧
    (∀ {earlier later}, edits = earlier ++ later →
      (s.edited earlier).nextSequence ≤ (s.edited edits).nextSequence ∧
      ∀ {id n}, (s.edited earlier).sequence? id = some n →
        (∀ change ∈ later, ¬ change.Removes id) → (s.edited edits).sequence? id = some n) ∧
    ∀ {plan report operation now id},
      (∀ outcome ∈ report.steps, outcome.status = .succeeded →
        ∀ step, plan.steps[outcome.index]? = some step → step.nodeId ≠ id) →
      ((s.edited edits).applyReport plan report operation now).get? id =
        (s.edited edits).get? id := by
  intro s
  have hbooks : ∀ edits, s.creations edits < sequenceBound →
      (s.edited edits).Bookkept (s.creations edits) (edits.flatMap Edit.entries) := by
    intro edits hfew
    rw [← Nat.zero_add (s.creations edits)] at hfew ⊢
    exact (Bookkept.new project environment start).edited hfew
  refine ⟨hbooks edits hfew, ?_, fun h => get?_applyReport.trans (get?_foldl_of_ne h)⟩
  rintro earlier later rfl
  have happend : s.creations (earlier ++ later) =
      s.creations earlier + (s.edited earlier).creations later := s.creations_append earlier later
  have hle : s.creations earlier ≤ s.creations (earlier ++ later) :=
    happend ▸ Nat.le_add_right ..
  have hsplit : s.edited (earlier ++ later) = (s.edited earlier).edited later := List.foldl_append
  refine ⟨?_, fun hn hstay => hsplit ▸ sequence?_edited hn hstay⟩
  rw [(hbooks _ hfew).next, (hbooks earlier (Nat.lt_of_le_of_lt hle hfew)).next]
  exact hle

/-- The plan that puts another target group in the place of one. -/
def groupReplacement : Plan :=
  let deletion : Step := {
    index := 0, nodeId := "group", kind := .targetGroup, action := .delete, reason := "replaced" }
  { createdAt := ⟨0, 0⟩, configHash := "",
    steps := [deletion, { deletion with index := 1, action := .create, dependsOn := [0] }] }

/-- A network and a target group are stored, and the latter is replaced. The report speaks of a step
that the plan does not have, too. -/
def replacingEdits : List Edit :=
  let done (index : Nat) (action : Action) : Outcome :=
    { index, nodeId := "group", action, status := .succeeded, attempts := 1 }
  [.set (.new "network" .network "net-1" ⟨0, 0⟩) ⟨0, 0⟩,
    .set (.new "group" .targetGroup "tg-1" ⟨0, 0⟩) ⟨0, 0⟩,
    .fold groupReplacement (.ofOutcomes [done 0 .delete, done 1 .create, done 2 .create] false)
      .apply ⟨0, 0⟩]

/-- The network stays in its place, and the new group comes after the old one. -/
theorem bookkept_replacing :
    let s := State.new "stream" "dev" ⟨0, 0⟩
    s.creations replacingEdits < sequenceBound ∧
      (s.edited replacingEdits).Bookkept 3 (replacingEdits.flatMap Edit.entries) ∧
      (s.edited replacingEdits).sequence? "network" = some 0 ∧
      (s.edited replacingEdits).sequence? "group" = some 2 := by
  intro s
  have hfew : s.creations replacingEdits < sequenceBound := by decide +kernel
  obtain ⟨hbooks, hlater, -⟩ := bookkept_edited "stream" "dev" ⟨0, 0⟩ replacingEdits hfew
  have hstays : ∀ change ∈ replacingEdits.drop 1, ¬ change.Removes "network" := by
    refine List.forall_mem_cons.2 ⟨id, List.forall_mem_singleton.2 ?_⟩
    rintro ⟨outcome, -, -, step, hstep, hid, -⟩
    have hgroup : ∀ step ∈ groupReplacement.steps, step.nodeId ≠ "network" := by decide
    exact hgroup step (List.mem_of_getElem? hstep) hid
  exact ⟨hfew, hbooks, (hlater (List.take_append_drop 1 replacingEdits).symm).2 rfl hstays,
    by decide +kernel⟩

end State

end Converge
