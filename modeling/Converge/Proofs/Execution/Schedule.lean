import Converge.Execution.Schedule
import Mathlib.Data.List.Basic

/-!
# Sound schedules

Whatever order the outcomes come in, a schedule counts exactly what every step still waits for, and
nothing has been started whose dependencies have not all succeeded.

Main statements: `Schedule.Sound.markStarted` and `Schedule.Sound.finish`.
-/

namespace Converge

namespace Plan

theorem wellOrderedFrom_iff {n : Nat} {steps : List Step} : wellOrderedFrom n steps = true ↔
    ∀ i step, steps[i]? = some step → step.index = n + i ∧ ∀ d ∈ step.dependsOn, d < n + i := by
  induction steps generalizing n with
  | nil => simp [wellOrderedFrom]
  | cons first rest ih =>
    simp only [wellOrderedFrom, Bool.and_eq_true, decide_eq_true_eq, List.all_eq_true, ih]
    constructor
    · rintro ⟨⟨hindex, hfirst⟩, hrest⟩ i step hstep
      cases i with
      | zero =>
        obtain rfl : first = step := by simpa using hstep
        exact ⟨hindex, hfirst⟩
      | succ i =>
        have := hrest i step (by simpa using hstep)
        rwa [Nat.add_assoc, Nat.add_comm 1 i] at this
    · intro h
      refine ⟨h 0 first rfl, fun i step hstep => ?_⟩
      have := h (i + 1) step (by simpa using hstep)
      rwa [Nat.add_assoc, Nat.add_comm 1 i]

variable {plan : Plan} {step : Step} {i : Nat}

theorem index_eq (h : plan.isWellOrdered = true) (hstep : plan.steps[i]? = some step) :
    step.index = i := by
  have := (wellOrderedFrom_iff.1 h i step hstep).1
  omega

theorem lt_of_mem_dependsOn (h : plan.isWellOrdered = true) (hstep : plan.steps[i]? = some step)
    {d : Nat} (hd : d ∈ step.dependsOn) : d < i := by
  have := (wellOrderedFrom_iff.1 h i step hstep).2 d hd
  omega

end Plan

/-- Whether an outcome is one of a given step. -/
structure Outcome.Of (step : Step) (outcome : Outcome) : Prop where
  index : outcome.index = step.index
  nodeId : outcome.nodeId = step.nodeId
  action : outcome.action = step.action

namespace Schedule

/-! ## Who waits for whom -/

theorem le_of_mem_waitingFor {n i k : Nat} {steps : List Step}
    (hindex : ∀ j step, steps[j]? = some step → step.index = n + j)
    (hk : k ∈ waitingFor steps i) : n ≤ k := by
  obtain ⟨step, hstep, hk⟩ := List.mem_flatMap.1 hk
  obtain ⟨-, -, rfl⟩ := List.mem_map.1 hk
  obtain ⟨j, hj⟩ := List.mem_iff_getElem?.1 hstep
  have := hindex j step hj
  omega

/-- A step waits for another once for each time it names it. -/
theorem count_waitingFor {n i k : Nat} {steps : List Step} {step : Step}
    (hindex : ∀ j step, steps[j]? = some step → step.index = n + j)
    (hstep : steps[k]? = some step) :
    (waitingFor steps i).count (n + k) = step.dependsOn.count i := by
  induction steps generalizing n k with
  | nil => simp at hstep
  | cons first rest ih =>
    have hfirst : first.index = n := hindex 0 first rfl
    have hrest : ∀ j step, rest[j]? = some step → step.index = n + 1 + j := by
      intro j step hj
      have := hindex (j + 1) step (by simpa using hj)
      omega
    have hmap : ∀ ds : List Nat, ((ds.filter (· = i)).map fun _ => first.index).count (n + k) =
        if k = 0 then ds.count i else 0 := by
      intro ds
      have hfilter : (ds.filter (· = i)).length = ds.count i := List.count_eq_length_filter.symm
      rw [List.map_const', List.count_replicate, hfirst, hfilter]
      cases k <;> simp
    have hsplit : waitingFor (first :: rest) i =
        (first.dependsOn.filter (· = i)).map (fun _ => first.index) ++ waitingFor rest i := rfl
    rw [hsplit, List.count_append, hmap]
    cases k with
    | zero =>
      obtain rfl : first = step := by simpa using hstep
      have hnone : (waitingFor rest i).count (n + 0) = 0 := List.count_eq_zero.2 fun hmem => by
        have := le_of_mem_waitingFor hrest hmem
        omega
      rw [hnone]
      simp
    | succ k =>
      have := ih hrest (k := k) (by simpa using hstep)
      rw [Nat.add_assoc, Nat.add_comm 1 k] at this
      simpa using this

/-! ## Statuses -/

theorem statusAt?_eq_some_iff {s : Schedule} {i : Nat} {status : Status} :
    s.statusAt? i = some status ↔ ∃ outcome, s.outcomes[i]? = some outcome ∧
      outcome.status = status := by
  rw [statusAt?, Option.map_eq_some_iff]

theorem statusAt?_eq_getElem {s : Schedule} {i : Nat} (hi : i < s.outcomes.length) :
    s.statusAt? i = some s.outcomes[i].status :=
  congrArg (Option.map Outcome.status) (List.getElem?_eq_getElem hi)

theorem statusAt?_markStarted (s : Schedule) (i k : Nat) :
    (s.markStarted i).statusAt? k =
      if i = k then (s.statusAt? k).map fun _ => .inProgress else s.statusAt? k := by
  rw [statusAt?, markStarted, List.getElem?_modify, statusAt?]
  split
  · cases s.outcomes[k]? <;> rfl
  · cases s.outcomes[k]? <;> rfl

theorem statusAt?_rollBack (s : Schedule) (cause : String) (i k : Nat) :
    (s.rollBack cause i).statusAt? k =
      if i = k then (s.statusAt? k).map fun _ => .rolledBack else s.statusAt? k := by
  rw [statusAt?, rollBack, List.getElem?_modify, statusAt?]
  split
  · cases s.outcomes[k]? <;> rfl
  · cases s.outcomes[k]? <;> rfl

/-- The invariant of a schedule. -/
structure Sound (plan : Plan) (s : Schedule) : Prop where
  steps : s.steps = plan.steps
  dependents : s.dependents = (Schedule.start plan).dependents
  length : s.outcomes.length = plan.steps.length
  label : ∀ {i : Nat} {step : Step} {outcome : Outcome}, plan.steps[i]? = some step →
    s.outcomes[i]? = some outcome → outcome.Of step
  waitingLength : s.waiting.length = plan.steps.length
  waiting : ∀ {i : Nat} {step : Step}, plan.steps[i]? = some step →
    s.waiting.getD i 0 = step.dependsOn.countP fun d => s.statusAt? d ≠ some .succeeded
  increasing : s.ready.Pairwise (· < ·)
  ready : ∀ i ∈ s.ready, s.statusAt? i = some .pending ∧ s.waiting.getD i 0 = 0
  begun : ∀ {i : Nat} {step : Step}, plan.steps[i]? = some step →
    s.statusAt? i = some .inProgress ∨ s.statusAt? i = some .succeeded →
    ∀ d ∈ step.dependsOn, s.statusAt? d = some .succeeded

variable {plan : Plan} {s s' : Schedule} {i : Nat} {step : Step}

theorem Sound.start (plan : Plan) : Sound plan (Schedule.start plan) := by
  have hstatus : ∀ k, (Schedule.start plan).statusAt? k =
      plan.steps[k]?.map fun _ => Status.pending := by
    intro k
    rw [statusAt?, Schedule.start, List.getElem?_map]
    cases plan.steps[k]? <;> rfl
  have hwaiting : ∀ {k step}, plan.steps[k]? = some step →
      (Schedule.start plan).waiting.getD k 0 = step.dependsOn.length := by
    intro k step hstep
    rw [Schedule.start, List.getD_eq_getElem?_getD, List.getElem?_map, hstep]
    rfl
  refine ⟨rfl, rfl, List.length_map .., ?_, List.length_map .., ?_, ?_, ?_, ?_⟩
  · intro k step outcome hstep houtcome
    rw [Schedule.start, List.getElem?_map, hstep] at houtcome
    obtain rfl := Option.some.inj houtcome
    exact ⟨rfl, rfl, rfl⟩
  · intro k step hstep
    rw [hwaiting hstep, eq_comm, List.countP_eq_length]
    intro d hd
    rw [hstatus]
    cases plan.steps[d]? <;> simp
  · exact List.pairwise_lt_range.filter _
  · intro k hk
    obtain ⟨hlt, hempty⟩ := List.mem_filter.1 hk
    rw [List.mem_range] at hlt
    rw [List.getElem?_eq_getElem hlt] at hempty
    refine ⟨by rw [hstatus, List.getElem?_eq_getElem hlt]; rfl, ?_⟩
    rw [hwaiting (List.getElem?_eq_getElem hlt)]
    simpa using hempty
  · intro k step hstep hbegun
    rw [hstatus, hstep] at hbegun
    simp at hbegun

/-! ## Taking a step -/

/-- The first ready step waits for nothing more. -/
theorem Sound.head (h : Sound plan s) {rest : List Nat} (hready : s.ready = i :: rest) :
    Sound plan { s with ready := rest } ∧ i ∉ rest ∧ s.statusAt? i = some .pending ∧
      ∀ step, plan.steps[i]? = some step →
        ∀ d ∈ step.dependsOn, s.statusAt? d = some .succeeded := by
  have hincreasing := List.pairwise_cons.1 (hready ▸ h.increasing)
  obtain ⟨hpending, hzero⟩ := h.ready i (hready ▸ List.mem_cons_self ..)
  refine ⟨⟨h.steps, h.dependents, h.length, h.label, h.waitingLength, h.waiting, hincreasing.2,
    fun k hk => h.ready k (hready ▸ List.mem_cons_of_mem _ hk), h.begun⟩, ?_, hpending, ?_⟩
  · exact fun hi => Nat.lt_irrefl i (hincreasing.1 i hi)
  · intro step hstep d hd
    rw [h.waiting hstep, List.countP_eq_zero] at hzero
    simpa using hzero d hd

/-- A change of single statuses that succeed neither before nor after leaves the counts exact. -/
theorem countP_congr {ds : List Nat}
    (h : ∀ k, s'.statusAt? k = some .succeeded ↔ s.statusAt? k = some .succeeded) :
    (ds.countP fun d => s'.statusAt? d ≠ some .succeeded) =
      ds.countP fun d => s.statusAt? d ≠ some .succeeded := by
  refine List.countP_congr fun d _ => ?_
  simp [h d]

theorem Sound.markStarted (h : Sound plan s) (hpending : s.statusAt? i = some .pending)
    (hready : i ∉ s.ready)
    (hdeps : ∀ step, plan.steps[i]? = some step →
      ∀ d ∈ step.dependsOn, s.statusAt? d = some .succeeded) :
    Sound plan (s.markStarted i) := by
  have hstatus : ∀ k, (s.markStarted i).statusAt? k =
      if i = k then some .inProgress else s.statusAt? k := by
    intro k
    rw [statusAt?_markStarted]
    split
    · next heq => rw [← heq, hpending]; rfl
    · rfl
  have hsucceeded : ∀ k, (s.markStarted i).statusAt? k = some .succeeded ↔
      s.statusAt? k = some .succeeded := by
    intro k
    rw [hstatus]
    split
    · next heq => simp [← heq, hpending]
    · rfl
  refine ⟨h.steps, h.dependents, ?_, ?_, h.waitingLength, ?_, h.increasing, ?_, ?_⟩
  · rw [Schedule.markStarted, List.length_modify, h.length]
  · intro k step outcome hstep houtcome
    rw [Schedule.markStarted, List.getElem?_modify] at houtcome
    obtain ⟨held, hheld, rfl⟩ := Option.map_eq_some_iff.1 houtcome
    have hlabel := h.label hstep hheld
    split <;> exact ⟨hlabel.index, hlabel.nodeId, hlabel.action⟩
  · intro k step hstep
    rw [countP_congr hsucceeded]
    exact h.waiting hstep
  · intro k hk
    have hne : i ≠ k := fun heq => hready (heq ▸ hk)
    rw [hstatus, if_neg hne]
    exact h.ready k hk
  · intro k step hstep hbegun d hd
    rw [hsucceeded]
    rw [hstatus] at hbegun
    split at hbegun
    · next heq => exact hdeps step (heq ▸ hstep) d hd
    · exact h.begun hstep hbegun d hd

/-! ## Rolling back -/

/-- What has come of a step stays, but if it is pending it may be rolled back. -/
def Keeps (s s' : Schedule) (k : Nat) : Prop :=
  s'.outcomes[k]? = s.outcomes[k]? ∨
    (s.statusAt? k = some .pending ∧ s'.statusAt? k = some .rolledBack)

theorem Keeps.statusAt?_iff {k : Nat} (h : Keeps s s' k) {status : Status}
    (hpending : status ≠ .pending) (hrolledBack : status ≠ .rolledBack) :
    s'.statusAt? k = some status ↔ s.statusAt? k = some status := by
  rcases h with heq | ⟨hbefore, hafter⟩
  · rw [statusAt?, statusAt?, heq]
  · rw [hbefore, hafter]
    simp [hpending.symm, hrolledBack.symm]

theorem Keeps.trans {s'' : Schedule} {k : Nat} (h : Keeps s s' k) (h' : Keeps s' s'' k) :
    Keeps s s'' k := by
  rcases h with heq | ⟨hbefore, hafter⟩
  · rcases h' with heq' | ⟨hbefore', hafter'⟩
    · exact .inl (heq'.trans heq)
    · exact .inr ⟨by rw [← hbefore', statusAt?, statusAt?, heq], hafter'⟩
  · rcases h' with heq' | ⟨hbefore', -⟩
    · exact .inr ⟨hbefore, by rw [← hafter, statusAt?, statusAt?, heq']⟩
    · rw [hafter] at hbefore'
      cases hbefore'

theorem Sound.rollBack (h : Sound plan s) (hpending : s.statusAt? i = some .pending)
    (cause : String) : Sound plan (s.rollBack cause i) ∧ ∀ k, Keeps s (s.rollBack cause i) k := by
  have hkeeps : ∀ k, Keeps s (s.rollBack cause i) k := by
    intro k
    by_cases heq : i = k
    · subst heq
      exact .inr ⟨hpending, by rw [statusAt?_rollBack, if_pos rfl, hpending]; rfl⟩
    · exact .inl (by simp [Schedule.rollBack, heq])
  refine ⟨⟨h.steps, h.dependents, ?_, ?_, h.waitingLength, ?_, h.increasing.filter _, ?_, ?_⟩,
    hkeeps⟩
  · rw [Schedule.rollBack, List.length_modify, h.length]
  · intro k step outcome hstep houtcome
    rw [Schedule.rollBack, List.getElem?_modify] at houtcome
    obtain ⟨held, hheld, rfl⟩ := Option.map_eq_some_iff.1 houtcome
    have hlabel := h.label hstep hheld
    split <;> exact ⟨hlabel.index, hlabel.nodeId, hlabel.action⟩
  · intro k step hstep
    rw [countP_congr fun k => (hkeeps k).statusAt?_iff (by simp) (by simp)]
    exact h.waiting hstep
  · intro k hk
    obtain ⟨hk, hne⟩ := List.mem_filter.1 hk
    have hne' : i ≠ k := fun heq => by simp [heq] at hne
    rw [statusAt?_rollBack, if_neg hne']
    exact h.ready k hk
  · intro k step hstep hbegun d hd
    rw [(hkeeps k).statusAt?_iff (by simp) (by simp),
      (hkeeps k).statusAt?_iff (by simp) (by simp)] at hbegun
    exact ((hkeeps d).statusAt?_iff (by simp) (by simp)).2 (h.begun hstep hbegun d hd)

theorem Sound.rollBackQueue (h : Sound plan s) (cause : String) (fuel : Nat) (queue : List Nat) :
    Sound plan (rollBackQueue cause fuel queue s) ∧
      (∀ k, Keeps s (Schedule.rollBackQueue cause fuel queue s) k) ∧
      (Schedule.rollBackQueue cause fuel queue s).ready ⊆ s.ready ∧
      (Schedule.rollBackQueue cause fuel queue s).outputs = s.outputs := by
  induction fuel generalizing queue s with
  | zero => exact ⟨h, fun _ => .inl rfl, List.Subset.refl _, rfl⟩
  | succ fuel ih =>
    cases queue with
    | nil => exact ⟨h, fun _ => .inl rfl, List.Subset.refl _, rfl⟩
    | cons i queue =>
      rw [Schedule.rollBackQueue]
      split
      · next hpending =>
        obtain ⟨hsound, hkeeps⟩ := h.rollBack hpending cause
        obtain ⟨hsound', hkeeps', hready, houtputs⟩ := ih hsound (queue ++ s.dependentsAt i)
        exact ⟨hsound', fun k => (hkeeps k).trans (hkeeps' k),
          List.Subset.trans hready List.filter_sublist.subset, houtputs⟩
      · exact ih h queue

/-! ## Releasing dependents -/

theorem getD_set_waiting (waiting : List Nat) (i k value : Nat) :
    (waiting.set i value).getD k 0 =
      if i = k ∧ k < waiting.length then value else waiting.getD k 0 := by
  simp only [List.getD_eq_getElem?_getD, List.getElem?_set]
  grind

/-- Releasing steps takes each off the count as often as it is listed, and makes ready what waits
for nothing more. -/
theorem foldl_release (ds : List Nat) (s : Schedule) :
    let r := ds.foldl release s
    (r.steps = s.steps ∧ r.dependents = s.dependents ∧ r.outcomes = s.outcomes ∧
        r.outputs = s.outputs) ∧
      r.waiting.length = s.waiting.length ∧
      (∀ k, r.waiting.getD k 0 = s.waiting.getD k 0 - ds.count k) ∧
      (s.ready.Pairwise (· < ·) → r.ready.Pairwise (· < ·)) ∧
      ∀ k ∈ r.ready, k ∈ s.ready ∨
        (k ∈ ds ∧ r.waiting.getD k 0 = 0 ∧ s.statusAt? k = some .pending) := by
  induction ds generalizing s with
  | nil => simp
  | cons d ds ih =>
    obtain ⟨⟨hsteps, hdependents, houtcomes, houtputs⟩, hlength, hwaiting, hincreasing, hready⟩ :=
      ih (s.release d)
    have hstatus : ∀ k, (s.release d).statusAt? k = s.statusAt? k := fun k => rfl
    have hrelease : ∀ k, (s.release d).waiting.getD k 0 =
        if d = k then s.waiting.getD k 0 - 1 else s.waiting.getD k 0 := by
      intro k
      simp only [release, getD_set_waiting]
      split
      · next heq => rw [if_pos heq.1, heq.1]
      · next hne =>
        split
        · next heq =>
          subst heq
          have hout : s.waiting.length ≤ d := Nat.le_of_not_lt fun hlt => hne ⟨rfl, hlt⟩
          rw [List.getD_eq_getElem?_getD, List.getElem?_eq_none hout]
          rfl
        · rfl
    have hcount : ∀ k, ((s.release d).waiting.getD k 0 - ds.count k) =
        s.waiting.getD k 0 - (d :: ds).count k := by
      intro k
      rw [hrelease, List.count_cons]
      by_cases heq : d = k
      · simp only [heq, if_true, beq_self_eq_true]
        omega
      · simp [heq]
    refine ⟨⟨hsteps, hdependents, houtcomes, houtputs⟩, ?_, ?_, ?_, ?_⟩
    · exact hlength.trans (by simp [release])
    · exact fun k => (hwaiting k).trans (hcount k)
    · intro h
      refine hincreasing ?_
      simp only [release]
      split
      · exact Positions.pairwise_insert d h
      · exact h
    · intro k hk
      rcases hready k hk with hk' | ⟨hmem, hzero, hpending⟩
      · simp only [release] at hk'
        split at hk'
        · next hcond =>
          rcases Positions.mem_insert.1 hk' with rfl | hk'
          · refine .inr ⟨List.mem_cons_self .., ?_, hcond.2⟩
            have := hwaiting k
            rw [hrelease, if_pos rfl, hcond.1, Nat.zero_sub] at this
            exact this
          · exact .inl hk'
        · exact .inl hk'
      · exact .inr ⟨List.mem_cons_of_mem _ hmem, hzero, hpending⟩

/-- When one more step has succeeded, a list counts fewer that have not, by as often as it names
that step. -/
theorem countP_succeeded (ds : List Nat) (hbefore : s.statusAt? i ≠ some .succeeded)
    (hafter : s'.statusAt? i = some .succeeded)
    (hother : ∀ k, k ≠ i → s'.statusAt? k = s.statusAt? k) :
    (ds.countP fun d => s.statusAt? d ≠ some .succeeded) =
      (ds.countP fun d => s'.statusAt? d ≠ some .succeeded) + ds.count i := by
  induction ds with
  | nil => rfl
  | cons d ds ih =>
    rw [List.countP_cons, List.countP_cons, List.count_cons, ih]
    by_cases heq : d = i
    · subst heq
      simp only [hbefore, hafter, ne_eq, not_false_eq_true, not_true_eq_false, decide_true,
        decide_false, if_true, Bool.false_eq_true, if_false, beq_self_eq_true]
      omega
    · rw [hother d heq]
      simp only [beq_eq_false_iff_ne.2 heq, Bool.false_eq_true, if_false]
      omega

/-! ## Taking in an outcome -/

theorem Sound.dependentsAt_eq (h : Sound plan s) (hstep : plan.steps[i]? = some step) :
    s.dependentsAt i = waitingFor plan.steps i := by
  have hlt : i < plan.steps.length := (List.getElem?_eq_some_iff.1 hstep).1
  rw [dependentsAt, h.dependents, Schedule.start, List.getD_eq_getElem?_getD, List.getElem?_map,
    List.getElem?_range hlt]
  rfl

theorem count_dependentsAt (hordered : plan.isWellOrdered = true) {k : Nat}
    (hstep : plan.steps[k]? = some step) :
    (waitingFor plan.steps i).count k = step.dependsOn.count i := by
  have hindex : ∀ j step, plan.steps[j]? = some step → step.index = 0 + j := fun j step hj => by
    rw [Plan.index_eq hordered hj, Nat.zero_add]
  have := count_waitingFor (i := i) hindex hstep
  rwa [Nat.zero_add] at this

/-- No step waits for itself. -/
theorem ne_of_mem_waitingFor (hordered : plan.isWellOrdered = true) {k : Nat}
    (hk : k ∈ waitingFor plan.steps i) : i ≠ k := by
  obtain ⟨step, hstep, hk⟩ := List.mem_flatMap.1 hk
  obtain ⟨d, hd, rfl⟩ := List.mem_map.1 hk
  obtain ⟨hd, hdi⟩ := List.mem_filter.1 hd
  obtain ⟨j, hj⟩ := List.mem_iff_getElem?.1 hstep
  rw [Plan.index_eq hordered hj]
  have hlt := Plan.lt_of_mem_dependsOn hordered hj hd
  have : d = i := by simpa using hdi
  omega

theorem statusAt?_set {outcome : Outcome} (hi : i < s.outcomes.length) (k : Nat) :
    ({ s with outcomes := s.outcomes.set i outcome } : Schedule).statusAt? k =
      if i = k then some outcome.status else s.statusAt? k := by
  simp only [statusAt?, List.getElem?_set]
  split
  · simp
  · rfl

theorem label_set {outcome : Outcome}
    (hlabel : ∀ {k : Nat} {step : Step} {held : Outcome}, plan.steps[k]? = some step →
      s.outcomes[k]? = some held → held.Of step)
    (hstep : plan.steps[i]? = some step) (houtcome : outcome.Of step) {k : Nat} {step' : Step}
    {held : Outcome} (hk : plan.steps[k]? = some step')
    (hheld : (s.outcomes.set i outcome)[k]? = some held) : held.Of step' := by
  rw [List.getElem?_set] at hheld
  split at hheld
  · next heq =>
    subst heq
    obtain rfl := Option.some.inj (hstep.symm.trans hk)
    split at hheld
    · obtain rfl := Option.some.inj hheld
      exact houtcome
    · cases hheld
  · exact hlabel hk hheld

section finish

variable {outcome : Outcome}

theorem Sound.finish_failed (h : Sound plan s) (hstep : plan.steps[i]? = some step)
    (hindex : step.index = i) (hlabel : outcome.Of step)
    (hfailed : outcome.status = .failed) (hstatus : s.statusAt? i ≠ some .succeeded)
    (hready : i ∉ s.ready) :
    Sound plan (s.finish outcome) ∧ (∀ k, i ≠ k → Keeps s (s.finish outcome) k) ∧
      (s.finish outcome).outputs = s.outputs := by
  obtain ⟨hsound, hkeeps, hsub, houtputs⟩ : Sound plan (s.rollBackDependents outcome.nodeId i) ∧
      (∀ k, Keeps s (s.rollBackDependents outcome.nodeId i) k) ∧
      (s.rollBackDependents outcome.nodeId i).ready ⊆ s.ready ∧
      (s.rollBackDependents outcome.nodeId i).outputs = s.outputs :=
    h.rollBackQueue outcome.nodeId _ _
  have hfinish : s.finish outcome = { s.rollBackDependents outcome.nodeId i with
      outcomes := (s.rollBackDependents outcome.nodeId i).outcomes.set i outcome } := by
    simp [Schedule.finish, hfailed, hlabel.index, hindex]
  generalize s.rollBackDependents outcome.nodeId i = f at hsound hkeeps hsub houtputs hfinish
  have hi : i < f.outcomes.length := by
    rw [hsound.length]
    exact (List.getElem?_eq_some_iff.1 hstep).1
  have hnot : f.statusAt? i ≠ some .succeeded := by
    rwa [Ne, (hkeeps i).statusAt?_iff (by simp) (by simp)]
  have hstatus' : ∀ k,
      ({ f with outcomes := f.outcomes.set i outcome } : Schedule).statusAt? k =
        if i = k then some outcome.status else f.statusAt? k := statusAt?_set hi
  have hsucceeded : ∀ k, ({ f with outcomes := f.outcomes.set i outcome } : Schedule).statusAt? k =
      some .succeeded ↔ f.statusAt? k = some .succeeded := by
    intro k
    rw [hstatus']
    split
    · next heq => simp [← heq, hnot, hfailed]
    · rfl
  rw [hfinish]
  refine ⟨⟨hsound.steps, hsound.dependents, ?_, ?_, hsound.waitingLength, ?_, hsound.increasing,
    ?_, ?_⟩, fun k hk => ?_, houtputs⟩
  · simpa using hsound.length
  · exact label_set hsound.label hstep hlabel
  · intro k step hk
    rw [countP_congr hsucceeded]
    exact hsound.waiting hk
  · intro k hk
    have hne : i ≠ k := fun heq => hready (heq ▸ hsub hk)
    rw [hstatus', if_neg hne]
    exact hsound.ready k hk
  · intro k step' hk hbegun d hd
    rw [hsucceeded]
    rw [hstatus'] at hbegun
    split at hbegun
    · simp [hfailed] at hbegun
    · exact hsound.begun hk hbegun d hd
  · rcases hkeeps k with heq | ⟨hbefore, hafter⟩
    · exact .inl (by simp [hk, heq])
    · exact .inr ⟨hbefore, by rw [hstatus', if_neg hk, hafter]⟩

theorem Sound.finish_succeeded (h : Sound plan s) (hordered : plan.isWellOrdered = true)
    (hstep : plan.steps[i]? = some step) (hindex : step.index = i) (hlabel : outcome.Of step)
    (hsucceeded : outcome.status = .succeeded) (hstatus : s.statusAt? i ≠ some .succeeded)
    (hready : i ∉ s.ready) (hdeps : ∀ d ∈ step.dependsOn, s.statusAt? d = some .succeeded) :
    Sound plan (s.finish outcome) ∧
      (∀ k, i ≠ k → (s.finish outcome).outcomes[k]? = s.outcomes[k]?) ∧
      (s.finish outcome).outputs =
        if outcome.action = .delete then s.outputs
        else s.outputs.record outcome.nodeId outcome.outputs := by
  obtain ⟨⟨hsteps, hdependents, houtcomes, houtputs⟩, hlength, hwaiting, hincreasing, hmem⟩ :=
    foldl_release (waitingFor plan.steps i) { s with
      outputs := if outcome.action = .delete then s.outputs
        else s.outputs.record outcome.nodeId outcome.outputs }
  have hfinish : s.finish outcome =
      let f := (waitingFor plan.steps i).foldl release { s with
        outputs := if outcome.action = .delete then s.outputs
          else s.outputs.record outcome.nodeId outcome.outputs }
      { f with outcomes := f.outcomes.set i outcome } := by
    simp [Schedule.finish, hsucceeded, hlabel.index, hindex, h.dependentsAt_eq hstep]
  generalize (waitingFor plan.steps i).foldl release { s with
    outputs := if outcome.action = .delete then s.outputs
      else s.outputs.record outcome.nodeId outcome.outputs } = f at *
  have hi : i < f.outcomes.length := by
    rw [houtcomes, h.length]
    exact (List.getElem?_eq_some_iff.1 hstep).1
  have hstatus' : ∀ k, ({ f with outcomes := f.outcomes.set i outcome } : Schedule).statusAt? k =
      if i = k then some .succeeded else s.statusAt? k := by
    intro k
    rw [statusAt?_set hi, hsucceeded, statusAt?, statusAt?, houtcomes]
  have hstays : ∀ d, s.statusAt? d = some .succeeded →
      ({ f with outcomes := f.outcomes.set i outcome } : Schedule).statusAt? d =
        some .succeeded := by
    intro d hd
    rw [hstatus']
    split
    · rfl
    · exact hd
  rw [hfinish]
  refine ⟨⟨hsteps.trans h.steps, hdependents.trans h.dependents, ?_, ?_,
    hlength.trans h.waitingLength, ?_, hincreasing h.increasing, ?_, ?_⟩, fun k hk => ?_, houtputs⟩
  · simpa [houtcomes] using h.length
  · exact label_set (houtcomes ▸ h.label) hstep hlabel
  · intro k step' hk
    have hcount := countP_succeeded step'.dependsOn hstatus ((hstatus' i).trans (if_pos rfl))
      fun k hk => (hstatus' k).trans (if_neg hk.symm)
    have hleft := hwaiting k
    rw [h.waiting hk, count_dependentsAt hordered hk, hcount, Nat.add_sub_cancel] at hleft
    exact hleft
  · intro k hk
    rcases hmem k hk with hk' | ⟨hk', hzero, hpending⟩
    · have hne : i ≠ k := fun heq => hready (heq ▸ hk')
      obtain ⟨hpending, hzero⟩ := h.ready k hk'
      refine ⟨by rw [hstatus', if_neg hne, hpending], ?_⟩
      have := hwaiting k
      rw [hzero, Nat.zero_sub] at this
      exact this
    · exact ⟨by rw [hstatus', if_neg (ne_of_mem_waitingFor hordered hk')]; exact hpending, hzero⟩
  · intro k step' hk hbegun d hd
    rw [hstatus'] at hbegun
    split at hbegun
    · next heq =>
      subst heq
      obtain rfl := Option.some.inj (hstep.symm.trans hk)
      exact hstays d (hdeps d hd)
    · exact hstays d (h.begun hk hbegun d hd)
  · simp [hk, houtcomes]

/-- What a schedule becomes when a step ends: the outcomes of the other steps stay or are rolled
back, and the outputs of a step that has succeeded are recorded, unless it was a deletion. -/
structure Ended (s s' : Schedule) (step : Step) (outcome : Outcome) : Prop where
  own : s'.outcomes[step.index]? = some outcome
  keeps : ∀ k, step.index ≠ k → Keeps s s' k
  outputs : s'.outputs =
    if outcome.status = .succeeded ∧ outcome.action ≠ .delete then
      s.outputs.record outcome.nodeId outcome.outputs
    else s.outputs

/-- A success is that of the step that has ended, or older. -/
theorem Ended.succeeded {outcome other : Outcome} (h : Ended s s' step outcome) {k : Nat}
    (hother : s'.outcomes[k]? = some other) (hsucceeded : other.status = .succeeded) :
    (k = step.index ∧ other = outcome) ∨ s.outcomes[k]? = some other := by
  by_cases hk : step.index = k
  · subst hk
    exact .inl ⟨rfl, Option.some.inj (hother.symm.trans h.own)⟩
  · rcases h.keeps k hk with heq | ⟨-, hrolledBack⟩
    · exact .inr (heq ▸ hother)
    · rw [statusAt?, hother, Option.map_some, hsucceeded] at hrolledBack
      cases hrolledBack

theorem Sound.finish (h : Sound plan s) (hordered : plan.isWellOrdered = true)
    (hstep : plan.steps[i]? = some step) (hlabel : outcome.Of step)
    (hterminal : outcome.status = .succeeded ∨ outcome.status = .failed)
    (hstatus : s.statusAt? i ≠ some .succeeded) (hready : i ∉ s.ready)
    (hdeps : ∀ d ∈ step.dependsOn, s.statusAt? d = some .succeeded) :
    Sound plan (s.finish outcome) ∧ Ended s (s.finish outcome) step outcome := by
  have hindex := Plan.index_eq hordered hstep
  have hset : ∀ f : Schedule, f.outcomes.length = plan.steps.length →
      (f.outcomes.set outcome.index outcome)[i]? = some outcome := by
    intro f hlength
    have hi : i < f.outcomes.length := hlength ▸ (List.getElem?_eq_some_iff.1 hstep).1
    rw [hlabel.index, hindex, List.getElem?_set_self hi]
  have hown : Sound plan (s.finish outcome) → (s.finish outcome).outcomes[i]? = some outcome := by
    intro hsound
    have hlength := hsound.length
    simp only [Schedule.finish, List.length_set] at hlength ⊢
    exact hset _ hlength
  rcases hterminal with hsucceeded | hfailed
  · obtain ⟨hsound, hkeeps, houtputs⟩ :=
      h.finish_succeeded hordered hstep hindex hlabel hsucceeded hstatus hready hdeps
    refine ⟨hsound, hindex ▸ hown hsound, fun k hk => .inl (hkeeps k (hindex ▸ hk)), ?_⟩
    rw [houtputs]
    by_cases hdelete : outcome.action = .delete <;> simp [hsucceeded, hdelete]
  · obtain ⟨hsound, hkeeps, houtputs⟩ := h.finish_failed hstep hindex hlabel hfailed hstatus hready
    refine ⟨hsound, hindex ▸ hown hsound, fun k hk => hkeeps k (hindex ▸ hk), ?_⟩
    rw [houtputs]
    simp [hfailed]

end finish

end Schedule

end Converge
