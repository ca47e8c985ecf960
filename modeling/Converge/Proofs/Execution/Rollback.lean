import Mathlib.Algebra.BigOperators.Fin
import Mathlib.Algebra.Order.BigOperators.Group.Finset
import Converge.Proofs.Execution.Schedule

/-!
# Rolling back

When a step fails, exactly the steps that wait for it, directly or not, are rolled back, and no
other step is kept from being started by it. So at every time the steps that failed or were rolled
back are those above a failure, and every pending step that waits for nothing more is ready.

Main statement: `Schedule.Closed.finish`.
-/

namespace Converge

namespace Schedule

variable {plan : Plan} {s s' r : Schedule} {step : Step} {outcome : Outcome} {i k : Nat}

theorem Keeps.rolledBack (h : Keeps s s' k) (hrolledBack : s.statusAt? k = some .rolledBack) :
    s'.statusAt? k = some .rolledBack := by
  rcases h with heq | ⟨-, hafter⟩
  · rw [statusAt?, heq]
    exact hrolledBack
  · exact hafter

theorem Keeps.eq_or_pending (h : Keeps s s' k) :
    s'.statusAt? k = s.statusAt? k ∨ s.statusAt? k = some .pending :=
  h.imp (congrArg (Option.map Outcome.status)) And.left

theorem Keeps.pending (h : Keeps s s' k) (hpending : s'.statusAt? k = some .pending) :
    s.statusAt? k = some .pending := by
  rcases h with heq | ⟨hbefore, -⟩
  · rwa [statusAt?, heq] at hpending
  · exact hbefore

theorem ne_succeeded_of_open
    (h : s.statusAt? i = some .pending ∨ s.statusAt? i = some .inProgress) :
    s.statusAt? i ≠ some .succeeded := by
  rcases h with h | h <;> simp [h]

/-! ## The queue -/

/-- How many entries the queue can still be given: every pending step adds its dependents once. -/
def budget (s : Schedule) : Nat :=
  ∑ i ∈ (Finset.range s.dependents.length).filter fun i => s.statusAt? i = some .pending,
    (s.dependentsAt i).length

theorem budget_le : s.budget ≤ (s.dependents.map List.length).sum := by
  have hall : ∑ i ∈ Finset.range s.dependents.length, (s.dependentsAt i).length =
      (s.dependents.map List.length).sum := by
    rw [Finset.sum_range, ← Fin.sum_univ_fun_getElem]
    refine Finset.sum_congr rfl fun i _ => ?_
    simp [dependentsAt, List.getD_eq_getElem?_getD]
  rw [← hall]
  exact Finset.sum_le_sum_of_subset (Finset.filter_subset _ _)

/-- A step that is rolled back spends what it adds to the queue. -/
theorem Sound.budget_rollBack (h : Sound plan s) (hpending : s.statusAt? i = some .pending)
    (cause : String) : (s.rollBack cause i).budget + (s.dependentsAt i).length = s.budget := by
  have hlength : s.dependents.length = s.outcomes.length := by
    rw [h.dependents, h.length]
    simp [Schedule.start]
  have hlt : i < s.dependents.length := by
    obtain ⟨outcome, houtcome, -⟩ := statusAt?_eq_some_iff.1 hpending
    rw [hlength]
    exact (List.getElem?_eq_some_iff.1 houtcome).1
  have hsteps : (Finset.range s.dependents.length).filter
      (fun k => (s.rollBack cause i).statusAt? k = some .pending) =
      ((Finset.range s.dependents.length).filter
        fun k => s.statusAt? k = some .pending).erase i := by
    ext k
    rw [Finset.mem_erase, Finset.mem_filter, Finset.mem_filter, statusAt?_rollBack]
    by_cases heq : i = k
    · simp [← heq, hpending]
    · simp [heq, Ne.symm heq]
  have hdependents : ∀ k, (s.rollBack cause i).dependentsAt k = s.dependentsAt k := fun k => rfl
  have hbudget : (s.rollBack cause i).budget =
      ∑ k ∈ ((Finset.range s.dependents.length).filter
        fun k => s.statusAt? k = some .pending).erase i, (s.dependentsAt k).length := by
    rw [budget, ← hsteps]
    rfl
  rw [hbudget, budget]
  exact Finset.sum_erase_add _ _ (Finset.mem_filter.2 ⟨Finset.mem_range.2 hlt, hpending⟩)

/-- What working off a queue brings about. -/
structure Spread (queue : List Nat) (s r : Schedule) : Prop where
  keeps : ∀ k, Keeps s r k
  reached : ∀ k ∈ queue, r.statusAt? k ≠ some .pending
  onward : ∀ {d k : Nat}, s.statusAt? d = some .pending → r.statusAt? d = some .rolledBack →
    k ∈ s.dependentsAt d → r.statusAt? k ≠ some .pending
  blamed : ∀ {k : Nat}, s.statusAt? k = some .pending → r.statusAt? k = some .rolledBack →
    k ∈ queue ∨ ∃ d, s.statusAt? d = some .pending ∧ r.statusAt? d = some .rolledBack ∧
      k ∈ s.dependentsAt d
  ready : ∀ {k : Nat}, k ∈ s.ready → r.statusAt? k = some .pending → k ∈ r.ready

theorem Spread.refl (s : Schedule) : Spread [] s s where
  keeps _ := .inl rfl
  reached := by simp
  onward hpending hrolledBack := nomatch hpending.symm.trans hrolledBack
  blamed hpending hrolledBack := nomatch hpending.symm.trans hrolledBack
  ready hk _ := hk

/-- A step that is not pending any more is passed over. -/
theorem Spread.skip {queue : List Nat} (h : Spread queue s r)
    (hpending : s.statusAt? i ≠ some .pending) : Spread (i :: queue) s r where
  keeps := h.keeps
  reached := by
    intro k hk
    rcases List.mem_cons.1 hk with rfl | hk
    · exact fun hafter => hpending ((h.keeps k).pending hafter)
    · exact h.reached k hk
  onward := h.onward
  blamed hbefore hafter := (h.blamed hbefore hafter).imp_left (List.mem_cons_of_mem _)
  ready := h.ready

/-- A pending step is rolled back, and its dependents come last. -/
theorem Spread.visit {queue : List Nat} {cause : String} (hs : Sound plan s)
    (hpending : s.statusAt? i = some .pending)
    (h : Spread (queue ++ s.dependentsAt i) (s.rollBack cause i) r) :
    Spread (i :: queue) s r := by
  have hkeeps := (hs.rollBack hpending cause).2
  have hself : (s.rollBack cause i).statusAt? i = some .rolledBack := by
    rw [statusAt?_rollBack, if_pos rfl, hpending]
    rfl
  have hother : ∀ {k}, i ≠ k → (s.rollBack cause i).statusAt? k = s.statusAt? k := by
    intro k hk
    rw [statusAt?_rollBack, if_neg hk]
  have hdone : r.statusAt? i = some .rolledBack := (h.keeps i).rolledBack hself
  refine ⟨fun k => (hkeeps k).trans (h.keeps k), ?_, ?_, ?_, ?_⟩
  · intro k hk
    rcases List.mem_cons.1 hk with rfl | hk
    · rw [hdone]
      simp
    · exact h.reached k (List.mem_append_left _ hk)
  · intro d k hbefore hafter hk
    by_cases hd : i = d
    · subst hd
      exact h.reached k (List.mem_append_right _ hk)
    · exact h.onward ((hother hd).trans hbefore) hafter hk
  · intro k hbefore hafter
    by_cases hk : i = k
    · exact .inl (hk ▸ List.mem_cons_self ..)
    rcases h.blamed ((hother hk).trans hbefore) hafter with hqueued | ⟨d, hd, hd', hk'⟩
    · rcases List.mem_append.1 hqueued with hqueued | hqueued
      · exact .inl (List.mem_cons_of_mem _ hqueued)
      · exact .inr ⟨i, hpending, hdone, hqueued⟩
    · exact .inr ⟨d, (hkeeps d).pending hd, hd', hk'⟩
  · intro k hk hafter
    have hne : i ≠ k := by
      rintro rfl
      exact nomatch hdone.symm.trans hafter
    refine h.ready ?_ hafter
    simp only [rollBack, List.mem_filter, bne_iff_ne]
    exact ⟨hk, hne.symm⟩

/-- The queue is worked off before the fuel is used up. -/
theorem Sound.spread (h : Sound plan s) (cause : String) {fuel : Nat} {queue : List Nat}
    (hfuel : queue.length + s.budget ≤ fuel) :
    Spread queue s (Schedule.rollBackQueue cause fuel queue s) := by
  induction fuel generalizing queue s with
  | zero =>
    obtain rfl : queue = [] := List.eq_nil_of_length_eq_zero (by omega)
    exact .refl s
  | succ fuel ih =>
    cases queue with
    | nil => exact .refl s
    | cons i queue =>
      rw [List.length_cons] at hfuel
      rw [Schedule.rollBackQueue]
      split
      · next hpending =>
        have hbudget := h.budget_rollBack hpending cause
        refine .visit h hpending (ih (h.rollBack hpending cause).1 ?_)
        rw [List.length_append]
        omega
      · next hpending => exact (ih h (by omega)).skip hpending

/-- The steps that a queue of dependents is given are enough. -/
theorem length_add_budget_le (s : Schedule) (i : Nat) :
    (s.dependentsAt i).length + s.budget ≤
      s.dependents.foldl (fun n waiting => n + waiting.length) ((s.dependentsAt i).length + 1) := by
  have hsum : ∀ n, s.dependents.foldl (fun n waiting => n + waiting.length) n =
      n + (s.dependents.map List.length).sum := by
    intro n
    rw [List.sum_eq_foldl_nat, ← List.foldl_map]
    exact @List.foldl_assoc Nat (· + ·) _ _ n 0
  have hbudget := s.budget_le
  rw [hsum]
  omega

theorem Sound.spread_rollBackDependents (h : Sound plan s) (cause : String) (i : Nat) :
    Spread (s.dependentsAt i) s (s.rollBackDependents cause i) :=
  h.spread cause (s.length_add_budget_le i)

/-! ## Releasing -/

/-- What is ready stays so, and a pending step that is released and waits for nothing more becomes
ready. -/
theorem mem_ready_foldl_release (ds : List Nat) (s : Schedule) (k : Nat)
    (hk : k ∈ s.ready ∨ k ∈ ds ∧ s.statusAt? k = some .pending ∧
      (ds.foldl release s).waiting.getD k 0 = 0) : k ∈ (ds.foldl release s).ready := by
  induction ds generalizing s with
  | nil => simpa using hk
  | cons d ds ih =>
    rw [List.foldl_cons] at hk ⊢
    have hmono : k ∈ s.ready → k ∈ (s.release d).ready := by
      intro hk
      simp only [release]
      split
      · exact Positions.mem_insert.2 (.inr hk)
      · exact hk
    rcases hk with hk | ⟨hk, hpending, hzero⟩
    · exact ih _ (.inl (hmono hk))
    by_cases hlater : k ∈ ds
    · exact ih _ (.inr ⟨hlater, hpending, hzero⟩)
    -- It is released for the last time here, so its count is what it is at the end.
    obtain rfl : k = d := (List.mem_cons.1 hk).resolve_right hlater
    have hlast := (foldl_release ds (s.release k)).2.2.1 k
    rw [hzero, List.count_eq_zero_of_not_mem hlater, Nat.sub_zero] at hlast
    have hleft : s.waiting.getD k 0 - 1 = 0 := by
      simp only [release, getD_set_waiting] at hlast
      split at hlast <;> omega
    refine ih _ (.inl ?_)
    simp only [release]
    rw [if_pos ⟨hleft, hpending⟩]
    exact Positions.mem_insert.2 (.inl rfl)

/-! ## The invariant -/

end Schedule

namespace Plan

/-- Whether a step has failed or was rolled back. -/
def Broken (status : Nat → Option Status) (i : Nat) : Prop :=
  status i = some .failed ∨ status i = some .rolledBack

/-- Whether all pending steps that wait for nothing more are among those that are ready. -/
def Offers (plan : Plan) (status : Nat → Option Status) (ready : List Nat) : Prop :=
  ∀ {k : Nat} {step : Step}, plan.steps[k]? = some step → status k = some .pending →
    (∀ d ∈ step.dependsOn, status d = some .succeeded) → k ∈ ready

/-- What the statuses of the steps say about each other: a step begins when all that it waits for
has succeeded, and is rolled back exactly when some of it is broken. -/
structure Consistent (plan : Plan) (status : Nat → Option Status) : Prop where
  begun : ∀ {k : Nat} {step : Step} {held : Status}, plan.steps[k]? = some step →
    status k = some held → held ≠ .pending → held ≠ .rolledBack →
    ∀ d ∈ step.dependsOn, status d = some .succeeded
  spread : ∀ {k : Nat} {step : Step}, plan.steps[k]? = some step → ∀ d ∈ step.dependsOn,
    Broken status d → status k = some .rolledBack
  blamed : ∀ {k : Nat} {step : Step}, plan.steps[k]? = some step →
    status k = some .rolledBack → ∃ d ∈ step.dependsOn, Broken status d

variable {plan : Plan} {status : Nat → Option Status} {i k : Nat} {step : Step}

/-- A step that begins or succeeds breaks nothing. -/
theorem Consistent.update (h : plan.Consistent status) (hstep : plan.steps[i]? = some step)
    (hbefore : status i = some .pending ∨ status i = some .inProgress)
    (hdeps : ∀ d ∈ step.dependsOn, status d = some .succeeded) {held : Status}
    (hheld : held = .inProgress ∨ held = .succeeded) :
    plan.Consistent fun k => if i = k then some held else status k := by
  have hsucceeded : ∀ {d}, status d = some .succeeded →
      (if i = d then some held else status d) = some .succeeded := by
    intro d hd
    have hne : i ≠ d := by
      rintro rfl
      rcases hbefore with hbefore | hbefore <;> exact nomatch hbefore.symm.trans hd
    rw [if_neg hne, hd]
  have hrolledBack : ∀ {k}, (if i = k then some held else status k) = some .rolledBack ↔
      status k = some .rolledBack := by
    intro k
    split
    · next heq =>
      subst heq
      rcases hbefore with hbefore | hbefore <;> rcases hheld with rfl | rfl <;> simp [hbefore]
    · rfl
  have hfailed : ∀ {k}, (if i = k then some held else status k) = some .failed ↔
      status k = some .failed := by
    intro k
    split
    · next heq =>
      subst heq
      rcases hbefore with hbefore | hbefore <;> rcases hheld with rfl | rfl <;> simp [hbefore]
    · rfl
  refine ⟨?_, ?_, ?_⟩
  · intro k step' now hk hnow hpending hnot d hd
    refine hsucceeded ?_
    by_cases heq : i = k
    · subst heq
      obtain rfl := Option.some.inj (hstep.symm.trans hk)
      exact hdeps d hd
    · rw [if_neg heq] at hnow
      exact h.begun hk hnow hpending hnot d hd
  · intro k step' hk d hd hbroken
    exact hrolledBack.2 (h.spread hk d hd (hbroken.imp hfailed.1 hrolledBack.1))
  · intro k step' hk hback
    obtain ⟨d, hd, hbroken⟩ := h.blamed hk (hrolledBack.1 hback)
    exact ⟨d, hd, hbroken.imp hfailed.2 hrolledBack.2⟩

end Plan

namespace Schedule

/-- Nothing that can be started is left out, and what was rolled back is what waits for a
failure. -/
structure Closed (plan : Plan) (s : Schedule) : Prop where
  offers : plan.Offers s.statusAt? s.ready
  consistent : plan.Consistent s.statusAt?

variable {plan : Plan} {s r : Schedule} {step : Step} {outcome : Outcome} {i k : Nat}

theorem statusAt?_start (k : Nat) :
    (Schedule.start plan).statusAt? k = plan.steps[k]?.map fun _ => Status.pending := by
  simp [statusAt?, Schedule.start, Function.comp_def, Outcome.pending]

theorem Closed.start (plan : Plan) : Closed plan (Schedule.start plan) := by
  have hpending : ∀ {k status}, (Schedule.start plan).statusAt? k = some status →
      status = .pending := by
    intro k status h
    rw [statusAt?_start] at h
    obtain ⟨-, -, rfl⟩ := Option.map_eq_some_iff.1 h
    rfl
  refine ⟨?_, ?_, ?_, ?_⟩
  · intro k step hstep _ hdeps
    have hnone : step.dependsOn = [] := List.eq_nil_iff_forall_not_mem.2 fun d hd => by
      cases hpending (hdeps d hd)
    rw [Schedule.start, List.mem_filter, List.mem_range]
    exact ⟨(List.getElem?_eq_some_iff.1 hstep).1, by simp [hstep, hnone]⟩
  · intro k step held _ hheld hne
    exact absurd (hpending hheld) hne
  · rintro k step - d - (hbroken | hbroken) <;> cases hpending hbroken
  · intro k step _ hrolledBack
    cases hpending hrolledBack

theorem Closed.markStarted (hoffers : plan.Offers s.statusAt? (i :: s.ready))
    (hconsistent : plan.Consistent s.statusAt?) (hstep : plan.steps[i]? = some step)
    (hpending : s.statusAt? i = some .pending)
    (hdeps : ∀ d ∈ step.dependsOn, s.statusAt? d = some .succeeded) :
    Closed plan (s.markStarted i) := by
  have hstatus : (s.markStarted i).statusAt? =
      fun k => if i = k then some .inProgress else s.statusAt? k := by
    funext k
    rw [statusAt?_markStarted]
    split
    · next heq => rw [← heq, hpending]; rfl
    · rfl
  refine ⟨?_, ?_⟩
  · intro k step' hk hwaits hdone
    rw [hstatus] at hwaits hdone
    dsimp only at hwaits hdone
    split at hwaits
    · cases hwaits
    · next hne =>
      refine (List.mem_cons.1 (hoffers hk hwaits fun d hd => ?_)).resolve_left (Ne.symm hne)
      have hdone := hdone d hd
      split at hdone
      · cases hdone
      · exact hdone
  · rw [hstatus]
    exact hconsistent.update hstep (.inl hpending) hdeps (.inl rfl)

/-! ## Taking in an outcome -/

theorem Sound.mem_dependentsAt (h : Sound plan s) (hordered : plan.isWellOrdered = true) {d : Nat}
    (hk : plan.steps[k]? = some step) : k ∈ s.dependentsAt d ↔ d ∈ step.dependsOn := by
  by_cases hd : d < plan.steps.length
  · rw [h.dependentsAt_eq (List.getElem?_eq_getElem hd), ← List.count_pos_iff,
      count_dependentsAt hordered hk, List.count_pos_iff]
  · have hnone : s.dependentsAt d = [] := by
      rw [dependentsAt, h.dependents, List.getD_eq_getElem?_getD, List.getElem?_eq_none]
      · rfl
      · simpa [Schedule.start] using hd
    have hlt := (List.getElem?_eq_some_iff.1 hk).1
    rw [hnone]
    refine ⟨fun hmem => (List.not_mem_nil hmem).elim, fun hmem => ?_⟩
    have := Plan.lt_of_mem_dependsOn hordered hk hmem
    omega

theorem Sound.exists_statusAt? (h : Sound plan s) (hk : plan.steps[k]? = some step) :
    ∃ held, s.statusAt? k = some held :=
  ⟨_, statusAt?_eq_getElem (h.length ▸ (List.getElem?_eq_some_iff.1 hk).1)⟩

/-- A failure breaks the step itself and what it makes roll back, and so all that waits for it. -/
theorem Spread.consistent (h : Spread (s.dependentsAt i) s r) (hs : Sound plan s)
    (hordered : plan.isWellOrdered = true) (hconsistent : plan.Consistent s.statusAt?)
    (hstep : plan.steps[i]? = some step)
    (hbefore : s.statusAt? i = some .pending ∨ s.statusAt? i = some .inProgress)
    (hdeps : ∀ d ∈ step.dependsOn, s.statusAt? d = some .succeeded) :
    plan.Consistent fun k => if i = k then some .failed else r.statusAt? k := by
  have hkept : ∀ {k held}, held ≠ .pending → held ≠ .rolledBack →
      (r.statusAt? k = some held ↔ s.statusAt? k = some held) :=
    fun hne hne' => (h.keeps _).statusAt?_iff hne hne'
  have hnot := ne_succeeded_of_open hbefore
  have hbroken_iff : ∀ {d}, Plan.Broken (fun k => if i = k then some .failed else r.statusAt? k) d ↔
      i = d ∨ Plan.Broken r.statusAt? d := by
    intro d
    by_cases heq : i = d <;> simp [Plan.Broken, heq]
  refine ⟨?_, ?_, ?_⟩
  · intro k step' held hk hheld hpending hrolledBack d hd
    have hsucceeded : s.statusAt? d = some .succeeded := by
      by_cases heq : i = k
      · subst heq
        obtain rfl := Option.some.inj (hstep.symm.trans hk)
        exact hdeps d hd
      · rw [if_neg heq] at hheld
        exact hconsistent.begun hk ((hkept hpending hrolledBack).1 hheld) hpending hrolledBack d hd
    rw [if_neg (fun heq : i = d => hnot (heq ▸ hsucceeded))]
    exact (hkept (by decide) (by decide)).2 hsucceeded
  · intro k step' hk d hd hbroken
    rw [hbroken_iff] at hbroken
    have hunmet : s.statusAt? d ≠ some .succeeded := by
      intro hsucceeded
      have hafter := (hkept (by decide) (by decide)).2 hsucceeded
      rcases hbroken with rfl | hbroken | hbroken
      · exact hnot hsucceeded
      · exact nomatch hafter.symm.trans hbroken
      · exact nomatch hafter.symm.trans hbroken
    have hne : i ≠ k := by
      rintro rfl
      obtain rfl := Option.some.inj (hstep.symm.trans hk)
      exact hunmet (hdeps d hd)
    rw [if_neg hne]
    obtain ⟨held, hheld⟩ := hs.exists_statusAt? hk
    by_cases hrolledBack : held = .rolledBack
    · exact (h.keeps k).rolledBack (hrolledBack ▸ hheld)
    by_cases hpending : held = .pending
    · subst hpending
      -- Whatever broke what it waits for has reached it too.
      have hreached : r.statusAt? k ≠ some .pending := by
        rcases hbroken with rfl | hfailed | hback
        · exact h.reached k ((hs.mem_dependentsAt hordered hk).2 hd)
        · have hbefore := (hkept (by decide) (by decide)).1 hfailed
          exact nomatch hheld.symm.trans (hconsistent.spread hk d hd (.inl hbefore))
        · rcases (h.keeps d).eq_or_pending with hsame | hpending
          · have hbefore := hsame.symm.trans hback
            exact nomatch hheld.symm.trans (hconsistent.spread hk d hd (.inr hbefore))
          · exact h.onward hpending hback ((hs.mem_dependentsAt hordered hk).2 hd)
      rcases h.keeps k with hsame | ⟨-, hback⟩
      · rw [statusAt?, hsame] at hreached
        exact absurd hheld hreached
      · exact hback
    · exact absurd (hconsistent.begun hk hheld hpending hrolledBack d hd) hunmet
  · intro k step' hk hback
    have hne : i ≠ k := by
      rintro rfl
      simp at hback
    rw [if_neg hne] at hback
    simp only [hbroken_iff]
    rcases (h.keeps k).eq_or_pending with hsame | hpending
    · obtain ⟨d, hd, hbroken⟩ := hconsistent.blamed hk (hsame.symm.trans hback)
      exact ⟨d, hd, .inr (hbroken.imp (hkept (by decide) (by decide)).2 (h.keeps d).rolledBack)⟩
    · rcases h.blamed hpending hback with hqueued | ⟨d, -, hback, hqueued⟩
      · exact ⟨i, (hs.mem_dependentsAt hordered hk).1 hqueued, .inl rfl⟩
      · exact ⟨d, (hs.mem_dependentsAt hordered hk).1 hqueued, .inr (.inr hback)⟩

section finish

variable (hs : Sound plan s) (hordered : plan.isWellOrdered = true)
  (hoffers : plan.Offers s.statusAt? (i :: s.ready)) (hconsistent : plan.Consistent s.statusAt?)
  (hstep : plan.steps[i]? = some step) (hlabel : outcome.Of step)
  (hbefore : s.statusAt? i = some .pending ∨ s.statusAt? i = some .inProgress)
  (hdeps : ∀ d ∈ step.dependsOn, s.statusAt? d = some .succeeded)

include hs hordered hoffers hconsistent hstep hlabel hbefore hdeps

theorem Closed.finish_succeeded (hready : i ∉ s.ready) (hsucceeded : outcome.status = .succeeded) :
    Closed plan (s.finish outcome) := by
  have hindex := Plan.index_eq hordered hstep
  have hnot := ne_succeeded_of_open hbefore
  obtain ⟨hsound, hended⟩ :=
    hs.finish hordered hstep hlabel (.inl hsucceeded) hnot hready hdeps
  obtain ⟨-, hothers, -⟩ :=
    hs.finish_succeeded hordered hstep hindex hlabel hsucceeded hnot hready hdeps
  have hstatus : (s.finish outcome).statusAt? =
      fun k => if i = k then some .succeeded else s.statusAt? k := by
    funext k
    by_cases hk : i = k
    · subst hk
      rw [if_pos rfl, statusAt?, ← hindex, hended.own, Option.map_some, hsucceeded]
    · rw [if_neg hk, statusAt?, statusAt?, hothers k hk]
  refine ⟨?_, ?_⟩
  · intro k step' hk hpending hdone
    have hzero : (s.finish outcome).waiting.getD k 0 = 0 := by
      rw [hsound.waiting hk, List.countP_eq_zero]
      intro d hd
      simpa using hdone d hd
    rw [hstatus] at hpending hdone
    dsimp only at hpending hdone
    have hne : i ≠ k := by
      rintro rfl
      simp at hpending
    rw [if_neg hne] at hpending
    let recorded : Schedule := { s with
      outputs := if outcome.action = .delete then s.outputs
        else s.outputs.record outcome.nodeId outcome.outputs }
    have hfinish : (s.finish outcome).ready =
        ((s.dependentsAt i).foldl release recorded).ready ∧
        (s.finish outcome).waiting = ((s.dependentsAt i).foldl release recorded).waiting := by
      simp [Schedule.finish, hsucceeded, hlabel.index, hindex, recorded]
    rw [hfinish.2] at hzero
    rw [hfinish.1]
    refine mem_ready_foldl_release _ _ _ ?_
    by_cases hwaits : i ∈ step'.dependsOn
    · exact .inr ⟨(hs.mem_dependentsAt hordered hk).2 hwaits, hpending, hzero⟩
    · -- It did not wait for this step, so it was ready before.
      refine .inl ((List.mem_cons.1 (hoffers hk hpending fun d hd => ?_)).resolve_left hne.symm)
      have hdone := hdone d hd
      rwa [if_neg (fun heq : i = d => hwaits (heq ▸ hd))] at hdone
  · rw [hstatus]
    exact hconsistent.update hstep hbefore hdeps (.inr rfl)

theorem Closed.finish_failed (hfailed : outcome.status = .failed) :
    Closed plan (s.finish outcome) := by
  have hindex := Plan.index_eq hordered hstep
  have hspread := hs.spread_rollBackDependents outcome.nodeId i
  have hfinish : (s.finish outcome) = { s.rollBackDependents outcome.nodeId i with
      outcomes := (s.rollBackDependents outcome.nodeId i).outcomes.set i outcome } := by
    simp [Schedule.finish, hfailed, hlabel.index, hindex]
  have hlength : (s.rollBackDependents outcome.nodeId i).outcomes.length = plan.steps.length :=
    (hs.rollBackQueue outcome.nodeId _ _).1.length
  generalize s.rollBackDependents outcome.nodeId i = r at hspread hfinish hlength
  have hi : i < r.outcomes.length := hlength ▸ (List.getElem?_eq_some_iff.1 hstep).1
  have hstatus : (s.finish outcome).statusAt? =
      fun k => if i = k then some .failed else r.statusAt? k := by
    funext k
    rw [hfinish, statusAt?_set hi, hfailed]
  have hkept : ∀ {k held}, held ≠ .pending → held ≠ .rolledBack →
      (r.statusAt? k = some held ↔ s.statusAt? k = some held) :=
    fun hne hne' => (hspread.keeps _).statusAt?_iff hne hne'
  have hnot := ne_succeeded_of_open hbefore
  -- What has succeeded before has succeeded after, and nothing else has.
  have hdone : ∀ {d}, (if i = d then some Status.failed else r.statusAt? d) = some .succeeded ↔
      s.statusAt? d = some .succeeded := by
    intro d
    split
    · next heq => simp [← heq, hnot]
    · exact hkept (by decide) (by decide)
  refine ⟨?_, ?_⟩
  · intro k step' hk hpending hdone'
    rw [hstatus] at hpending hdone'
    dsimp only at hpending hdone'
    have hne : i ≠ k := by
      rintro rfl
      simp at hpending
    rw [if_neg hne] at hpending
    have hmem := hoffers hk ((hspread.keeps k).pending hpending) fun d hd => hdone.1 (hdone' d hd)
    rw [hfinish]
    exact hspread.ready ((List.mem_cons.1 hmem).resolve_left hne.symm) hpending
  · rw [hstatus]
    exact hspread.consistent hs hordered hconsistent hstep hbefore hdeps

/-- A schedule stays closed when a step ends that was under way, or had just been taken. -/
theorem Closed.finish (hready : i ∉ s.ready)
    (hterminal : outcome.status = .succeeded ∨ outcome.status = .failed) :
    Closed plan (s.finish outcome) := by
  rcases hterminal with hsucceeded | hfailed
  · exact .finish_succeeded hs hordered hoffers hconsistent hstep hlabel hbefore hdeps hready
      hsucceeded
  · exact .finish_failed hs hordered hoffers hconsistent hstep hlabel hbefore hdeps hfailed

end finish

end Schedule

end Converge
