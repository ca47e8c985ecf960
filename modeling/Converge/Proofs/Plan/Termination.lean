import Mathlib.Logic.Function.Iterate
import Converge.Proofs.Plan.Synthesis
import Converge.State.Document

/-!
# Whether deciding ends

Deletions spread over the records in finitely many passes, as every pass but the last forces one
more. Rounds of decisions come to an end for the same reason, as long as what is forced is replaced.
A node without a record cannot be, though a record under another name may bear its id and ask for
it: then the rounds repeat for ever.

Main statements: `Cascade.spread_ends`, `Synthesis.no_plan_of_stray` and `Synthesis.ends_or_strays`.
-/

namespace Converge

open Graph (Ordered)

theorem Table.names_congr {α β : Type} {t : Table α} {t' : Table β}
    (h : ∀ id, t.contains id = t'.contains id) : t.names = t'.names := by
  have hmaps : t.map (fun _ => ()) = t'.map (fun _ => ()) := Table.ext_get? fun id => by
    have hid := h id
    simp only [contains] at hid
    rw [get?_map, get?_map]
    cases ht : t.get? id <;> cases ht' : t'.get? id <;> simp [ht, ht'] at hid ⊢
  have hnames := congrArg names hmaps
  simpa [names, map, Function.comp_def] using hnames

/-! ## Passes over the records -/

namespace Cascade

variable {g : Graph} {s : State} {doomed doomed' : Doomed} {c : Cascade}

/-- A visit changes nothing, or forces what was not forced before. -/
theorem visit_eq_or_new (g : Graph) (doomed : Doomed) (c : Cascade) (r : Record) :
    visit g doomed c r = c ∨ c.forced.contains r.id = false ∧
      ∃ reason, (visit g doomed c r).forced = c.forced.insert r.id reason := by
  simp only [visit]
  split
  · exact .inl rfl
  · next hskip =>
    cases r.dependencies.find? c.removed.contains with
    | none => exact .inl rfl
    | some dependency =>
      simp only [Bool.or_eq_true, not_or, Bool.not_eq_true] at hskip
      exact .inr ⟨hskip.2, _, rfl⟩

theorem foldl_visit_eq_or_grows (g : Graph) (doomed : Doomed) (c : Cascade) (rs : List Record) :
    rs.foldl (visit g doomed) c = c ∨
      c.forced.size < (rs.foldl (visit g doomed) c).forced.size := by
  induction rs generalizing c with
  | nil => exact .inl rfl
  | cons r rs ih =>
    rw [List.foldl_cons]
    rcases visit_eq_or_new g doomed c r with heq | ⟨hnew, reason, hforced⟩
    · rw [heq]
      exact ih c
    · have hgrows : c.forced.size < (visit g doomed c r).forced.size := by
        rw [hforced]
        exact Table.size_lt_insert hnew reason
      rcases ih (visit g doomed c r) with heq | hlt
      · rw [heq]
        exact .inr hgrows
      · exact .inr (Nat.lt_trans hgrows hlt)

/-- A pass that forces nothing more changes nothing. -/
theorem pass_eq_of_size (h : (c.pass g s doomed).forced.size = c.forced.size) :
    c.pass g s doomed = c :=
  (foldl_visit_eq_or_grows g doomed c s.inCreationOrder).resolve_right fun hlt =>
    absurd h (Nat.ne_of_gt hlt)

/-- Whether everything that is forced is what some record bears as its id. -/
def Borne (s : State) (c : Cascade) : Prop :=
  ∀ id, c.forced.contains id = true → ∃ r ∈ s.inCreationOrder, r.id = id

theorem Borne.of_visit (h : Borne s c) {r : Record} (hr : r ∈ s.inCreationOrder) :
    Borne s (visit g doomed c r) := by
  intro id hid
  rcases visit_eq_or_new g doomed c r with heq | ⟨-, reason, hforced⟩
  · exact h id (heq ▸ hid)
  · rw [hforced, Table.contains, Table.get?_insert] at hid
    split at hid
    · next heq => exact ⟨r, hr, heq.symm⟩
    · exact h id hid

theorem Borne.of_pass (h : Borne s c) : Borne s (c.pass g s doomed) :=
  List.foldlRecOn s.inCreationOrder (visit g doomed) h fun _ hc _ hr => hc.of_visit hr

theorem Borne.size_le (h : Borne s c) : c.forced.size ≤ s.resources.size := by
  have hnames : c.forced.names ⊆ s.inCreationOrder.map (·.id) := by
    intro id hid
    obtain ⟨r, hr, rfl⟩ := h id (Table.contains_iff.2 (Table.mem_names.1 hid))
    exact List.mem_map_of_mem hr
  have hlength : s.inCreationOrder.length = s.resources.size :=
    (perm_sortBy _ _).length_eq.trans (List.length_map ..)
  simpa [hlength] using Table.size_le_length hnames

/-- Passes come to one that changes nothing, each before having forced something. -/
theorem Borne.exists_fixed (h : Borne s c) : ∃ n, n + c.forced.size ≤ s.resources.size ∧
    ((pass g s doomed)^[n] c).pass g s doomed = (pass g s doomed)^[n] c := by
  induction hroom : s.resources.size - c.forced.size using Nat.strongRecOn generalizing c with
  | ind room ih =>
    by_cases hsize : (c.pass g s doomed).forced.size = c.forced.size
    · exact ⟨0, by simpa using h.size_le, pass_eq_of_size hsize⟩
    · have hgrows : c.forced.size < (c.pass g s doomed).forced.size :=
        (foldl_visit_eq_or_grows g doomed c s.inCreationOrder).resolve_left fun heq =>
          hsize (congrArg (·.forced.size) heq)
      have hborne : Borne s (c.pass g s doomed) := h.of_pass
      have hle := hborne.size_le
      obtain ⟨n, hn, hfixed⟩ := ih _ (by omega) hborne rfl
      exact ⟨n + 1, by omega, hfixed⟩

/-- More passes than those up to the last change make no difference. -/
theorem spread_eq_of_fixed {n : Nat}
    (h : ((pass g s doomed)^[n] c).pass g s doomed = (pass g s doomed)^[n] c) {fuel : Nat}
    (hfuel : n < fuel) : spread g s doomed fuel c = (pass g s doomed)^[n] c := by
  induction n generalizing c fuel with
  | zero =>
    cases fuel with
    | zero => cases hfuel
    | succ fuel =>
      rw [spread]
      exact (if_pos (congrArg (·.forced.size) h)).trans h
  | succ n ih =>
    cases fuel with
    | zero => cases hfuel
    | succ fuel =>
      rw [spread]
      by_cases hsize : (c.pass g s doomed).forced.size = c.forced.size
      · have hfixed : c.pass g s doomed = c := pass_eq_of_size hsize
        rw [Function.iterate_fixed hfixed]
        exact (if_pos hsize).trans hfixed
      · exact (if_neg hsize).trans (ih h (Nat.lt_of_succ_lt_succ hfuel))

/-- The spread of deletions ends after at most as many passes as there are records, and one that
changes nothing: with more fuel than that it is the same. -/
theorem spread_ends (g : Graph) (s : State) (doomed : Doomed) : ∃ n ≤ s.resources.size,
    ((pass g s doomed)^[n] (start s doomed)).pass g s doomed =
      (pass g s doomed)^[n] (start s doomed) ∧
    ∀ fuel, n < fuel →
      spread g s doomed fuel (start s doomed) = (pass g s doomed)^[n] (start s doomed) := by
  have hstart : Borne s (start s doomed) := fun _ hid => by cases hid
  obtain ⟨n, hn, hfixed⟩ := hstart.exists_fixed
  exact ⟨n, Nat.le_of_add_right_le hn, hfixed, fun fuel hfuel => spread_eq_of_fixed hfixed hfuel⟩

/-! ## What is forced goes by what is doomed -/

theorem forcedBy_congr (h : ∀ id, doomed.contains id = doomed'.contains id) :
    forcedBy g s doomed = forcedBy g s doomed' := by
  have hstart : start s doomed = start s doomed' := by
    rw [start, start, Table.names_congr h]
  have hvisit : visit g doomed = visit g doomed' := by
    funext c r
    rw [visit, visit, h]
  have hspread : ∀ fuel c, spread g s doomed fuel c = spread g s doomed' fuel c := by
    intro fuel
    induction fuel with
    | zero => exact fun _ => rfl
    | succ fuel ih =>
      intro c
      rw [spread, spread, pass, pass, hvisit, ih]
  rw [forcedBy, forcedBy, hstart, hspread]

end Cascade

/-! ## What is decided goes by what is forced -/

namespace NodePlan

/-- A plan without the reason for it. -/
def bare (p : NodePlan) : NodePlan := { p with reason := "" }

theorem bare_force (p : NodePlan) {reason reason' : Option String}
    (h : reason.isSome = reason'.isSome) : (p.force reason).bare = (p.force reason').bare := by
  cases reason <;> cases reason'
  · rfl
  · cases h
  · cases h
  · cases hdecision : p.decision <;> simp [force, bare, hdecision]

theorem verdict_bare (p : NodePlan) : p.bare.verdict = p.verdict := rfl

/-- Which nodes are forced matters for decisions, but not for what reasons. -/
theorem decideAll_congr {records : Table Record} {forced forced' : Table String}
    (h : ∀ id, forced.contains id = forced'.contains id) {order : List Node} {verdicts : Verdicts}
    {plans : List NodePlan} (hplans : decideAll records forced verdicts order = .ok plans) :
    ∃ plans', decideAll records forced' verdicts order = .ok plans' ∧
      plans'.map bare = plans.map bare := by
  induction order generalizing verdicts plans with
  | nil =>
    obtain rfl := Except.ok.inj hplans
    exact ⟨[], rfl, rfl⟩
  | cons node order ih =>
    simp only [decideAll, bind_eq_ok_iff, pure_eq_ok_iff] at hplans
    obtain ⟨own, hown, others, hothers, rfl⟩ := hplans
    have hbare : (own.force (forced'.get? node.id)).bare = (own.force (forced.get? node.id)).bare :=
      own.bare_force (h node.id).symm
    have hverdict := congrArg verdict hbare
    rw [verdict_bare, verdict_bare] at hverdict
    rw [← hverdict] at hothers
    obtain ⟨others', hothers', hsame⟩ := ih hothers
    refine ⟨own.force (forced'.get? node.id) :: others', ?_, by simp [hbare, hsame]⟩
    simp only [decideAll, bind_eq_ok_iff, pure_eq_ok_iff]
    exact ⟨own, hown, others', hothers', rfl⟩

end NodePlan

namespace Synthesis

variable {g : Graph} {order : List Node} {prior : Option State} {forced forced' : Table String}

/-- Rounds that force the same nodes ask for the same further ones. -/
theorem round_congr (h : ∀ id, forced.contains id = forced'.contains id)
    {settlement : Settlement} {further : Table String}
    (hround : round g order prior forced = .ok (settlement, further)) :
    ∃ settlement', round g order prior forced' = .ok (settlement', further) := by
  obtain ⟨plans, hplans, rfl, rfl⟩ := round_eq_ok_iff.1 hround
  obtain ⟨plans', hplans', hsame⟩ := NodePlan.decideAll_congr h hplans
  have hreplaced : ∀ id, (∃ p ∈ plans', p.decision = .replace ∧ p.node.id = id) ↔
      ∃ p ∈ plans, p.decision = .replace ∧ p.node.id = id := by
    intro id
    have hbare : ∀ ps : List NodePlan, (∃ p ∈ ps, p.decision = .replace ∧ p.node.id = id) ↔
        ∃ p ∈ ps.map NodePlan.bare, p.decision = .replace ∧ p.node.id = id := by
      intro ps
      simp [NodePlan.bare]
    rw [hbare, hsame, ← hbare]
  have hdoomed : ∀ id, (Doomed.ofPlans g (recordsOf prior) plans').contains id =
      (Doomed.ofPlans g (recordsOf prior) plans).contains id := by
    intro id
    rw [Bool.eq_iff_iff, Doomed.contains_ofPlans, Doomed.contains_ofPlans, hreplaced]
  refine ⟨_, round_eq_ok_iff.2 ⟨plans', hplans', rfl, ?_⟩⟩
  cases prior with
  | none => rfl
  | some s => exact Cascade.forcedBy_congr fun id => (hdoomed id).symm

/-- Rounds that ask only for what is forced already ask for it again and again. -/
theorem never_settles {settlement : Settlement} {further : Table String}
    (hround : round g order prior forced = .ok (settlement, further))
    (hasks : further.isEmpty ≠ true)
    (hagain : ∀ id, further.contains id = true → forced.contains id = true) (fuel : Nat) :
    settle g order prior fuel forced = .ok none := by
  suffices hrepeats : ∀ forced', (∀ id, forced.contains id = forced'.contains id) →
      settle g order prior fuel forced' = .ok none from hrepeats forced fun _ => rfl
  induction fuel with
  | zero => exact fun _ _ => rfl
  | succ fuel ih =>
    intro forced' hsame
    obtain ⟨settlement', hround'⟩ := round_congr hsame hround
    rw [settle, hround']
    refine (if_neg hasks).trans (ih _ fun id => ?_)
    have hfurther := hagain id
    simp only [Table.contains] at hsame hfurther ⊢
    rw [Table.get?_merge, Option.isSome_or, ← hsame]
    cases hid : (further.get? id).isSome <;> simp_all

/-- A managed node that is asked for in vain: it has no record that could be replaced, but a record
under another name bears its id and was recorded as depending on something. -/
structure Stray (g : Graph) (s : State) (id : String) : Prop where
  managed : Cascade.Manages g id
  unrecorded : s.get? id = none
  borne : ∃ name r, s.get? name = some r ∧ r.id = id ∧ r.dependencies ≠ []

/-- Records under their own ids leave no node to be asked for in vain. -/
theorem not_stray {s : State} (hs : s.KeysMatch) (id : String) : ¬ Stray g s id := by
  rintro ⟨-, hnone, name, r, hr, rfl, -⟩
  obtain rfl : r.id = name := hs hr
  cases hr.symm.trans hnone

/-- Whether only managed nodes are forced. -/
def ForcesManaged (order : List Node) (forced : Table String) : Prop :=
  ∀ id, forced.contains id = true → ∃ node ∈ order, node.id = id ∧ node.lifecycle = .managed

theorem ForcesManaged.size_le (h : ForcesManaged order forced) : forced.size ≤ order.length := by
  have hnames : forced.names ⊆ order.map (·.id) := by
    intro id hid
    obtain ⟨node, hnode, rfl, -⟩ := h id (Table.contains_iff.2 (Table.mem_names.1 hid))
    exact List.mem_map_of_mem hnode
  simpa using Table.size_le_length hnames

theorem ForcesManaged.of_round (hg : g.Coherent) (hperm : order.Perm g.nodes)
    {settlement : Settlement} {further : Table String}
    (hround : round g order prior forced = .ok (settlement, further)) :
    ForcesManaged order further := by
  obtain ⟨plans, -, rfl, rfl⟩ := round_eq_ok_iff.1 hround
  intro id hid
  cases prior with
  | none => cases hid
  | some s =>
    obtain ⟨⟨node, hnode, rfl, hmanaged⟩, -⟩ := Cascade.of_contains_forcedBy hg hid
    exact ⟨node, hperm.mem_iff.2 hnode, rfl, hmanaged⟩

/-- What is forced is replaced if it has a record, so that only nodes without one are asked for
again. -/
theorem stray_of_round (hg : g.Coherent) (ho : Ordered order)
    (hforced : ForcesManaged order forced) {settlement : Settlement} {further : Table String}
    (hround : round g order prior forced = .ok (settlement, further)) {id : String}
    (hasked : further.contains id = true) (hagain : forced.contains id = true) :
    ∃ s, prior = some s ∧ Stray g s id := by
  obtain ⟨plans, hplans, rfl, rfl⟩ := round_eq_ok_iff.1 hround
  cases prior with
  | none => cases hasked
  | some s =>
    obtain ⟨hmanages, hstays, r, hr, hid, hdependencies⟩ := Cascade.of_contains_forcedBy hg hasked
    obtain ⟨name, hname⟩ := Table.mem_values.1 (mem_sortBy.1 hr)
    refine ⟨s, rfl, hmanages, ?_, name, r, hname, hid, hdependencies⟩
    obtain ⟨node, hnode, rfl, hmanaged⟩ := hforced id hagain
    obtain ⟨p, hp, rfl⟩ : ∃ p ∈ plans, p.node = node := by
      rwa [← NodePlan.decideAll_nodes hplans, List.mem_map] at hnode
    -- With a record of its own the node would be replaced, and so doomed.
    by_contra hrecorded
    obtain ⟨held, hheld⟩ := Option.ne_none_iff_exists'.1 hrecorded
    rcases (NodePlan.decideAll_spec ho hplans p hp).2.replace_or_stays hmanaged hheld with
      hreplace | ⟨-, hunforced, -⟩
    · rw [Doomed.contains_ofPlans.2 (.inr ⟨p, hp, hreplace, rfl⟩)] at hstays
      cases hstays
    · cases hagain.symm.trans hunforced

/-- Rounds come to an end, or at last ask only for nodes that cannot be replaced, and go on for
ever: every other round forces one more node. -/
theorem settle_ends_or_strays (prior : Option State) (hg : g.Coherent)
    (hperm : order.Perm g.nodes) (ho : Ordered order)
    (hforced : ForcesManaged order forced) {fuel : Nat}
    (hfuel : order.length < forced.size + fuel) :
    (∃ result : Except PlanError Settlement,
        settle g order prior fuel forced = result.map some) ∨
      (∀ more, settle g order prior more forced = .ok none) ∧
        ∃ s id, prior = some s ∧ Stray g s id := by
  induction fuel generalizing forced with
  | zero =>
    have := hforced.size_le
    omega
  | succ fuel ih =>
    cases hround : round g order prior forced with
    | error cause => exact .inl ⟨.error cause, by rw [settle, hround]; rfl⟩
    | ok found =>
      obtain ⟨settlement, further⟩ := found
      by_cases hempty : further.isEmpty = true
      · exact .inl ⟨.ok settlement, by rw [settle, hround]; exact if_pos hempty⟩
      obtain ⟨asked, hasked⟩ : ∃ id, further.contains id = true := by
        by_contra hnone
        refine hempty (Table.isEmpty_iff.2 fun id => ?_)
        exact Table.contains_eq_false_iff.1 (Bool.eq_false_iff.2 fun hid => hnone ⟨id, hid⟩)
      by_cases hagain : ∀ id, further.contains id = true → forced.contains id = true
      · obtain ⟨s, hs, hstray⟩ :=
          stray_of_round hg ho hforced hround hasked (hagain asked hasked)
        exact .inr ⟨never_settles hround hempty hagain, s, asked, hs, hstray⟩
      · -- The round forces a node that was not forced before.
        simp only [not_forall] at hagain
        obtain ⟨new, hnew, hunforced⟩ := hagain
        have hcontains : ∀ id, (forced.merge further).contains id = true ↔
            further.contains id = true ∨ forced.contains id = true := by
          intro id
          simp [Table.contains, Option.isSome_or]
        have hmerged : ForcesManaged order (forced.merge further) := fun id hid =>
          ((hcontains id).1 hid).elim (ForcesManaged.of_round hg hperm hround id) (hforced id)
        have hnames : ∀ {t : Table String} {id}, id ∈ t.names ↔ t.contains id = true :=
          Table.mem_names.trans Table.contains_iff.symm
        have hgrows : forced.size < (forced.merge further).size := by
          refine Table.size_lt (fun other hother => ?_) ?_ fun hbefore => hunforced (hnames.1 hbefore)
          · exact hnames.2 ((hcontains other).2 (.inr (hnames.1 hother)))
          · exact hnames.2 ((hcontains new).2 (.inl hnew))
        have hnext : ∀ rounds, settle g order prior (rounds + 1) forced =
            settle g order prior rounds (forced.merge further) := by
          intro rounds
          rw [settle, hround]
          exact if_neg hempty
        rcases ih hmerged (by omega) with ⟨result, hresult⟩ | ⟨hnever, hstray⟩
        · exact .inl ⟨result, (hnext fuel).trans hresult⟩
        · refine .inr ⟨fun more => ?_, hstray⟩
          cases more with
          | zero => rfl
          | succ more => exact (hnext more).trans (hnever more)

/-- Deciding ends within as many rounds as there are nodes, and one, or it never does, and then a
managed node is asked for in vain. -/
theorem outcome_ends_or_strays (hg : g.Linked) (prior : Option State) :
    ∃ order, g.sortedNodes = .ok order ∧
      ((∃ result : Except PlanError Settlement, outcome g order prior = some result ∧
          settle g order prior (roundLimit order) .empty = result.map some) ∨
        outcome g order prior = none ∧ ∃ s id, prior = some s ∧ Stray g s id) := by
  obtain ⟨order, hsorted, hperm, ho⟩ := hg.sortedNodes
  refine ⟨order, hsorted, ?_⟩
  have hnothing : ForcesManaged order .empty := fun id hid => by cases hid
  have hlimit : order.length < (Table.empty : Table String).size + roundLimit order :=
    Nat.lt_of_lt_of_le (Nat.lt_succ_self order.length) (Nat.le_add_left ..)
  rcases settle_ends_or_strays prior hg.coherent hperm ho hnothing hlimit with
    ⟨result, hresult⟩ | ⟨hnever, hstray⟩
  · exact .inl ⟨result, outcome_eq_some_iff.2 ⟨_, hresult⟩, hresult⟩
  · exact .inr ⟨outcome_eq_none_iff.2 hnever, hstray⟩

/-- Deciding ends if every record stands under its own id. -/
theorem outcome_ends (hg : g.Linked) (hprior : ∀ s, prior = some s → s.KeysMatch)
    (hsorted : g.sortedNodes = .ok order) :
    ∃ result : Except PlanError Settlement, outcome g order prior = some result ∧
      settle g order prior (roundLimit order) .empty = result.map some := by
  obtain ⟨order', hsorted', hends | ⟨-, s, id, rfl, hstray⟩⟩ := outcome_ends_or_strays hg prior
  · obtain rfl := Except.ok.inj (hsorted.symm.trans hsorted')
    exact hends
  · exact absurd hstray (not_stray (hprior s rfl) id)

/-- There is no plan if a managed node without a record is asked for by a record of its id under
another name, which depends on something that is deleted since it is no longer declared. -/
theorem no_plan_of_stray (hg : g.Coherent) (ho : Ordered order) {s : State}
    {name dependency : String} {r rd : Record}
    (hr : s.get? name = some r) (hmanaged : Cascade.Manages g r.id) (hnone : s.get? r.id = none)
    (hdependency : dependency ∈ r.dependencies) (hrd : s.get? dependency = some rd)
    (hdestroy : rd.removalPolicy = .destroy) (hundeclared : g.contains dependency = false)
    (settlement : Settlement) : outcome g order (some s) ≠ some (.ok settlement) := by
  intro h
  obtain ⟨fuel, hsettled⟩ := outcome_eq_ok_iff.1 h
  obtain ⟨forced, further, -, hlast, hempty⟩ :=
    settle_spec (P := fun _ => True) (fun _ _ => trivial) trivial hsettled
  obtain ⟨plans, hplans, rfl, rfl⟩ := round_eq_ok_iff.1 hlast
  have hstays : (Doomed.ofPlans g s.resources plans).contains r.id = false := by
    refine Bool.eq_false_iff.2 fun hdoomed => ?_
    rcases Doomed.contains_ofPlans.1 hdoomed with ⟨-, own, hown⟩ | ⟨p, hp, hreplace, hid⟩
    · cases hnone.symm.trans hown
    · obtain ⟨-, own, hown⟩ := (NodePlan.decideAll_spec ho hplans p hp).2.recorded hreplace
      cases hnone.symm.trans (hid ▸ hown)
  have hremoved : dependency ∈ (Cascade.start s (Doomed.ofPlans g s.resources plans)).removed :=
    Cascade.mem_start.2 ⟨Doomed.contains_ofPlans.2 (.inl ⟨hundeclared, rd, hrd⟩), rd, hrd, hdestroy⟩
  have hmem : r ∈ s.inCreationOrder := mem_sortBy.2 (Table.mem_values.2 ⟨name, hr⟩)
  have hforced := Cascade.contains_forcedBy hg hmem hmanaged hstays hdependency hremoved
  cases hforced.symm.trans (Table.contains_eq_false_iff.2 (Table.isEmpty_iff.1 hempty r.id))

end Synthesis

/-- Both loops behind a plan, whatever a state holds: deletions spread in as many passes as there
are records at most, and one that changes nothing; and decisions are reached or fail within as many
rounds as there are nodes, and one, or else are never reached, and then a managed node without a
record of its own is asked for by a record under another name. -/
theorem Synthesis.ends_or_strays {declarations : List Declaration} {g : Graph}
    (hg : Graph.ofDeclarations declarations = .ok g) :
    (∀ (s : State) (doomed : Doomed), ∃ n ≤ s.resources.size,
        ((Cascade.pass g s doomed)^[n] (Cascade.start s doomed)).pass g s doomed =
          (Cascade.pass g s doomed)^[n] (Cascade.start s doomed) ∧
        ∀ fuel, n < fuel → Cascade.spread g s doomed fuel (Cascade.start s doomed) =
          (Cascade.pass g s doomed)^[n] (Cascade.start s doomed)) ∧
      ∀ prior : Option State, ∃ order, g.sortedNodes = .ok order ∧
        ((∃ result : Except PlanError Settlement, outcome g order prior = some result ∧
            settle g order prior (roundLimit order) .empty = result.map some) ∨
          outcome g order prior = none ∧ ∃ s id, prior = some s ∧ Stray g s id) :=
  ⟨Cascade.spread_ends g, outcome_ends_or_strays (Graph.Linked.ofDeclarations hg)⟩

namespace Synthesis

/-- A log sink. -/
def logsDeclarations : List Declaration := [{ id := "logs", kind := .logSink }]

/-- Where nothing is recorded the log sink is decided on. -/
theorem ends_or_strays_unrecorded :
    ∃ g order, Graph.ofDeclarations logsDeclarations = .ok g ∧ g.sortedNodes = .ok order ∧
      ∃ result, outcome g order none = some result := by
  have hbuilt : (Graph.ofDeclarations logsDeclarations).toOption.isSome = true := by
    decide +kernel
  obtain ⟨g, hg⟩ := Option.isSome_iff_exists.1 hbuilt
  rw [toOption_eq_some_iff] at hg
  obtain ⟨order, hsorted, ⟨result, hresult, -⟩ | ⟨-, s, id, hs, -⟩⟩ := (ends_or_strays hg).2 none
  · exact ⟨g, order, hg, hsorted, result, hresult⟩
  · cases hs

/-- A state that keeps the record of the log sink under another name, as depending on itself under
that name. -/
def strayDocument : String :=
  "\x7b\"version\":\"1.0\",\"project\":\"shop\",\"environment\":\"dev\",\"config_hash\":\"\"," ++
  "\"last_updated\":\"2024-01-02T03:04:05Z\",\"resources\":\x7b\"old\":\x7b\"id\":\"logs\"," ++
  "\"kind\":\"log_sink\",\"provider_id\":\"ls-1\",\"dependencies\":[\"old\"]," ++
  "\"created_at\":\"2024-01-02T03:04:05Z\",\"updated_at\":\"2024-01-02T03:04:05Z\"\x7d\x7d\x7d"

/-- The log sink is asked for in every round, and deciding never ends. -/
theorem strays_forever :
    ∃ s g order, State.decode strayDocument = .ok s ∧
      Graph.ofDeclarations logsDeclarations = .ok g ∧ g.sortedNodes = .ok order ∧
      outcome g order (some s) = none ∧
      ∀ rounds, settle g order (some s) rounds .empty = .ok none := by
  have hlimit : ((State.decode strayDocument).toOption.bind fun s =>
      (Graph.ofDeclarations logsDeclarations).toOption.bind fun g =>
        g.sortedNodes.toOption.bind fun order =>
          (settle g order (some s) (roundLimit order) .empty).toOption.map Option.isNone) =
        some true := by
    decide +kernel
  obtain ⟨s, hs, hlimit⟩ := Option.bind_eq_some_iff.1 hlimit
  obtain ⟨g, hg, hlimit⟩ := Option.bind_eq_some_iff.1 hlimit
  obtain ⟨order, hsorted, hlimit⟩ := Option.bind_eq_some_iff.1 hlimit
  obtain ⟨reached, hreached, hnone⟩ := Option.map_eq_some_iff.1 hlimit
  rw [toOption_eq_some_iff] at hs hg hsorted hreached
  rw [Option.isNone_iff_eq_none] at hnone
  subst hnone
  -- As many rounds as there are nodes, and one, would do if any number did.
  have hnever : outcome g order (some s) = none := by
    obtain ⟨order', hsorted', hends | ⟨hnever, -⟩⟩ :=
      outcome_ends_or_strays (Graph.Linked.ofDeclarations hg) (some s)
    all_goals obtain rfl := Except.ok.inj (hsorted.symm.trans hsorted')
    · obtain ⟨result, -, hresult⟩ := hends
      cases result <;> cases hreached.symm.trans hresult
    · exact hnever
  exact ⟨s, g, order, hs, hg, hsorted, hnever, outcome_eq_none_iff.1 hnever⟩

end Synthesis

end Converge
