import Converge.Proofs.Execution.Effects
import Converge.Proofs.Execution.Waiting
import Converge.Proofs.Reconcile.Session
import Converge.Provider.Memory

/-!
# The provider in memory

What the provider holds after the calls of an apply are the last changes that these have made, and
what it has held before. It numbers what it creates, so no id is given out twice until the numbers
begin again.

Main statements: `Memory.Serves.holding?_eq` and `Memory.Serves.numbered`.
-/

namespace Converge

/-! ## Changes of one resource -/

namespace Event

/-- What is known of a resource after an event, if the event is about it. -/
def changeOf? (id : String) (event : Event) : Option (Option Holding) :=
  event.change?.bind fun change => if change.1 = id then some change.2 else none

theorem changeOf?_eq_some_iff {id : String} {event : Event} {held : Option Holding} :
    event.changeOf? id = some held ↔ event.change? = some (id, held) := by
  rw [changeOf?, Option.bind_eq_some_iff]
  constructor
  · rintro ⟨⟨other, held'⟩, hchange, heq⟩
    split at heq
    · next hid =>
      obtain rfl : other = id := hid
      obtain rfl : held' = held := Option.some.inj heq
      exact hchange
    · cases heq
  · intro hchange
    exact ⟨_, hchange, if_pos rfl⟩

theorem getD_changeOf? {id other : String} {event : Event} {held : Option Holding}
    (h : event.change? = some (other, held)) (before : Option Holding) :
    (event.changeOf? id).getD before = if id = other then held else before := by
  rw [changeOf?, h, Option.bind_some]
  by_cases hid : other = id
  · rw [if_pos hid, if_pos hid.symm, Option.getD_some]
  · rw [if_neg hid, if_neg (Ne.symm hid), Option.getD_none]

end Event

/-- The changes of a resource in a trace. -/
def changesOf (id : String) (trace : List Event) : List (Option Holding) :=
  trace.filterMap (Event.changeOf? id)

namespace Memory

/-- The kind and the attributes of a resource, if it is live. -/
def holding? (m : Memory) (id : String) : Option Holding :=
  (m.resources.get? id).map fun live => (live.kind, live.attributes)

/-- The id of the resource that gets a number. -/
def idOf (kind : Kind) (number : Nat) : String := s!"{kind.name}-{number}"

theorem serialOf_idOf (kind : Kind) (number : Nat) :
    (serialOf (idOf kind number)).toList = Nat.toDigits 10 number := by
  have hlist : (idOf kind number).toList = kind.name.toList ++ '-' :: Nat.toDigits 10 number := by
    simp only [idOf, String.toList_append, Nat.toList_repr, toString, List.append_assoc]
    rfl
  have hdigits : ∀ c ∈ (Nat.toDigits 10 number).reverse, (c != '-') = true := by
    intro c hc
    have hdigit := Nat.isDigit_of_mem_toDigits (by decide) (by decide) (List.mem_reverse.1 hc)
    refine bne_iff_ne.2 ?_
    rintro rfl
    cases hdigit
  rw [serialOf, hlist, List.reverse_append, List.reverse_cons, List.append_assoc,
    List.takeWhile_append_of_pos hdigits]
  simp

/-- Ids tell numbers apart, whatever the kinds. -/
theorem idOf_inj {kind kind' : Kind} {number number' : Nat}
    (h : idOf kind number = idOf kind' number') : number = number' := by
  have hdigits : Nat.toDigits 10 number = Nat.toDigits 10 number' := by
    rw [← serialOf_idOf kind, ← serialOf_idOf kind', h]
  rw [← Nat.ofDigitChars_ten_toDigits (n := number), hdigits, Nat.ofDigitChars_ten_toDigits]

/-! ## Calls -/

theorem checkFault_snd (m : Memory) (name : Option String) :
    (m.checkFault name).2.resources = m.resources ∧ (m.checkFault name).2.counter = m.counter := by
  rw [checkFault]
  split <;> exact ⟨rfl, rfl⟩

theorem checkFault_error {m : Memory} {name : Option String} {cause : ProviderError}
    (h : (m.checkFault name).1 = .error cause) : cause.isNotFound = false := by
  rw [checkFault] at h
  split at h
  · obtain rfl := Except.error.inj h
    rfl
  · obtain rfl := Except.error.inj h
    rfl
  · cases h

/-- A provider that has the live resources and the numbering of another. -/
def Same (m m' : Memory) : Prop := m'.resources = m.resources ∧ m'.counter = m.counter

theorem Same.holding? {m m' : Memory} (h : m.Same m') (id : String) :
    m'.holding? id = m.holding? id := by
  rw [Memory.holding?, h.1, Memory.holding?]

theorem create_cases {m m' : Memory} {kind : Kind} {attributes : Attributes}
    {result : Except ProviderError CreatedResource} (h : m.create kind attributes = (result, m')) :
    (∃ cause, result = .error cause ∧ m.Same m') ∨
      ∃ created : CreatedResource, result = .ok created ∧
        m'.counter = (m.counter + 1) % counterBound ∧
        created.providerId = idOf kind m'.counter ∧
        ∃ name, m'.resources = m.resources.insert created.providerId ⟨kind, name, attributes⟩ := by
  have hkeeps := m.checkFault_snd (nameOf attributes)
  rw [create] at h
  split at h
  · next cause m₁ hfault =>
    rw [hfault] at hkeeps
    obtain ⟨rfl, rfl⟩ := Prod.mk.inj h
    exact .inl ⟨cause, rfl, hkeeps⟩
  · next m₁ hfault =>
    rw [hfault] at hkeeps
    obtain ⟨rfl, rfl⟩ := Prod.mk.inj h
    obtain ⟨hresources, hcounter⟩ := hkeeps
    refine .inr ⟨_, rfl, congrArg (fun n => (n + 1) % counterBound) hcounter, rfl,
      nameOf attributes, ?_⟩
    exact congrArg (fun t : Table LiveResource => t.insert _ _) hresources

theorem update_cases {m m' : Memory} {kind : Kind} {id : String} {attributes : Attributes}
    {result : Except ProviderError Outputs} (h : m.update kind id attributes = (result, m')) :
    (∃ cause, result = .error cause ∧ m.Same m') ∨
      ∃ outputs, result = .ok outputs ∧ m'.counter = m.counter ∧
        (∃ held, m.resources.get? id = some held) ∧
        ∃ name, m'.resources = m.resources.insert id ⟨kind, name, attributes⟩ := by
  simp only [update] at h
  split at h
  · obtain ⟨rfl, rfl⟩ := Prod.mk.inj h
    exact .inl ⟨_, rfl, rfl, rfl⟩
  · next held hheld =>
    have hkeeps := m.checkFault_snd ((nameOf attributes).or held.name)
    split at h
    · next cause m₁ hfault =>
      rw [hfault] at hkeeps
      obtain ⟨rfl, rfl⟩ := Prod.mk.inj h
      exact .inl ⟨cause, rfl, hkeeps⟩
    · next m₁ hfault =>
      rw [hfault] at hkeeps
      obtain ⟨rfl, rfl⟩ := Prod.mk.inj h
      refine .inr ⟨_, rfl, hkeeps.2, ⟨held, hheld⟩, (nameOf attributes).or held.name, ?_⟩
      exact congrArg (fun t : Table LiveResource => t.insert _ _) hkeeps.1

theorem delete_cases {m m' : Memory} {kind : Kind} {id : String}
    {result : Except ProviderError Unit} (h : m.delete kind id = (result, m')) :
    (∃ cause, result = .error cause ∧ m.Same m' ∧
      (cause.isNotFound = true → m.resources.get? id = none)) ∨
    result = .ok () ∧ m'.counter = m.counter ∧ m'.resources = m.resources.erase id := by
  simp only [delete] at h
  split at h
  · next hnone =>
    obtain ⟨rfl, rfl⟩ := Prod.mk.inj h
    exact .inl ⟨_, rfl, ⟨rfl, rfl⟩, fun _ => hnone⟩
  · next held hheld =>
    have hkeeps := m.checkFault_snd held.name
    split at h
    · next cause m₁ hfault =>
      have hcause : cause.isNotFound = false :=
        checkFault_error (m := m) (congrArg Prod.fst hfault)
      rw [hfault] at hkeeps
      obtain ⟨rfl, rfl⟩ := Prod.mk.inj h
      exact .inl ⟨cause, rfl, hkeeps, fun hgone => nomatch hcause.symm.trans hgone⟩
    · next m₁ hfault =>
      rw [hfault] at hkeeps
      obtain ⟨rfl, rfl⟩ := Prod.mk.inj h
      refine .inr ⟨rfl, hkeeps.2, ?_⟩
      exact congrArg (fun t : Table LiveResource => t.erase _) hkeeps.1

/-! ## Numbering -/

/-- Whether a provider that has been empty at first has given out just these ids, numbered from one,
and holds nothing else. -/
structure Numbered (m : Memory) (issued : List String) : Prop where
  counter : m.counter = issued.length
  ids : ∀ {i : Nat} {id : String}, issued[i]? = some id → ∃ kind, id = idOf kind (i + 1)
  live : ∀ {id : String} {live : LiveResource}, m.resources.get? id = some live → id ∈ issued

theorem Numbered.empty : Numbered .empty [] := ⟨rfl, nofun, nofun⟩

theorem Numbered.nodup {m : Memory} {issued : List String} (h : m.Numbered issued) :
    issued.Nodup := by
  rw [List.nodup_iff_getElem?_ne_getElem?]
  intro i j hij hj heq
  obtain ⟨kind, hkind⟩ := h.ids (heq.symm ▸ List.getElem?_eq_getElem hj : issued[i]? = _)
  obtain ⟨kind', hkind'⟩ := h.ids (List.getElem?_eq_getElem hj)
  have := idOf_inj (hkind.symm.trans hkind')
  omega

theorem Numbered.same {m m' : Memory} {issued : List String} (h : m.Numbered issued)
    (hsame : m.Same m') : m'.Numbered issued :=
  ⟨hsame.2.trans h.counter, h.ids, fun hlive => h.live (hsame.1 ▸ hlive)⟩

/-! ## Answers -/

section Answers

variable {m next : Memory}

theorem answer_create {kind : Kind} {attributes : Attributes} {reply : Reply CreatedResource}
    (h : (answer (.create kind attributes)).run m = (reply, next)) :
    ∃ result, m.create kind attributes = (result, next) ∧ reply = .ofExcept result := by
  obtain ⟨rfl, rfl⟩ := Prod.mk.inj h
  exact ⟨_, rfl, rfl⟩

theorem answer_update {kind : Kind} {id : String} {attributes : Attributes} {reply : Reply Outputs}
    (h : (answer (.update kind id attributes)).run m = (reply, next)) :
    ∃ result, m.update kind id attributes = (result, next) ∧ reply = .ofExcept result := by
  obtain ⟨rfl, rfl⟩ := Prod.mk.inj h
  exact ⟨_, rfl, rfl⟩

theorem answer_delete {kind : Kind} {id : String} {reply : Reply Unit}
    (h : (answer (.delete kind id)).run m = (reply, next)) :
    ∃ result, m.delete kind id = (result, next) ∧ reply = .ofExcept result := by
  obtain ⟨rfl, rfl⟩ := Prod.mk.inj h
  exact ⟨_, rfl, rfl⟩

theorem holding?_of_insert {id other : String} {kind : Kind} {name : Option String}
    {attributes : Attributes}
    (h : next.resources = m.resources.insert id ⟨kind, name, attributes⟩) :
    next.holding? other = if other = id then some (kind, attributes) else m.holding? other := by
  rw [holding?, h, Table.get?_insert, holding?]
  split <;> rfl

/-- What is held after an answer is what the answer tells, and what was held before. -/
theorem holding?_of_answer {request : Provider.Request} {reply : Provider.Answer request}
    (h : (answer request).run m = (reply, next)) (step : Step) (id : String) :
    next.holding? id =
      ((Event.answered step request reply).changeOf? id).getD (m.holding? id) := by
  cases request with
  | create kind attributes =>
    obtain ⟨result, hresult, rfl⟩ := answer_create h
    rcases create_cases hresult with ⟨cause, rfl, hsame⟩ | ⟨created, rfl, -, -, name, hinsert⟩
    · exact hsame.holding? id
    · rw [holding?_of_insert hinsert, Reply.ofExcept, Event.getD_changeOf? rfl]
  | update kind other attributes =>
    obtain ⟨result, hresult, rfl⟩ := answer_update h
    rcases update_cases hresult with ⟨cause, rfl, hsame⟩ | ⟨outputs, rfl, -, -, name, hinsert⟩
    · exact hsame.holding? id
    · rw [holding?_of_insert hinsert, Reply.ofExcept, Event.getD_changeOf? rfl]
  | delete kind other =>
    obtain ⟨result, hresult, rfl⟩ := answer_delete h
    rcases delete_cases hresult with ⟨cause, rfl, hsame, hgone⟩ | ⟨rfl, -, herase⟩
    · rw [hsame.holding? id, Reply.ofExcept]
      cases hnotFound : cause.isNotFound with
      | true =>
        -- What is said to be gone has not been live.
        rw [Event.getD_changeOf? (Event.change?_delete (.inr ⟨cause, rfl, hnotFound⟩))]
        split
        · next hid => rw [hid, holding?, hgone hnotFound, Option.map_none]
        · rfl
      | false => simp [Event.changeOf?, Event.change?, hnotFound]
    · rw [holding?, herase, Table.get?_erase, Reply.ofExcept, Event.getD_changeOf? rfl]
      split <;> rfl
  | pause milliseconds =>
    obtain ⟨-, rfl⟩ := Prod.mk.inj h
    rfl

theorem Numbered.answer {issued : List String} (hm : m.Numbered issued)
    {request : Provider.Request} {reply : Provider.Answer request}
    (h : (answer request).run m = (reply, next)) (step : Step)
    (hfew : (issued ++ (Event.answered step request reply).issued?.toList).length < counterBound) :
    next.Numbered (issued ++ (Event.answered step request reply).issued?.toList) := by
  -- What issues no id can be looked at without the list growing.
  have hnone : ∀ {event : Event}, event.issued? = none → next.Numbered issued →
      next.Numbered (issued ++ event.issued?.toList) := by
    intro event hevent hnumbered
    rwa [hevent, Option.toList_none, List.append_nil]
  cases request with
  | create kind attributes =>
    obtain ⟨result, hresult, rfl⟩ := answer_create h
    rcases create_cases hresult with
      ⟨cause, rfl, hsame⟩ | ⟨created, rfl, hcounter, hid, name, hinsert⟩
    · exact hnone rfl (hm.same hsame)
    · have hissued : issued ++ (Event.answered step (.create kind attributes)
          (.ok created)).issued?.toList = issued ++ [created.providerId] := rfl
      rw [Reply.ofExcept, hissued] at hfew ⊢
      rw [List.length_append, List.length_singleton] at hfew
      rw [hm.counter, Nat.mod_eq_of_lt hfew] at hcounter
      refine ⟨?_, fun {i id} hi => ?_, fun {id live} hlive => ?_⟩
      · rw [hcounter, List.length_append, List.length_singleton]
      · rcases Nat.lt_or_ge i issued.length with hlt | hge
        · exact hm.ids (List.getElem?_append_left hlt ▸ hi)
        · rw [List.getElem?_append_right hge, List.getElem?_singleton] at hi
          split at hi
          · next hlast =>
            obtain rfl := Option.some.inj hi
            have hnumber : i = issued.length := Nat.le_antisymm (Nat.sub_eq_zero_iff_le.1 hlast) hge
            exact ⟨kind, by rw [hid, hcounter, hnumber]⟩
          · cases hi
      · rw [hinsert, Table.get?_insert] at hlive
        split at hlive
        · next heq => simp [heq]
        · exact List.mem_append_left _ (hm.live hlive)
  | update kind id attributes =>
    obtain ⟨result, hresult, rfl⟩ := answer_update h
    rcases update_cases hresult with
      ⟨cause, rfl, hsame⟩ | ⟨outputs, rfl, hcounter, ⟨held, hheld⟩, name, hinsert⟩
    · exact hnone rfl (hm.same hsame)
    · refine hnone rfl ⟨hcounter.trans hm.counter, hm.ids, fun {other live} hlive => ?_⟩
      rw [hinsert, Table.get?_insert] at hlive
      split at hlive
      · next heq => exact heq ▸ hm.live hheld
      · exact hm.live hlive
  | delete kind id =>
    obtain ⟨result, hresult, rfl⟩ := answer_delete h
    rcases delete_cases hresult with ⟨cause, rfl, hsame, -⟩ | ⟨rfl, hcounter, herase⟩
    · exact hnone rfl (hm.same hsame)
    · refine hnone rfl ⟨hcounter.trans hm.counter, hm.ids, fun {other live} hlive => ?_⟩
      rw [herase, Table.get?_erase] at hlive
      split at hlive
      · cases hlive
      · exact hm.live hlive
  | pause milliseconds =>
    obtain ⟨-, rfl⟩ := Prod.mk.inj h
    exact hnone rfl hm

end Answers

/-! ## Service -/

/-- How the provider can serve the calls of a trace, with calls made to fail at any time. -/
inductive Serves : Memory → List Event → Memory → Prop
  | done (m : Memory) : Serves m [] m
  | inject {m m' : Memory} {trace : List Event} (name : String) (fault : Fault)
    (rest : Serves (m.inject name fault) trace m') : Serves m trace m'
  | answer {m next m' : Memory} {step : Step} {request : Provider.Request}
    {reply : Provider.Answer request} {trace : List Event}
    (answered : (Memory.answer request).run m = (reply, next)) (rest : Serves next trace m') :
    Serves m (.answered step request reply :: trace) m'
  | other {m m' : Memory} {event : Event} {trace : List Event} (unanswered : event.exchange? = none)
    (rest : Serves m trace m') : Serves m (event :: trace) m'

variable {m m' : Memory} {trace : List Event}

/-- A resource is in the end as the last change of it has left it, or as it was before. -/
theorem Serves.holding?_eq (h : m.Serves trace m') (id : String) :
    m'.holding? id = (changesOf id trace).getLast?.getD (m.holding? id) := by
  have hcons : ∀ {event : Event} {trace : List Event} (held : Option Holding),
      (changesOf id (event :: trace)).getLast?.getD held =
        (changesOf id trace).getLast?.getD ((event.changeOf? id).getD held) := by
    intro event trace held
    rw [changesOf, List.filterMap_cons]
    cases event.changeOf? id with
    | none => rfl
    | some change => rw [List.getLast?_cons]; rfl
  induction h with
  | done => rfl
  | inject name fault rest ih => exact ih
  | answer answered rest ih =>
    rw [hcons, ih, holding?_of_answer answered]
  | @other m m' event trace unanswered rest ih =>
    have hnone : event.changeOf? id = none := by
      cases event with
      | answered => cases unanswered
      | cancelled | settled | started | called | refused | collected => rfl
    rw [hcons, ih, hnone]
    rfl

open Program (Exchange Runs)

theorem serves_of_exchangesOf_nil (h : exchangesOf trace = []) : m.Serves trace m := by
  induction trace with
  | nil => exact .done m
  | cons event trace ih =>
    have hnone : event.exchange? = none :=
      List.filterMap_eq_nil_iff.1 h event (List.mem_cons_self ..)
    rw [exchangesOf, List.filterMap_cons_none hnone] at h
    exact .other hnone (ih h)

/-- A trace begins with the first exchange of it, apart from events that the provider does not
notice. -/
theorem serves_of_exchangesOf_cons {next : Memory} {request : Provider.Request}
    {reply : Provider.Answer request} {others : List (Exchange Provider.calls)}
    (answered : (answer request).run m = (reply, next))
    (rest : ∀ trace, exchangesOf trace = others → next.Serves trace m')
    (h : exchangesOf trace = ⟨request, reply⟩ :: others) : m.Serves trace m' := by
  induction trace with
  | nil => cases h
  | cons event trace ih =>
    cases hevent : event.exchange? with
    | none =>
      rw [exchangesOf, List.filterMap_cons_none hevent] at h
      exact .other hevent (ih h)
    | some exchange =>
      rw [exchangesOf, List.filterMap_cons_some hevent] at h
      obtain ⟨rfl, hothers⟩ := List.cons.inj h
      cases event with
      | answered step =>
        obtain ⟨rfl, heq⟩ := Sigma.mk.inj (Option.some.inj hevent)
        obtain rfl := eq_of_heq heq
        exact .answer answered (rest trace hothers)
      | cancelled | settled | started | called | refused | collected => cases hevent

/-- A program whose calls are answered from memory goes as its exchanges tell, and the provider
serves every trace that has them. -/
theorem serves_of_interpret {α : Type} {p : Program Provider.calls α} {value : α}
    (h : (p.interpret Memory.answer).run m = (value, m')) :
    ∃ exchanges, Runs p exchanges value ∧
      ∀ trace, exchangesOf trace = exchanges.filter Provider.IsCall → m.Serves trace m' := by
  induction p generalizing m with
  | done =>
    obtain ⟨rfl, rfl⟩ := Prod.mk.inj h
    exact ⟨[], .done _, fun trace htrace => serves_of_exchangesOf_nil htrace⟩
  | ask request next ih =>
    obtain ⟨reply, held, hanswer⟩ : ∃ reply held, (answer request).run m = (reply, held) :=
      ⟨_, _, rfl⟩
    have hrest : ((next reply).interpret Memory.answer).run held = (value, m') := by
      rw [← h, Program.interpret, StateT.run_bind]
      exact congrArg (fun p => ((next p.1).interpret Memory.answer).run p.2) hanswer.symm
    obtain ⟨exchanges, hruns, hserves⟩ := ih reply hrest
    refine ⟨⟨request, reply⟩ :: exchanges, .ask hruns, fun trace htrace => ?_⟩
    cases hcall : Provider.IsCall ⟨request, reply⟩ with
    | true =>
      rw [List.filter_cons_of_pos hcall] at htrace
      exact serves_of_exchangesOf_cons hanswer hserves htrace
    | false =>
      rw [List.filter_cons_of_neg (by simp [hcall])] at htrace
      cases request with
      | pause =>
        obtain ⟨-, rfl⟩ := Prod.mk.inj hanswer
        exact hserves trace htrace
      | create | update | delete => cases hcall

/-- An apply on a provider in memory that comes to a report is an execution in which all workers
have been taken in, and which the provider serves. -/
theorem execution_of_apply {settings : RunSettings} {plan : Plan} {report : Report} {r : Run}
    (hattempts : 0 < settings.retry.maxAttempts)
    (h : ((Run.apply settings plan).interpret Memory.answer).run m = ((.ok report, r), m')) :
    ∃ trace moment, Execution settings plan trace moment ∧ m.Serves trace m' ∧
      report = moment.coordinator.report ∧
      trace.countP Event.isStart = trace.countP Event.isCollection := by
  obtain ⟨exchanges, hruns, hserves⟩ := serves_of_interpret h
  obtain ⟨trace, moment, run, hexchanges, hreport, hquiet⟩ := Run.quiet_of_apply hattempts hruns
  exact ⟨trace, moment, run, hserves trace hexchanges, hreport, hquiet⟩

end Memory

end Converge
