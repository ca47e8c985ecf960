import Converge.Program

/-!
# Runs of programs

The ways in which a program can go: what it asks, the answers, and the value that it comes to.

Main statements: `Program.runs_bind_iff`, `Program.runs_interpret_iff`, and where a world answers
`Program.drives_bind_iff`, `Program.drives_interpret_iff` and `Program.Drives.simulate`. What a
program may ask limits what it can do: `Program.AsksOnly.keeps`.
-/

namespace Converge.Program

variable {I : Interface} {α β : Type}

/-- Programs that ask the same and go on alike are the same. -/
theorem ask_congr {request : I.Request} {next next' : I.Answer request → Program I α}
    (h : ∀ answer, next answer = next' answer) : Program.ask request next = .ask request next' :=
  congrArg (Program.ask request) (funext h)

/-- A request with its answer. -/
abbrev Exchange (I : Interface) : Type := (request : I.Request) × I.Answer request

/-- The exchanges of a program until it is done, and its value. -/
inductive Runs : Program I α → List (Exchange I) → α → Prop
  | done (value : α) : Runs (.done value) [] value
  | ask {request : I.Request} {next : I.Answer request → Program I α} {answer : I.Answer request}
    {exchanges : List (Exchange I)} {value : α} (rest : Runs (next answer) exchanges value) :
    Runs (.ask request next) (⟨request, answer⟩ :: exchanges) value

variable {p : Program I α} {exchanges : List (Exchange I)}

theorem runs_done_iff {value result : α} :
    Runs (.done value : Program I α) exchanges result ↔ exchanges = [] ∧ value = result := by
  constructor
  · rintro ⟨⟩
    exact ⟨rfl, rfl⟩
  · rintro ⟨rfl, rfl⟩
    exact .done value

theorem runs_pure_iff {value result : α} :
    Runs (pure value : Program I α) exchanges result ↔ exchanges = [] ∧ value = result :=
  runs_done_iff

/-- A sequence runs its first program, and then its second on the value of the first. -/
theorem runs_bind_iff {f : α → Program I β} {result : β} :
    Runs (p >>= f) exchanges result ↔ ∃ first second value, exchanges = first ++ second ∧
      Runs p first value ∧ Runs (f value) second result := by
  induction p generalizing exchanges with
  | done value =>
    constructor
    · exact fun h => ⟨[], exchanges, value, rfl, .done value, h⟩
    · rintro ⟨first, second, value', rfl, hfirst, hsecond⟩
      obtain ⟨rfl, rfl⟩ := runs_done_iff.1 hfirst
      exact hsecond
  | ask request next ih =>
    constructor
    · rintro (_ | ⟨hrest⟩)
      obtain ⟨first, second, value, rfl, hfirst, hsecond⟩ := (ih _).1 hrest
      exact ⟨_ :: first, second, value, rfl, .ask hfirst, hsecond⟩
    · rintro ⟨first, second, value, rfl, hfirst, hsecond⟩
      obtain _ | ⟨hfirst⟩ := hfirst
      exact .ask ((ih _).2 ⟨_, second, value, rfl, hfirst, hsecond⟩)

theorem runs_map_iff {f : α → β} {result : β} :
    Runs (f <$> p) exchanges result ↔ ∃ value, Runs p exchanges value ∧ f value = result := by
  rw [map_eq_pure_bind, runs_bind_iff]
  simp only [runs_pure_iff]
  constructor
  · rintro ⟨first, second, value, rfl, hfirst, rfl, rfl⟩
    exact ⟨value, by simpa using hfirst, rfl⟩
  · rintro ⟨value, hvalue, rfl⟩
    exact ⟨exchanges, [], value, by simp, hvalue, rfl, rfl⟩

theorem runs_request_iff {request : I.Request} {answer : I.Answer request} :
    Runs (Program.request request) exchanges answer ↔ exchanges = [⟨request, answer⟩] := by
  constructor
  · rintro (_ | ⟨_ | _⟩)
    rfl
  · rintro rfl
    exact .ask (.done answer)

/-- A program whose requests are answered by programs runs as it would with their values, and these
run one after another. -/
theorem runs_interpret_iff {J : Interface} {q : Program J α} {value : α}
    {answer : (request : J.Request) → Program I (J.Answer request)} :
    Runs (q.interpret answer) exchanges value ↔
      ∃ parts : List (Exchange J × List (Exchange I)), exchanges = parts.flatMap Prod.snd ∧
        Runs q (parts.map Prod.fst) value ∧ ∀ part ∈ parts, Runs (answer part.1.1) part.2 part.1.2 := by
  induction q generalizing exchanges with
  | done result =>
    constructor
    · intro h
      obtain ⟨rfl, rfl⟩ := runs_done_iff.1 h
      exact ⟨[], rfl, .done result, nofun⟩
    · rintro ⟨parts, rfl, h, -⟩
      obtain ⟨hnil, rfl⟩ := runs_done_iff.1 h
      obtain rfl := List.map_eq_nil_iff.1 hnil
      exact .done result
  | ask request next ih =>
    constructor
    · intro h
      obtain ⟨first, second, reply, rfl, hfirst, hsecond⟩ := runs_bind_iff.1 h
      obtain ⟨parts, rfl, hparts, hanswers⟩ := (ih reply).1 hsecond
      refine ⟨(⟨request, reply⟩, first) :: parts, rfl, .ask hparts, fun part hpart => ?_⟩
      rcases List.mem_cons.1 hpart with rfl | hlater
      · exact hfirst
      · exact hanswers part hlater
    · rintro ⟨parts, rfl, h, hanswers⟩
      cases parts with
      | nil => cases h
      | cons part parts =>
        obtain ⟨⟨asked, given⟩, first⟩ := part
        cases h with
        | @ask _ _ reply _ _ rest =>
          refine runs_bind_iff.2 ⟨first, _, reply, rfl, hanswers _ (List.mem_cons_self ..), ?_⟩
          exact (ih reply).2 ⟨parts, rfl, rest,
            fun part hpart => hanswers part (List.mem_cons_of_mem _ hpart)⟩

/-! ## In a world that answers -/

section drives

variable {World : Type} {responds : World → (request : I.Request) → I.Answer request → World → Prop}
  {world after : World}

/-- The ways in which a program can go in a world that answers it and changes as it does: its
exchanges, its value, and the world after it. -/
inductive Drives (responds : World → (request : I.Request) → I.Answer request → World → Prop) :
    Program I α → World → List (Exchange I) → α → World → Prop
  | done (value : α) (world : World) : Drives responds (.done value) world [] value world
  | ask {request : I.Request} {next : I.Answer request → Program I α} {answer : I.Answer request}
    {world mid after : World} {exchanges : List (Exchange I)} {value : α}
    (responded : responds world request answer mid)
    (rest : Drives responds (next answer) mid exchanges value after) :
    Drives responds (.ask request next) world (⟨request, answer⟩ :: exchanges) value after

/-- What an operation answers that brings about a change, or fails and changes nothing. -/
def Attempts {ε : Type} (faults : Prop) (world changed : World) (answer : Except ε Unit)
    (after : World) : Prop :=
  answer = .ok () ∧ after = changed ∨ faults ∧ (∃ cause, answer = .error cause) ∧ after = world

/-- What an operation answers that looks something up, or fails. -/
def Finds {ε : Type} (found : α) (answer : Except ε α) : Prop :=
  answer = .ok found ∨ ∃ cause, answer = .error cause

theorem drives_done_iff {value result : α} :
    Drives responds (.done value) world exchanges result after ↔
      exchanges = [] ∧ value = result ∧ after = world := by
  constructor
  · rintro ⟨⟩
    exact ⟨rfl, rfl, rfl⟩
  · rintro ⟨rfl, rfl, rfl⟩
    exact .done value after

theorem drives_ask_iff {request : I.Request} {next : I.Answer request → Program I α} {value : α} :
    Drives responds (.ask request next) world exchanges value after ↔
      ∃ answer mid rest, exchanges = ⟨request, answer⟩ :: rest ∧
        responds world request answer mid ∧ Drives responds (next answer) mid rest value after := by
  constructor
  · rintro (_ | ⟨responded, rest⟩)
    exact ⟨_, _, _, rfl, responded, rest⟩
  · rintro ⟨answer, mid, rest, rfl, responded, hrest⟩
    exact .ask responded hrest

/-- A sequence goes through its first program, and from there through its second. -/
theorem drives_bind_iff {f : α → Program I β} {result : β} :
    Drives responds (p >>= f) world exchanges result after ↔
      ∃ value mid first second, exchanges = first ++ second ∧
        Drives responds p world first value mid ∧
        Drives responds (f value) mid second result after := by
  induction p generalizing world exchanges with
  | done value =>
    constructor
    · exact fun h => ⟨value, world, [], exchanges, rfl, .done value world, h⟩
    · rintro ⟨value', mid, first, second, rfl, hfirst, hsecond⟩
      obtain ⟨rfl, rfl, rfl⟩ := drives_done_iff.1 hfirst
      exact hsecond
  | ask request next ih =>
    constructor
    · intro h
      obtain ⟨answer, mid, rest, rfl, responded, hrest⟩ := drives_ask_iff.1 h
      obtain ⟨value, mid', first, second, rfl, hfirst, hsecond⟩ := (ih answer).1 hrest
      exact ⟨value, mid', _ :: first, second, rfl, .ask responded hfirst, hsecond⟩
    · rintro ⟨value, mid, first, second, rfl, hfirst, hsecond⟩
      obtain ⟨answer, mid', rest, rfl, responded, hrest⟩ := drives_ask_iff.1 hfirst
      exact .ask responded ((ih answer).2 ⟨value, mid, rest, second, rfl, hrest, hsecond⟩)

/-- A sequence of programs that may fail does so with its first, or goes on with the value of
that. -/
theorem drives_bindExcept_iff {ε : Type} {p : ExceptT ε (Program I) α}
    {f : α → ExceptT ε (Program I) β} {result : Except ε β} :
    Drives responds (p >>= f).run world exchanges result after ↔
      (∃ cause, Drives responds p.run world exchanges (.error cause) after ∧
        result = .error cause) ∨
      ∃ value mid first second, exchanges = first ++ second ∧
        Drives responds p.run world first (.ok value) mid ∧
        Drives responds (f value).run mid second result after := by
  have hrun : (p >>= f).run = p.run >>= ExceptT.bindCont f := rfl
  rw [hrun, drives_bind_iff]
  constructor
  · rintro ⟨value, mid, first, second, rfl, hfirst, hsecond⟩
    cases value with
    | ok value => exact .inr ⟨value, mid, first, second, rfl, hfirst, hsecond⟩
    | error cause =>
      obtain ⟨rfl, rfl, rfl⟩ := drives_done_iff.1 hsecond
      rw [List.append_nil]
      exact .inl ⟨cause, hfirst, rfl⟩
  · rintro (⟨cause, hfirst, rfl⟩ | ⟨value, mid, first, second, rfl, hfirst, hsecond⟩)
    · exact ⟨.error cause, after, exchanges, [], (List.append_nil _).symm, hfirst, .done _ _⟩
    · exact ⟨.ok value, mid, first, second, rfl, hfirst, hsecond⟩

/-- A program that cannot fail, before one that may. -/
theorem drives_bindLift_iff {ε : Type} {f : α → ExceptT ε (Program I) β} {result : Except ε β} :
    Drives responds ((liftM p : ExceptT ε (Program I) α) >>= f).run world exchanges result after ↔
      ∃ value mid first second, exchanges = first ++ second ∧
        Drives responds p world first value mid ∧
        Drives responds (f value).run mid second result after := by
  have hrun : ((liftM p : ExceptT ε (Program I) α) >>= f).run = p >>= fun value => (f value).run :=
    ExceptT.run_bind_lift p f
  rw [hrun, drives_bind_iff]

theorem drives_request_iff {request : I.Request} {answer : I.Answer request} :
    Drives responds (Program.request request) world exchanges answer after ↔
      exchanges = [⟨request, answer⟩] ∧ responds world request answer after := by
  constructor
  · intro h
    obtain ⟨_, _, _, rfl, responded, hrest⟩ := drives_ask_iff.1 h
    obtain ⟨rfl, rfl, rfl⟩ := drives_done_iff.1 hrest
    exact ⟨rfl, responded⟩
  · rintro ⟨rfl, responded⟩
    exact .ask responded (.done answer after)

/-- A world that answers as another one does, and stays like it, lets a program go the same way. -/
theorem Drives.simulate {World' : Type}
    {responds' : World' → (request : I.Request) → I.Answer request → World' → Prop}
    {Like : World → World' → Prop} {value : α} {world' : World'}
    (h : Drives responds p world exchanges value after)
    (hanswer : ∀ {world world' request answer after}, Like world world' →
      responds world request answer after → ∃ after', responds' world' request answer after' ∧
        Like after after')
    (hlike : Like world world') :
    ∃ after', Drives responds' p world' exchanges value after' ∧ Like after after' := by
  induction h generalizing world' with
  | done value world => exact ⟨world', .done value world', hlike⟩
  | ask responded rest ih =>
    obtain ⟨mid', responded', hmid⟩ := hanswer hlike responded
    obtain ⟨after', hrest, hafter⟩ := ih hmid
    exact ⟨after', .ask responded' hrest, hafter⟩

/-- A program whose requests are answered by programs goes as these do, one after another. -/
theorem drives_interpret_iff {J : Interface} {q : Program J α} {value : α}
    {answer : (request : J.Request) → Program I (J.Answer request)} :
    (∃ exchanges, Drives responds (q.interpret answer) world exchanges value after) ↔
      ∃ exchanges, Drives (fun world request reply after =>
        ∃ exchanges, Drives responds (answer request) world exchanges reply after)
        q world exchanges value after := by
  induction q generalizing world with
  | done result =>
    constructor
    · rintro ⟨exchanges, h⟩
      obtain ⟨-, rfl, rfl⟩ := drives_done_iff.1 h
      exact ⟨[], .done result after⟩
    · rintro ⟨exchanges, h⟩
      obtain ⟨-, rfl, rfl⟩ := drives_done_iff.1 h
      exact ⟨[], .done result after⟩
  | ask request next ih =>
    constructor
    · rintro ⟨exchanges, h⟩
      obtain ⟨reply, mid, first, second, rfl, hfirst, hsecond⟩ := drives_bind_iff.1 h
      obtain ⟨rest, hrest⟩ := (ih reply).1 ⟨second, hsecond⟩
      exact ⟨_, .ask ⟨first, hfirst⟩ hrest⟩
    · rintro ⟨exchanges, h⟩
      obtain ⟨reply, mid, rest, rfl, ⟨first, hfirst⟩, hrest⟩ := drives_ask_iff.1 h
      obtain ⟨second, hsecond⟩ := (ih reply).2 ⟨rest, hrest⟩
      exact ⟨first ++ second, drives_bind_iff.2 ⟨reply, mid, first, second, rfl, hfirst, hsecond⟩⟩

end drives

/-! ## What a program may ask -/

/-- Whether a program asks nothing but what is allowed, however it is answered. -/
def AsksOnly (Allowed : I.Request → Prop) : Program I α → Prop
  | .done _ => True
  | .ask request next => Allowed request ∧ ∀ answer, (next answer).AsksOnly Allowed

namespace AsksOnly

variable {J : Interface} {Allowed : I.Request → Prop}

theorem pure (value : α) : (Pure.pure value : Program I α).AsksOnly Allowed := trivial

theorem anything (p : Program I α) : p.AsksOnly fun _ => True := by
  induction p with
  | done => trivial
  | ask _ _ ih => exact ⟨trivial, ih⟩

theorem request {r : I.Request} (h : Allowed r) : (Program.request r).AsksOnly Allowed :=
  ⟨h, fun _ => trivial⟩

theorem bind {f : α → Program I β} (hp : p.AsksOnly Allowed)
    (hf : ∀ value, (f value).AsksOnly Allowed) : (p >>= f).AsksOnly Allowed := by
  induction p with
  | done value => exact hf value
  | ask r next ih => exact ⟨hp.1, fun answer => ih answer (hp.2 answer)⟩

theorem map {f : α → β} (hp : p.AsksOnly Allowed) : (f <$> p).AsksOnly Allowed := by
  rw [map_eq_pure_bind]
  exact hp.bind fun value => pure (f value)

theorem bindExcept {ε : Type} {p : ExceptT ε (Program I) α} {f : α → ExceptT ε (Program I) β}
    (hp : p.run.AsksOnly Allowed) (hf : ∀ value, (f value).run.AsksOnly Allowed) :
    (p >>= f).run.AsksOnly Allowed := by
  refine hp.bind fun value => ?_
  cases value with
  | ok value => exact hf value
  | error cause => exact pure _

theorem bindLift {ε : Type} {f : α → ExceptT ε (Program I) β} (hp : p.AsksOnly Allowed)
    (hf : ∀ value, (f value).run.AsksOnly Allowed) :
    ((liftM p : ExceptT ε (Program I) α) >>= f).run.AsksOnly Allowed := by
  have hrun : ((liftM p : ExceptT ε (Program I) α) >>= f).run = p >>= fun value => (f value).run :=
    ExceptT.run_bind_lift p f
  rw [hrun]
  exact hp.bind hf

/-- A program whose requests are answered by programs asks what these ask. -/
theorem interpret {q : Program J α} {Asked : J.Request → Prop}
    {answer : (request : J.Request) → Program I (J.Answer request)} (hq : q.AsksOnly Asked)
    (hanswer : ∀ request, Asked request → (answer request).AsksOnly Allowed) :
    (q.interpret answer).AsksOnly Allowed := by
  induction q with
  | done value => trivial
  | ask r next ih => exact (hanswer r hq.1).bind fun reply => ih reply (hq.2 reply)

/-- So does one whose answers also depend on something that changes with them. -/
theorem interpretState {σ : Type} {q : Program J α}
    {answer : (request : J.Request) → StateT σ (Program I) (J.Answer request)}
    (hanswer : ∀ request held, ((answer request).run held).AsksOnly Allowed) (held : σ) :
    ((q.interpret answer).run held).AsksOnly Allowed := by
  induction q generalizing held with
  | done value => trivial
  | ask r next ih => exact (hanswer r held).bind fun reply => ih reply.1 reply.2

variable {World : Type} {responds : World → (request : I.Request) → I.Answer request → World → Prop}
  {world after : World} {exchanges : List (Exchange I)} {value : α}

theorem of_drives (hp : p.AsksOnly Allowed) (h : Drives responds p world exchanges value after) :
    ∀ exchange ∈ exchanges, Allowed exchange.1 := by
  induction h with
  | done => exact nofun
  | ask _ _ ih => exact List.forall_mem_cons.2 ⟨hp.1, ih (hp.2 _)⟩

/-- The part of the world that every allowed request leaves alone, the program leaves alone. -/
theorem keeps {δ : Type} {part : World → δ} (hp : p.AsksOnly Allowed)
    (hkeeps : ∀ {world request answer after}, Allowed request →
      responds world request answer after → part after = part world)
    (h : Drives responds p world exchanges value after) : part after = part world := by
  induction h with
  | done => rfl
  | ask responded _ ih => exact (ih (hp.2 _)).trans (hkeeps hp.1 responded)

end AsksOnly
end Converge.Program
