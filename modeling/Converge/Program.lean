/-!
# Programs

A program asks its surroundings, goes on with each answer, and is done at some point. What it can
ask, and of which type an answer is, makes up its interface. A program takes effect when something
answers its requests: a function on a state, another program, or the outside world. So what a
program does can be looked at request by request, without any of them.

Main statements: `Program.interpret_bind` says that to answer two programs in turn is to answer
their sequence, and `Program.interpret_request` that one request is answered by the answer to it.
-/

namespace Converge

/-- What can be asked, and the type of every answer. -/
structure Interface where
  Request : Type
  Answer : Request → Type

/-- A program that asks by way of an interface and comes to a value. -/
inductive Program (I : Interface) (α : Type) where
  | done (value : α)
  | ask (request : I.Request) (next : I.Answer request → Program I α)

namespace Program

variable {I : Interface} {α β γ : Type}

/-- One program after another. -/
def andThen : Program I α → (α → Program I β) → Program I β
  | .done value, f => f value
  | .ask request next, f => .ask request fun answer => (next answer).andThen f

instance : Monad (Program I) where
  pure := .done
  bind := andThen

/-- The program that asks once and comes to the answer. -/
def request (r : I.Request) : Program I (I.Answer r) := .ask r .done

/-- Answers the requests of a program. -/
def interpret {m : Type → Type} [Monad m] (answer : (r : I.Request) → m (I.Answer r)) :
    Program I α → m α
  | .done value => pure value
  | .ask request next => do (next (← answer request)).interpret answer

@[simp] theorem done_bind (value : α) (f : α → Program I β) :
    (Program.done value >>= f) = f value := rfl

@[simp] theorem ask_bind (r : I.Request) (next : I.Answer r → Program I α) (f : α → Program I β) :
    (Program.ask r next >>= f) = .ask r fun answer => next answer >>= f := rfl

theorem bind_done (p : Program I α) : (p >>= fun value => Program.done value) = p := by
  induction p with
  | done value => rfl
  | ask r next ih => simp only [ask_bind, ih]

theorem bind_bind (p : Program I α) (f : α → Program I β) (g : β → Program I γ) :
    (p >>= f >>= g) = (p >>= fun value => f value >>= g) := by
  induction p with
  | done value => rfl
  | ask r next ih => simp only [ask_bind, ih]

instance : LawfulMonad (Program I) :=
  LawfulMonad.mk' (Program I) bind_done (fun _ _ => rfl) bind_bind

@[simp] theorem interpret_done {m : Type → Type} [Monad m]
    (answer : (r : I.Request) → m (I.Answer r)) (value : α) :
    (Program.done value).interpret answer = pure value := rfl

theorem interpret_request {m : Type → Type} [Monad m] [LawfulMonad m]
    (answer : (r : I.Request) → m (I.Answer r)) (r : I.Request) :
    (request r).interpret answer = answer r := by
  simp [request, interpret]

end Program

end Converge
