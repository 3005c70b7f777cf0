import GuardedData.Model.Error
import GuardedData.Store.Basic

/-!
# User code

The code of methods, computed properties and watchers is a tree of requests to the model that it
runs on. Between two requests it computes without effect, so that a tree says all that code can do
to a model.

A piece of code is one tree for all the times that it is run: what differs from one time to the
next is what it is given and what the model answers. Code with a memory of its own, from one time
to the next, has no counterpart here, unless what it remembers is kept in the data of the model.
-/

namespace GuardedData

/-- The answer to a poll of a task. -/
inductive Polled
  | pending
  | done (result : Result)
  | absent

/-- What user code may ask of its model. -/
inductive Request
  /-- The value at a path. -/
  | value (path : String)
  /-- The credits of the guard, if there is one. -/
  | credits
  /-- The queued events. -/
  | pending
  /-- The environment that the model was made in. -/
  | environment
  /-- Write an entry into the journal. -/
  | note (entry : Value)
  /-- Edit the data; the answer is what the edit removed. -/
  | edit (path : String) (change : Edit)
  /-- Deliver the queued events. -/
  | flush
  /-- Call a method that runs to its end. -/
  | call (name : String) (args : List Value)
  /-- The value of a computed property. -/
  | computed (name : String)
  /-- Assign a computed property. -/
  | setComputed (name : String) (value : Value)
  /-- Start a method as a task; the answer is the number of the task. -/
  | start (name : String) (args : List Value)
  /-- Let a task run until it pauses or ends. -/
  | poll (task : Nat)
  /-- Forget a task; the answer is whether there was one. -/
  | drop (task : Nat)
  /-- Give way to whoever polled. Outside of a task this does nothing. -/
  | pause

def Request.Answer : Request → Type
  | .value _ => Option Value
  | .credits => Option Int
  | .pending => List Event
  | .environment => Environment
  | .note _ => Unit
  | .edit _ _ => Except ModelError (Option Value)
  | .flush => Except ModelError Unit
  | .call _ _ => Result
  | .computed _ => Result
  | .setComputed _ _ => Except ModelError Unit
  | .start _ _ => Nat
  | .poll _ => Polled
  | .drop _ => Bool
  | .pause => Unit

inductive Program
  /-- Come to an end. -/
  | finish (result : Result)
  /-- Ask for something and go on with the answer. -/
  | ask (request : Request) (next : request.Answer → Program)
  /-- Watch a path from now on, and go on. -/
  | watch (path : String) (react : Option Value → Program) (next : Program)

namespace Program

def pure (v : Value) : Program := .finish (.ok v)

def fail (e : ModelError) : Program := .finish (.error e)

/-- Go on with a value, or fail with an error. -/
def andThen {α : Type} (next : α → Program) : Except ModelError α → Program
  | .ok a => next a
  | .error e => .fail e

/-- The code that edits the data and returns `null`. -/
def edit (path : String) (change : Edit) : Program :=
  .ask (.edit path change) <| andThen fun _ => .pure .null

end Program

end GuardedData
