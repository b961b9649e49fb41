import GraphLowering.Event

/-!
# Changing a graph

`Edit α` is a computation that changes a graph, notes events, and ends with a value or stops. When
it stops, what it did before stays done: undoing it is a matter of the caller.

There are two ways to stop. A computation is *rejected* for a reason that is part of the interface
of the library (`LowerError`). It ends in a *fault* where it leaves the range of its numbers or of
its lists (`Fault`); no text is attached to a fault, and nothing goes on after one.
-/

namespace GraphLowering

/-- Where a computation leaves the range in which it makes sense. -/
inductive Fault where
  /-- The text of an element type that has none. -/
  | elementTypeText
  /-- The number of channels of all groups of a convolution. -/
  | channelProduct
  /-- The number of a quantized axis after the insertion of an axis. -/
  | quantizedAxis
  /-- An entry of a list that is too short. -/
  | listEntry
  /-- A tensor that is not there any more. -/
  | droppedTensor
  /-- A graph that has lost tensors since a node was detached. -/
  | fewerTensors
  /-- A node that is not there any more. -/
  | deadNode
  /-- The number of edges that still lead to a node. -/
  | inDegree
  /-- A size. -/
  | size
  /-- The elements or the bytes of a buffer. -/
  | bufferSize
  /-- The number of a node, which has 32 bits. -/
  | nodeNumber
deriving DecidableEq

inductive Stop where
  | rejected (error : LowerError)
  | fault (fault : Fault)
deriving DecidableEq

structure Session where
  graph : Graph
  events : List Event
deriving DecidableEq

/-- A computation that changes a graph. -/
abbrev Edit (α : Type) := EStateM Stop Session α

section Stopping

variable {σ α : Type}

def faulty (fault : Fault) : EStateM Stop σ α :=
  throw (.fault fault)

/-- Stops with an error. An error names its cause in its text, so one without a text is a fault. -/
def reject (error : LowerError) : EStateM Stop σ α :=
  if error.printable then throw (.rejected error) else faulty .elementTypeText

def orFault (fault : Fault) : Option α → EStateM Stop σ α
  | some a => pure a
  | none => faulty fault

def orReject (error : LowerError) : Option α → EStateM Stop σ α
  | some a => pure a
  | none => reject error

def entry (xs : List α) (i : Nat) : EStateM Stop σ α :=
  orFault .listEntry xs[i]?

def setEntry (xs : List α) (i : Nat) (a : α) : EStateM Stop σ (List α) :=
  if i < xs.length then pure (xs.set i a) else faulty .listEntry

def allocate (b : Buffer) : EStateM Stop σ Buffer :=
  if b.fits then pure b else faulty .bufferSize

def liftGraph : Except GraphError α → EStateM Stop σ α
  | .ok a => pure a
  | .error e => reject (.graph e)

end Stopping

namespace Edit

def graph : Edit Graph := do
  return (← get).graph

def modifyGraph (f : Graph → Graph) : Edit Unit :=
  modify fun s => { s with graph := f s.graph }

def note (event : Event) : Edit Unit :=
  modify fun s => { s with events := s.events ++ [event] }

end Edit

end GraphLowering
