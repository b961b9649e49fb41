import GraphLowering.Lowering.Error

/-!
# Events

What happens to a graph is noted as a sequence of events, each with a level and a text.
-/

namespace GraphLowering

inductive Level where
  | debug
  | info
  | warn
deriving DecidableEq

def Level.text : Level → String
  | debug => "DEBUG"
  | info => "INFO"
  | warn => "WARN"

/-- Something that happened. A `site` is the name of a node that was detached. -/
inductive Event where
  /-- A node reads a tensor that nothing produces. -/
  | noProducer (node : NodeId) (tensor : String)
  /-- A detached node was put back. -/
  | reattached (site : String) (dropped : Nat)
  /-- No new node reads a tensor that the detached node read. -/
  | unconsumed (site : String) (tensor : String) (source : NodeId)
  /-- An edge to a reader of the detached node was put back. -/
  | edgeRestored (site : String) (source target : NodeId)
  /-- The edges of the detached node were put back. -/
  | edgesRestored (site : String) (count : Nat)
  /-- An operator took its place in the graph. -/
  | emitted (site : String) (kind : Primitive) (node : NodeId)
  /-- A convolution in groups is not supported everywhere. -/
  | groupedConvolution (owner : String) (groups : Nat)
  | notLowered (composite : String) (site : String) (error : LowerError)
  | lowered (composite : String) (site : String) (count : Nat)
deriving DecidableEq

namespace Event

def level : Event → Level
  | groupedConvolution .. => .warn
  | lowered .. => .info
  | _ => .debug

def message : Event → String
  | noProducer node tensor => "node " ++ node.text ++ ": input '" ++ tensor ++ "' has no producer"
  | reattached site dropped => site ++ ": reattached, " ++ dropped.repr ++ " new node(s) dropped"
  | unconsumed site tensor source =>
    site ++ ": '" ++ tensor ++ "' from " ++ source.text ++ " is no longer consumed"
  | edgeRestored site source target =>
    site ++ ": restored edge " ++ source.text ++ " -> " ++ target.text
  | edgesRestored site count => site ++ ": restored " ++ count.repr ++ " edge(s)"
  | emitted site kind node => site ++ ": emitted " ++ kind.text ++ " as " ++ node.text
  | groupedConvolution owner groups => (Objection.groupedConvolution owner groups).message
  | notLowered composite site error => composite ++ " '" ++ site ++ "' not lowered: " ++ error.message
  | lowered composite site count =>
    "lowered " ++ composite ++ " '" ++ site ++ "' into " ++ count.repr ++ " primitive(s)"

def text (e : Event) : String :=
  e.level.text ++ " " ++ e.message

end Event

end GraphLowering
