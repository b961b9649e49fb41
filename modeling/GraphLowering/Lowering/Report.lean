import GraphLowering.Graph.Basic

/-!
# Options and results of a lowering
-/

namespace GraphLowering

structure Options where
  /-- Refuse convolutions in groups that are not depthwise instead of warning of them. -/
  denyGrouped : Bool
  /-- Look at the chain that replaced a transposed convolution. -/
  verifyTransposed : Bool
deriving DecidableEq

namespace Options

/-- Grouped convolutions pass with a warning, and every chain is looked at. -/
def default : Options :=
  ⟨false, true⟩

def text (o : Options) : String :=
  let flag (b : Bool) : String := if b then "true" else "false"
  "LowerOptions \x7b deny_grouped_conv: " ++ flag o.denyGrouped ++ ", verify_transpose_conv: "
    ++ flag o.verifyTransposed ++ " \x7d"

end Options

structure Diagnostic where
  message : String
deriving DecidableEq

def Diagnostic.text (d : Diagnostic) : String :=
  "[Warning] " ++ d.message

structure Lowered where
  /-- The nodes of the chain, in the order of the chain. -/
  nodes : List NodeId
  diagnostics : List Diagnostic
deriving DecidableEq

structure Report where
  /-- The number of composites that were lowered. -/
  lowered : Nat
  /-- The nodes of all chains. -/
  nodes : List NodeId
  diagnostics : List Diagnostic
deriving DecidableEq

namespace Report

def empty : Report :=
  ⟨0, [], []⟩

def add (r : Report) (l : Lowered) : Report :=
  ⟨r.lowered + 1, r.nodes ++ l.nodes, r.diagnostics ++ l.diagnostics⟩

def text (r : Report) : String :=
  r.lowered.repr ++ " node(s) lowered into " ++ r.nodes.length.repr ++ " primitive(s), "
    ++ r.diagnostics.length.repr ++ " diagnostic(s)"

end Report

end GraphLowering
