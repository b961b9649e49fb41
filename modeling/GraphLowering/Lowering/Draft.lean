import GraphLowering.Graph.Insertion

/-!
# Tensors of a lowering

A lowering first drafts its chain of operators and registers the tensors that the chain needs.
Constant operands are named after the output of the lowered node, `y_attr`, `y_attr_1`, …, and so
are intermediate results, `y_transform`, `y_transform_1`, …; a few tensors have names of their own.
A number that was tried is not tried again, even if the name was taken.
-/

namespace GraphLowering

/-- A session in which tensors are named after an owner. -/
structure Drafting where
  session : Session
  owner : String
  /-- The number of constant operands that have been named. -/
  operands : Nat
  /-- The number of intermediate results that have been named. -/
  intermediates : Nat
deriving DecidableEq

/-- A computation that registers the tensors of one lowering. -/
abbrev Draft (α : Type) := EStateM Stop Drafting α

/-- The name of the tensor number `n` of a role: the first one has no number. -/
def generatedName (owner role : String) (n : Nat) : String :=
  match n with
  | 0 => owner ++ "_" ++ role
  | n + 1 => owner ++ "_" ++ role ++ "_" ++ (n + 1).repr

namespace Draft

variable {α : Type}

def lift (edit : Edit α) : Draft α := fun d =>
  match edit d.session with
  | .ok a s => .ok a { d with session := s }
  | .error e s => .error e { d with session := s }

def run (owner : String) (draft : Draft α) : Edit α := fun s =>
  match draft ⟨s, owner, 0, 0⟩ with
  | .ok a d => .ok a d.session
  | .error e d => .error e d.session

def owner : Draft String := do
  return (← get).owner

def tensor (id : TensorId) : Draft Tensor :=
  lift do liftGraph ((← Edit.graph).tensor id)

def note (event : Event) : Draft Unit :=
  lift (Edit.note event)

def namedOperand (name : String) (data : Buffer) (quantization : Option Quantization) :
    Draft TensorId :=
  lift (Edit.addTensor (.constant name data quantization))

def namedIntermediate (name : String) (type : TensorType) (quantization : Option Quantization) :
    Draft TensorId :=
  lift (Edit.addTensor (.computed name type quantization))

def operand (data : Buffer) (quantization : Option Quantization) : Draft TensorId := do
  let d ← get
  set { d with operands := d.operands + 1 }
  namedOperand (generatedName d.owner "attr" d.operands) data quantization

def int32Operand (values : List Int32) : Draft TensorId :=
  operand (.ofInt32s values) none

def intermediate (type : TensorType) (quantization : Option Quantization) : Draft TensorId := do
  let d ← get
  set { d with intermediates := d.intermediates + 1 }
  namedIntermediate (generatedName d.owner "transform" d.intermediates) type quantization

end Draft

end GraphLowering
