import GraphLowering.Graph.Error

/-!
# Contracts of the primitives

An operator has as many operands as its kind takes and one result, holds 32-bit integers where a
permutation or a shape is expected, and does not change the element type of its data unless its kind
says so.
-/

namespace GraphLowering

namespace Operator

def checkCounts (op : Operator) : Except GraphError Unit :=
  if op.inputs.length < op.kind.minInputs ∨ op.kind.maxInputs < op.inputs.length then
    .error (.inputCount op.kind op.inputs.length)
  else if op.outputs.length ≠ 1 then
    .error (.outputCount op.kind op.outputs.length)
  else
    .ok ()

/-- An operand that is given and has to hold 32-bit integers does. -/
def checkInt32Slot (g : Graph) (op : Operator) (slot : Nat) : Except GraphError Unit :=
  match op.inputs[slot]? with
  | none => .ok ()
  | some id => do
    let tensor ← g.tensor id
    if tensor.elementType = .i32 then .ok ()
    else .error (.typeClash op.kind (.int32Operand slot tensor.name tensor.elementType))

def operand (g : Graph) (op : Operator) (slot : Nat) : Except GraphError Tensor :=
  match op.inputs[slot]? with
  | some id => g.tensor id
  | none => .error (.inputCount op.kind op.inputs.length)

def result (g : Graph) (op : Operator) : Except GraphError Tensor :=
  match op.outputs.head? with
  | some id => g.tensor id
  | none => .error (.outputCount op.kind op.outputs.length)

def checkTypes (g : Graph) (op : Operator) : Except GraphError Unit := do
  let data ← op.operand g op.kind.dataSlot
  let out ← op.result g
  match op.kind with
  | .mul _ | .add _ =>
    let right ← op.operand g 1
    if data.elementType = right.elementType ∧ data.elementType = out.elementType then .ok ()
    else .error (.typeClash op.kind (.arithmetic data.elementType right.elementType out.elementType))
  | .dequantize =>
    if (data.isQuantized ∨ data.elementType = .f16) ∧ out.elementType.isFloat then .ok ()
    else .error (.typeClash op.kind (.dequantize data.name data.elementType out.name out.elementType))
  | .quantize =>
    if (data.elementType.isFloat ∨ data.isQuantized) ∧ out.isQuantized then .ok ()
    else .error (.typeClash op.kind (.quantize out.name))
  | _ =>
    if data.elementType = out.elementType then .ok ()
    else .error (.typeClash op.kind (.passThrough data.name data.elementType out.name out.elementType))

/-- Whether an operator keeps the contract of its kind. -/
def check (g : Graph) (op : Operator) : Except GraphError Unit := do
  op.checkCounts
  op.kind.int32Slots.forM (op.checkInt32Slot g)
  op.checkTypes g

end Operator

end GraphLowering
