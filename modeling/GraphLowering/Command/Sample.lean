import GraphLowering.Command.Arguments
import GraphLowering.Graph.Insertion

/-!
# Sample graphs

The command line describes one composite. `Sample` is a graph with that node between a model input
`x` and a model output `y`; its weight and bias are constants with the same number everywhere. The
size of the output is computed from the description. Sizes are 64-bit numbers, and a computation
that leaves their range is a fault.
-/

namespace GraphLowering.Command

inductive Complaint where
  /-- An option has neither one value nor one for each spatial axis. -/
  | entryCount (option : String) (found spatial : Nat)
  | ranks (input weight : List Nat)
  /-- The kernel does not fit on the input. -/
  | noOutput (axis size kernel : Nat)
  | noChannelAxis (input : List Nat)
  /-- The graph refuses. -/
  | graph (error : LowerError)
deriving DecidableEq

def Complaint.message : Complaint → String
  | entryCount option found spatial =>
    "--" ++ option ++ " has " ++ found.repr ++ " values for " ++ spatial.repr ++ " spatial axes"
  | ranks input weight =>
    "input " ++ bracketedNats input ++ " and weight " ++ bracketedNats weight
      ++ " must have the same rank, at least 3"
  | noOutput axis size kernel =>
    "spatial axis " ++ axis.repr ++ ": size " ++ size.repr ++ " with kernel " ++ kernel.repr
      ++ " leaves no output"
  | noChannelAxis input => "input " ++ bracketedNats input ++ " has no channel axis"
  | graph error => error.message

inductive SampleStop where
  | refused (complaint : Complaint)
  | fault (fault : Fault)
deriving DecidableEq

structure Sample where
  graph : Graph
  node : NodeId
deriving DecidableEq

/-! ## Sizes -/

def addSizes (a b : Nat) : Except SampleStop Nat :=
  if a + b ≤ maxSize then .ok (a + b) else .error (.fault .size)

def mulSizes (a b : Nat) : Except SampleStop Nat :=
  if a * b ≤ maxSize then .ok (a * b) else .error (.fault .size)

/-- The values of an option for the spatial axes: a default if there is none, one value for all
axes, or one for each. -/
def perSpatialAxis (option : String) (values : List Nat) (spatial default : Nat) :
    Except SampleStop (List Nat) :=
  match values with
  | [] => .ok (List.replicate spatial default)
  | [v] => .ok (List.replicate spatial v)
  | _ =>
    if values.length = spatial then .ok values
    else .error (.refused (.entryCount option values.length spatial))

structure AxisParams where
  size : Nat
  kernel : Nat
  stride : Nat
  padding : Nat
  dilation : Nat
  outputPadding : Nat

namespace AxisParams

/-- The extent of the dilated kernel. -/
def span (a : AxisParams) : Except SampleStop Nat := do
  addSizes (← mulSizes a.dilation (a.kernel - 1)) 1

def outputSize? (a : AxisParams) : Except SampleStop (Option Nat) := do
  let span ← a.span
  let padded ← addSizes a.size (← mulSizes 2 a.padding)
  return if padded < span ∨ a.stride = 0 then none else some ((padded - span) / a.stride + 1)

def transposedSize? (a : AxisParams) : Except SampleStop (Option Nat) := do
  let span ← a.span
  let full ← addSizes (← addSizes (← mulSizes (a.size - 1) a.stride) span) a.outputPadding
  let cut ← mulSizes 2 a.padding
  return if full ≤ cut then none else some (full - cut)

end AxisParams

def spatialAxes (input weight : List Nat) (params : ConvParams) : List AxisParams :=
  let sizes := (input.drop 2).zip (weight.drop 2)
  let steps := params.stride.zip params.dilation
  let pads := params.padding.zip params.outputPadding
  (sizes.zip (steps.zip pads)).map fun ((x, k), (s, d), (p, o)) => ⟨x, k, s, p, d, o⟩

/-- The size of the output on each of some spatial axes, the first of which has the given number. -/
def spatialSizes (transposed : Bool) : Nat → List AxisParams → Except SampleStop (List Nat)
  | _, [] => .ok []
  | axis, a :: rest => do
    match ← if transposed then a.transposedSize? else a.outputSize? with
    | none => .error (.refused (.noOutput axis a.size a.kernel))
    | some size => return size :: (← spatialSizes transposed (axis + 1) rest)

def outputShape (input weight : List Nat) (params : ConvParams) (transposed : Bool) :
    Except SampleStop (List Nat) := do
  let channels ← if transposed then mulSizes (weight.getD 1 0) params.groups else .ok (weight.getD 0 0)
  let spatial ← spatialSizes transposed 0 (spatialAxes input weight params)
  return input.getD 0 0 :: channels :: spatial

/-! ## Tensors -/

def inputScale : Float32 := 0.05
def weightScale : Float32 := 0.02
def outputScale : Float32 := 0.1

def ioTensor (name : String) (dims : List Nat) (quantized : Bool) (scale : Float32) : Tensor :=
  if quantized then .computed name ⟨.i8, ⟨dims⟩⟩ (some (.perTensor scale 0))
  else .computed name ⟨.f32, ⟨dims⟩⟩ none

def newBuffer (b : Buffer) : Except SampleStop Buffer :=
  if b.fits then .ok b else .error (.fault .bufferSize)

/-- Some copies of a value of a width in bytes, if there can be a list of them. -/
def copies {α : Type} (width count : Nat) (x : α) : Except SampleStop (List α) :=
  if width * count ≤ maxBufferSize then .ok (List.replicate count x) else .error (.fault .bufferSize)

/-- The weight: floating-point numbers, or 8-bit integers quantized along the first axis. -/
def weightTensor (dims : List Nat) (quantized : Bool) : Except SampleStop Tensor := do
  let count := dims.foldl (· * ·) 1
  if quantized then
    let data ← newBuffer ⟨⟨dims⟩, .i8 (.uniform count 1)⟩
    let channels := dims.getD 0 0
    let quantization := Quantization.perAxis (← copies 4 channels weightScale) (← copies 8 channels 0) 0
    return .constant "weight" data (some quantization)
  else
    return .constant "weight" (← newBuffer ⟨⟨dims⟩, .f32 (.uniform count 0.1)⟩) none

/-- The bias. The bias of a transposed convolution is added to its output, that of a convolution to
the sum of products of the input and the weight. -/
def biasTensor (channels : Nat) (quantized transposed : Bool) : Except SampleStop Tensor := do
  let elements : Elements :=
    if ¬ quantized then .f32 (.uniform channels 0.5)
    else if transposed then .i8 (.uniform channels 1)
    else .i32 (.uniform channels 10)
  let scale := if transposed then outputScale else inputScale * weightScale
  return .constant "bias" (← newBuffer (.vector elements))
    (if quantized then some (.perTensor scale 0) else none)

/-! ## Samples -/

def build (edit : Edit NodeId) : Except SampleStop Sample :=
  match edit ⟨.empty, []⟩ with
  | .ok node s => .ok ⟨s.graph, node⟩
  | .error (.rejected e) _ => .error (.refused (.graph e))
  | .error (.fault f) _ => .error (.fault f)

def addOptional : Option Tensor → Edit (Option TensorId)
  | none => return none
  | some tensor => return some (← Edit.addTensor tensor)

def convolution (args : ConvolutionArguments) (transposed : Bool) : Except SampleStop Sample := do
  let rank := args.input.length
  if rank < 3 ∨ args.weight.length ≠ rank then
    .error (.refused (.ranks args.input args.weight))
  else
    let spatial := rank - 2
    let params : ConvParams := {
      stride := ← perSpatialAxis "stride" args.stride spatial 1
      padding := ← perSpatialAxis "padding" args.padding spatial 0
      dilation := ← perSpatialAxis "dilation" args.dilation spatial 1
      outputPadding := ← perSpatialAxis "output-padding" args.outputPadding spatial 0
      groups := args.groups }
    let outputDims ← outputShape args.input args.weight params transposed
    let weight ← weightTensor args.weight args.quantized
    let bias ← if args.bias then some <$> biasTensor (outputDims.getD 1 0) args.quantized transposed
      else pure none
    build do
      let input ← Edit.addInput (ioTensor "x" args.input args.quantized inputScale)
      let weight ← Edit.addTensor weight
      let bias ← addOptional bias
      let output ← Edit.addTensor (ioTensor "y" outputDims args.quantized outputScale)
      let node ← Edit.addComposite
        (if transposed then .transposedConvolution { input, weight, bias, output, params }
        else .convolution { input, weight, bias, output, params, activation := .none })
      let _ ← Edit.markOutput output
      return node

def batchNorm (args : BatchNormArguments) : Except SampleStop Sample := do
  match args.input[1]? with
  | none => .error (.refused (.noChannelAxis args.input))
  | some channels =>
    let statistic (name : String) (value : Float32) : Except SampleStop Tensor := do
      return .constant name (← newBuffer (.vector (.f32 (.uniform channels value)))) none
    let weight ← statistic "bn.weight" 1
    let bias ← statistic "bn.bias" 0
    let mean ← statistic "bn.running_mean" 0
    let variance ← statistic "bn.running_var" 1
    build do
      let input ← Edit.addInput (ioTensor "x" args.input args.quantized inputScale)
      let weight ← Edit.addTensor weight
      let bias ← Edit.addTensor bias
      let mean ← Edit.addTensor mean
      let variance ← Edit.addTensor variance
      let output ← Edit.addTensor (ioTensor "y" args.input args.quantized outputScale)
      let node ← Edit.addComposite
        (.batchNorm
          { input, weight, bias, mean, variance, output, epsilon := args.epsilon, activation := .none })
      let _ ← Edit.markOutput output
      return node

def sample : NodeArguments → Except SampleStop Sample
  | .convolution args => convolution args false
  | .transposedConvolution args => convolution args true
  | .batchNorm args => batchNorm args

end GraphLowering.Command
