import GraphLowering.Command.Options

/-!
# Arguments of the command line

The command line names a kind of composite and describes one node of it by options after the name.
Some options are accepted on both sides of the name; of a value on both sides the second counts.
-/

namespace GraphLowering.Command

structure ConvolutionArguments where
  input : List Nat
  weight : List Nat
  stride : List Nat
  padding : List Nat
  dilation : List Nat
  outputPadding : List Nat
  groups : Nat
  bias : Bool
  quantized : Bool
deriving DecidableEq

structure BatchNormArguments where
  input : List Nat
  epsilon : Float32
  quantized : Bool
deriving DecidableEq

inductive NodeArguments where
  | convolution (args : ConvolutionArguments)
  | transposedConvolution (args : ConvolutionArguments)
  | batchNorm (args : BatchNormArguments)
deriving DecidableEq

/-- The options that are accepted on both sides of the name of the composite. -/
structure GlobalArguments where
  /-- Where the dump is written, if not to the standard output. -/
  output : Option String
  denyGrouped : Bool
  skipVerification : Bool
  emitInput : Bool
deriving DecidableEq

structure Arguments where
  node : NodeArguments
  globals : GlobalArguments
deriving DecidableEq

inductive Request where
  | version
  | help
  | lower (args : Arguments)
deriving DecidableEq

/-! ## Options -/

def globalOptions : OptionTable :=
  [("output", .file), ("deny-grouped-conv", .flag), ("no-verify-transpose-conv", .flag),
    ("emit-input", .flag)]

def convolutionOptions : OptionTable :=
  [("input", .sizes), ("weight", .sizes), ("stride", .sizes), ("padding", .sizes), ("dilation", .sizes),
    ("output-padding", .sizes), ("groups", .size), ("bias", .flag), ("quantized", .flag)]

def batchNormOptions : OptionTable :=
  [("input", .sizes), ("eps", .float), ("quantized", .flag)]

/-! ## Requests -/

/-- The options that are accepted on both sides; of a value on both sides the second counts. -/
def globals (before after : List Occurrence) : GlobalArguments :=
  let given := before ++ after
  { output := (valuesOf given "output").getLast?
    denyGrouped := ¬ (valuesOf given "deny-grouped-conv").isEmpty
    skipVerification := ¬ (valuesOf given "no-verify-transpose-conv").isEmpty
    emitInput := ¬ (valuesOf given "emit-input").isEmpty }

def requiredSizes? (given : List Occurrence) (name : String) : Option (List Nat) :=
  match valuesOf given name with
  | [] => none
  | texts => sizes? texts

def convolution? (given : List Occurrence) : Option ConvolutionArguments := do
  return {
    input := ← requiredSizes? given "input"
    weight := ← requiredSizes? given "weight"
    stride := ← sizes? (valuesOf given "stride")
    padding := ← sizes? (valuesOf given "padding")
    dilation := ← sizes? (valuesOf given "dilation")
    outputPadding := ← sizes? (valuesOf given "output-padding")
    groups := ← size? ((valuesOf given "groups").head?.getD "1")
    bias := ¬ (valuesOf given "bias").isEmpty
    quantized := ¬ (valuesOf given "quantized").isEmpty }

def batchNorm? (given : List Occurrence) : Option BatchNormArguments := do
  return {
    input := ← requiredSizes? given "input"
    epsilon := ← Decimal.readFloat32? ((valuesOf given "eps").head?.getD "1e-5")
    quantized := ¬ (valuesOf given "quantized").isEmpty }

def composite? (name : String) : Option (OptionTable × (List Occurrence → Option NodeArguments)) :=
  if name = "conv" then
    some (convolutionOptions, fun given => (convolution? given).map .convolution)
  else if name = "deconv" then
    some (convolutionOptions, fun given => (convolution? given).map .transposedConvolution)
  else if name = "batch-norm" then
    some (batchNormOptions, fun given => (batchNorm? given).map .batchNorm)
  else
    none

/-- Whether there is help on what is named after `help`: nothing, a kind of composite, or `help`
itself. -/
def isTopic : List String → Bool
  | [] => true
  | [name] => name = "help" ∨ (composite? name).isSome
  | _ => false

/-- The request of a command line, or `none` if the arguments are not accepted. -/
def request? (args : List String) : Option Request := do
  match ← scan true ⟨globalOptions, []⟩ args with
  | .version => return .version
  | .help => return .help
  | .options before word rest =>
    let name ← word
    if name = "help" then
      return ← if isTopic rest then some .help else none
    let (options, describe) ← composite? name
    match ← scan false ⟨options ++ globalOptions, []⟩ rest with
    | .options after none _ => return .lower ⟨← describe after, globals before after⟩
    | .options _ (some _) _ | .version => none
    | .help => return .help

end GraphLowering.Command
