import GraphLowering.Proofs.ExitCode
import GraphLowering.Proofs.ShapeRules

/-!
# The sizes in a dump

The command line computes the sizes of the output from the description, with the channels before the
spatial axes. The lowering takes them as they are and derives from them the sizes of what it drafts:
with the channels last, with a unit axis for lines, with the padding of a transposed convolution.
Nothing compares the two. They agree all the same: in a graph that is dumped the sizes of every
operator are those that its operation prescribes (`shapeRule_of_dumped`).
-/

namespace GraphLowering.Command

/-! ## Axes -/

/-- The axis that lines get in addition. -/
def AxisParams.unit : AxisParams :=
  ⟨1, 1, 1, 0, 1, 0⟩

namespace ConvolutionArguments

variable {args : ConvolutionArguments} {transposed : Bool}

/-- The sizes of two spatial axes and the parameters on them. Lines have a unit axis before their
own. -/
structure Spread (args : ConvolutionArguments) (transposed : Bool)
    (params : ConvParams) (x w y : List Nat) (a b : AxisParams) : Prop where
  input : x = [args.input.getD 0 0, args.input.getD 1 0, a.size, b.size]
  weight : w = [args.weight.getD 0 0, args.weight.getD 1 0, a.kernel, b.kernel]
  output : y =
    [args.input.getD 0 0, args.outputChannels transposed, a.result transposed, b.result transposed]
  stride : params.stride = [a.stride, b.stride]
  padding : params.padding = [a.padding, b.padding]
  dilation : params.dilation = [a.dilation, b.dilation]
  axes : ∀ c ∈ [a, b], c = .unit ∨ c ∈ args.axes

theorem split_axes {values : List Nat} (h : 2 ≤ values.length) :
    values = values.getD 0 0 :: values.getD 1 0 :: (List.range (values.length - 2)).map fun i =>
      values.getD (i + 2) 0 := by
  match values, h with
  | a :: b :: rest, _ =>
    show a :: b :: rest = a :: b :: (List.range rest.length).map (rest.getD · 0)
    rw [map_range_getD]

theorem Shaped.input_eq (h : args.Shaped) :
    args.input = args.input.getD 0 0 :: args.input.getD 1 0 :: args.axes.map (·.size) := by
  have hrank := h.rank
  have hsplit := split_axes (show 2 ≤ args.input.length by omega)
  unfold axes spatial
  rw [List.map_map]
  exact hsplit

theorem Shaped.weight_eq (h : args.Shaped) :
    args.weight = args.weight.getD 0 0 :: args.weight.getD 1 0 :: args.axes.map (·.kernel) := by
  have hrank := h.rank
  rw [← h.sameRank] at hrank
  have hsplit := split_axes (show 2 ≤ args.weight.length by omega)
  unfold axes spatial
  rw [List.map_map, ← h.sameRank]
  exact hsplit

theorem Shaped.spread (h : args.Shaped) {params : ConvParams}
    (hparams : args.input.length = 4 ∧ params = args.params ∨
      args.input.length = 3 ∧ params = args.params.lifted) :
    ∃ a b, args.Spread transposed params (Lift.raise args.input)
      (Lift.raise args.weight) (Lift.raise (args.outputDims transposed)) a b := by
  have hinput := h.input_eq
  have hweight := h.weight_eq
  have hoptions : args.params =
      ⟨args.axes.map (·.stride), args.axes.map (·.padding), args.axes.map (·.dilation),
      args.axes.map (·.outputPadding), args.groups⟩ := rfl
  have houtput : args.outputDims transposed =
      args.input.getD 0 0 :: args.outputChannels transposed :: args.axes.map (·.result transposed) :=
    rfl
  have hcount : args.axes.length = args.input.length - 2 := length_axes
  rcases hparams with ⟨hfour, rfl⟩ | ⟨hthree, rfl⟩
  · rw [hfour] at hcount
    obtain ⟨a, b, haxes⟩ := List.length_eq_two.mp hcount
    rw [haxes] at hinput hweight hoptions houtput
    rw [hoptions, houtput]
    refine ⟨a, b, congrArg Lift.raise hinput, congrArg Lift.raise hweight, rfl, rfl, rfl, rfl, ?_⟩
    rw [haxes]
    exact fun c hc => .inr hc
  · rw [hthree] at hcount
    obtain ⟨b, haxes⟩ := List.length_eq_one_iff.mp hcount
    rw [haxes] at hinput hweight hoptions houtput
    have hunit : AxisParams.unit.result transposed = 1 := by
      cases transposed <;> rfl
    rw [hoptions, houtput]
    refine ⟨.unit, b, congrArg Lift.raise hinput, congrArg Lift.raise hweight, ?_, rfl, rfl, rfl, ?_⟩
    · rw [hunit]
      rfl
    · rw [haxes]
      intro c hc
      rcases List.mem_cons.mp hc with rfl | hc
      · exact .inl rfl
      · exact .inr hc

def setting (args : ConvolutionArguments) (a b : AxisParams) : Setting where
  batch := args.input.getD 0 0
  channels := args.input.getD 1 0
  height := a.size
  width := b.size
  outputs := args.weight.getD 0 0
  depth := args.weight.getD 1 0
  kernelHeight := a.kernel
  kernelWidth := b.kernel
  rows := a.result false
  columns := b.result false
  stride := ⟨a.stride, b.stride⟩
  padding := ⟨a.padding, b.padding⟩
  dilation := ⟨a.dilation, b.dilation⟩

def canvas (args : ConvolutionArguments) (a b : AxisParams) : Canvas where
  batch := args.input.getD 0 0
  channels := args.input.getD 1 0
  height := a.size
  width := b.size
  outputs := args.outputChannels true
  kernelHeight := a.kernel
  kernelWidth := b.kernel
  rows := a.result true
  columns := b.result true
  stride := ⟨a.stride, b.stride⟩
  padding := ⟨a.padding, b.padding⟩

theorem Spread.slides {params : ConvParams} {x w y : List Nat} {a b c : AxisParams}
    (h : args.Spread transposed params x w y a b) (hc : c ∈ [a, b])
    (hkernel : ∀ c ∈ args.axes, 1 ≤ c.kernel) (hfits : ∀ c ∈ args.axes, c.extent ≤ c.padded) :
    Slides c.padded c.kernel c.stride c.dilation (c.result false) := by
  rcases h.axes c hc with rfl | hmem
  · exact slides_of_le (Nat.le_refl 1) (Nat.le_refl 1)
  · exact slides_of_le (hkernel c hmem) (hfits c hmem)

end ConvolutionArguments

namespace Sample.ShowsConvolution

variable {s : Sample} {args : ConvolutionArguments} {transposed : Bool}
  {w : Tensor} {b : Option Tensor} {g : Graph} {first : Nat}

theorem spread (h : s.ShowsConvolution args transposed w b) (hshaped : args.Shaped)
    (hextend : s.graph.tensors <+: g.tensors) {l : Lifted}
    (hlifts : Lift.LiftsTo g first ⟨0⟩ ⟨1⟩ ⟨if args.bias then 3 else 2⟩ args.params l) :
    ∃ x' w' y' c d, Lift.Lays g l x' w' y' ∧
      args.Spread transposed l.params x'.shape.dims w'.shape.dims y'.shape.dims c d := by
  obtain ⟨x₁, w₁, y₁, x', w', y', hraised⟩ := hlifts.raised
  cases hraised.input.symm.trans (Graph.tensor?_of_extend hextend h.tensor?_input)
  cases hraised.weight.symm.trans (Graph.tensor?_of_extend hextend h.tensor?_weight)
  cases hraised.output.symm.trans (Graph.tensor?_of_extend hextend h.tensor?_output)
  have hrank : args.inputTensor.rank = args.input.length := congrArg List.length args.inputTensor_dims
  have hparams := hraised.params
  rw [hrank] at hparams
  obtain ⟨c, d, hspread⟩ := hshaped.spread hparams
  refine ⟨x', w', y', c, d, hraised.lays, ?_⟩
  rw [hraised.inputDims, hraised.weightDims, hraised.outputDims,
    args.inputTensor_dims, h.weight.dims, args.outputTensor_dims]
  exact hspread

theorem bias_dims (h : s.ShowsConvolution args transposed w b)
    (hextend : s.graph.tensors <+: g.tensors) :
    ∀ id ∈ (if args.bias then some ⟨2⟩ else none : Option TensorId), ∀ t, g.tensor? id = some t →
      t.shape.dims = [args.outputChannels transposed] := by
  intro id hid t ht
  obtain ⟨t', hmem, ht'⟩ := h.tensor?_bias hid
  cases ht.symm.trans (Graph.tensor?_of_extend hextend ht')
  exact (h.bias t hmem).1.dims

theorem shapeRule_of_convolves (h : s.ShowsConvolution args false w b)
    (hextend : s.graph.tensors <+: g.tensors) {denyGrouped : Bool}
    (haccepted : args.Convolves denyGrouped) (hkernel : ∀ a ∈ args.axes, 1 ≤ a.kernel)
    (hdepth : 1 ≤ args.weight.getD 1 0) {chain : List Operator}
    (hdrafts : (args.composite false).Drafts g first chain) : ∀ op ∈ chain, g.ShapeRule op := by
  obtain ⟨p, hfits, rfl⟩ := hdrafts
  obtain ⟨x', w', y', c, d, hlays, hspread⟩ := h.spread haccepted.toShaped hextend hfits.lifts
  cases hlays.input.symm.trans hfits.input
  cases hlays.weight.symm.trans hfits.weight
  have hslides (e : AxisParams) (he : e ∈ [c, d]) := hspread.slides he hkernel haccepted.windows
  have hframes : p.Frames g (if args.bias then some ⟨2⟩ else none) (args.setting c d) := {
    input := hspread.input
    weight := hspread.weight
    output := Graph.dims?_of_tensor? hlays.output hspread.output
    stride := hspread.stride
    padding := hspread.padding
    dilation := hspread.dilation
    depth := hdepth
    bias := fun id hid t ht => by
      rw [h.bias_dims hextend id hid t ht, List.prod_singleton]
      rfl
    vertical := hslides c List.mem_cons_self
    horizontal := hslides d (List.mem_cons_of_mem _ List.mem_cons_self) }
  exact hfits.shapeRule hframes

theorem shapeRule_of_scatters (h : s.ShowsConvolution args true w b)
    (hextend : s.graph.tensors <+: g.tensors) (haccepted : args.Scatters) {chain : List Operator}
    (hdrafts : (args.composite true).Drafts g first chain) : ∀ op ∈ chain, g.ShapeRule op := by
  obtain ⟨p, hfits, rfl⟩ := hdrafts
  obtain ⟨x', w', y', c, d, hlays, hspread⟩ := h.spread haccepted.toShaped hextend hfits.lifts
  cases hlays.input.symm.trans hfits.input
  cases hlays.weight.symm.trans hfits.weight
  have houtputs : args.outputChannels true = args.weight.getD 1 0 := by
    show args.weight.getD 1 0 * args.groups = _
    rw [haccepted.groups, Nat.mul_one]
  have hframes : p.Frames g (if args.bias then some ⟨2⟩ else none) (args.canvas c d) := {
    input := hspread.input
    weight := by
      show _ = [args.input.getD 1 0, args.outputChannels true, c.kernel, d.kernel]
      rw [haccepted.channels, houtputs]
      exact hspread.weight
    output := Graph.dims?_of_tensor? hlays.output hspread.output
    padding := hspread.padding
    bias := h.bias_dims hextend }
  exact hfits.shapeRule hframes

end Sample.ShowsConvolution

/-! ## The command line -/

/-- In a graph in which the composite of a sample graph is replaced, the operators are those of the
chain. -/
theorem Sample.Shows.mem_chain {s : Sample} {tensors : List Tensor} {op : Composite}
    (h : s.Shows tensors op) {options : Options} {o : Outline} {added : List Tensor} {g : Graph}
    (hlowered : s.graph.LoweredBy options s.node op [] o added g) {id : NodeId} {node : Node}
    {operator : Operator} (hnode : g.node? id = some node)
    (hkind : node.kind = .operator operator) : operator ∈ o.chain := by
  rcases Nat.lt_or_ge id.index s.graph.nextNode with hold | hnew
  · exact absurd hkind (h.composed.composed id node (hlowered.node?_old hold hnode) operator)
  · obtain ⟨r, hr, hbrought⟩ := hlowered.rewired.brought id node hnew hnode
    cases List.mem_singleton.mp hr
    rw [hkind] at hbrought
    rcases hbrought with ⟨_, hmem, hsame⟩ | ⟨_, hconstant, _⟩
    · cases hsame
      exact hmem
    · cases hconstant

/-- The exit code of a sample graph is 0 only if it can be lowered and the graph that this leaves is
dumped. -/
theorem lowerSample_dumped_or (globals : GlobalArguments) (s : Sample) :
    (∃ lowered session stderr, Edit.lowerNode s.node
      ⟨globals.denyGrouped, ¬ globals.skipVerification⟩ ⟨s.graph, []⟩ = .ok lowered session ∧
      lowerSample globals s = .dumped stderr session.graph.dump globals.output) ∨
      ∀ writeError, ((lowerSample globals s).finish writeError).exitCode ≠ 0 := by
  unfold lowerSample
  by_cases hprintable : s.graph.printable
  · simp only [hprintable, not_true_eq_false, if_false]
    cases hrun :
        Edit.lowerNode s.node ⟨globals.denyGrouped, ¬ globals.skipVerification⟩ ⟨s.graph, []⟩ with
    | error stop session =>
      cases stop with
      | rejected e => exact .inr fun _ => Nat.one_ne_zero
      | fault f => exact .inr fun _ => Nat.succ_ne_zero 100
    | ok lowered session =>
      by_cases hdumped : session.graph.printable
      · simp only [hdumped, not_true_eq_false, if_false]
        exact .inl ⟨lowered, session, _, rfl, rfl⟩
      · simp only [hdumped]
        exact .inr fun _ => Nat.succ_ne_zero 100
  · simp only [hprintable]
    exact .inr fun _ => Nat.succ_ne_zero 100

theorem dumped_of_exitCode {args : Arguments} {writeError : Option String}
    (h : ((execute args).finish writeError).exitCode = 0) :
    ∃ s lowered session stderr, sample args.node = .ok s ∧
      Edit.lowerNode s.node ⟨args.globals.denyGrouped, ¬ args.globals.skipVerification⟩
        ⟨s.graph, []⟩ = .ok lowered session ∧
      execute args = .dumped stderr session.graph.dump args.globals.output := by
  unfold execute at h ⊢
  match hsample : sample args.node with
  | .error (.refused complaint) =>
    rw [hsample] at h
    exact absurd h Nat.one_ne_zero
  | .error (.fault f) =>
    rw [hsample] at h
    exact absurd h (Nat.succ_ne_zero 100)
  | .ok s =>
    rw [hsample] at h
    rcases lowerSample_dumped_or args.globals s
      with ⟨lowered, session, stderr, hlowered, hdumped⟩ | hother
    · exact ⟨s, lowered, session, stderr, rfl, hlowered, hdumped⟩
    · exact absurd h (hother writeError)

/-- A convolution has input channels in each group, and the kernel is not empty. -/
def NodeArguments.HasKernel : NodeArguments → Prop
  | .convolution args => (∀ k ∈ args.weight.drop 2, 1 ≤ k) ∧ 1 ≤ args.weight.getD 1 0
  | _ => True

theorem Sample.Shows.lowered {s : Sample} {tensors : List Tensor} {op : Composite}
    (h : s.Shows tensors op) {options : Options} {result : Lowered} {session : Session}
    (hlower : Edit.lowerNode s.node options ⟨s.graph, []⟩ = .ok result session) :
    ∃ o added, s.graph.LoweredBy options s.node op [] o added session.graph := by
  obtain ⟨node, hnode, hkind⟩ := h.node
  exact Edit.lowerNode_loweredBy (s := ⟨s.graph, []⟩)
    h.composed.wellFormed h.composed.flows hnode hkind hlower

theorem Sample.ShowsNormalization.shapeRule {s : Sample} {args : BatchNormArguments}
    {channels : Nat} (h : s.ShowsNormalization args channels) {options : Options} {o : Outline}
    {added : List Tensor} {g : Graph}
    (hlowered : s.graph.LoweredBy options s.node args.composite [] o added g) :
    ∀ op ∈ o.chain, g.ShapeRule op := by
  obtain ⟨t, houtline, htensors, _⟩ := hlowered.outline
  obtain ⟨_, x, y, channels, scale, shift, hfolds, hdrafts⟩ := BatchNorm.folds_of_ok houtline
  cases hfolds.input.symm.trans (h.shows.composed.tensor? _)
  cases hfolds.output.symm.trans (h.shows.composed.tensor? _)
  obtain ⟨p, hfits, hchain⟩ := hdrafts g (htensors ▸ List.prefix_refl _)
  have hsame : args.outputTensor.shape.dims = args.inputTensor.shape.dims :=
    congrArg Shape.dims ((ioTensor_shape ..).trans (ioTensor_shape ..).symm)
  rw [hchain]
  exact hfits.shapeRule (hfolds.extend hlowered.rewired.tensors) hsame

theorem shapeRule_of_lowered {args : NodeArguments} (hkernel : args.HasKernel) {s : Sample}
    {options : Options} {result : Lowered} {session : Session} (hsample : sample args = .ok s)
    (hlower : Edit.lowerNode s.node options ⟨s.graph, []⟩ = .ok result session) {id : NodeId}
    {node : Node} {op : Operator} (hnode : session.graph.node? id = some node)
    (hkind : node.kind = .operator op) :
    session.graph.ShapeRule op := by
  cases args with
  | convolution args =>
    have hanswers := convolution_answers args false
    rw [show convolution args false = .ok s from hsample] at hanswers
    obtain ⟨hdescribed, w, b, hs⟩ := hanswers
    obtain ⟨o, added, hlowered⟩ := hs.shows.lowered hlower
    obtain ⟨t, houtline, _⟩ := hlowered.outline
    have haccepted := hs.convolves_of_outline hdescribed houtline
    obtain ⟨hkernels, hdepth⟩ := hkernel
    rw [haccepted.toShaped.weight_eq] at hkernels
    exact hs.shapeRule_of_convolves hlowered.rewired.tensors haccepted
      (List.forall_mem_map.mp hkernels) hdepth hlowered.drafts op
      (hs.shows.mem_chain hlowered hnode hkind)
  | transposedConvolution args =>
    have hanswers := convolution_answers args true
    rw [show convolution args true = .ok s from hsample] at hanswers
    obtain ⟨hdescribed, w, b, hs⟩ := hanswers
    obtain ⟨o, added, hlowered⟩ := hs.shows.lowered hlower
    obtain ⟨t, houtline, _⟩ := hlowered.outline
    exact hs.shapeRule_of_scatters hlowered.rewired.tensors
      (hs.scatters_of_outline hdescribed houtline) hlowered.drafts op
      (hs.shows.mem_chain hlowered hnode hkind)
  | batchNorm args =>
    have hanswers : Answers True (batchNorm args) _ _ := batchNorm_answers args
    rw [show batchNorm args = .ok s from hsample] at hanswers
    obtain ⟨_, channels, hs⟩ := hanswers
    obtain ⟨o, added, hlowered⟩ := hs.shows.lowered hlower
    exact hs.shapeRule hlowered op (hs.shows.mem_chain hlowered hnode hkind)

/-- Arguments that end with 0 dump the graph that the lowering of their sample graph leaves, and so
does a command line that is read as them. The declared sizes and the constants of this graph are
those that its operations prescribe, if a convolution has channels to sum over and a kernel that is
not empty. -/
theorem shapeRule_of_dumped {args : Arguments} {writeError : Option String}
    (hkernel : args.node.HasKernel) (hexit : ((execute args).finish writeError).exitCode = 0) :
    ∃ s result session stderr, sample args.node = .ok s ∧
      Edit.lowerNode s.node ⟨args.globals.denyGrouped, ¬ args.globals.skipVerification⟩
        ⟨s.graph, []⟩ = .ok result session ∧
      execute args = .dumped stderr session.graph.dump args.globals.output ∧
      (∀ words, request? words = some (.lower args) →
        run words = .dumped stderr session.graph.dump args.globals.output) ∧
      ∀ id node op, session.graph.node? id = some node → node.kind = .operator op →
        session.graph.ShapeRule op := by
  obtain ⟨s, result, session, stderr, hsample, hlower, hdumped⟩ := dumped_of_exitCode hexit
  refine ⟨s, result, session, stderr, hsample, hlower, hdumped,
    fun words hrequest => ?_, fun _ _ _ => ?_⟩
  · rw [run_of_request hrequest, hdumped]
  · exact shapeRule_of_lowered hkernel hsample hlower

/-- A convolution of images in two groups, with another stride, padding and dilation on each axis. -/
def groupedWords : List String :=
  ["conv", "--input", "1,4,9,7", "--weight", "6,2,3,2", "--groups", "2", "--stride", "2,3",
    "--padding", "1,0", "--dilation", "1,2", "--bias"]

def groupedArguments : Arguments :=
  ⟨.convolution ⟨[1, 4, 9, 7], [6, 2, 3, 2], [2, 3], [1, 0], [1, 2], [], 2, true, false⟩,
    ⟨none, false, false, false⟩⟩

def loweredLabels? (args : NodeArguments) (options : Options) : Option (List (Option String)) :=
  match sample args with
  | .error _ => none
  | .ok s =>
    match Edit.lowerNode s.node options ⟨s.graph, []⟩ with
    | .error _ _ => none
    | .ok result session => some (result.nodes.map fun n => (session.graph.node? n).map (·.kind.label))

/-- Five operators are put in, so the rules are about something. -/
theorem shapeRule_of_dumped_grouped :
    request? groupedWords = some (.lower groupedArguments) ∧ groupedArguments.node.HasKernel ∧
      ((execute groupedArguments).finish none).exitCode = 0 ∧
      ∃ s result session stderr, sample groupedArguments.node = .ok s ∧
        Edit.lowerNode s.node ⟨false, true⟩ ⟨s.graph, []⟩ = .ok result session ∧
        run groupedWords = .dumped stderr session.graph.dump none ∧
        (result.nodes.map fun n => (session.graph.node? n).map (·.kind.label)) =
          [some "TRANSPOSE", some "PAD", some "TRANSPOSE", some "CONV_2D", some "TRANSPOSE"] ∧
        ∀ id node op, session.graph.node? id = some node → node.kind = .operator op →
          session.graph.ShapeRule op := by
  have hrequest : request? groupedWords = some (.lower groupedArguments) := by
    decide +kernel
  have hkernel : groupedArguments.node.HasKernel :=
    ⟨by decide, by decide⟩
  have hexit : ((execute groupedArguments).finish none).exitCode = 0 := by
    decide +kernel
  have hlabels : loweredLabels? groupedArguments.node ⟨false, true⟩ =
      some [some "TRANSPOSE", some "PAD", some "TRANSPOSE", some "CONV_2D", some "TRANSPOSE"] := by
    decide +kernel
  obtain ⟨s, result, session, stderr, hsample, hlower, _, hrun, hrules⟩ :=
    shapeRule_of_dumped hkernel hexit
  have hlower : Edit.lowerNode s.node ⟨false, true⟩ ⟨s.graph, []⟩ = .ok result session := hlower
  rw [loweredLabels?, hsample] at hlabels
  dsimp only at hlabels
  rw [hlower] at hlabels
  exact ⟨hrequest, hkernel, hexit, s, result, session, stderr, hsample, hlower, hrun _ hrequest,
    Option.some.inj hlabels, hrules⟩

end GraphLowering.Command
