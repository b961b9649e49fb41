import GraphLowering.Proofs.Answers
import GraphLowering.Proofs.Independence
import GraphLowering.Proofs.Invariant
import GraphLowering.Proofs.Linking
import GraphLowering.Proofs.Refusals
import GraphLowering.Proofs.Tracking

/-!
# What a sample graph is

A description that is not refused has a sample graph if there is memory for its constants
(`convolution_answers`, `batchNorm_answers`). It holds the tensors that the description asks for and
one composite, but no operator (`Sample.Shows`).
-/

namespace GraphLowering

/-! ## Graphs without operators -/

namespace Graph

/-- A graph with the given tensors in which nothing is an operator yet. -/
structure Composed (g : Graph) (tensors : List Tensor) : Prop where
  tensors : g.tensors = tensors
  wellFormed : g.WellFormed
  flows : g.Flows
  composed : ∀ id node, g.node? id = some node → ∀ op, node.kind ≠ .operator op

variable {g : Graph} {tensors : List Tensor} {t : Tensor}

theorem Composed.empty : Graph.empty.Composed [] :=
  ⟨rfl, .empty,
    fun _ he => (nomatch he), fun id _ hnode => nomatch (Table.get?_empty id.index).symm.trans hnode⟩

theorem Composed.tensor? (h : g.Composed tensors) (id : TensorId) :
    g.tensor? id = tensors[id.index]? := by
  unfold Graph.tensor?
  rw [h.tensors]

theorem Composed.isSome_tensor? (h : g.Composed tensors) {id : TensorId}
    (hid : id.index < tensors.length) : (g.tensor? id).isSome := by
  rw [h.tensor?, List.getElem?_eq_getElem hid]
  rfl

theorem Composed.tensorNamed? (h : g.Composed tensors) {name : String}
    (hfresh : ∀ t ∈ tensors, t.name ≠ name) :
    g.tensorNamed? name = none := by
  refine Option.eq_none_iff_forall_ne_some.mpr fun id hid => ?_
  obtain ⟨t, ht, hname⟩ := (h.wellFormed.indexed name id).mp hid
  rw [h.tensor?] at ht
  exact hfresh t (List.mem_of_getElem? ht) hname

theorem Composed.tracked (h : g.Composed tensors) : g.Tracked :=
  ⟨h.wellFormed, fun e he =>
    (h.wellFormed.recorded e.tensor e.source (producer?_eq_some.mp (h.flows e he).1).1).2⟩

end Graph

namespace Edit

open GraphLowering.Graph (Composed)

variable {s : Session} {tensors : List Tensor} {t : Tensor}

theorem addTensor_composed (h : s.graph.Composed tensors) (hfresh : ∀ t' ∈ tensors, t'.name ≠ t.name) :
    ∃ s', addTensor t s = .ok ⟨tensors.length⟩ s' ∧ s'.graph.Composed (tensors ++ [t]) ∧
      s'.graph.producers.get? tensors.length = none := by
  have hname := h.tensorNamed? hfresh
  have hrun : addTensor t s = .ok ⟨tensors.length⟩ ⟨s.graph.pushTensor t, s.events⟩ := by
    unfold addTensor
    rw [run_bind_ok (show Edit.graph s = .ok s.graph s from rfl), hname, h.tensors]
    rfl
  refine ⟨_, hrun, ⟨?_, h.wellFormed.pushTensor hname, h.flows, h.composed⟩, ?_⟩
  · show s.graph.tensors ++ [t] = _
    rw [h.tensors]
  · refine Option.eq_none_iff_forall_ne_some.mpr fun id hid => ?_
    have hlt : tensors.length < s.graph.tensors.length :=
      (h.wellFormed.recorded ⟨tensors.length⟩ id hid).2
    rw [h.tensors] at hlt
    exact Nat.lt_irrefl _ hlt

theorem insertNode_composed (kind : NodeKind) (h : s.graph.Composed tensors)
    (hkind : ∀ op, kind ≠ .operator op)
    (hregistered : ∀ t ∈ kind.inputs ++ kind.outputs, t.index < tensors.length)
    (hunclaimed : ∀ t ∈ kind.outputs, s.graph.producers.get? t.index = none) :
    ∃ s', insertNode kind false s = .ok ⟨s.graph.nextNode⟩ s' ∧ s'.graph.Composed tensors ∧
      (∃ node, s'.graph.node? ⟨s.graph.nextNode⟩ = some node ∧ node.kind = kind) ∧
      ∀ id, id.index < s.graph.nextNode → s'.graph.node? id = s.graph.node? id := by
  have haccepted : s.graph.insertError? kind false = none := by
    refine Graph.insertError?_eq_none.mpr
      ⟨fun t ht => h.isSome_tensor? (hregistered t ht), fun t ht => ?_⟩
    unfold Graph.claimError?
    rw [hunclaimed t ht]
  have haccepts : s.graph.Accepts kind false := ⟨haccepted, fun op hop => absurd hop (hkind op)⟩
  obtain ⟨events, hrun⟩ := insertNode_run haccepted
  obtain ⟨hevolves, _⟩ := (insertNode_evolves haccepts.contract).of_ok hrun
  obtain ⟨hwf, hages, hflows⟩ := hevolves h.wellFormed
  have hgrows : Graph.Grows (fun g e => g.Dataflow e) s.graph (s.graph.insert kind false) :=
    Graph.insert_grows haccepted haccepts.contract fun _ _ hflow _ => hflow
  refine ⟨_, hrun, ⟨?_, hwf, hflows h.flows, fun id node hnode op => ?_⟩,
      ⟨_, Graph.node?_insert_self, rfl⟩, fun id hid =>
    hgrows.node?_of_lt hid⟩
  · exact (Graph.tensors_eq fun id => Graph.tensor?_insert id).trans h.tensors
  · rcases Graph.node?_insert h.wellFormed haccepts hnode with hold | ⟨_, hsame⟩ | ⟨_, _, hconstant⟩
    · exact h.composed id node hold op
    · rw [hsame]
      exact hkind op
    · rw [hconstant]
      exact fun hop => nomatch hop

theorem addInput_composed (h : s.graph.Composed tensors) (hfresh : ∀ t' ∈ tensors, t'.name ≠ t.name) :
    ∃ s', addInput t s = .ok ⟨tensors.length⟩ s' ∧ s'.graph.Composed (tensors ++ [t]) := by
  obtain ⟨s₁, hadd, hs₁, hunclaimed⟩ := addTensor_composed h hfresh
  have hlt : tensors.length < (tensors ++ [t]).length := by simp
  obtain ⟨s₂, hinsert, hs₂, _⟩ :=
    insertNode_composed (.input ⟨tensors.length⟩) hs₁ (fun _ hop => nomatch hop)
      (List.forall_mem_singleton.mpr hlt) (List.forall_mem_singleton.mpr hunclaimed)
  refine ⟨⟨{ s₂.graph with inputs := s₂.graph.inputs ++ [⟨tensors.length⟩] }, s₂.events⟩, ?_, ?_⟩
  · unfold addInput
    rw [run_bind_ok hadd, run_bind_ok hinsert]
    rfl
  · exact ⟨hs₂.tensors, hs₂.wellFormed.setInputs _, hs₂.flows, hs₂.composed⟩

theorem markOutput_composed (id : TensorId) (h : s.graph.Composed tensors)
    (hid : id.index < tensors.length) :
    ∃ marked s', markOutput id s = .ok marked s' ∧ s'.graph.Composed tensors ∧
      ∀ id, id.index < s.graph.nextNode → s'.graph.node? id = s.graph.node? id := by
  obtain ⟨s₁, hinsert, hs₁, _, hkept⟩ := insertNode_composed (.output id) h (fun _ hop => nomatch hop)
    (List.forall_mem_singleton.mpr hid) (fun _ ht => nomatch ht)
  refine ⟨⟨s.graph.nextNode⟩, ⟨{ s₁.graph with outputs := s₁.graph.outputs ++ [id] }, s₁.events⟩,
    ?_, ?_, hkept⟩
  · unfold markOutput
    rw [run_bind_ok hinsert]
    rfl
  · exact ⟨hs₁.tensors, hs₁.wellFormed.setOutputs _, hs₁.flows, hs₁.composed⟩

end Edit

namespace Command

/-! ## Samples -/

structure Sample.Shows (s : Sample) (tensors : List Tensor) (op : Composite) : Prop where
  composed : s.graph.Composed tensors
  node : ∃ node, s.graph.node? s.node = some node ∧ node.kind = .composite op

/-- Registering the output, inserting the composite that computes it and marking the output make a
sample graph. -/
theorem finish_composed {s : Session} {tensors : List Tensor} {y : Tensor}
    (op : TensorId → Composite) (h : s.graph.Composed tensors)
    (hfresh : ∀ t ∈ tensors, t.name ≠ y.name) (houtput : ∀ id, (op id).output = id)
    (hinputs : ∀ t ∈ (op ⟨tensors.length⟩).inputs, t.index < tensors.length) :
    ∃ node s', (do
      let output ← Edit.addTensor y
      let node ← Edit.addComposite (op output)
      let _ ← Edit.markOutput output
      return node : Edit NodeId) s = .ok node s' ∧
          Sample.Shows ⟨s'.graph, node⟩ (tensors ++ [y]) (op ⟨tensors.length⟩) := by
  obtain ⟨s₁, hadd, hs₁, hunclaimed⟩ := Edit.addTensor_composed h hfresh
  have hlength : (tensors ++ [y]).length = tensors.length + 1 := by simp
  obtain ⟨s₂, hinsert, hs₂, ⟨node, hnode, hkind⟩, _⟩ :=
    Edit.insertNode_composed (.composite (op ⟨tensors.length⟩)) hs₁
    (fun _ hop => nomatch hop)
    (by
      intro t ht
      rw [hlength]
      rcases List.mem_append.mp ht with ht | ht
      · exact Nat.lt_succ_of_lt (hinputs t ht)
      · rw [List.mem_singleton.mp ht, houtput]
        exact Nat.lt_succ_self _)
    (by
      intro t ht
      rw [List.mem_singleton.mp ht, houtput]
      exact hunclaimed)
  obtain ⟨marked, s₃, hmark, hs₃, hkept⟩ :=
    Edit.markOutput_composed ⟨tensors.length⟩ hs₂ (by rw [hlength]; exact Nat.lt_succ_self _)
  refine ⟨⟨s₁.graph.nextNode⟩, s₃, ?_, hs₃, node, ?_, hkind⟩
  · rw [run_bind_ok hadd]
    unfold Edit.addComposite
    rw [run_bind_ok hinsert, run_bind_ok hmark]
    rfl
  · rw [hkept _ (hs₂.wellFormed.stored _ node hnode).2]
    exact hnode

/-! ## Tensors -/

variable {small : Prop}

def ioType (quantized : Bool) : ElementType :=
  if quantized then .i8 else .f32

theorem printable_ioType (quantized : Bool) : (ioType quantized).printable := by
  cases quantized <;> rfl

section ioTensor

variable (name : String) (dims : List Nat) (quantized : Bool) (scale : Float32)

@[simp] theorem ioTensor_name : (ioTensor name dims quantized scale).name = name := by
  cases quantized <;> rfl

@[simp] theorem ioTensor_shape : (ioTensor name dims quantized scale).shape = ⟨dims⟩ := by
  cases quantized <;> rfl

@[simp] theorem ioTensor_elementType :
    (ioTensor name dims quantized scale).elementType = ioType quantized := by
  cases quantized <;> rfl

@[simp] theorem ioTensor_isQuantized :
    (ioTensor name dims quantized scale).isQuantized = quantized := by
  cases quantized <;> rfl

theorem ioTensor_not_isConstant : ¬ (ioTensor name dims quantized scale).isConstant := by
  cases quantized <;> exact Bool.false_ne_true

theorem ioTensor_axisFits : (ioTensor name dims quantized scale).AxisFits := by
  intro q hq a ha
  cases quantized with
  | false => cases hq
  | true =>
    cases hq
    cases ha

end ioTensor

structure IsConstant (name : String) (dims : List Nat) (t : Tensor) : Prop where
  name : t.name = name
  shape : t.shape = ⟨dims⟩
  axis : t.AxisFits
  data : ∃ b, t.data = some b ∧ b.fits ∧ b.shape = ⟨dims⟩ ∧ b.size = dims.prod ∧
    b.elementType = t.elementType

theorem isConstant_constant {name : String} {dims : List Nat} {b : Buffer}
    {quantization : Option Quantization} (hfits : b.fits) (hshape : b.shape = ⟨dims⟩)
    (hsize : b.size = dims.prod) (haxis : ∀ q ∈ quantization, ∀ a ∈ q.axis, a < maxSize) :
    IsConstant name dims (.constant name b quantization) :=
  ⟨rfl, hshape, haxis, b, rfl, hfits, hshape, hsize, rfl⟩

theorem IsConstant.dims {name : String} {dims : List Nat} {t : Tensor}
    (h : IsConstant name dims t) : t.shape.dims = dims :=
  congrArg Shape.dims h.shape

theorem IsConstant.printable {name : String} {dims : List Nat} {t : Tensor}
    (h : IsConstant name dims t) : t.elementType.printable := by
  obtain ⟨b, _, _, _, _, htype⟩ := h.data
  rw [← htype]
  exact b.printable_elementType

theorem IsConstant.addressable {name : String} {dims : List Nat} {t : Tensor}
    (h : IsConstant name dims t) : t.shape.addressable := by
  obtain ⟨b, _, hfits, hshape, _⟩ := h.data
  rw [h.shape, ← hshape]
  exact (Bool.and_eq_true_iff.mp hfits).1

theorem IsConstant.elementCount {name : String} {dims : List Nat} {t : Tensor}
    (h : IsConstant name dims t) :
    t.shape.elementCount = dims.prod := by
  rw [Shape.elementCount_of_addressable h.addressable, h.dims]

theorem IsConstant.reshaped {name : String} {dims : List Nat} {t : Tensor}
    (h : IsConstant name dims t) :
    (t.data.bind (·.reshaped? (t.shape.insertAxis Lift.axis))).isSome := by
  obtain ⟨data, hdata, _, _, hsize, _⟩ := h.data
  rw [hdata]
  exact Buffer.reshaped?_insertAxis_isSome.mpr ⟨hsize.trans h.elementCount.symm, h.addressable⟩

theorem weightTensor_answers (dims : List Nat) (quantized : Bool) :
    Answers small (weightTensor dims quantized) True (IsConstant "weight" dims) := by
  have hcount : dims.foldl (· * ·) 1 = dims.prod := List.prod_eq_foldl.symm
  unfold weightTensor
  cases quantized with
  | true =>
    refine Answers.andThen (newBuffer_answers _) fun b ⟨hb, hfits⟩ =>
      Answers.andThen (copies_answers _ _ _) fun scales _ => ?_
    refine Answers.andThen (copies_answers _ _ _) fun zeros _ => Answers.pure ?_
    subst hb
    refine isConstant_constant hfits rfl hcount ?_
    rintro _ ⟨⟩ a ⟨⟩
    decide
  | false =>
    refine Answers.andThen (newBuffer_answers _) fun b ⟨hb, hfits⟩ => Answers.pure ?_
    subst hb
    exact isConstant_constant hfits rfl hcount fun _ hq => nomatch hq

theorem biasTensor_answers (channels : Nat) (quantized transposed : Bool) :
    Answers small (biasTensor channels quantized transposed) True fun t =>
      IsConstant "bias" [channels] t ∧ (transposed → t.elementType = ioType quantized) := by
  have haxis (scale : Float32) :
      ∀ q ∈ (if quantized then some (Quantization.perTensor scale 0) else none),
      ∀ a ∈ q.axis, a < maxSize := by
    intro q hq a ha
    split at hq
    · cases hq
      cases ha
    · cases hq
  unfold biasTensor
  refine Answers.andThen (newBuffer_answers _) fun b ⟨hb, hfits⟩ => Answers.pure ?_
  subst hb
  have hsize : ∀ elements : Elements, elements.size = channels →
      (Buffer.vector elements).size = [channels].prod := by
    intro elements helements
    exact helements.trans (List.prod_singleton).symm
  cases quantized with
  | false => exact ⟨isConstant_constant hfits rfl (hsize _ rfl) (haxis _), fun _ => rfl⟩
  | true =>
    cases transposed with
    | false => exact ⟨isConstant_constant hfits rfl (hsize _ rfl) (haxis _), fun h => nomatch h⟩
    | true => exact ⟨isConstant_constant hfits rfl (hsize _ rfl) (haxis _), fun _ => rfl⟩

/-! ## Convolutions -/

namespace ConvolutionArguments

variable (args : ConvolutionArguments)

/-- All numbers that are given are below 2 ^ 31. -/
structure Small : Prop where
  input : ∀ n ∈ args.input, n < 2 ^ 31
  weight : ∀ n ∈ args.weight, n < 2 ^ 31
  stride : ∀ n ∈ args.stride, n < 2 ^ 31
  padding : ∀ n ∈ args.padding, n < 2 ^ 31
  dilation : ∀ n ∈ args.dilation, n < 2 ^ 31
  outputPadding : ∀ n ∈ args.outputPadding, n < 2 ^ 31
  groups : args.groups < 2 ^ 31

def spatial : Nat :=
  args.input.length - 2

def onAxis (i : Nat) : AxisParams where
  size := args.input.getD (i + 2) 0
  kernel := args.weight.getD (i + 2) 0
  stride := valueOn args.stride 1 i
  padding := valueOn args.padding 0 i
  dilation := valueOn args.dilation 1 i
  outputPadding := valueOn args.outputPadding 0 i

def axes : List AxisParams :=
  (List.range args.spatial).map args.onAxis

def params : ConvParams where
  stride := args.axes.map (·.stride)
  padding := args.axes.map (·.padding)
  dilation := args.axes.map (·.dilation)
  outputPadding := args.axes.map (·.outputPadding)
  groups := args.groups

def outputChannels (transposed : Bool) : Nat :=
  if transposed then args.weight.getD 1 0 * args.groups else args.weight.getD 0 0

def outputDims (transposed : Bool) : List Nat :=
  args.input.getD 0 0 :: args.outputChannels transposed :: args.axes.map (·.result transposed)

def inputTensor : Tensor :=
  ioTensor "x" args.input args.quantized inputScale

def outputTensor (transposed : Bool) : Tensor :=
  ioTensor "y" (args.outputDims transposed) args.quantized outputScale

@[simp] theorem inputTensor_name : args.inputTensor.name = "x" :=
  ioTensor_name ..

@[simp] theorem inputTensor_dims : args.inputTensor.shape.dims = args.input :=
  congrArg Shape.dims (ioTensor_shape ..)

@[simp] theorem outputTensor_name (transposed : Bool) : (args.outputTensor transposed).name = "y" :=
  ioTensor_name ..

@[simp] theorem outputTensor_dims (transposed : Bool) :
    (args.outputTensor transposed).shape.dims = args.outputDims transposed :=
  congrArg Shape.dims (ioTensor_shape ..)

/-- The node that is described. The input and the weight are the first tensors, the bias comes next
if there is one, and the output is the last. -/
def composite (transposed : Bool) : Composite :=
  let bias : Option TensorId := if args.bias then some ⟨2⟩ else none
  let output : TensorId := ⟨if args.bias then 3 else 2⟩
  if transposed then .transposedConvolution ⟨⟨0⟩, ⟨1⟩, bias, output, args.params⟩
  else .convolution ⟨⟨0⟩, ⟨1⟩, bias, output, args.params, .none⟩

/-- The description of a convolution of which something is left on every axis. -/
structure Described (transposed : Bool) : Prop where
  rank : 3 ≤ args.input.length
  sameRank : args.weight.length = args.input.length
  stride : CoversAxes args.stride args.spatial
  padding : CoversAxes args.padding args.spatial
  dilation : CoversAxes args.dilation args.spatial
  outputPadding : CoversAxes args.outputPadding args.spatial
  output : ∀ a ∈ args.axes, a.HasOutput transposed

variable {args}

theorem valueOn_lt {values : List Nat} {default : Nat} (h : ∀ n ∈ values, n < 2 ^ 31)
    (hdefault : default < 2 ^ 31) (i : Nat) :
    valueOn values default i < 2 ^ 31 := by
  unfold valueOn
  split
  · exact hdefault
  · exact h _ List.mem_cons_self
  · exact getD_lt h hdefault i

theorem Small.axes (h : args.Small) : ∀ a ∈ args.axes, a.Small := by
  intro a ha
  obtain ⟨i, _, rfl⟩ := List.mem_map.mp ha
  exact {
    size := getD_lt h.input (by decide) _
    kernel := getD_lt h.weight (by decide) _
    stride := valueOn_lt h.stride (by decide) i
    padding := valueOn_lt h.padding (by decide) i
    dilation := valueOn_lt h.dilation (by decide) i
    outputPadding := valueOn_lt h.outputPadding (by decide) i }

theorem spatialAxes_eq (hrank : args.weight.length = args.input.length) :
    spatialAxes args.input args.weight args.params = args.axes := by
  refine List.ext_getElem ?_ fun i hi hi' => ?_
  · simp [spatialAxes, params, axes, spatial, hrank]
  · have hspatial : i < args.input.length - 2 := by simpa [axes, spatial] using hi'
    have hinput : 2 + i < args.input.length := by omega
    have hweight : 2 + i < args.weight.length := by omega
    simp [spatialAxes, params, axes, onAxis, Nat.add_comm i 2,
      List.getElem?_eq_getElem hinput, List.getElem?_eq_getElem hweight]

end ConvolutionArguments

theorem outputShape_answers {args : ConvolutionArguments} (transposed : Bool)
    (hrank : args.weight.length = args.input.length) :
    Answers args.Small (outputShape args.input args.weight args.params transposed)
      (∀ a ∈ args.axes, a.HasOutput transposed)
      (· = args.outputDims transposed) := by
  have hchannels : Answers args.Small (if transposed
      then mulSizes (args.weight.getD 1 0) args.params.groups else .ok (args.weight.getD 0 0)) True
      (· = args.outputChannels transposed) := by
    cases transposed with
    | false => exact .pure rfl
    | true =>
      refine mulSizes_answers fun hsmall => ?_
      have hwidth : args.weight.getD 1 0 < 2 ^ 31 := getD_lt hsmall.weight (by decide) 1
      have hproduct := AxisParams.mul_lt_of_small hwidth hsmall.groups
      show args.weight.getD 1 0 * args.groups ≤ maxSize
      unfold maxSize
      omega
  rw [outputShape_eq, args.spatialAxes_eq hrank]
  refine Answers.andThen hchannels fun channels hchannels => ?_
  refine (Answers.bind (spatialSizes_answers transposed args.axes (fun hsmall => hsmall.axes) 0)
    fun sizes hsizes => Answers.pure ?_).mono (and_iff_left trivial) fun _ _ hdims => hdims
  rw [hchannels, hsizes]
  rfl

theorem fresh_of_nodup (tensors : List Tensor) {t : Tensor} {rest : List Tensor}
    (h : ((tensors ++ t :: rest).map (·.name)).Nodup) : ∀ t' ∈ tensors, t'.name ≠ t.name := by
  rw [List.map_append, List.nodup_append] at h
  exact fun t' ht' => h.2.2 _ (List.mem_map_of_mem ht') _ List.mem_cons_self

theorem build_weighted {x w y : Tensor} (b : Option Tensor)
    (op : TensorId → TensorId → Option TensorId → TensorId → Composite)
    (hnames : ((x :: w :: b.toList ++ [y]).map (·.name)).Nodup)
    (hinputs : ∀ input weight bias output, (op input weight bias output).inputs =
      input :: weight :: bias.toList)
    (houtput : ∀ input weight bias output, (op input weight bias output).output = output) :
    ∃ s, build (do
      let input ← Edit.addInput x
      let weight ← Edit.addTensor w
      let bias ← addOptional b
      let output ← Edit.addTensor y
      let node ← Edit.addComposite (op input weight bias output)
      let _ ← Edit.markOutput output
      return node) = .ok s ∧
      s.Shows (x :: w :: b.toList ++ [y])
          (op ⟨0⟩ ⟨1⟩ (b.map fun _ => ⟨2⟩) ⟨(x :: w :: b.toList).length⟩) := by
  obtain ⟨s₁, hinput, hs₁⟩ :=
    Edit.addInput_composed (s := ⟨.empty, []⟩) (t := x) Graph.Composed.empty fun _ ht => nomatch ht
  obtain ⟨s₂, hweight, hs₂, _⟩ := Edit.addTensor_composed (t := w) hs₁ (fresh_of_nodup [x] hnames)
  have hbias : ∃ s₃, addOptional b s₂ = .ok (b.map fun _ => ⟨2⟩) s₃ ∧
      s₃.graph.Composed (x :: w :: b.toList) := by
    cases b with
    | none => exact ⟨s₂, rfl, hs₂⟩
    | some t =>
      obtain ⟨s₃, hadd, hs₃, _⟩ := Edit.addTensor_composed (t := t) hs₂ (fresh_of_nodup [x, w] hnames)
      exact ⟨s₃, run_bind_ok hadd, hs₃⟩
  obtain ⟨s₃, hbias, hs₃⟩ := hbias
  obtain ⟨node, s₄, hfinish, hshows⟩ :=
    finish_composed (op ⟨0⟩ ⟨1⟩ (b.map fun _ => ⟨2⟩)) hs₃ (fresh_of_nodup _ hnames)
    (houtput _ _ _) (by
      rw [hinputs]
      cases b <;> simp)
  refine ⟨⟨s₄.graph, node⟩, ?_, hshows⟩
  unfold build
  rw [(run_bind_ok hinput).trans ((run_bind_ok hweight).trans ((run_bind_ok hbias).trans hfinish))]

structure Sample.ShowsConvolution (s : Sample) (args : ConvolutionArguments)
    (transposed : Bool) (w : Tensor) (b : Option Tensor) :
    Prop where
  weight : IsConstant "weight" args.weight w
  biased : b.isSome = args.bias
  bias : ∀ t ∈ b, IsConstant "bias" [args.outputChannels transposed] t ∧
    (transposed → t.elementType = ioType args.quantized)
  shows : s.Shows (args.inputTensor :: w :: b.toList ++ [args.outputTensor transposed])
    (args.composite transposed)

namespace Sample.ShowsConvolution

variable {s : Sample} {args : ConvolutionArguments} {transposed : Bool} {w : Tensor} {b : Option Tensor}

theorem tensor?_input (h : s.ShowsConvolution args transposed w b) :
    s.graph.tensor? ⟨0⟩ = some args.inputTensor :=
  h.shows.composed.tensor? _

theorem tensor?_weight (h : s.ShowsConvolution args transposed w b) : s.graph.tensor? ⟨1⟩ = some w :=
  h.shows.composed.tensor? _

theorem tensor?_bias (h : s.ShowsConvolution args transposed w b) {id : TensorId}
    (hid : id ∈ if args.bias then some ⟨2⟩ else none) :
    ∃ t ∈ b, s.graph.tensor? id = some t := by
  have hbiased := h.biased
  split at hid
  · next hbias =>
    obtain ⟨t, rfl⟩ := Option.isSome_iff_exists.mp (hbiased.trans hbias)
    cases hid
    exact ⟨t, rfl, h.shows.composed.tensor? _⟩
  · cases hid

theorem tensor?_output (h : s.ShowsConvolution args transposed w b) :
    s.graph.tensor? ⟨if args.bias then 3 else 2⟩ = some (args.outputTensor transposed) := by
  rw [h.shows.composed.tensor?, ← h.biased]
  cases b <;> rfl

end Sample.ShowsConvolution

theorem ConvolutionArguments.build_answers {args : ConvolutionArguments} (transposed : Bool)
    {w : Tensor} {b : Option Tensor} (hweight : IsConstant "weight" args.weight w)
    (hbiased : b.isSome = args.bias)
    (hbias : ∀ t ∈ b, IsConstant "bias" [args.outputChannels transposed] t ∧
      (transposed → t.elementType = ioType args.quantized)) :
    Answers small (build do
      let input ← Edit.addInput args.inputTensor
      let weight ← Edit.addTensor w
      let bias ← addOptional b
      let output ← Edit.addTensor (args.outputTensor transposed)
      let node ← Edit.addComposite
        (if transposed
          then .transposedConvolution { input, weight, bias, output, params := args.params }
        else .convolution { input, weight, bias, output, params := args.params, activation := .none })
      let _ ← Edit.markOutput output
      return node) True fun s => ∃ w b, s.ShowsConvolution args transposed w b := by
  have hnames :
      ((args.inputTensor :: w :: b.toList ++ [args.outputTensor transposed]).map (·.name)).Nodup := by
    cases b with
    | none => simp [hweight.name]
    | some t => simp [hweight.name, (hbias t rfl).1.name]
  obtain ⟨s, hbuild, hshows⟩ := build_weighted b (fun input weight bias output =>
    if transposed then .transposedConvolution ⟨input, weight, bias, output, args.params⟩
    else .convolution ⟨input, weight, bias, output, args.params, .none⟩) hnames
    (fun _ _ _ _ => by cases transposed <;> rfl) (fun _ _ _ _ => by cases transposed <;> rfl)
  rw [hbuild]
  refine Answers.pure ⟨w, b, hweight, hbiased, hbias, ?_⟩
  unfold composite
  rw [← hbiased]
  cases b <;> exact hshows

theorem convolution_answers (args : ConvolutionArguments) (transposed : Bool) :
    Answers args.Small (convolution args transposed) (args.Described transposed) fun s =>
      ∃ w b, s.ShowsConvolution args transposed w b := by
  unfold convolution
  by_cases hranks : args.input.length < 3 ∨ args.weight.length ≠ args.input.length
  · simp only [hranks]
    refine .refused fun hdescribed => ?_
    rcases hranks with hrank | hrank
    · exact Nat.not_lt.mpr hdescribed.rank hrank
    · exact hrank hdescribed.sameRank
  · obtain ⟨hrank, hsame⟩ := not_or.mp hranks
    have hmet : args.Described transposed ↔
        CoversAxes args.stride args.spatial ∧ CoversAxes args.padding args.spatial ∧
        CoversAxes args.dilation args.spatial ∧ CoversAxes args.outputPadding args.spatial ∧
        ∀ a ∈ args.axes, a.HasOutput transposed :=
      ⟨fun hd => ⟨hd.stride, hd.padding, hd.dilation, hd.outputPadding, hd.output⟩,
        fun ⟨h₁, h₂, h₃, h₄, h₅⟩ =>
        ⟨Nat.not_lt.mp hrank, not_not.mp hsame, h₁, h₂, h₃, h₄, h₅⟩⟩
    simp only [hranks, if_false]
    rw [hmet]
    refine Answers.bind (perSpatialAxis_answers _ _ _ _) fun stride hstride => ?_
    refine Answers.bind (perSpatialAxis_answers _ _ _ _) fun padding hpadding => ?_
    refine Answers.bind (perSpatialAxis_answers _ _ _ _) fun dilation hdilation => ?_
    refine Answers.bind (perSpatialAxis_answers _ _ _ _) fun outputPadding houtputPadding => ?_
    have hparams : (⟨stride, padding, dilation, outputPadding, args.groups⟩ : ConvParams) =
        args.params := by
      rw [hstride, hpadding, hdilation, houtputPadding]
      simp only [ConvolutionArguments.params, ConvolutionArguments.axes, List.map_map]
      rfl
    rw [hparams]
    refine (Answers.bind (outputShape_answers transposed (not_not.mp hsame)) fun dims hdims =>
      ?_).mono (and_iff_left trivial) fun _ _ hs => hs
    subst hdims
    refine Answers.andThen (weightTensor_answers _ _) fun w hw => ?_
    cases hbias : args.bias with
    | false => exact args.build_answers transposed hw hbias.symm fun _ ht => nomatch ht
    | true =>
      have hsome : Answers args.Small (some <$>
          biasTensor (args.outputChannels transposed) args.quantized transposed) True fun b =>
          b.isSome = args.bias ∧ ∀ t ∈ b, IsConstant "bias" [args.outputChannels transposed] t ∧
            (transposed → t.elementType = ioType args.quantized) := by
        rw [map_eq_pure_bind]
        refine Answers.andThen (biasTensor_answers _ _ _) fun t ht => Answers.pure ⟨hbias.symm, ?_⟩
        rintro _ ⟨⟩
        exact ht
      exact Answers.andThen hsome fun b ⟨hbiased, hb⟩ => args.build_answers transposed hw hbiased hb

/-! ## Normalizations -/

def statistic (channels : Nat) (name : String) (value : Float32) : Tensor :=
  .constant name (.vector (.f32 (.uniform channels value))) none

def statistics (channels : Nat) : List Tensor :=
  [statistic channels "bn.weight" 1, statistic channels "bn.bias" 0,
    statistic channels "bn.running_mean" 0,
    statistic channels "bn.running_var" 1]

def BatchNormArguments.inputTensor (args : BatchNormArguments) : Tensor :=
  ioTensor "x" args.input args.quantized inputScale

def BatchNormArguments.outputTensor (args : BatchNormArguments) : Tensor :=
  ioTensor "y" args.input args.quantized outputScale

def BatchNormArguments.composite (args : BatchNormArguments) : Composite :=
  .batchNorm ⟨⟨0⟩, ⟨1⟩, ⟨2⟩, ⟨3⟩, ⟨4⟩, ⟨5⟩, args.epsilon, .none⟩

structure Sample.ShowsNormalization (s : Sample) (args : BatchNormArguments)
    (channels : Nat) : Prop where
  channelCount : args.input[1]? = some channels
  fits : (Buffer.vector (.f32 (.uniform channels 1))).fits
  shows : s.Shows (args.inputTensor :: statistics channels ++ [args.outputTensor]) args.composite

theorem statistic_answers (channels : Nat) (name : String) (value : Float32) :
    Answers small
      (do return .constant name (← newBuffer (.vector (.f32 (.uniform channels value)))) none) True
      fun t =>
      t = statistic channels name value ∧ (Buffer.vector (.f32 (.uniform channels value))).fits := by
  refine Answers.andThen (newBuffer_answers _) fun b ⟨hb, hfits⟩ => Answers.pure ⟨?_, hfits⟩
  rw [hb]
  rfl

theorem build_normalization (args : BatchNormArguments) (channels : Nat) :
    ∃ s, build (do
      let input ← Edit.addInput args.inputTensor
      let weight ← Edit.addTensor (statistic channels "bn.weight" 1)
      let bias ← Edit.addTensor (statistic channels "bn.bias" 0)
      let mean ← Edit.addTensor (statistic channels "bn.running_mean" 0)
      let variance ← Edit.addTensor (statistic channels "bn.running_var" 1)
      let output ← Edit.addTensor args.outputTensor
      let node ← Edit.addComposite
        (.batchNorm
          { input, weight, bias, mean, variance, output, epsilon := args.epsilon, activation := .none })
      let _ ← Edit.markOutput output
      return node) = .ok s ∧
      s.Shows (args.inputTensor :: statistics channels ++ [args.outputTensor]) args.composite := by
  have hnames :
      ((args.inputTensor :: statistics channels ++ [args.outputTensor]).map (·.name)).Nodup := by
    simp [BatchNormArguments.inputTensor, BatchNormArguments.outputTensor,
      statistics, statistic, Tensor.constant]
  generalize args.inputTensor = x at hnames ⊢
  generalize args.outputTensor = y at hnames ⊢
  obtain ⟨s₁, hinput, hs₁⟩ :=
    Edit.addInput_composed (s := ⟨.empty, []⟩) (t := x) Graph.Composed.empty fun _ ht => nomatch ht
  obtain ⟨s₂, hweight, hs₂, _⟩ := Edit.addTensor_composed hs₁ (fresh_of_nodup [x] hnames)
  obtain ⟨s₃, hbias, hs₃, _⟩ :=
    Edit.addTensor_composed hs₂ (fresh_of_nodup [x, statistic channels "bn.weight" 1] hnames)
  obtain ⟨s₄, hmean, hs₄, _⟩ :=
    Edit.addTensor_composed hs₃ (fresh_of_nodup (x :: (statistics channels).take 2) hnames)
  obtain ⟨s₅, hvariance, hs₅, _⟩ :=
    Edit.addTensor_composed hs₄ (fresh_of_nodup (x :: (statistics channels).take 3) hnames)
  obtain ⟨node, s₆, hfinish, hshows⟩ := finish_composed
    (fun output => .batchNorm ⟨⟨0⟩, ⟨1⟩, ⟨2⟩, ⟨3⟩, ⟨4⟩, output, args.epsilon, .none⟩) hs₅
    (fresh_of_nodup (x :: statistics channels) hnames) (fun _ => rfl) (by simp [Composite.inputs])
  refine ⟨⟨s₆.graph, node⟩, ?_, hshows⟩
  unfold build
  rw [(run_bind_ok hinput).trans ((run_bind_ok hweight).trans
    ((run_bind_ok hbias).trans ((run_bind_ok hmean).trans ((run_bind_ok hvariance).trans hfinish))))]

theorem batchNorm_answers (args : BatchNormArguments) :
    Answers small (batchNorm args) (2 ≤ args.input.length) fun s =>
      ∃ channels, s.ShowsNormalization args channels := by
  unfold batchNorm
  cases hchannels : args.input[1]? with
  | none => exact .refused (Nat.not_le.mpr (Nat.lt_succ_of_le (List.getElem?_eq_none_iff.mp hchannels)))
  | some channels =>
    obtain ⟨hrank, _⟩ := List.getElem?_eq_some_iff.mp hchannels
    rw [iff_true_intro (show 2 ≤ args.input.length from hrank)]
    refine Answers.andThen (statistic_answers channels "bn.weight" 1) fun weight ⟨hweight, hfits⟩ => ?_
    refine Answers.andThen (statistic_answers channels "bn.bias" 0) fun bias ⟨hbias, _⟩ => ?_
    refine Answers.andThen (statistic_answers channels "bn.running_mean" 0) fun mean ⟨hmean, _⟩ => ?_
    refine Answers.andThen (statistic_answers channels "bn.running_var" 1)
      fun variance ⟨hvariance, _⟩ => ?_
    subst hweight hbias hmean hvariance
    obtain ⟨s, hbuild, hshows⟩ := build_normalization args channels
    have hanswer : Answers small (.ok s) True fun s => ∃ channels, s.ShowsNormalization args channels :=
      .pure ⟨channels, hchannels, hfits, hshows⟩
    rw [← hbuild] at hanswer
    exact hanswer

end Command

end GraphLowering
