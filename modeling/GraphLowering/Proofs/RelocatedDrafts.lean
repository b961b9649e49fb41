import GraphLowering.Proofs.Outlines
import GraphLowering.Proofs.Relocation

/-!
# Relocated chains

The functions of a draft, run on a graph with more tensors. They return the same operators, with the
numbers of the tensors moved (`Operator.rename`).
-/

namespace GraphLowering

def Operator.rename (f : TensorId → TensorId) (op : Operator) : Operator :=
  ⟨op.kind, op.inputs.map f, op.outputs.map f⟩

def Layout.Bracket.rename (f : TensorId → TensorId) (b : Layout.Bracket) : Layout.Bracket :=
  ⟨b.enter.rename f, f b.input, f b.output, b.leave.rename f⟩

def Lifted.rename (f : TensorId → TensorId) (l : Lifted) : Lifted :=
  ⟨f l.input, f l.weight, f l.output, l.params, l.before.map (Operator.rename f),
    l.after.map (Operator.rename f)⟩

def TransposedConvolution.Crop.rename (f : TensorId → TensorId) (c : Crop) : Crop :=
  ⟨c.fullShape, f c.uncropped, f c.begin, f c.size⟩

variable {base extra : List Tensor}

open Comparison (sessions draftings)

namespace Layout

theorem permutationOperand_relocates (perm : List Nat) :
    Relocates (draftings base extra) (permutationOperand perm)
      (permutationOperand perm) (TensorId.move base extra) :=
  Draft.int32Operand_relocates _

theorem channelLastCopy_relocates (lowering : String) (t : TensorId) :
    Relocates (draftings base extra) (channelLastCopy lowering t)
      (channelLastCopy lowering (t.move base extra))
      (TensorId.move base extra) := by
  unfold channelLastCopy
  refine (Draft.tensor_relocates t).bind fun x => .andThen (.orReject _ _) fun shape => ?_
  exact Draft.intermediate_relocates _ _

theorem bracket_relocates (lowering : String) (input output : TensorId) :
    Relocates (draftings base extra) (bracket lowering input output)
      (bracket lowering (input.move base extra) (output.move base extra))
      (Bracket.rename (TensorId.move base extra)) := by
  unfold bracket
  refine (permutationOperand_relocates _).bind fun toFirst =>
    (permutationOperand_relocates _).bind fun toLast => ?_
  refine (channelLastCopy_relocates _ _).bind fun innerInput =>
    (channelLastCopy_relocates _ _).bind fun innerOutput => ?_
  exact .pure _

theorem permute_relocates (lowering : String) (source : TensorId) (perm : List Nat) :
    Relocates (draftings base extra) (permute lowering source perm)
      (permute lowering (source.move base extra) perm)
      (Prod.map (Operator.rename (TensorId.move base extra)) (TensorId.move base extra)) := by
  unfold permute
  refine (permutationOperand_relocates _).bind fun p => (Draft.tensor_relocates source).bind fun t => ?_
  refine .andThen (.orReject _ _) fun shape => (Draft.intermediate_relocates _ _).bind fun result => ?_
  exact .pure _

end Layout

namespace Lift

theorem uint32_uniform (lowering parameter : String) (value : Nat) :
    Uniform (uint32 lowering parameter value) :=
  .ite (.pure _) (.reject _)

theorem paddedSize_uniform (lowering : String) (size padding : Nat) :
    Uniform (paddedSize lowering size padding) :=
  .ite (.pure _) (.reject _)

theorem perAxis_uniform (entries : List Nat) : Uniform (perAxis entries) :=
  .bind (.entry _ _) fun _ => .bind (.entry _ _) fun _ => .pure _

theorem quantization_uniform (q : Option Quantization) : Uniform (quantization q) := by
  cases q with
  | none => exact .pure _
  | some q => exact .bind (.orFault _ _) fun _ => .pure _

theorem reshape_relocates (lowering : String) (source : TensorId) (shape : Shape) (result : TensorId) :
    Relocates (draftings base extra) (reshape lowering source shape result)
      (reshape lowering (source.move base extra) shape (result.move base extra))
      (Operator.rename (TensorId.move base extra)) := by
  unfold reshape
  refine .andThen (.orReject _ _) fun newShape => (Draft.int32Operand_relocates _).bind fun p => ?_
  exact .pure _

theorem expand_relocates (lowering : String) (t : TensorId) :
    Relocates (draftings base extra) (expand lowering t) (expand lowering (t.move base extra))
      (Prod.map (Operator.rename (TensorId.move base extra)) (TensorId.move base extra)) := by
  unfold expand
  refine (Draft.tensor_relocates t).bind fun x => .andThen (quantization_uniform _) fun q => ?_
  refine Draft.owner_relocates.bind fun owner =>
    (Draft.namedIntermediate_relocates _ _ _).bind fun expanded => ?_
  exact (reshape_relocates _ _ _ _).bind fun op => .pure _

theorem expandConstant_relocates (lowering : String) (t : TensorId) :
    Relocates (draftings base extra) (expandConstant lowering t)
      (expandConstant lowering (t.move base extra))
      (TensorId.move base extra) := by
  unfold expandConstant
  refine (Draft.tensor_relocates t).bind fun x => .andThen (.orReject _ _) fun data => ?_
  refine .andThen (quantization_uniform _) fun q => Draft.owner_relocates.bind fun owner => ?_
  exact Draft.namedOperand_relocates _ _ _

theorem expandWeight_relocates (lowering : String) (t : TensorId) :
    Relocates (draftings base extra) (expandWeight lowering t)
      (expandWeight lowering (t.move base extra))
      (Prod.map (List.map (Operator.rename (TensorId.move base extra)))
        (TensorId.move base extra)) := by
  unfold expandWeight
  refine (Draft.tensor_relocates t).bind fun x => .ite (fun _ => ?_) fun _ => ?_
  · exact (expandConstant_relocates _ _).bind fun expanded => .pure _
  · exact (expand_relocates _ _).bind fun r => .pure _

theorem collapse_relocates (lowering : String) (t : TensorId) :
    Relocates (draftings base extra) (collapse lowering t) (collapse lowering (t.move base extra))
      (Prod.map (Operator.rename (TensorId.move base extra)) (TensorId.move base extra)) := by
  unfold collapse
  refine (Draft.tensor_relocates t).bind fun x => .andThen (quantization_uniform _) fun q => ?_
  refine Draft.owner_relocates.bind fun owner =>
    (Draft.namedIntermediate_relocates _ _ _).bind fun expanded => ?_
  exact (reshape_relocates _ _ _ _).bind fun op => .pure _

theorem rank_relocates (lowering : String) (input weight output : TensorId) :
    Relocates (draftings base extra) (rank lowering input weight output)
      (rank lowering (input.move base extra) (weight.move base extra) (output.move base extra)) id := by
  unfold rank
  refine (Draft.tensor_relocates input).bind fun x => (Draft.tensor_relocates weight).bind fun w => ?_
  refine (Draft.tensor_relocates output).bind fun y => .ite (fun _ => .reject _ _) fun _ => ?_
  exact .ite (fun _ => .reject _ _) fun _ => .pure _

end Lift

theorem Draft.liftConvolution_relocates (lowering : String) (input weight output : TensorId)
    (params : ConvParams) :
    Relocates (draftings base extra) (liftConvolution lowering input weight output params)
      (liftConvolution lowering (input.move base extra) (weight.move base extra)
        (output.move base extra) params)
      (Lifted.rename (TensorId.move base extra)) := by
  unfold liftConvolution
  refine (Lift.rank_relocates _ _ _ _).bind fun rank => ?_
  rw [id_eq]
  cases Lift.parameterObjection? params (rank - 2) with
  | some objection => exact .reject _ _
  | none =>
    refine .ite (fun _ => .pure _) fun _ => ?_
    refine (Lift.expand_relocates _ _).bind fun x => (Lift.expandWeight_relocates _ _).bind fun w => ?_
    exact (Lift.collapse_relocates _ _).bind fun y => .pure _

/-! ## Convolution -/

namespace Convolution

theorem zeroBias_relocates (channels : Nat) (inputType : ElementType)
    (input weight : Option Quantization) :
    Relocates (draftings base extra) (zeroBias channels inputType input weight)
      (zeroBias channels inputType input weight)
      (TensorId.move base extra) := by
  unfold zeroBias
  refine .ite (fun _ => ?_) fun _ => ?_
  · exact .andThen (.allocate _) fun data => Draft.operand_relocates _ _
  · exact .andThen (.allocate _) fun data => Draft.operand_relocates _ _

theorem channelBias_relocates (t : TensorId) (channels : Nat) :
    Relocates (draftings base extra) (channelBias t channels) (channelBias (t.move base extra) channels)
      (TensorId.move base extra) := by
  unfold channelBias
  refine (Draft.tensor_relocates t).bind fun x =>
    .ite (fun _ => .pure t) fun _ => .ite (fun _ => .reject _ _) fun _ => ?_
  exact .andThen (.orReject _ _) fun data =>
    .andThen (.allocate _) fun copies => Draft.operand_relocates _ _

theorem totalChannels_uniform (groupWidth groups : Nat) : Uniform (totalChannels groupWidth groups) :=
  .ite (.pure _) (.faulty _)

theorem warnings_relocates (options : Options) (depthwise : Bool)
    (inputChannels groupWidth groups : Nat) :
    Relocates (draftings base extra) (warnings options depthwise inputChannels groupWidth groups)
      (warnings options depthwise inputChannels groupWidth groups) id := by
  unfold warnings grouped
  refine .ite (fun _ => Draft.owner_relocates.bind fun owner => ?_) fun _ => .of_uniform (.pure _)
  exact .ite (fun _ => .reject _ _) fun _ =>
    (Draft.note_relocates _ _).bind fun _ => .of_uniform (.pure _)

theorem pad_relocates (t : TensorId) (padding : List Nat) :
    Relocates (draftings base extra) (pad t padding) (pad (t.move base extra) padding)
      (Prod.map (Operator.rename (TensorId.move base extra)) (TensorId.move base extra)) := by
  unfold pad
  refine .andThen (Lift.perAxis_uniform _) fun p => (Draft.tensor_relocates t).bind fun x => ?_
  refine .andThen (.entry _ _) fun rows => .andThen (Lift.paddedSize_uniform _ _ _) fun height => ?_
  refine .andThen (.entry _ _) fun columns => .andThen (Lift.paddedSize_uniform _ _ _) fun width => ?_
  refine .andThen (.orReject _ _) fun ph => .andThen (.orReject _ _) fun pw => ?_
  refine (Draft.intermediate_relocates _ _).bind fun padded =>
    (Draft.operand_relocates _ _).bind fun paddings => ?_
  exact .pure _

theorem padIfNeeded_relocates (t : TensorId) (params : ConvParams) :
    Relocates (draftings base extra) (padIfNeeded t params) (padIfNeeded (t.move base extra) params)
      (Prod.map (List.map (Operator.rename (TensorId.move base extra)))
        (TensorId.move base extra)) := by
  unfold padIfNeeded
  refine .ite (fun _ => ?_) fun _ => .pure _
  exact (pad_relocates _ _).bind fun r => .pure _

theorem biasOperand_relocates (n : Convolution) (hbias : ∀ t ∈ n.bias, t.index < base.length)
    (channels : Nat) (x w : Tensor) :
    Relocates (draftings base extra) (n.biasOperand channels x w)
      (n.biasOperand channels x w) (TensorId.move base extra) := by
  unfold biasOperand
  cases hn : n.bias with
  | none => exact zeroBias_relocates _ _ _ _
  | some t =>
    have hbias' : Relocates (draftings base extra) _ _ _ := channelBias_relocates t channels
    rw [TensorId.move_of_lt (hbias t hn)] at hbias'
    exact hbias'

def Survey.rename (f : TensorId → TensorId) (q : Survey) : Survey :=
  { q with lifted := q.lifted.rename f }

theorem survey_relocates (n : Convolution) (hinput : n.input.index < base.length)
    (hweight : n.weight.index < base.length) (houtput : n.output.index < base.length) :
    Relocates (draftings base extra) n.survey n.survey (Survey.rename (TensorId.move base extra)) := by
  have hlift : Relocates (draftings base extra) _ _ _ :=
    Draft.liftConvolution_relocates lowering n.input n.weight n.output n.params
  rw [TensorId.move_of_lt hinput, TensorId.move_of_lt hweight, TensorId.move_of_lt houtput] at hlift
  unfold survey
  refine hlift.bind fun l =>
    (Draft.tensor_relocates _).bind fun x => .andThen (.entry _ _) fun inputChannels => ?_
  refine (Draft.tensor_relocates _).bind fun w => .andThen (.entry _ _) fun outputChannels => ?_
  refine .andThen (.entry _ _) fun groupWidth => .andThen (totalChannels_uniform _ _) fun channels => ?_
  refine .ite (fun _ => .reject_bind _ _ _ _) fun _ =>
    .andThen (Lift.perAxis_uniform _) fun stride => ?_
  refine .andThen (Lift.uint32_uniform _ _ _) fun sh =>
    .andThen (Lift.uint32_uniform _ _ _) fun sw => ?_
  refine .andThen (Lift.perAxis_uniform _) fun dilation => ?_
  exact .andThen (Lift.uint32_uniform _ _ _) fun dh =>
    .andThen (Lift.uint32_uniform _ _ _) fun dw => .pure _

theorem assemble_relocates (n : Convolution) (hbias : ∀ t ∈ n.bias, t.index < base.length)
    (q : Survey) :
    Relocates (draftings base extra) (n.assemble q) (n.assemble (q.rename (TensorId.move base extra)))
      (List.map (Operator.rename (TensorId.move base extra))) := by
  rw [assemble_eq, assemble_eq]
  refine (Layout.bracket_relocates _ _ _).bind fun b =>
    (padIfNeeded_relocates _ _).bind fun padding => ?_
  refine (Layout.permute_relocates _ _ _).bind fun reorder =>
    (biasOperand_relocates n hbias _ _ _).bind fun bias => ?_
  refine .pure_of_eq ?_
  simp only [Survey.rename, Lifted.rename, Layout.Bracket.rename,
    Operator.rename, List.map_append, List.map_cons, List.map_nil]
  rfl

theorem draft_relocates (n : Convolution) (options : Options) (hinput : n.input.index < base.length)
    (hweight : n.weight.index < base.length) (hbias : ∀ t ∈ n.bias, t.index < base.length)
    (houtput : n.output.index < base.length) :
    Relocates (draftings base extra) (n.draft options) (n.draft options)
      (Prod.map (List.map (Operator.rename (TensorId.move base extra))) id) := by
  unfold draft
  refine (n.survey_relocates hinput hweight houtput).bind fun q =>
    (warnings_relocates _ _ _ _ _).bind fun diagnostics => ?_
  exact (n.assemble_relocates hbias q).bind fun chain => .pure_of_eq rfl

end Convolution

/-! ## Transposed convolution -/

namespace TransposedConvolution

theorem crop_relocates (out : Tensor) (padding : List Nat) :
    Relocates (draftings base extra) (crop out padding) (crop out padding)
      (Crop.rename (TensorId.move base extra)) := by
  unfold crop
  refine .andThen (Lift.perAxis_uniform _) fun p => ?_
  refine .andThen (.entry _ _) fun rows => .andThen (Lift.paddedSize_uniform _ _ _) fun height => ?_
  refine .andThen (.entry _ _) fun columns => .andThen (Lift.paddedSize_uniform _ _ _) fun width => ?_
  refine .andThen (.orReject _ _) fun ph => .andThen (.orReject _ _) fun pw => ?_
  refine (Draft.int32Operand_relocates _).bind fun start => .andThen (.orReject _ _) fun dims => ?_
  refine (Draft.int32Operand_relocates _).bind fun size =>
    (Draft.intermediate_relocates _ _).bind fun uncropped => ?_
  exact .pure _

theorem cropIfNeeded_relocates (out : Tensor) (params : ConvParams) :
    Relocates (draftings base extra) (cropIfNeeded out params) (cropIfNeeded out params)
      (Option.map (Crop.rename (TensorId.move base extra))) := by
  unfold cropIfNeeded
  exact .ite (fun _ => (crop_relocates _ _).bind fun c => .pure _) fun _ => .pure_of_eq rfl

theorem checkBias_relocates (t : TensorId) (channels : Nat) (outputType : ElementType) :
    Relocates (draftings base extra) (checkBias t channels outputType)
      (checkBias (t.move base extra) channels outputType) id := by
  unfold checkBias
  refine (Draft.tensor_relocates t).bind fun x => .ite (fun _ => .reject _ _) fun _ => ?_
  exact .ite (fun _ => .reject _ _) fun _ => .of_uniform (.pure _)

theorem addBias_relocates (bias : Option TensorId) (hbias : ∀ t ∈ bias, t.index < base.length)
    (channels : Nat) (output : TensorId) (out : Tensor) :
    Relocates (draftings base extra) (addBias bias channels output out)
      (addBias bias channels (output.move base extra) out)
      (Prod.map (List.map (Operator.rename (TensorId.move base extra)))
        (TensorId.move base extra)) := by
  unfold addBias
  cases bias with
  | none => exact .pure _
  | some t =>
    have ht : t.move base extra = t := TensorId.move_of_lt (hbias t rfl)
    have hcheck : Relocates (draftings base extra) _ _ _ :=
      checkBias_relocates t channels out.elementType
    rw [ht] at hcheck
    refine hcheck.bind fun _ => (Draft.intermediate_relocates _ _).bind fun unbiased => .pure_of_eq ?_
    simp [Operator.rename, ht]

theorem draft_relocates (n : TransposedConvolution) (hinput : n.input.index < base.length)
    (hweight : n.weight.index < base.length) (hbias : ∀ t ∈ n.bias, t.index < base.length)
    (houtput : n.output.index < base.length) :
    Relocates (draftings base extra) n.draft n.draft
      (List.map (Operator.rename (TensorId.move base extra))) := by
  have hlift : Relocates (draftings base extra) _ _ _ :=
    Draft.liftConvolution_relocates lowering n.input n.weight n.output n.params
  rw [TensorId.move_of_lt hinput, TensorId.move_of_lt hweight, TensorId.move_of_lt houtput] at hlift
  unfold draft
  refine hlift.bind fun l =>
    (Draft.tensor_relocates _).bind fun x => .andThen (.entry _ _) fun inputChannels => ?_
  refine (Draft.tensor_relocates _).bind fun w => .andThen (.entry _ _) fun weightChannels => ?_
  refine .ite (fun _ => .reject_bind _ _ _ _) fun _ => .andThen (.entry _ _) fun outputChannels => ?_
  refine .andThen (Lift.perAxis_uniform _) fun stride => ?_
  refine .andThen (Lift.uint32_uniform _ _ _) fun sh =>
    .andThen (Lift.uint32_uniform _ _ _) fun sw => ?_
  rw [assemble_eq, assemble_eq]
  refine (Layout.bracket_relocates _ _ _).bind fun b => (Draft.tensor_relocates _).bind fun out => ?_
  refine (cropIfNeeded_relocates _ _).bind fun crop => ?_
  have hfull : ((crop.map (Crop.rename (TensorId.move base extra))).map (·.fullShape)).getD out.shape =
      (crop.map (·.fullShape)).getD out.shape := by
    cases crop <;> rfl
  dsimp only [id_eq]
  rw [hfull]
  refine .andThen (.orReject _ _) fun dims =>
    (Draft.int32Operand_relocates _).bind fun outputShape => ?_
  refine (Layout.permute_relocates _ _ _).bind fun reorder =>
    (addBias_relocates _ hbias _ _ _).bind fun addition => ?_
  apply Relocates.pure_of_eq
  cases crop <;> simp [Lifted.rename, Layout.Bracket.rename, Operator.rename, Crop.rename]

end TransposedConvolution

/-! ## Batch normalization -/

namespace BatchNorm

theorem channelValues_relocates (t : TensorId) (channels : Nat) :
    Relocates (sessions base extra) (channelValues t channels)
      (channelValues (t.move base extra) channels) id := by
  unfold channelValues
  refine (Edit.tensor_relocates t).bind fun x =>
    .andThen (.orReject _ _) fun data => .andThen (.orReject _ _) fun values => ?_
  exact .ite (fun _ => .of_uniform (.pure _)) fun _ => .reject _ _

theorem draft_relocates (n : BatchNorm) (hinput : n.input.index < base.length)
    (houtput : n.output.index < base.length) (x : Tensor) (scale shift : Buffer) :
    Relocates (draftings base extra) (n.draft x scale shift) (n.draft x scale shift)
      (List.map (Operator.rename (TensorId.move base extra))) := by
  have hinput' : n.input.move base extra = n.input := TensorId.move_of_lt hinput
  have houtput' : n.output.move base extra = n.output := TensorId.move_of_lt houtput
  unfold draft
  refine (Draft.operand_relocates _ _).bind fun scale =>
    (Draft.operand_relocates _ _).bind fun shift => ?_
  refine .ite (fun _ => ?_) fun _ => ?_
  · refine (Draft.intermediate_relocates _ _).bind fun dequantized =>
      (Draft.intermediate_relocates _ _).bind fun scaled => ?_
    refine (Draft.intermediate_relocates _ _).bind fun shifted => .pure_of_eq ?_
    simp [Operator.rename, hinput', houtput']
  · refine (Draft.intermediate_relocates _ _).bind fun scaled => .pure_of_eq ?_
    simp [Operator.rename, hinput', houtput']

theorem channelBuffer_uniform (rank channels : Nat) (values : List Float32) :
    Uniform (channelBuffer rank channels values) :=
  .orReject _ _

end BatchNorm

/-! ## Outlines -/

def Outline.rename (f : TensorId → TensorId) (o : Outline) : Outline :=
  { o with chain := o.chain.map (Operator.rename f) }

/-- A lowering decides the same among more tensors. It stops if it needs a name that one of them
has. -/
theorem Composite.outline_relocates (op : Composite) (options : Options)
    (hinputs : ∀ t ∈ op.inputs, t.index < base.length) (houtput : op.output.index < base.length) :
    Relocates (sessions base extra) (op.outline options) (op.outline options)
      (Outline.rename (TensorId.move base extra)) := by
  have htensor {t : TensorId} (ht : t.index < base.length) :
      Relocates (sessions base extra) (do liftGraph ((← Edit.graph).tensor t) : Edit Tensor)
        (do liftGraph ((← Edit.graph).tensor t)) id := by
    have hmoved : Relocates (sessions base extra) _ _ _ := Edit.tensor_relocates t
    rwa [TensorId.move_of_lt ht] at hmoved
  cases op with
  | batchNorm n =>
    have hvalues {t : TensorId} (channels : Nat) (ht : t ∈ [n.weight, n.bias, n.mean, n.variance]) :
        Relocates (sessions base extra) (BatchNorm.channelValues t channels)
          (BatchNorm.channelValues t channels) id := by
      have hmoved : Relocates (sessions base extra) _ _ _ :=
        BatchNorm.channelValues_relocates t channels
      rwa [TensorId.move_of_lt (hinputs t (List.mem_cons_of_mem _ ht))] at hmoved
    unfold outline BatchNorm.outline
    refine (htensor (hinputs _ List.mem_cons_self)).bind fun x =>
      .ite (fun _ => .reject_bind _ _ _ _) fun _ => ?_
    refine .andThen (.entry _ _) fun channels => (hvalues channels (by simp)).bind fun weight => ?_
    refine (hvalues channels (by simp)).bind fun bias =>
      (hvalues channels (by simp)).bind fun mean => ?_
    refine (hvalues channels (by simp)).bind fun variance =>
      .ite (fun _ => .reject_bind _ _ _ _) fun _ => ?_
    refine (htensor houtput).bind fun output => .ite (fun _ => .reject_bind _ _ _ _) fun _ => ?_
    refine .andThen (BatchNorm.channelBuffer_uniform _ _ _) fun scale => ?_
    refine .andThen (BatchNorm.channelBuffer_uniform _ _ _) fun shift => ?_
    refine (Draft.run_relocates _ (n.draft_relocates (hinputs _ List.mem_cons_self) houtput _ _ _)).bind
      fun chain => ?_
    exact .pure _
  | convolution n =>
    have hbias : ∀ t ∈ n.bias, t.index < base.length :=
      fun t ht => hinputs t (by simp [inputs, Option.mem_def.mp ht])
    unfold outline Convolution.outline
    refine .ite (fun _ => .reject_bind _ _ _ _) fun _ => (htensor houtput).bind fun output => ?_
    refine (Draft.run_relocates _ (n.draft_relocates options
      (hinputs _ (by simp [inputs])) (hinputs _ (by simp [inputs])) hbias houtput)).bind fun r => ?_
    exact .pure _
  | transposedConvolution n =>
    have hbias : ∀ t ∈ n.bias, t.index < base.length :=
      fun t ht => hinputs t (by simp [inputs, Option.mem_def.mp ht])
    unfold outline TransposedConvolution.outline
    refine .ite (fun _ => .reject_bind _ _ _ _) fun _ =>
      .ite (fun _ => .reject_bind _ _ _ _) fun _ => ?_
    refine (htensor houtput).bind fun output => ?_
    refine (Draft.run_relocates _ (n.draft_relocates (hinputs _ (by simp [inputs]))
      (hinputs _ (by simp [inputs])) hbias houtput)).bind fun chain => ?_
    exact .pure _

end GraphLowering
