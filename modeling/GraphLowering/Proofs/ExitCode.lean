import GraphLowering.Command.Run
import GraphLowering.Proofs.Lowerable
import GraphLowering.Proofs.Samples

/-!
# When the command line succeeds

The command line ends with 0 if there is a sample graph and its node can be lowered. In a sample
graph nothing but the composite itself can be the reason that it cannot be lowered: element types
have texts, names are free and sizes are small (`Sample.Tame`). So the exit code depends on the
description only, and the conditions on it are those of `ConvolutionArguments.Convolves`,
`ConvolutionArguments.Scatters` and a channel axis (`exitCode_of_request`).
-/

namespace GraphLowering

theorem Graph.Composed.eraseNode {g : Graph} {tensors : List Tensor} (h : g.Composed tensors)
    (id : NodeId) :
    (g.eraseNode id).Composed tensors := by
  obtain ⟨hwf, _, hflows⟩ := Graph.Evolves.eraseNode g id h.wellFormed
  exact ⟨h.tensors, hwf, hflows h.flows,
    fun n node hnode => h.composed n node (Graph.node?_of_eraseNode hnode).2⟩

theorem Lift.LiftsTo.required {g : Graph} {first : Nat} {input weight output : TensorId}
    {params : ConvParams} {l : Lifted} {x : Tensor}
    (h : LiftsTo g first input weight output params l) (hx : g.tensor? input = some x) :
    (x.rank = 3 ∨ x.rank = 4) ∧ 0 ∉ params.stride ∧ 0 ∉ params.dilation := by
  obtain ⟨x₁, w, y, x', w', y', hraised⟩ := h.raised
  cases hx.symm.trans hraised.input
  refine ⟨?_, hraised.positive⟩
  rcases hraised.params with ⟨hrank, _⟩ | ⟨hrank, _⟩
  · exact .inr hrank
  · exact .inl hrank

namespace Command

/-- A sample graph in which a lowering fails for a reason that lies in the composite only: element
types have texts, quantized axes can be moved, the names that the lowering gives are free, and the
sizes of the weight are small. -/
structure Sample.Tame (s : Sample) (tensors : List Tensor) (op : Composite) (x y : Tensor) : Prop where
  shows : s.Shows tensors op
  printable : ∀ t ∈ tensors, t.elementType.printable
  axes : ∀ t ∈ tensors, t.AxisFits
  names : ∀ t ∈ tensors, ¬ Owned y.name t.name
  typed : op.Typed s.graph x y
  computed : ¬ y.isConstant
  sizes : ∀ n w, op = .convolution n → s.graph.tensor? n.weight = some w →
    (∀ k ∈ w.shape.dims, k < 2 ^ 31) ∧ n.params.groups < 2 ^ 31

namespace Sample.Tame

variable {s : Sample} {tensors : List Tensor} {op : Composite} {x y : Tensor} {options : Options}

theorem mem_tensors (h : s.Tame tensors op x y) {id : TensorId} {t : Tensor}
    (ht : s.graph.tensor? id = some t) : t ∈ tensors := by
  rw [h.shows.composed.tensor?] at ht
  exact List.mem_of_getElem? ht

theorem graph_printable (h : s.Tame tensors op x y) : s.graph.printable := by
  unfold Graph.printable
  rw [h.shows.composed.tensors, List.all_eq_true]
  exact h.printable

theorem free (h : s.Tame tensors op x y) {owner : String} (howner : y.name = owner)
    {names : List String} (hnames : ∀ name ∈ names, Owned owner name ∧ Explicit owner name)
    (hdistinct : names.Nodup) :
    Drafting.Free ⟨⟨s.graph.eraseNode s.node, []⟩, owner, 0, 0⟩ names := by
  subst howner
  have hcomposed := h.shows.composed.eraseNode s.node
  refine .of_unowned hcomposed.wellFormed ?_ hnames hdistinct
  rw [hcomposed.tensors]
  exact h.names

theorem guarded (h : s.Tame tensors op x y) :
    op.Guarded (fun _ => False) ⟨s.graph.eraseNode s.node, []⟩ := by
  refine ⟨.inr h.graph_printable, fun _ _ t ht => .inr (h.axes t (h.mem_tensors ht)), ?_⟩
  rintro n y' l d' rfl _ hlift
  have hopen : Drafting.Open ⟨⟨s.graph.eraseNode s.node, []⟩, y'.name, 0, 0⟩ 0 := Nat.zero_le _
  obtain ⟨node, hnode, hkind⟩ := h.shows.node
  -- the weight that the draft finds is that of the sample graph
  have hsizes (w : Tensor) (hw : d'.session.graph.tensor? n.weight = some w) :
      (∀ k ∈ w.shape.dims, k < 2 ^ 31) ∧ n.params.groups < 2 ^ 31 :=
    h.sizes n w rfl
      (Session.weight_of_lift (s := ⟨s.graph, []⟩) h.shows.composed.wellFormed hnode hkind hlift hw)
  refine ⟨?_, ?_⟩
  · rintro ⟨w, groupWidth, hw, hgroupWidth, hlarge⟩
    obtain ⟨hdims, hgroups⟩ := hsizes w hw
    have hproduct :=
      AxisParams.mul_lt_of_small (hdims groupWidth (List.mem_of_getElem? hgroupWidth)) hgroups
    unfold maxSize at hlarge
    omega
  · rintro ⟨w, channels, hw, hchannels, hlarge⟩
    have hsmall := (hsizes w hw).1 channels (List.mem_of_getElem? hchannels)
    unfold maxBufferSize at hlarge
    omega

theorem outline_ok (h : s.Tame tensors op x y)
    (haccepts : op.Acceptable options ⟨s.graph.eraseNode s.node, []⟩) :
    ∃ o t, op.outline options ⟨s.graph.eraseNode s.node, []⟩ = .ok o t := by
  have hsafe : Safe True (fun _ => False) (op.outline options) ⟨s.graph.eraseNode s.node, []⟩
      fun _ s' => False ∨ s'.graph.printable :=
    h.guarded.outline_safe fun _ => haccepts
  obtain ⟨o, t, hrun, _⟩ := hsafe.run trivial fun _ => not_false
  exact ⟨o, t, hrun⟩

theorem lowers_iff (h : s.Tame tensors op x y) :
    (∃ result s', Edit.lowerNode s.node options ⟨s.graph, []⟩ = .ok result s') ↔
      ∃ o t, op.outline options ⟨s.graph.eraseNode s.node, []⟩ = .ok o t := by
  obtain ⟨node, hnode, hkind⟩ := h.shows.node
  have hwf := h.shows.composed.wellFormed
  rw [Edit.lowerNode_succeeds_iff (s := ⟨s.graph, []⟩) hwf h.shows.composed.flows hnode hkind]
  refine exists_congr fun o => exists_congr fun t => and_iff_left_of_imp fun houtline => ?_
  have hinputs : ∀ id ∈ op.inputs, (s.graph.tensor? id).isSome := by
    intro id hid
    refine hwf.registered s.node node hnode id ?_
    rw [hkind]
    exact List.mem_append_left _ hid
  exact Composite.coherent_of_outline ⟨h.typed.input, h.typed.output, h.typed.same, h.typed.bias⟩
    hinputs h.computed houtline

theorem exitCode (h : s.Tame tensors op x y) (globals : GlobalArguments) :
    (((lowerSample globals s).finish none).exitCode = 0 ∨
      ((lowerSample globals s).finish none).exitCode = 1) ∧
      (((lowerSample globals s).finish none).exitCode = 0 ↔
        ∃ o t, op.outline ⟨globals.denyGrouped, ¬ globals.skipVerification⟩
          ⟨s.graph.eraseNode s.node, []⟩ = .ok o t) := by
  obtain ⟨node, hnode, hkind⟩ := h.shows.node
  have hsafe : Safe False (fun _ => False)
      (Edit.lowerNode s.node ⟨globals.denyGrouped, ¬ globals.skipVerification⟩) ⟨s.graph, []⟩
      fun _ s' => False ∨ s'.graph.printable := by
    refine Edit.lowerNode_safe h.shows.composed.tracked _ _ fun node' op' hnode' hkind' => ?_
    cases hnode.symm.trans hnode'
    cases hkind.symm.trans hkind'
    exact h.guarded
  rw [← h.lowers_iff]
  unfold lowerSample
  simp only [h.graph_printable, not_true_eq_false, if_false]
  cases hrun : Edit.lowerNode s.node ⟨globals.denyGrouped, ¬ globals.skipVerification⟩ ⟨s.graph, []⟩
      with
  | error stop s' =>
    cases stop with
    | fault f => exact (hsafe.of_fault hrun).elim
    | rejected e =>
      refine ⟨.inr rfl, ⟨fun hzero => ?_, ?_⟩⟩
      · exact absurd (show 1 = 0 from hzero) Nat.one_ne_zero
      · rintro ⟨_, _, hok⟩
        cases hok
  | ok lowered s' =>
    have hprintable : s'.graph.printable := (hsafe.of_ok hrun).resolve_left not_false
    simp only [hprintable, not_true_eq_false, if_false]
    have hzero :
        ∀ stderr dump, ((Outcome.dumped stderr dump globals.output).finish none).exitCode = 0 := by
      intro stderr dump
      cases globals.output <;> rfl
    exact ⟨.inl (hzero _ _), ⟨fun _ => ⟨lowered, s', rfl⟩, fun _ => hzero _ _⟩⟩

end Sample.Tame

/-! ## Which descriptions are accepted -/

namespace ConvolutionArguments

/-- The ranks and the lists of a description that can be lowered. -/
structure Shaped (args : ConvolutionArguments) : Prop where
  rank : args.input.length = 3 ∨ args.input.length = 4
  sameRank : args.weight.length = args.input.length
  stride : CoversAxes args.stride args.spatial
  padding : CoversAxes args.padding args.spatial
  dilation : CoversAxes args.dilation args.spatial
  outputPadding : CoversAxes args.outputPadding args.spatial

structure Convolves (args : ConvolutionArguments) (denyGrouped : Bool) : Prop extends args.Shaped where
  groups : 1 ≤ args.groups
  strides : ∀ k ∈ args.stride, 1 ≤ k
  dilations : ∀ k ∈ args.dilation, 1 ≤ k
  channels : args.input.getD 1 0 = args.weight.getD 1 0 * args.groups
  windows : ∀ a ∈ args.axes, a.dilation * (a.kernel - 1) + 1 ≤ a.size + 2 * a.padding
  permitted : ¬ (denyGrouped ∧ args.input.getD 1 0 ≠ args.weight.getD 1 0 ∧
    ¬ (args.weight.getD 1 0 = 1 ∧ args.weight.getD 0 0 = args.groups))

structure Scatters (args : ConvolutionArguments) : Prop extends args.Shaped where
  groups : args.groups = 1
  dilations : ∀ k ∈ args.dilation, k = 1
  strides : ∀ k ∈ args.stride, 1 ≤ k
  channels : args.input.getD 1 0 = args.weight.getD 0 0
  windows :
    ∀ a ∈ args.axes, 2 * a.padding < (a.size - 1) * a.stride + (a.kernel - 1) + 1 + a.outputPadding

variable {args : ConvolutionArguments}

theorem length_axes : args.axes.length = args.spatial := by
  simp [axes]

theorem length_outputDims (transposed : Bool) (hrank : 2 ≤ args.input.length) :
    (args.outputDims transposed).length = args.input.length := by
  simp [outputDims, axes, spatial]
  omega

theorem forall_valueOn {P : Nat → Prop} {values : List Nat} {default spatial : Nat}
    (hcovers : CoversAxes values spatial) (hspatial : 0 < spatial) (hdefault : P default) :
    (∀ i < spatial, P (valueOn values default i)) ↔ ∀ v ∈ values, P v := by
  match values, hcovers with
  | [], _ => exact ⟨fun _ _ hv => (nomatch hv), fun _ _ _ => hdefault⟩
  | [v], _ =>
    exact ⟨fun h => List.forall_mem_singleton.mpr (h 0 hspatial), fun h _ _ => h v List.mem_cons_self⟩
  | v :: v' :: rest, hcovers =>
    obtain rfl : (v :: v' :: rest).length = spatial :=
      (hcovers.resolve_left (nomatch ·)).resolve_left (nomatch ·)
    have hvalue {i : Nat} (hi : i < (v :: v' :: rest).length) :
        valueOn (v :: v' :: rest) default i = (v :: v' :: rest)[i] :=
      (List.getD_eq_getElem?_getD ..).trans (by rw [List.getElem?_eq_getElem hi, Option.getD_some])
    constructor
    · intro h u hu
      obtain ⟨i, hi, rfl⟩ := List.getElem_of_mem hu
      exact hvalue hi ▸ h i hi
    · intro h i hi
      exact hvalue hi ▸ h _ (List.getElem_mem hi)

theorem forall_mem_axes {P : AxisParams → Prop} :
    (∀ a ∈ args.axes, P a) ↔ ∀ i < args.spatial, P (args.onAxis i) := by
  simp [axes]

theorem Described.shaped {transposed : Bool} (h : args.Described transposed)
    (hrank : args.input.length = 3 ∨ args.input.length = 4) :
    args.Shaped :=
  ⟨hrank, h.sameRank, h.stride, h.padding, h.dilation, h.outputPadding⟩

theorem Shaped.spatial_pos (h : args.Shaped) : 0 < args.spatial := by
  have hrank := h.rank
  unfold spatial
  omega

theorem Shaped.forall_stride (h : args.Shaped) {P : Nat → Prop} (hone : P 1) :
    (∀ k ∈ args.params.stride, P k) ↔ ∀ k ∈ args.stride, P k := by
  show (∀ k ∈ args.axes.map (·.stride), P k) ↔ _
  rw [List.forall_mem_map, forall_mem_axes]
  exact forall_valueOn h.stride h.spatial_pos hone

theorem Shaped.forall_dilation (h : args.Shaped) {P : Nat → Prop} (hone : P 1) :
    (∀ k ∈ args.params.dilation, P k) ↔ ∀ k ∈ args.dilation, P k := by
  show (∀ k ∈ args.axes.map (·.dilation), P k) ↔ _
  rw [List.forall_mem_map, forall_mem_axes]
  exact forall_valueOn h.dilation h.spatial_pos hone

end ConvolutionArguments

/-! ## Convolutions -/

theorem forall_pos {values : List Nat} (h : 0 ∉ values) : ∀ k ∈ values, 1 ≤ k :=
  fun _ hk => Nat.pos_of_ne_zero fun hzero => h (hzero ▸ hk)

theorem AxisParams.result_le_padded (a : AxisParams) (h : a.extent ≤ a.padded) :
    a.result false ≤ a.padded := by
  have hdiv : (a.padded - a.extent) / a.stride ≤ a.padded - a.extent := Nat.div_le_self _ _
  have hextent : 1 ≤ a.extent := Nat.le_add_left _ _
  show (a.padded - a.extent) / a.stride + 1 ≤ a.padded
  omega

namespace Sample.ShowsConvolution

variable {s : Sample} {args : ConvolutionArguments} {transposed : Bool}
  {w : Tensor} {b : Option Tensor} {options : Options}

theorem typed (h : s.ShowsConvolution args transposed w b) :
    (args.composite transposed).Typed s.graph args.inputTensor (args.outputTensor transposed) := by
  have hinput : args.inputTensor.elementType = ioType args.quantized := ioTensor_elementType ..
  have houtput : (args.outputTensor transposed).elementType = ioType args.quantized :=
    ioTensor_elementType ..
  cases transposed with
  | false =>
    refine ⟨?_, h.tensor?_output, hinput.trans houtput.symm, fun n hop => nomatch hop⟩
    rintro _ ⟨⟩
    exact h.tensor?_input
  | true =>
    refine ⟨?_, h.tensor?_output, hinput.trans houtput.symm, ?_⟩
    · rintro _ ⟨⟩
      exact h.tensor?_input
    · rintro _ ⟨⟩ id hid t ht
      obtain ⟨t', hmem, ht'⟩ := h.tensor?_bias hid
      cases ht.symm.trans ht'
      exact ((h.bias t hmem).2 rfl).trans houtput.symm

theorem tame (h : s.ShowsConvolution args transposed w b) (hsmall : args.Small) :
    s.Tame (args.inputTensor :: w :: b.toList ++ [args.outputTensor transposed])
      (args.composite transposed) args.inputTensor
      (args.outputTensor transposed) := by
  have hall {P : Tensor → Prop} (hinput : P args.inputTensor)
      (hweight : P w) (hbias : ∀ t ∈ b, P t) (houtput : P (args.outputTensor transposed)) :
      ∀ t ∈ args.inputTensor :: w :: b.toList ++ [args.outputTensor transposed], P t := by
    intro t ht
    simp only [List.cons_append, List.mem_cons, List.mem_append,
      Option.mem_toList, List.not_mem_nil, or_false] at ht
    rcases ht with rfl | rfl | ht | rfl
    · exact hinput
    · exact hweight
    · exact hbias t ht
    · exact houtput
  have hprintable {t : Tensor} (ht : t.elementType = ioType args.quantized) : t.elementType.printable :=
    ht ▸ printable_ioType args.quantized
  refine ⟨h.shows, hall (hprintable (ioTensor_elementType ..)) h.weight.printable
    (fun t ht => (h.bias t ht).1.printable) (hprintable (ioTensor_elementType ..)),
    hall (ioTensor_axisFits _ _ _ _) h.weight.axis (fun t ht => (h.bias t ht).1.axis)
    (ioTensor_axisFits _ _ _ _), ?_, h.typed, ioTensor_not_isConstant _ _ _ _, ?_⟩
  · rw [args.outputTensor_name]
    refine hall ?_ ?_ (fun t ht => ?_) ?_
    · rw [args.inputTensor_name]
      exact not_owned (by decide)
    · rw [h.weight.name]
      exact not_owned (by decide)
    · rw [(h.bias t ht).1.name]
      exact not_owned (by decide)
    · rw [args.outputTensor_name]
      exact not_owned (by decide)
  · intro n w' hop hw'
    have hweight : ∀ k ∈ w.shape.dims, k < 2 ^ 31 := by
      rw [h.weight.shape]
      exact hsmall.weight
    cases transposed with
    | true => cases hop
    | false =>
      cases hop
      cases hw'.symm.trans h.tensor?_weight
      exact ⟨hweight, hsmall.groups⟩

theorem liftable (h : s.ShowsConvolution args transposed w b) (hshaped : args.Shaped)
    (hsmall : args.Small) (hstrides : ∀ k ∈ args.stride, 1 ≤ k)
    (hdilations : ∀ k ∈ args.dilation, 1 ≤ k)
    (houtput : ∀ n ∈ args.outputDims transposed, n < 2 ^ 31) :
    Lift.Liftable "y" args.inputTensor w (args.outputTensor transposed) args.params
      (Lift.raisedNames "y" "x" "weight") := by
  have hrank : args.inputTensor.rank = args.input.length := congrArg List.length args.inputTensor_dims
  have hint32 {k : Nat} (hk : k < 2 ^ 31) : k ≤ maxInt32 := Nat.le_of_lt_succ hk
  refine ⟨hrank ▸ hshaped.rank, ⟨?_, ?_⟩, ?_, ?_, fun _ k hk =>
    hint32 ?_, fun hline => ⟨fun _ => ?_, fun hvariable => ?_⟩, fun _ k hk => hint32 ?_⟩
  · rw [hrank, ← hshaped.sameRank]
    exact congrArg Shape.rank h.weight.shape
  · rw [hrank, ← ConvolutionArguments.length_outputDims transposed (by have := hshaped.rank; omega)]
    exact congrArg List.length (args.outputTensor_dims transposed)
  · rw [hrank, Lift.parameterObjection?_eq_none]
    have hlength {f : AxisParams → Nat} : (args.axes.map f).length = args.input.length - 2 := by
      rw [List.length_map, ConvolutionArguments.length_axes]
      rfl
    refine ⟨⟨hlength, hlength, hlength⟩, fun hzero => ?_, fun hzero => ?_⟩
    · exact absurd ((hshaped.forall_stride (P := (1 ≤ ·)) (Nat.le_refl 1)).mpr hstrides 0 hzero)
        (Nat.not_succ_le_zero 0)
    · exact absurd ((hshaped.forall_dilation (P := (1 ≤ ·)) (Nat.le_refl 1)).mpr hdilations 0 hzero)
        (Nat.not_succ_le_zero 0)
  · rw [h.weight.name, args.inputTensor_name]
    rfl
  · rw [args.inputTensor_dims] at hk
    exact hsmall.input k hk
  · exact h.weight.reshaped
  · obtain ⟨data, hdata, _⟩ := h.weight.data
    exact absurd (Option.isSome_of_eq_some hdata) hvariable
  · rw [args.outputTensor_dims] at hk
    exact houtput k hk

theorem free (h : s.ShowsConvolution args transposed w b) (hsmall : args.Small) :
    Drafting.Free ⟨⟨s.graph.eraseNode s.node, []⟩, "y", 0, 0⟩ (Lift.raisedNames "y" "x" "weight") :=
  (h.tame hsmall).free (args.outputTensor_name transposed) (Lift.owned_raisedNames _ _ _)
    (Lift.nodup_raisedNames _ (by decide))

theorem outline_of_convolves (h : s.ShowsConvolution args false w b) (hsmall : args.Small)
    (hpadded : ∀ a ∈ args.axes, a.padded < 2 ^ 31) (haccepted : args.Convolves options.denyGrouped) :
    ∃ o t, (args.composite false).outline options ⟨s.graph.eraseNode s.node, []⟩ = .ok o t := by
  have hshaped := haccepted.toShaped
  have houtput : ∀ n ∈ args.outputDims false, n < 2 ^ 31 := by
    refine List.forall_mem_cons.mpr ⟨getD_lt hsmall.input (by decide) 0,
      List.forall_mem_cons.mpr ⟨getD_lt hsmall.weight (by decide) 0, ?_⟩⟩
    rw [List.forall_mem_map]
    intro a ha
    have hresult : a.result false ≤ a.padded := a.result_le_padded (haccepted.windows a ha)
    exact Nat.lt_of_le_of_lt hresult (hpadded a ha)
  have hwidth {k : Nat} (hk : k < 2 ^ 31) : k ≤ maxUInt32 := Nat.le_trans (Nat.le_of_lt hk) (by decide)
  refine (h.tame hsmall).outline_ok ⟨Nat.ne_of_gt haccepted.groups,
    Lift.raisedNames "y" "x" "weight", args.inputTensor, w, args.outputTensor false, ?_, ?_⟩
  · rw [args.outputTensor_name]
    refine ⟨h.tensor?_input, h.tensor?_weight, h.tensor?_output,
      h.liftable hshaped hsmall haccepted.strides haccepted.dilations houtput, ?_, ?_, ?_, ?_, ?_, ?_⟩
    · rw [args.inputTensor_dims, h.weight.dims]
      exact haccepted.channels
    · exact (hshaped.forall_stride (by decide)).mpr fun k hk => hwidth (hsmall.stride k hk)
    · exact (hshaped.forall_dilation (by decide)).mpr fun k hk => hwidth (hsmall.dilation k hk)
    · rw [args.inputTensor_dims, h.weight.dims]
      exact haccepted.permitted
    · rintro _ ⟨p, x⟩ hmem
      obtain ⟨hp, hx⟩ := List.of_mem_zip hmem
      obtain ⟨a, ha, rfl⟩ := List.mem_map.mp hp
      have hpadding := (hsmall.axes a ha).padding
      have hsize : x < 2 ^ 31 := hsmall.input x (List.mem_of_mem_drop (args.inputTensor_dims ▸ hx))
      dsimp only
      unfold maxInt32 maxSize
      omega
    · intro id hid
      obtain ⟨t, hmem, ht⟩ := h.tensor?_bias hid
      refine ⟨t, ht, .inl ?_⟩
      rw [(h.bias t hmem).1.elementCount, h.weight.dims]
      exact List.prod_singleton
  · rw [args.outputTensor_name]
    exact h.free hsmall

theorem convolves_of_outline (h : s.ShowsConvolution args false w b)
    (hdescribed : args.Described false) {o : Outline} {t : Session}
    (houtline : (args.composite false).outline options ⟨s.graph.eraseNode s.node, []⟩ = .ok o t) :
    args.Convolves options.denyGrouped := by
  have hextend := (Composite.outlines_of_ok houtline).1.extend
  obtain ⟨hgroups, p, hfits, hpermitted, _⟩ := Convolution.plans_of_ok houtline
  have hx : t.graph.tensor? ⟨0⟩ = some args.inputTensor :=
    Graph.tensor?_of_extend hextend h.tensor?_input
  have hw : t.graph.tensor? ⟨1⟩ = some w := Graph.tensor?_of_extend hextend h.tensor?_weight
  obtain ⟨hrank, hstride, hdilation⟩ := hfits.lifts.required hx
  obtain ⟨hinput, houtputs, hwidth, hsame⟩ := hfits.operandChannels hx hw
  rw [args.inputTensor_dims] at hinput
  rw [h.weight.dims] at houtputs hwidth
  have hshaped : args.Shaped := hdescribed.shaped (args.inputTensor_dims ▸ hrank)
  refine ⟨hshaped, Nat.pos_of_ne_zero hgroups, (hshaped.forall_stride (Nat.le_refl 1)).mp
    (forall_pos hstride), (hshaped.forall_dilation (Nat.le_refl 1)).mp (forall_pos hdilation),
    ?_, fun a ha => (hdescribed.output a ha).2, ?_⟩
  · simp only [List.getD_eq_getElem?_getD, hinput, hwidth, Option.getD_some]
    rfl
  · simp only [List.getD_eq_getElem?_getD, hinput, hwidth, houtputs, Option.getD_some]
    rintro ⟨hdeny, hother, hgrouped⟩
    refine hpermitted ⟨hdeny, ?_, ?_⟩
    · intro hdepthwise
      obtain ⟨hsingle, hmultiple⟩ := of_decide_eq_true hdepthwise
      exact hgrouped ⟨hsingle, hmultiple.trans hsame⟩
    · rw [hsame]
      exact hother

theorem outline_of_scatters (h : s.ShowsConvolution args true w b) (hsmall : args.Small)
    (hfull : ∀ a ∈ args.axes, a.full < 2 ^ 31) (haccepted : args.Scatters) :
    ∃ o t, (args.composite true).outline options ⟨s.graph.eraseNode s.node, []⟩ = .ok o t := by
  have hshaped := haccepted.toShaped
  have hdilations : ∀ k ∈ args.params.dilation, k = 1 :=
    (hshaped.forall_dilation (P := (· = 1)) rfl).mpr haccepted.dilations
  have hchannels : args.outputChannels true = args.weight.getD 1 0 := by
    show args.weight.getD 1 0 * args.groups = _
    rw [haccepted.groups, Nat.mul_one]
  have houtput : ∀ n ∈ args.outputDims true, n < 2 ^ 31 := by
    refine List.forall_mem_cons.mpr
      ⟨getD_lt hsmall.input (by decide) 0, List.forall_mem_cons.mpr ⟨?_, ?_⟩⟩
    · rw [hchannels]
      exact getD_lt hsmall.weight (by decide) 1
    · rw [List.forall_mem_map]
      exact fun a ha => Nat.lt_of_le_of_lt (Nat.sub_le _ _) (hfull a ha)
  have hint32 {k : Nat} (hk : k < 2 ^ 31) : k ≤ maxInt32 := Nat.le_of_lt_succ hk
  refine (h.tame hsmall).outline_ok ⟨haccepted.groups, hdilations,
    Lift.raisedNames "y" "x" "weight", args.inputTensor, w, args.outputTensor true, ?_, ?_⟩
  · rw [args.outputTensor_name]
    refine ⟨h.tensor?_input, h.tensor?_weight, h.tensor?_output, h.liftable hshaped hsmall
      haccepted.strides (fun k hk => (haccepted.dilations k hk).ge) houtput, ?_, ?_, ?_, ?_, ?_, ?_⟩
    · rw [args.inputTensor_dims, h.weight.dims]
      exact haccepted.channels.symm
    · exact (hshaped.forall_stride (by decide)).mpr fun k hk =>
        Nat.le_trans (hint32 (hsmall.stride k hk)) (by decide)
    · rw [args.outputTensor_dims]
      exact hint32 (getD_lt houtput (by decide) 0)
    · rw [args.outputTensor_dims]
      exact hint32 (getD_lt houtput (by decide) 1)
    · -- the output with its padding is the full result
      rw [args.outputTensor_dims]
      show ∀ p ∈ (args.axes.map (·.padding)).zip (args.axes.map (·.result true)), _
      rw [List.zip_map', List.forall_mem_map]
      intro a ha
      have hleft := haccepted.windows a ha
      have hdilation : a.dilation = 1 := hdilations _ (List.mem_map_of_mem ha)
      have hsum : a.result true + a.padding * 2 = a.full := by
        have hfull : a.full = (a.size - 1) * a.stride + (a.kernel - 1) + 1 + a.outputPadding := by
          unfold AxisParams.full AxisParams.extent
          rw [hdilation, Nat.one_mul]
          rfl
        show a.full - 2 * a.padding + a.padding * 2 = a.full
        omega
      rw [hsum]
      exact hint32 (hfull a ha)
    · intro id hid
      obtain ⟨t, hmem, ht⟩ := h.tensor?_bias hid
      refine ⟨t, ht, .inr ?_, ?_⟩
      · rw [(h.bias t hmem).1.elementCount, h.weight.dims, ← hchannels]
        exact List.prod_singleton
      · exact ((h.bias t hmem).2 rfl).trans (ioTensor_elementType ..).symm
  · rw [args.outputTensor_name]
    exact h.free hsmall

theorem scatters_of_outline (h : s.ShowsConvolution args true w b)
    (hdescribed : args.Described true) {o : Outline} {t : Session}
    (houtline : (args.composite true).outline options ⟨s.graph.eraseNode s.node, []⟩ = .ok o t) :
    args.Scatters := by
  have hextend := (Composite.outlines_of_ok houtline).1.extend
  obtain ⟨hgroups, hdilations, p, hfits, _⟩ := TransposedConvolution.plans_of_ok houtline
  have hx : t.graph.tensor? ⟨0⟩ = some args.inputTensor :=
    Graph.tensor?_of_extend hextend h.tensor?_input
  have hw : t.graph.tensor? ⟨1⟩ = some w := Graph.tensor?_of_extend hextend h.tensor?_weight
  obtain ⟨hrank, hstride, _⟩ := hfits.lifts.required hx
  obtain ⟨hchannels, _⟩ := hfits.operandChannels hx hw
  rw [args.inputTensor_dims, h.weight.dims] at hchannels
  have hshaped : args.Shaped := hdescribed.shaped (args.inputTensor_dims ▸ hrank)
  refine ⟨hshaped, hgroups, (hshaped.forall_dilation (P := (· = 1)) rfl).mp hdilations,
    (hshaped.forall_stride (Nat.le_refl 1)).mp (forall_pos hstride), ?_, fun a ha => ?_⟩
  · rw [List.getD_eq_getElem?_getD, List.getD_eq_getElem?_getD, hchannels]
  · have hleft : 2 * a.padding < a.full := hdescribed.output a ha
    unfold AxisParams.full AxisParams.extent at hleft
    rw [show a.dilation = 1 from hdilations _ (List.mem_map_of_mem ha), Nat.one_mul] at hleft
    exact hleft

end Sample.ShowsConvolution

/-! ## Normalizations -/

namespace Sample.ShowsNormalization

variable {s : Sample} {args : BatchNormArguments} {channels : Nat} {options : Options}

theorem tame (h : s.ShowsNormalization args channels) :
    s.Tame (args.inputTensor :: statistics channels ++ [args.outputTensor])
      args.composite args.inputTensor args.outputTensor := by
  have hall {P : Tensor → Prop} (hinput : P args.inputTensor)
      (hstatistic : ∀ name ∈ ["bn.weight", "bn.bias", "bn.running_mean", "bn.running_var"],
        ∀ value, P (statistic channels name value))
      (houtput : P args.outputTensor) :
      ∀ t ∈ args.inputTensor :: statistics channels ++ [args.outputTensor], P t := by
    simp only [statistics, List.cons_append, List.nil_append, List.forall_mem_cons]
    exact ⟨hinput, hstatistic _ (by simp) _, hstatistic _ (by simp) _,
      hstatistic _ (by simp) _, hstatistic _ (by simp) _, houtput, List.forall_mem_nil _⟩
  have hprintable {t : Tensor} (ht : t.elementType = ioType args.quantized) : t.elementType.printable :=
    ht ▸ printable_ioType args.quantized
  have hinput : s.graph.tensor? ⟨0⟩ = some args.inputTensor := h.shows.composed.tensor? _
  have haxis (name : String) (value : Float32) : (statistic channels name value).AxisFits := by
    intro q hq
    cases hq
  refine ⟨h.shows, hall (hprintable (ioTensor_elementType ..))
    (fun _ _ _ => rfl) (hprintable (ioTensor_elementType ..)), hall
    (ioTensor_axisFits _ _ _ _) (fun name _ value => haxis name value) (ioTensor_axisFits _ _ _ _),
    ?_, ⟨?_, h.shows.composed.tensor? _, ?_, ?_⟩, ioTensor_not_isConstant _ _ _ _, ?_⟩
  · rw [show args.outputTensor.name = "y" from ioTensor_name ..]
    refine hall ?_ (fun name hname _ => ?_) ?_
    · rw [show args.inputTensor.name = "x" from ioTensor_name ..]
      exact not_owned (by decide)
    · have hnames : ∀ name ∈ ["bn.weight", "bn.bias", "bn.running_mean", "bn.running_var"],
          ¬ ("y" ++ "_").toList <+: name.toList := by
        decide
      exact not_owned (hnames name hname)
    · rw [show args.outputTensor.name = "y" from ioTensor_name ..]
      exact not_owned (by decide)
  · rintro _ ⟨⟩
    exact hinput
  · exact (ioTensor_elementType ..).trans (ioTensor_elementType ..).symm
  · intro n hop
    cases hop
  · intro n _ hop
    cases hop

theorem outline_ok (h : s.ShowsNormalization args channels) :
    ∃ o t, args.composite.outline options ⟨s.graph.eraseNode s.node, []⟩ = .ok o t := by
  have hinputShape : args.inputTensor.shape.dims = args.input := congrArg Shape.dims (ioTensor_shape ..)
  obtain ⟨hrank, _⟩ := List.getElem?_eq_some_iff.mp h.channelCount
  have hchannels : args.inputTensor.shape.dims.getD 1 0 = channels := by
    rw [hinputShape, List.getD_eq_getElem?_getD, h.channelCount, Option.getD_some]
  have hfits : channels ≤ maxBufferSize := by
    have hbytes : 4 * channels ≤ maxBufferSize := of_decide_eq_true (Bool.and_eq_true_iff.mp h.fits).2
    omega
  have hstatistic (name : String) (value : Float32) (id : TensorId)
      (ht : s.graph.tensor? id = some (statistic channels name value)) :
      BatchNorm.HoldsChannels (s.graph.eraseNode s.node) channels id :=
    ⟨statistic channels name value, _, .uniform channels value, ht, rfl, rfl, rfl⟩
  refine h.tame.outline_ok ⟨args.inputTensor, args.outputTensor,
    ⟨h.shows.composed.tensor? _, h.shows.composed.tensor? _, ?_, ?_, ?_, ?_⟩,
    h.tame.free rfl (fun _ hname => nomatch hname) List.nodup_nil⟩
  · exact (congrArg List.length hinputShape).ge.trans' hrank
  · rw [hchannels]
    exact hfits
  · rw [hchannels]
    simp only [List.forall_mem_cons]
    exact ⟨hstatistic "bn.weight" 1 _ (h.shows.composed.tensor? _), hstatistic "bn.bias" 0 _
      (h.shows.composed.tensor? _), hstatistic "bn.running_mean" 0 _ (h.shows.composed.tensor? _),
      hstatistic "bn.running_var" 1 _ (h.shows.composed.tensor? _), fun _ hid => nomatch hid⟩
  · rw [show args.inputTensor.isQuantized = args.quantized from ioTensor_isQuantized ..,
      show args.outputTensor.isQuantized = args.quantized from ioTensor_isQuantized ..,
      show args.inputTensor.elementType = ioType args.quantized from ioTensor_elementType ..]
    cases args.quantized with
    | true => exact .inl ⟨rfl, rfl⟩
    | false => exact .inr ⟨rfl, Bool.false_ne_true⟩

end Sample.ShowsNormalization

/-! ## The command line -/

/-- The numbers that are given are below 2 ^ 31, and so are the padded sizes, if there are any. A
size of the output is at most a padded one. -/
def NodeArguments.Moderate : NodeArguments → Prop
  | .convolution args => args.Small ∧ (args.Described false → ∀ a ∈ args.axes, a.padded < 2 ^ 31)
  | .transposedConvolution args => args.Small ∧ (args.Described true → ∀ a ∈ args.axes, a.full < 2 ^ 31)
  | .batchNorm _ => True

def Arguments.Accepted (args : Arguments) : Prop :=
  match args.node with
  | .convolution node => node.Convolves args.globals.denyGrouped
  | .transposedConvolution node => node.Scatters
  | .batchNorm node => 2 ≤ node.input.length

theorem ConvolutionArguments.Convolves.described {args : ConvolutionArguments}
    {denyGrouped : Bool} (h : args.Convolves denyGrouped) :
    args.Described false := by
  have hrank := h.rank
  refine ⟨by omega, h.sameRank, h.stride, h.padding, h.dilation,
    h.outputPadding, fun a ha => ⟨?_, h.windows a ha⟩⟩
  have hstrides := (h.toShaped.forall_stride (Nat.le_refl 1)).mpr h.strides
  exact Nat.ne_of_gt (hstrides _ (List.mem_map_of_mem ha))

theorem ConvolutionArguments.Scatters.described {args : ConvolutionArguments} (h : args.Scatters) :
    args.Described true := by
  have hrank := h.rank
  refine ⟨by omega, h.sameRank, h.stride, h.padding, h.dilation, h.outputPadding, fun a ha => ?_⟩
  have hdilations := (h.toShaped.forall_dilation (P := (· = 1)) rfl).mpr h.dilations
  have hwindow := h.windows a ha
  show 2 * a.padding < a.full
  unfold AxisParams.full AxisParams.extent
  rw [show a.dilation = 1 from hdilations _ (List.mem_map_of_mem ha), Nat.one_mul]
  exact hwindow

/-- The exit code is 0 if there is a sample graph and it can be lowered, else 1, unless there is no
memory. -/
theorem execute_exitCode {args : Arguments} {small met accepted : Prop} {P : Sample → Prop}
    (hanswers : Answers small (sample args.node) met P) (hsmall : small)
    (hmemory : sample args.node ≠ .error (.fault .bufferSize)) (hmet : accepted → met)
    (hsample : ∀ s, met → P s → (((lowerSample args.globals s).finish none).exitCode = 0 ∨
      ((lowerSample args.globals s).finish none).exitCode = 1) ∧
      (((lowerSample args.globals s).finish none).exitCode = 0 ↔ accepted)) :
    (((execute args).finish none).exitCode = 0 ∨ ((execute args).finish none).exitCode = 1) ∧
      (((execute args).finish none).exitCode = 0 ↔ accepted) := by
  unfold execute
  match hrun : sample args.node, hanswers with
  | .ok s, ⟨hdescribed, hs⟩ => exact hsample s hdescribed hs
  | .error (.refused complaint), hunmet =>
    refine ⟨.inr rfl, ⟨fun hzero => ?_, fun haccepted => absurd (hmet haccepted) hunmet⟩⟩
    exact absurd (show 1 = 0 from hzero) Nat.one_ne_zero
  | .error (.fault fault), hfault =>
    cases hfault hsmall
    exact absurd hrun hmemory

theorem run_of_request {words : List String} {args : Arguments}
    (h : request? words = some (.lower args)) :
    run words = execute args := by
  unfold run
  rw [h]

theorem exitCode_of_arguments {args : Arguments} (hmoderate : args.node.Moderate)
    (hmemory : sample args.node ≠ .error (.fault .bufferSize)) :
    (((execute args).finish none).exitCode = 0 ∨ ((execute args).finish none).exitCode = 1) ∧
      (((execute args).finish none).exitCode = 0 ↔ args.Accepted) := by
  obtain ⟨node, globals⟩ := args
  cases node with
  | convolution args =>
    obtain ⟨hsmall, hpadded⟩ := hmoderate
    refine execute_exitCode (convolution_answers args false)
      hsmall hmemory (fun haccepted : args.Convolves _ => haccepted.described) ?_
    rintro s hdescribed ⟨w, b, hs⟩
    obtain ⟨hcode, hzero⟩ := (hs.tame hsmall).exitCode globals
    refine ⟨hcode, hzero.trans ⟨?_, fun haccepted =>
      hs.outline_of_convolves hsmall (hpadded hdescribed) haccepted⟩⟩
    rintro ⟨o, t, houtline⟩
    exact hs.convolves_of_outline hdescribed houtline
  | transposedConvolution args =>
    obtain ⟨hsmall, hfull⟩ := hmoderate
    refine execute_exitCode (convolution_answers args true) hsmall hmemory
      (fun haccepted : args.Scatters => haccepted.described) ?_
    rintro s hdescribed ⟨w, b, hs⟩
    obtain ⟨hcode, hzero⟩ := (hs.tame hsmall).exitCode globals
    refine ⟨hcode, hzero.trans ⟨?_, hs.outline_of_scatters hsmall (hfull hdescribed)⟩⟩
    rintro ⟨o, t, houtline⟩
    exact hs.scatters_of_outline hdescribed houtline
  | batchNorm args =>
    refine execute_exitCode (batchNorm_answers args) trivial hmemory (fun haccepted => haccepted) ?_
    rintro s hrank ⟨channels, hs⟩
    obtain ⟨hcode, hzero⟩ := hs.tame.exitCode globals
    exact ⟨hcode, hzero.trans ⟨fun _ => hrank, fun _ => hs.outline_ok⟩⟩

/-- With numbers and padded sizes below 2 ^ 31, with memory for the constants and with a file that
can be written, if one is named, any arguments end with 0 or 1. They end with 0 if and only if the
description is one that can be lowered. So does every command line that is read as these arguments. -/
theorem exitCode_of_request {args : Arguments} (hmoderate : args.node.Moderate)
    (hmemory : sample args.node ≠ .error (.fault .bufferSize)) :
    ((((execute args).finish none).exitCode = 0 ∨ ((execute args).finish none).exitCode = 1) ∧
      (((execute args).finish none).exitCode = 0 ↔ args.Accepted)) ∧
    ∀ words, request? words = some (.lower args) →
      (((run words).finish none).exitCode = 0 ∨ ((run words).finish none).exitCode = 1) ∧
        (((run words).finish none).exitCode = 0 ↔ args.Accepted) := by
  have hexecute := exitCode_of_arguments hmoderate hmemory
  refine ⟨hexecute, fun words hrequest => ?_⟩
  rw [run_of_request hrequest]
  exact hexecute

/-- A convolution of lines in four groups, with padding and a bias, which is depthwise and so not
denied. -/
def depthwiseWords : List String :=
  ["--deny-grouped-conv", "conv", "--input", "2,4,5", "--weight", "4,1,3", "--groups", "4",
    "--padding", "1", "--stride", "2", "--bias", "--quantized"]

def depthwiseArguments : Arguments :=
  ⟨.convolution ⟨[2, 4, 5], [4, 1, 3], [2], [1], [], [], 4, true, true⟩, ⟨none, true, false, false⟩⟩

theorem exitCode_of_request_depthwise :
    request? depthwiseWords = some (.lower depthwiseArguments) ∧ depthwiseArguments.node.Moderate ∧
      sample depthwiseArguments.node ≠ .error (.fault .bufferSize) ∧
      ((run depthwiseWords).finish none).exitCode = 0 := by
  have hrequest : request? depthwiseWords = some (.lower depthwiseArguments) := by
    decide +kernel
  have hmoderate : depthwiseArguments.node.Moderate :=
    ⟨⟨by decide, by decide, by decide, by decide, by decide, by decide, by decide⟩, fun _ => by
      rw [ConvolutionArguments.forall_mem_axes]
      decide⟩
  have hmemory : sample depthwiseArguments.node ≠ .error (.fault .bufferSize) := by
    have hok : (sample depthwiseArguments.node).isOk := by
      decide +kernel
    intro hfault
    rw [hfault] at hok
    cases hok
  have haccepted : depthwiseArguments.Accepted :=
    ⟨⟨.inl rfl, rfl, .inr (.inl rfl), .inr (.inl rfl), .inl rfl, .inl rfl⟩,
      by decide, by decide, by decide, rfl, by
      rw [ConvolutionArguments.forall_mem_axes]
      decide, by decide⟩
  exact ⟨hrequest, hmoderate, hmemory,
    ((exitCode_of_request hmoderate hmemory).2 _ hrequest).2.mpr haccepted⟩

end Command

end GraphLowering
