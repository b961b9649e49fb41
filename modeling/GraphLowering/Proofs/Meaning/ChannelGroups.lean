import GraphLowering.Proofs.ChainShape
import GraphLowering.Proofs.ShapeRules

/-!
# Groups of channels

A convolution in groups divides its output channels and its input channels among the groups, as many
to each, and an output channel draws on the input channels of its group only. A lowering compares
the input channels with the weight, but not the number of output channels with that of the groups.
Only if the one is a multiple of the other, the convolution that is emitted reads each group's
channels (`Edit.lowered_convolution_groups`). Otherwise some output channel belongs to no group and
is made of channels that do not exist.
-/

namespace GraphLowering

/-- The output channels of a group follow one another, as many in each group. -/
structure InGroup (outputs groups group o : Nat) : Prop where
  isGroup : group < groups
  first : group * (outputs / groups) ≤ o
  last : o < (group + 1) * (outputs / groups)

section InGroup

variable {outputs groups group o : Nat}

theorem InGroup.div_eq (h : InGroup outputs groups group o) : o / (outputs / groups) = group :=
  Nat.div_eq_of_lt_le h.first h.last

theorem inGroup_div (hpos : 0 < outputs / groups) (ho : o < groups * (outputs / groups)) :
    InGroup outputs groups (o / (outputs / groups)) o where
  isGroup := Nat.div_lt_of_lt_mul (Nat.mul_comm groups _ ▸ ho)
  first := Nat.div_mul_le_self o _
  last := by
    rw [Nat.add_mul, Nat.one_mul, Nat.mul_comm]
    exact Nat.lt_mul_div_succ o hpos

theorem not_inGroup_mul (group : Nat) :
    ¬ InGroup outputs groups group (groups * (outputs / groups)) := by
  intro h
  exact absurd h.last (Nat.not_lt.mpr (Nat.mul_le_mul_right _ h.isGroup))

theorem mul_div_lt_of_not_dvd (h : ¬ groups ∣ outputs) : groups * (outputs / groups) < outputs :=
  Nat.lt_of_le_of_ne (Nat.mul_div_le outputs groups) fun heq => h ⟨_, heq.symm⟩

/-- The groups share out the output channels if and only if there are as many of them in each
group. -/
theorem existsUnique_inGroup_iff :
    (∀ o < outputs, ∃! group, InGroup outputs groups group o) ↔ groups ∣ outputs := by
  constructor
  · intro hunique
    by_contra hdvd
    obtain ⟨group, hgroup, _⟩ := hunique _ (mul_div_lt_of_not_dvd hdvd)
    exact not_inGroup_mul group hgroup
  · intro hdvd o ho
    rw [← Nat.mul_div_cancel' hdvd] at ho
    have hpos : 0 < outputs / groups := Nat.pos_of_mul_pos_left (Nat.zero_lt_of_lt ho)
    exact ⟨_, inGroup_div hpos ho, fun group hgroup => hgroup.div_eq.symm⟩

end InGroup

/-! ## What an output channel is made of -/

def Primitive.isConvolution : Primitive → Bool
  | .conv2d .. | .depthwiseConv2d .. => true
  | _ => false

/-- The input channels whose entries a convolution multiplies for an output channel, whether they
exist or not. -/
inductive Graph.DrawsOn (g : Graph) : Operator → Nat → Nat → Prop
  | conv2d {window : Window} {dilation : PerAxis} {activation : Activation}
      {x f b : TensorId} {results : List TensorId}
      {batch height width channels outputs kernelHeight kernelWidth depth o c : Nat}
      (data : g.dims? x = some [batch, height, width, channels])
      (filter : g.dims? f = some [outputs, kernelHeight, kernelWidth, depth]) (inDepth : c < depth) :
      DrawsOn g ⟨.conv2d window dilation activation, [x, f, b], results⟩
        o (o / (outputs / (channels / depth)) * depth + c)
  | depthwiseConv2d {window : Window} {dilation : PerAxis} {multiplier : Nat}
      {activation : Activation} {x f b : TensorId}
      {results : List TensorId} {o : Nat} :
      DrawsOn g ⟨.depthwiseConv2d window dilation multiplier activation, [x, f, b], results⟩
        o (o / multiplier)

section DrawsOn

variable {g : Graph} {window : Window} {dilation : PerAxis} {multiplier : Nat}
  {activation : Activation} {x f b : TensorId}
  {results : List TensorId} {o c : Nat}

theorem Graph.drawsOn_conv2d_iff
    {batch height width channels outputs kernelHeight kernelWidth depth : Nat}
    (hdata : g.dims? x = some [batch, height, width, channels])
    (hfilter : g.dims? f = some [outputs, kernelHeight, kernelWidth, depth]) :
    g.DrawsOn ⟨.conv2d window dilation activation, [x, f, b], results⟩ o c ↔
      ∃ d < depth, c = o / (outputs / (channels / depth)) * depth + d := by
  constructor
  · intro h
    cases h with
    | conv2d hdata' hfilter' hc =>
      cases hdata.symm.trans hdata'
      cases hfilter.symm.trans hfilter'
      exact ⟨_, hc, rfl⟩
  · rintro ⟨d, hd, rfl⟩
    exact .conv2d hdata hfilter hd

theorem Graph.drawsOn_depthwiseConv2d_iff :
    g.DrawsOn ⟨.depthwiseConv2d window dilation multiplier activation, [x, f, b], results⟩ o c ↔
    c = o / multiplier := by
  constructor
  · intro h
    cases h
    rfl
  · rintro rfl
    exact .depthwiseConv2d

end DrawsOn

/-- The output channels are shared out among the groups, and a convolution makes each of them of the
input channels of its group, which exist. -/
structure Graph.ReadsGroups (g : Graph) (op : Operator)
    (channels outputs groups width : Nat) : Prop where
  belongs : ∀ o < outputs, ∃! group, InGroup outputs groups group o
  draws : ∀ group o c, InGroup outputs groups group o →
    (g.DrawsOn op o c ↔ group * width ≤ c ∧ c < (group + 1) * width)
  within : ∀ o < outputs, ∀ c, g.DrawsOn op o c → c < channels

section Results

universe u

variable {R : Type u} [CommRing R] {g : Graph} {activate : Activation → R → R} {store store' : Store R}

namespace Value

variable {stride dilation : PerAxis} {multiplier : Nat} {f : R → R} {x filter bias v : Value R}

theorem conv2d_eq_some (h : x.conv2d stride dilation f filter bias = some v) :
    ∃ batch height width channels outputs kernelHeight kernelWidth depth,
      x.dims = [batch, height, width, channels] ∧
      filter.dims = [outputs, kernelHeight, kernelWidth, depth] ∧ ∀ n i j o, v.entry [n, i, j, o] =
        f (∑ k ∈ Finset.range kernelHeight, ∑ l ∈ Finset.range kernelWidth, ∑ c ∈ Finset.range depth,
          x.entry [n, i * stride.height + k * dilation.height, j * stride.width + l * dilation.width,
            o / (outputs / (channels / depth)) * depth + c] * filter.entry [o, k, l, c] +
              bias.flat o) := by
  unfold conv2d at h
  split at h
  · next batch height width channels outputs kernelHeight kernelWidth depth hx hfilter =>
    dsimp only at h
    split at h
    · cases h
      exact ⟨batch, height, width, channels, outputs, kernelHeight,
        kernelWidth, depth, hx, hfilter, fun _ _ _ _ => rfl⟩
    · cases h
  · cases h

theorem depthwiseConv2d_eq_some
    (h : x.depthwiseConv2d stride dilation multiplier f filter bias = some v) :
    ∃ one kernelHeight kernelWidth outputs,
      filter.dims = [one, kernelHeight, kernelWidth, outputs] ∧ ∀ n i j o, v.entry [n, i, j, o] =
      f (∑ k ∈ Finset.range kernelHeight, ∑ l ∈ Finset.range kernelWidth,
        x.entry [n, i * stride.height + k * dilation.height,
          j * stride.width + l * dilation.width, o / multiplier]
          * filter.entry [0, k, l, o] + bias.flat o) := by
  unfold depthwiseConv2d at h
  split at h
  · next one kernelHeight kernelWidth outputs _ hfilter =>
    dsimp only at h
    split at h
    · cases h
      exact ⟨one, kernelHeight, kernelWidth, outputs, hfilter, fun _ _ _ _ => rfl⟩
    · cases h
  · cases h

end Value

/-- The entries of an output channel change only with the channels that it draws on, with the filter
and with the bias. -/
theorem Operator.entry_eq_of_drawsOn {op : Operator} {x f b : TensorId} {v v' : Value R}
    {n i j o : Nat} (hconvolution : op.kind.isConvolution) (hinputs : op.inputs = [x, f, b])
    (hv : op.result? g activate store = some v) (hv' : op.result? g activate store' = some v')
    (hx : g.dims? x = some (store x).dims) (hf : g.dims? f = some (store f).dims)
    (hdims : (store' x).dims = (store x).dims) (hfilter : store' f = store f)
    (hbias : store' b = store b)
    (hdrawn : ∀ c, g.DrawsOn op o c →
      ∀ n i j, (store' x).entry [n, i, j, c] = (store x).entry [n, i, j, c]) :
    v'.entry [n, i, j, o] = v.entry [n, i, j, o] := by
  obtain ⟨kind, inputs, outputs⟩ := op
  cases hinputs
  cases kind with
  | conv2d window dilation activation =>
    obtain ⟨_ | _, stride⟩ := window
    · cases hv
    · obtain ⟨_, _, _, channels, outputs, _, _, depth, hxDims, hfDims, hentry⟩ :=
        Value.conv2d_eq_some hv
      obtain ⟨_, _, _, _, _, _, _, _, hxDims', hfDims', hentry'⟩ := Value.conv2d_eq_some hv'
      rw [hdims, hxDims] at hxDims'
      rw [hfilter, hfDims] at hfDims'
      cases hxDims'
      cases hfDims'
      rw [hentry, hentry', hfilter, hbias]
      congr 2
      refine Finset.sum_congr rfl fun k _ =>
        Finset.sum_congr rfl fun l _ => Finset.sum_congr rfl fun c hc => ?_
      rw [hdrawn _ (.conv2d (hx.trans (congrArg some hxDims))
        (hf.trans (congrArg some hfDims)) (Finset.mem_range.mp hc))]
  | depthwiseConv2d window dilation multiplier activation =>
    obtain ⟨_ | _, stride⟩ := window
    · cases hv
    · obtain ⟨_, _, _, _, hfDims, hentry⟩ := Value.depthwiseConv2d_eq_some hv
      obtain ⟨_, _, _, _, hfDims', hentry'⟩ := Value.depthwiseConv2d_eq_some hv'
      rw [hfilter, hfDims] at hfDims'
      cases hfDims'
      rw [hentry, hentry', hfilter, hbias]
      congr 2
      refine Finset.sum_congr rfl fun k _ => Finset.sum_congr rfl fun l _ => ?_
      rw [hdrawn _ .depthwiseConv2d]
  | _ => cases hconvolution

end Results

/-! ## The convolution of a chain -/

namespace Convolution.Plan

variable {g : Graph} {first : Nat} {n : Convolution} {p : Plan} {activation : Activation}

def convolution (p : Plan) (activation : Activation) : Operator :=
  ⟨p.kind activation, [p.data, p.filter, p.bias], [p.bracket.output]⟩

theorem isConvolution_kind (p : Plan) (activation : Activation) :
    (p.kind activation).isConvolution := by
  unfold Survey.kind
  split <;> rfl

theorem Fits.mem_and_isConvolution_iff (h : p.Fits n g first) (op : Operator) :
    op ∈ p.chain activation ∧ op.kind.isConvolution ↔ op = p.convolution activation := by
  constructor
  · rintro ⟨hop, hconvolution⟩
    have hmoves {kind : Primitive} {how : Buffer} {source result : TensorId} {op : Operator}
        (hmove : g.Moves first kind how source result op) (hkind : kind.isConvolution = false) :
        op.kind.isConvolution → op = p.convolution activation := by
      rw [hmove.kind_eq, hkind]
      exact fun hfalse => absurd hfalse Bool.false_ne_true
    have hpads : ∀ op ∈ p.padding, op.kind.isConvolution → op = p.convolution activation := by
      have hpads := h.pads
      generalize p.padding = padding, p.data = data at hpads
      cases hpads with
      | unpadded _ => exact List.forall_mem_nil _
      | padded _ _ _ _ _ _ _ _ _ hmove _ => exact List.forall_mem_singleton.mpr (hmoves hmove rfl)
    have hlifts : ∀ op ∈ p.lifted.before ++ p.lifted.after, op.kind.isConvolution →
        op = p.convolution activation := by
      intro op hop
      obtain ⟨_, hreshape⟩ := h.lifts.reshapes op hop
      rw [hreshape]
      exact fun hfalse => absurd hfalse Bool.false_ne_true
    exact p.forall_mem_chain hlifts (hmoves h.brackets.enter rfl)
      hpads (hmoves h.reorders rfl) (fun _ => rfl) (hmoves h.brackets.leave rfl) op hop hconvolution
  · rintro rfl
    refine ⟨?_, p.isConvolution_kind activation⟩
    unfold chain convolution
    simp

theorem Fits.operandDims (h : p.Fits n g first) (hgrouped : ¬ p.depthwise) :
    ∃ batch height width kernelHeight kernelWidth,
      g.dims? p.data = some [batch, height, width, p.groupWidth * p.lifted.params.groups] ∧
      g.dims? p.filter = some [p.outputChannels, kernelHeight, kernelWidth, p.groupWidth] := by
  obtain ⟨_, _, _, x, w, _, hraised⟩ := h.lifts.raised
  cases hraised.lays.input.symm.trans h.input
  cases hraised.lays.weight.symm.trans h.weight
  obtain ⟨batch, channels, height, width, hxDims⟩ := List.length_eq_four.mp hraised.lays.ranks.1
  obtain ⟨outputs, depth, kernelHeight, kernelWidth, hwDims⟩ :=
    List.length_eq_four.mp hraised.lays.ranks.2.1
  obtain ⟨⟨_, hpadding, _⟩, _⟩ := Lift.parameterObjection?_eq_none.mp hraised.lays.valid
  obtain ⟨ph, pw, hpadding⟩ := List.length_eq_two.mp hpadding
  have hchannels : channels = p.groupWidth * p.lifted.params.groups := by
    simpa [hxDims] using h.inputChannels
  have houtputs : outputs = p.outputChannels := by
    simpa [hwDims] using h.outputChannels
  have hdepth : depth = p.groupWidth := by
    simpa [hwDims] using h.groupWidth
  obtain ⟨inner, hinner, hinnerDims⟩ := h.brackets.declared_input h.input hxDims
  obtain ⟨_, hdata⟩ := h.pads.shapeRule (Graph.dims?_of_tensor? hinner hinnerDims) hpadding
  obtain ⟨_, filter, hfilter, hfilterDims⟩ := h.permuted.declared h.weight
  unfold Survey.weightOrder at hfilterDims
  rw [if_neg hgrouped, hwDims, houtputs, hdepth] at hfilterDims
  rw [hchannels] at hdata
  exact ⟨_, _, _, kernelHeight, kernelWidth, hdata, Graph.dims?_of_tensor? hfilter hfilterDims⟩

/-- An output channel draws on as many channels as a group has. They start where its group does,
counted from the first one. -/
theorem Fits.drawsOn_iff (h : p.Fits n g first) (hgroups : 1 ≤ p.lifted.params.groups) {o c : Nat} :
    g.DrawsOn (p.convolution activation) o c ↔
      ∃ d < p.groupWidth, c = o / (p.outputChannels / p.lifted.params.groups) * p.groupWidth + d := by
  by_cases hdepthwise : p.depthwise
  · obtain ⟨hsingle, houtputs⟩ := of_decide_eq_true hdepthwise
    unfold convolution Survey.kind
    rw [if_pos hdepthwise, Graph.drawsOn_depthwiseConv2d_iff,
      hsingle, houtputs, Nat.div_self hgroups, Nat.div_one, Nat.mul_one]
    simp
  · obtain ⟨batch, height, width, kernelHeight, kernelWidth, hdata, hfilter⟩ := h.operandDims hdepthwise
    unfold convolution Survey.kind
    rw [if_neg hdepthwise, Graph.drawsOn_conv2d_iff hdata hfilter]
    refine exists_congr fun d => and_congr_right fun hd => ?_
    rw [Nat.mul_div_cancel_left _ (Nat.zero_lt_of_lt hd)]

theorem Fits.readsGroups_iff (h : p.Fits n g first) (hgroups : 1 ≤ p.lifted.params.groups) :
    g.ReadsGroups (p.convolution activation) (p.groupWidth * p.lifted.params.groups)
      p.outputChannels p.lifted.params.groups
      p.groupWidth ↔ p.lifted.params.groups ∣ p.outputChannels := by
  have hdraws : ∀ group o c, InGroup p.outputChannels p.lifted.params.groups group o →
      (g.DrawsOn (p.convolution activation) o c ↔
        group * p.groupWidth ≤ c ∧ c < (group + 1) * p.groupWidth) := by
    intro group o c hgroup
    rw [h.drawsOn_iff hgroups, hgroup.div_eq, Nat.succ_mul]
    constructor
    · rintro ⟨d, hd, rfl⟩
      omega
    · rintro ⟨hfirst, hlast⟩
      exact ⟨c - group * p.groupWidth, by omega, by omega⟩
  constructor
  · exact fun hreads => existsUnique_inGroup_iff.mp hreads.belongs
  · intro hdvd
    have hbelongs := existsUnique_inGroup_iff.mpr hdvd
    refine ⟨hbelongs, hdraws, fun o ho c hc => ?_⟩
    obtain ⟨group, hgroup, _⟩ := hbelongs o ho
    obtain ⟨_, hlast⟩ := (hdraws group o c hgroup).mp hc
    rw [Nat.mul_comm]
    exact Nat.lt_of_lt_of_le hlast (Nat.mul_le_mul_right _ hgroup.isGroup)

theorem Fits.drawsOn_beyond (h : p.Fits n g first) (hgroups : 1 ≤ p.lifted.params.groups)
    (houtputs : p.lifted.params.groups ≤ p.outputChannels) (hwidth : 1 ≤ p.groupWidth) :
    g.DrawsOn (p.convolution activation)
      (p.lifted.params.groups * (p.outputChannels / p.lifted.params.groups))
      (p.groupWidth * p.lifted.params.groups) := by
  have hpos : 0 < p.outputChannels / p.lifted.params.groups := Nat.div_pos houtputs hgroups
  refine (h.drawsOn_iff hgroups).mpr ⟨0, hwidth, ?_⟩
  rw [Nat.mul_div_cancel _ hpos, Nat.mul_comm, Nat.add_zero]

end Convolution.Plan

/-- A convolution that is lowered has groups, and as many input channels as its groups together. One
of the operators that take its place convolves. That one reads each group's channels if and only if
the groups share out the output channels. If they do not, an output channel belongs to no group and
is made of a channel that does not exist. -/
theorem Edit.lowered_convolution_groups {calls : List Call} {world : World} {id : NodeId}
    {node : Node} {n : Convolution} {options : Options} {result : Lowered} {s : Session}
    (hcalls : World.after calls = some world) (hnode : world.graph.node? id = some node)
    (hkind : node.kind = .composite (.convolution n))
    (hlower : lowerNode id options world.session = .ok result s) :
    ∃ x w channels outputs width op,
      world.graph.tensor? n.input = some x ∧ world.graph.tensor? n.weight = some w ∧
      x.shape.dims[1]? = some channels ∧ w.shape.dims[0]? = some outputs ∧
      w.shape.dims[1]? = some width ∧
      (∀ op', s.graph.Runs result.nodes op' ∧ op'.kind.isConvolution ↔ op' = op) ∧
      1 ≤ n.params.groups ∧ channels = width * n.params.groups ∧
      (s.graph.ReadsGroups op channels outputs n.params.groups width ↔ n.params.groups ∣ outputs) ∧
      (¬ n.params.groups ∣ outputs →
        ∃ o < outputs, (∀ group, ¬ InGroup outputs n.params.groups group o) ∧
        (n.params.groups ≤ outputs → 1 ≤ width → ∃ c, s.graph.DrawsOn op o c ∧ channels ≤ c)) := by
  have hwf := (World.after_sound hcalls).wellFormed
  have hlowers := (lowerNode_run id options world.session).1 result s hlower
  obtain ⟨chain, ⟨p, hfits, rfl⟩, _, hnodes⟩ := hlowers.operators hnode hkind
  obtain ⟨o, t, _, houtline, _⟩ := lowerNode_place hnode hkind hlower
  have hgroups : 1 ≤ n.params.groups := Nat.pos_of_ne_zero (Convolution.plans_of_ok houtline).1
  obtain ⟨x, hx⟩ :=
    Option.isSome_iff_exists.mp (hwf.operand_registered hnode hkind (t := n.input) List.mem_cons_self)
  obtain ⟨w, hw⟩ := Option.isSome_iff_exists.mp
    (hwf.operand_registered hnode hkind (t := n.weight) (List.mem_cons_of_mem _ List.mem_cons_self))
  have hextend := hlowers.tensors_extend
  obtain ⟨hchannels, houtputs, hwidth, hsame⟩ :=
    hfits.operandChannels (Graph.tensor?_of_extend hextend hx) (Graph.tensor?_of_extend hextend hw)
  rw [← hsame] at hgroups hchannels ⊢
  refine ⟨x, w, _, _, _, p.convolution n.activation, hx, hw,
    hchannels, houtputs, hwidth, fun op => ?_, hgroups, rfl, hfits.readsGroups_iff hgroups,
    fun hdvd => ⟨_, mul_div_lt_of_not_dvd hdvd, not_inGroup_mul, fun hle hpos => ?_⟩⟩
  · rw [Graph.runs_iff_mem hnodes]
    exact hfits.mem_and_isConvolution_iff op
  · exact ⟨_, hfits.drawsOn_beyond hgroups hle hpos, Nat.le_refl _⟩

/-- Each of two groups makes two of the four output channels of the two input channels that it has. -/
theorem Edit.lowered_convolution_groups_line :
    ∃ world result s op, World.after (groupedByteLineTensors.map .addTensor ++
      [.addComposite (.convolution groupedByteLine)]) = some world ∧
      lowerNode ⟨0⟩ .default world.session = .ok result s ∧ s.graph.Runs result.nodes op ∧
      op.kind.isConvolution ∧
      s.graph.ReadsGroups op 4 4 2 2 := by
  have hrun : ((World.after (groupedByteLineTensors.map .addTensor ++
      [.addComposite (.convolution groupedByteLine)])).bind fun world =>
      ((lowerNode ⟨0⟩ .default).success? world.session).map fun _ =>
        (world.graph.tensors, (world.graph.node? ⟨0⟩).map (·.kind))) =
      some (groupedByteLineTensors, some (.composite (.convolution groupedByteLine))) := by
    decide +kernel
  obtain ⟨world, hworld, hlower⟩ := Option.bind_eq_some_iff.mp hrun
  obtain ⟨⟨result, s⟩, hsuccess, hfacts⟩ := Option.map_eq_some_iff.mp hlower
  obtain ⟨htensors, hcomposite⟩ := Prod.mk.inj hfacts
  obtain ⟨node, hnode, hkind⟩ := Option.map_eq_some_iff.mp hcomposite
  have hok := success?_eq_some hsuccess
  obtain ⟨x, w, channels, outputs, width, op, hx, hw, hchannels,
      houtputs, hwidth, honly, _, _, hreads, _⟩ :=
    lowered_convolution_groups hworld hnode hkind hok
  unfold Graph.tensor? at hx hw
  rw [htensors] at hx hw
  cases hx
  cases hw
  cases hchannels
  cases houtputs
  cases hwidth
  obtain ⟨hruns, hconvolution⟩ := (honly op).mpr rfl
  exact ⟨world, result, s, op, hworld, hok, hruns, hconvolution, hreads.mpr (by decide)⟩

/-- Two groups for three output channels. -/
def unevenGroups : Convolution :=
  ⟨⟨0⟩, ⟨1⟩, none, ⟨2⟩, ⟨[1, 1], [0, 0], [1, 1], [0, 0], 2⟩, .none⟩

def unevenGroupsCalls : List Call :=
  [.addInput (.computed "x" ⟨.f32, ⟨[1, 2, 4, 4]⟩⟩ none),
    .addTensor (.computed "w" ⟨.f32, ⟨[3, 1, 1, 1]⟩⟩ none),
    .addTensor (.computed "y" ⟨.f32, ⟨[1, 3, 4, 4]⟩⟩ none), .addComposite (.convolution unevenGroups)]

/-- The lowering succeeds, but the third output channel belongs to neither group, and is made of a
third input channel, where there are two. -/
theorem Edit.lowered_convolution_unevenGroups :
    ∃ world result s op, World.after unevenGroupsCalls = some world ∧
      (world.graph.node? ⟨1⟩).map (·.kind) = some (.composite (.convolution unevenGroups)) ∧
      world.graph.dims? unevenGroups.input = some [1, 2, 4, 4] ∧
      world.graph.dims? unevenGroups.weight = some [3, 1, 1, 1] ∧
      lowerNode ⟨1⟩ .default world.session = .ok result s ∧ ¬ unevenGroups.params.groups ∣ 3 ∧
      (∀ group, ¬ InGroup 3 unevenGroups.params.groups group 2) ∧
      s.graph.Runs result.nodes op ∧ op.kind.isConvolution ∧ s.graph.DrawsOn op 2 2 := by
  have hrun : ((World.after unevenGroupsCalls).bind fun world =>
      ((lowerNode ⟨1⟩ .default).success? world.session).map fun lowered =>
        ((world.graph.node? ⟨1⟩).map (·.kind),
          lowered.1.nodes[2]?.bind fun id => (lowered.2.graph.node? id).map (·.kind),
          [world.graph.dims? ⟨0⟩, world.graph.dims? ⟨1⟩, lowered.2.graph.dims? ⟨5⟩,
            lowered.2.graph.dims? ⟨8⟩])) =
      some (some (.composite (.convolution unevenGroups)),
        some (.operator ⟨.conv2d ⟨.valid, ⟨1, 1⟩⟩ ⟨1, 1⟩ .none, [⟨5⟩, ⟨8⟩, ⟨9⟩], [⟨6⟩]⟩),
        [some [1, 2, 4, 4], some [3, 1, 1, 1], some [1, 4, 4, 2], some [3, 1, 1, 1]]) := by
    decide +kernel
  obtain ⟨world, hworld, hlower⟩ := Option.bind_eq_some_iff.mp hrun
  obtain ⟨⟨result, s⟩, hsuccess, hfacts⟩ := Option.map_eq_some_iff.mp hlower
  simp only [Prod.mk.injEq, List.cons.injEq] at hfacts
  obtain ⟨hcomposite, hoperator, hx, hw, hdata, hfilter, _⟩ := hfacts
  obtain ⟨id, hid, hoperator⟩ := Option.bind_eq_some_iff.mp hoperator
  obtain ⟨node, hnode, hkind⟩ := Option.map_eq_some_iff.mp hoperator
  have hruns : s.graph.Runs result.nodes
      ⟨.conv2d ⟨.valid, ⟨1, 1⟩⟩ ⟨1, 1⟩ .none, [⟨5⟩, ⟨8⟩, ⟨9⟩], [⟨6⟩]⟩ :=
    ⟨id, List.mem_of_getElem? hid, node, hnode, hkind⟩
  have houtside : ∀ group, ¬ InGroup 3 2 group 2 := not_inGroup_mul
  exact ⟨world, result, s, _, hworld, hcomposite, hx, hw, success?_eq_some hsuccess, by decide,
    houtside, hruns, rfl, (Graph.drawsOn_conv2d_iff hdata hfilter).mpr ⟨0, by decide, rfl⟩⟩

end GraphLowering
