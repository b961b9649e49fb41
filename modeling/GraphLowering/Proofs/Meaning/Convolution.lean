import GraphLowering.Proofs.Invariant
import GraphLowering.Proofs.Meaning.Lifting

/-!
# What the chain of a convolution computes

The chain of a convolution is run from the inside out. Its core works on images: it puts the input
into the channel-last layout, pads it, puts the axes of the weight in the order of the filter's
axes, convolves, and leaves the channel-last layout (`Plan.Fits.run_core`). Around it, the operands
of a convolution along a line get a unit axis and the result loses it (`Plan.Fits.run`).

An operator may overwrite what a later one reads only if they share a tensor. That no operator does
follows from the numbers of the tensors (`Plan.Apart`) and from the fact that in a graph no two
nodes produce the same tensor.
-/

namespace GraphLowering

universe u

variable {R : Type u} [CommRing R] {g : Graph} {first : Nat}
  {activate : Activation → R → R} {store : Store R}

namespace Convolution

/-- What a bias adds to an output channel. A bias of one element adds it to all of them. -/
def biasEntry (store : Store R) (bias : Option TensorId) (o : Nat) : R :=
  match bias with
  | none => 0
  | some id => (store id).flat (if (store id).dims.prod = 1 then 0 else o)

theorem biasEntry_full {store : Store R} {id : TensorId} {channels o : Nat}
    (h : (store id).dims.prod = channels) (ho : o < channels) :
    biasEntry store (some id) o = (store id).flat o := by
  unfold biasEntry
  simp only
  split
  · have hzero : o = 0 := by omega
    rw [hzero]
  · rfl

theorem biasEntry_single {store : Store R} {id : TensorId} (h : (store id).dims.prod = 1) (o : Nat) :
    biasEntry store (some id) o = (store id).flat 0 := by
  unfold biasEntry
  simp only [h, if_true]

/-- The sizes that a graph declares for a convolution fit together. The output is as large as the
convolution makes it, groups have equally many output channels, and a bias has one element or one
for each output channel. -/
structure Declares (n : Convolution) (g : Graph) (x w y : Tensor) : Prop where
  input : g.tensor? n.input = some x
  weight : g.tensor? n.weight = some w
  output : g.tensor? n.output = some y
  sizes : y.shape.dims.map Nat.cast = n.params.outputDims x.shape.dims w.shape.dims
  groups : n.params.groups ∣ w.shape.dims.headD 0
  bias : ∀ id ∈ n.bias, ∀ t, g.tensor? id = some t →
    t.shape.dims.prod = w.shape.dims.headD 0 ∨ t.shape.dims.prod = 1

/-- What the declared sizes amount to, for the operands as they are given and with two spatial
axes. -/
structure Sized (n : Convolution) (g : Graph) (params : ConvParams) (x w y : List Nat) : Prop where
  sizes : y.map Nat.cast = params.outputDims x w
  groups : params.groups ∣ w.headD 0
  bias : ∀ id ∈ n.bias, ∀ t, g.tensor? id = some t →
    t.shape.dims.prod = w.headD 0 ∨ t.shape.dims.prod = 1

omit [CommRing R] in
theorem Declares.sized {n : Convolution} {tx tw ty : Tensor} (hd : n.Declares g tx tw ty) :
    n.Sized g n.params tx.shape.dims tw.shape.dims ty.shape.dims :=
  ⟨hd.sizes, hd.groups, hd.bias⟩

theorem raisable (n : Convolution) (g : Graph) (f : R → R) (bias : Nat → R) :
    Lift.Raisable (n.Sized g) fun params x w => params.convolve f x w bias where
  sizes := by
    rintro params a b c a' b' c' a'' b'' c'' ⟨hsizes, hgroups, hbias⟩
    refine ⟨?_, hgroups, hbias⟩
    rw [ConvParams.outputDims_lifted, ← hsizes]
    rfl
  entries := by
    intro params a b c a' b' c' a'' b'' c'' x x' w w' hx hw hsized n o j hn ho
    have hsame : b'' = a' := Int.natCast_inj.mp (List.cons.inj (List.cons.inj hsized.sizes).2).1
    exact ConvParams.convolve_lifted hx hw (hsame ▸ ho)

theorem Biases.flat {channels : Nat} {bias : Option TensorId} {result : TensorId}
    (h : Biases g first channels bias result)
    (hlength : ∀ id ∈ bias, ∀ t, g.tensor? id = some t →
      t.shape.dims.prod = channels ∨ t.shape.dims.prod = 1)
    (reading : Reading R) (entries : TensorId → List Nat → R) :
    (g.store reading entries result).dims.prod = channels ∧
      ∀ o < channels,
        (g.store reading entries result).flat o = biasEntry (g.store reading entries) bias o := by
  cases h with
  | zeros hzero hoperand _ =>
    rcases hzero with rfl | rfl
    · obtain ⟨hprod, hflat⟩ := hoperand.vector reading entries
      exact ⟨hprod, fun o ho => (hflat o ho).trans (reading.getD_zeros (.inl rfl) ho)⟩
    · obtain ⟨hprod, hflat⟩ := hoperand.vector reading entries
      exact ⟨hprod, fun o ho => (hflat o ho).trans (reading.getD_zeros (.inr rfl) ho)⟩
  | @given _ t hknown hcount =>
    have hprod : t.shape.dims.prod = channels := by
      rw [Shape.elementCount_eq] at hcount
      rcases hlength result rfl t hknown with hfull | hone
      · exact hfull
      · rw [hone] at hcount ⊢
        exact hcount
    have hfull : (g.store reading entries result).dims.prod = channels := by
      rw [Graph.store_dims hknown, hprod]
    exact ⟨hfull, fun o ho => (biasEntry_full hfull ho).symm⟩
  | @repeated id t data copies _ hknown hone _ hconstant hcopied hoperand _ =>
    have hsingle : (g.store reading entries id).dims.prod = 1 := by
      rw [Shape.elementCount_eq] at hone
      unfold maxSize at hone
      rw [Graph.store_dims hknown]
      omega
    obtain ⟨elements, helements, rfl⟩ := Option.map_eq_some_iff.mp hcopied
    obtain ⟨hprod, hflat⟩ := hoperand.vector reading entries
    rw [Elements.size_repeatFirst? helements] at hprod hflat
    refine ⟨hprod, fun o ho => ?_⟩
    rw [biasEntry_single hsingle, hflat o ho, reading.getD_repeatFirst? helements ho]
    rw [Graph.store_constant hknown hconstant] at hsingle ⊢
    refine (reading.constant_flat data.elements ?_).symm
    rw [show t.shape.dims.prod = 1 from hsingle]
    exact Nat.one_pos

variable {z : Setting} {params : ConvParams} {x w bias : Value R} {f : R → R}

theorem Pads.run {id data : TensorId} {ops : List Operator} (h : Pads g first id params ops data)
    (activate : Activation → R → R) (store : Store R) (hz : z.Fits params x w bias)
    (hdeclared : ∀ t, g.tensor? id = some t → (store id).dims = t.shape.dims)
    (hdims : (store id).dims = [z.batch, z.height, z.width, z.channels])
    (hentry : ∀ n i j c, (store id).entry [n, i, j, c] = x.entry [n, c, i, j]) :
    ∃ store', g.runChain activate ops store = some store' ∧ z.Lays x (store' data) := by
  cases h with
  | unpadded hnone =>
    have hzero : z.padding.height = 0 ∧ z.padding.width = 0 := by
      simpa [ConvParams.hasPadding, hz.padding] using hnone
    refine ⟨store, rfl, hz.lays ?_ hdims hentry⟩
    rw [← show (⟨z.padding.height, z.padding.width⟩ : PerAxis) = z.padding from rfl, hzero.1, hzero.2]
  | @padded op result t rows columns height width ph pw _ hheight
      hwidth hph hpw hknown hrows hcolumns hintermediate hmoves _ =>
    have hknown' := hdeclared t hknown
    rw [hdims] at hknown'
    rw [hz.padding] at hheight hwidth
    rw [← hknown'] at hrows hcolumns
    cases hheight
    cases hwidth
    cases hrows
    cases hcolumns
    have hsizes : [0, 0, z.padding.height, z.padding.height,
        z.padding.width, z.padding.width, 0, 0].mapM toInt32? =
        some [0, 0, ph, ph, pw, pw, 0, 0] := by
      simp only [List.mapM_cons, List.mapM_nil, hph, hpw]
      rfl
    obtain ⟨v, hv, hlays⟩ := hz.lays_pad hdims hentry
    obtain ⟨_, _, hresult⟩ := hintermediate
    have hrun : op.run g activate store = some (Function.update store data v) := by
      refine hmoves.pads activate store (mapM_ofInt32? hsizes) hv hresult ?_
      rw [hlays.dims, Setting.paddedHeight, Setting.paddedWidth, Nat.mul_comm 2, Nat.mul_comm 2]
      show (t.shape.dims.set 1 _).set 2 _ = _
      rw [← hknown']
      rfl
    refine ⟨_, Graph.runChain_cons hrun, ?_⟩
    rw [Function.update_self]
    exact hlays

namespace Plan

variable {n : Convolution} {p : Plan}

def core (p : Plan) (activation : Activation) : List Operator :=
  p.bracket.enter :: p.padding
    ++ [p.reorder, ⟨p.kind activation, [p.data, p.filter, p.bias], [p.bracket.output]⟩, p.bracket.leave]

theorem Fits.filters (h : p.Fits n g first) (activate : Activation → R → R)
    (hz : z.Fits p.lifted.params x w bias) (hw : w.dims = p.w.shape.dims) {data filter : Value R}
    (hdata : z.Lays x data) (hdims : filter.dims = p.weightOrder.map (w.dims.getD · 0))
    (hentry : ∀ index, filter.entry index = w.entry
      ((List.range p.weightOrder.length).map fun axis => index.getD (p.weightOrder.idxOf axis) 0))
    {store : Store R}
    (hstore : store p.data = data ∧ store p.filter = filter ∧ store p.bias = bias) :
    ∃ y, (⟨p.kind n.activation, [p.data, p.filter, p.bias], [p.bracket.output]⟩ : Operator).result?
      g activate store = some y ∧
      z.Gives p.lifted.params (activate n.activation) x w bias y := by
  obtain ⟨rfl, rfl, rfl⟩ := hstore
  have hstride : p.stride = z.stride := perAxis_eq hz.stride h.stride
  have hdilation : p.dilation = z.dilation := perAxis_eq hz.dilation h.dilation
  have hdepth : z.depth = p.groupWidth := by
    have hentry := h.groupWidth
    rw [← hw, hz.weight] at hentry
    exact Option.some.inj hentry
  have houtputs : z.outputs = p.outputChannels := by
    have hentry := h.outputChannels
    rw [← hw, hz.weight] at hentry
    exact Option.some.inj hentry
  rw [hz.weight] at hdims
  unfold Survey.kind
  unfold Survey.weightOrder at hdims hentry
  by_cases hdepthwise : p.depthwise
  · simp only [if_pos hdepthwise] at hdims hentry ⊢
    obtain ⟨hone, hgroups⟩ := of_decide_eq_true hdepthwise
    rw [hstride, hdilation]
    exact hz.depthwiseConv2d (hdepth.trans hone) (houtputs.trans hgroups) hdata hdims fun o k l c =>
      hentry [c, k, l, o]
  · simp only [if_neg hdepthwise] at hdims hentry ⊢
    rw [hstride, hdilation]
    exact hz.conv2d hdata hdims fun o k l c => hentry [o, k, l, c]

theorem Fits.run_data (h : p.Fits n g first) (activate : Activation → R → R) (store : Store R)
    (hz : z.Fits p.lifted.params (store p.lifted.input) w bias)
    (hx : (store p.lifted.input).dims = p.x.shape.dims) :
    ∃ store', g.runChain activate (p.bracket.enter :: p.padding) store = some store' ∧
      z.Lays (store p.lifted.input) (store' p.data) := by
  obtain ⟨⟨inner, hinner, hinnerDims⟩, xl, hrun, hdims, hentry⟩ :=
    h.brackets.run_enter activate store h.input hx (hx.symm.trans hz.input)
  have hxl : Function.update store p.bracket.input xl p.bracket.input = xl := Function.update_self ..
  have hdeclared : ∀ t, g.tensor? p.bracket.input = some t →
      (Function.update store p.bracket.input xl p.bracket.input).dims = t.shape.dims := by
    intro t ht
    rw [hinner] at ht
    cases ht
    rw [hxl, hdims, hinnerDims]
  obtain ⟨store', hrun', hlays⟩ := h.pads.run activate (Function.update store p.bracket.input xl)
    hz hdeclared (by rw [hxl]; exact hdims) (fun b i j c => by rw [hxl]; exact hentry b i j c)
  exact ⟨store', (Graph.runChain_cons hrun).trans hrun', hlays⟩

theorem Fits.run_core (h : p.Fits n g first)
    (hz : z.Fits p.lifted.params (store p.lifted.input) (store p.lifted.weight) (store p.bias))
    (hx : (store p.lifted.input).dims = p.x.shape.dims)
    (hw : (store p.lifted.weight).dims = p.w.shape.dims) {out : Tensor}
    (hout : g.tensor? p.lifted.output = some out)
    (houtDims : out.shape.dims = [z.batch, z.outputs, z.rows, z.columns])
    (hweight : p.lifted.weight ∉ (p.bracket.enter :: p.padding).flatMap (·.outputs))
    (hdata : p.data ≠ p.filter)
    (hbias : p.bias ∉ (p.bracket.enter :: p.padding ++ [p.reorder]).flatMap (·.outputs)) :
    ∃ store', g.runChain activate (p.core n.activation) store = some store' ∧
      (store' p.lifted.output).dims = [z.batch, z.outputs, z.rows, z.columns] ∧
      ∀ b o i j, b < z.batch → o < z.outputs → i < z.rows → j < z.columns →
        (store' p.lifted.output).entry [b, o, i, j] = p.lifted.params.convolve (activate n.activation)
          (store p.lifted.input) (store p.lifted.weight) (store p.bias).flat [b, o, i, j] := by
  obtain ⟨store₂, hrun₂, hlays⟩ := h.run_data activate store hz hx
  -- the weight is still there when its axes are reordered
  have hsame := Graph.runChain_frame hrun₂ hweight
  obtain ⟨filter, hrun₃, hfilterDims, hfilterEntry⟩ := h.permuted.run activate store₂ h.reorders
    (by unfold Survey.weightOrder; split <;> decide) h.weight (by rw [hsame]; exact hw)
  rw [hsame] at hfilterDims hfilterEntry
  have hreordered :=
    Graph.runChain_append hrun₂ ((Graph.runChain_cons hrun₃).trans (Graph.runChain_nil _))
  -- and so are the data and the bias when they are convolved
  obtain ⟨y, hy, hgives⟩ := h.filters activate hz hw hlays hfilterDims hfilterEntry
    ⟨Function.update_of_ne hdata _ _, Function.update_self .., Graph.runChain_frame hreordered hbias⟩
  obtain ⟨inner, hinner, hinnerDims⟩ := h.brackets.declared_output hout houtDims
  have hrun₄ := Graph.run_of_result rfl hy hinner (hinnerDims.trans hgives.dims.symm)
  rw [← Function.update_self p.bracket.output y (Function.update store₂ p.filter filter)] at hgives
  obtain ⟨final, hrun₅, hfinalDims, hfinalEntry⟩ :=
    h.brackets.run_leave activate _ hout houtDims hgives.dims
  have hlast :=
    (Graph.runChain_cons hrun₄).trans ((Graph.runChain_cons hrun₅).trans (Graph.runChain_nil _))
  have hall := Graph.runChain_append hreordered hlast
  rw [List.append_assoc] at hall
  refine ⟨_, hall, ?_, ?_⟩
  · rw [Function.update_self]
    exact hfinalDims
  · intro b o i j hb ho hi hj
    rw [Function.update_self, hfinalEntry]
    exact hgives.entry b i j o hb hi hj ho

theorem chain_eq (p : Plan) (activation : Activation) :
    p.chain activation = p.lifted.before ++ (p.core activation ++ p.lifted.after) := by
  unfold chain core
  simp only [List.append_assoc]

structure Holds (n : Convolution) (activate : Activation → R → R)
    (start : Store R) (y : Tensor) (final : Store R) : Prop where
  dims : (final n.output).dims = y.shape.dims
  entry : ∀ index, InBounds y.shape.dims index → (final n.output).entry index =
    n.params.convolve (activate n.activation) (start n.input)
      (start n.weight) (biasEntry start n.bias) index

section Whole

variable {tx tw ty : Tensor} (activate : Activation → R → R)
  (reading : Reading R) (entries : TensorId → List Nat → R)

theorem Fits.run_lifted (h : p.Fits n g first) (hapart : p.Apart) {store : Store R}
    {x w out : Tensor}
    (hbefore : g.runChain activate p.lifted.before (g.store reading entries) = some store)
    (hlays : Lift.Lays g p.lifted x w out)
    (hsized : n.Sized g p.lifted.params x.shape.dims w.shape.dims out.shape.dims) :
    ∃ store', g.runChain activate (p.core n.activation) store = some store' ∧
      (store' p.lifted.output).dims = out.shape.dims ∧
      ∀ index, InBounds out.shape.dims index → (store' p.lifted.output).entry index =
        p.lifted.params.convolve (activate n.activation) (store p.lifted.input) (store p.lifted.weight)
          (biasEntry (g.store reading entries) n.bias) index := by
  obtain ⟨hsizes, hgroups, hbias⟩ := hsized
  obtain ⟨hinput, hweight, hout, hranks, hvalid⟩ := hlays
  have htyped := Graph.runChain_typed hbefore (g.store_typed reading entries)
  have hx := htyped _ _ hinput
  have hw := htyped _ _ hweight
  obtain rfl : p.x = x := Option.some.inj (h.input.symm.trans hinput)
  obtain rfl : p.w = w := Option.some.inj (h.weight.symm.trans hweight)
  obtain ⟨hentries, hpositive, _⟩ := Lift.parameterObjection?_eq_none.mp hvalid
  have hchannels : p.x.shape.dims.getD 1 0 = p.w.shape.dims.getD 1 0 * p.lifted.params.groups := by
    rw [List.getD_eq_getElem?_getD, List.getD_eq_getElem?_getD, h.inputChannels, h.groupWidth]
    rfl
  have houtputs : p.w.shape.dims.headD 0 = p.outputChannels := by
    rw [List.headD_eq_head?_getD, List.head?_eq_getElem?, h.outputChannels]
    rfl
  obtain ⟨z, hz, hdims, hfits⟩ :=
    exists_setting hranks.1 hranks.2.1 hranks.2.2 hentries hpositive hsizes hchannels hgroups
  rw [houtputs] at hz hbias
  obtain ⟨hbiasProd, hbiasFlat⟩ := h.biases.flat hbias reading entries
  have hsame : store p.bias = g.store reading entries p.bias := by
    refine Graph.runChain_frame hbefore fun hmem => hapart.bias ?_
    unfold early
    rw [List.flatMap_append]
    exact List.mem_append_left _ hmem
  have hbias' : p.bias ∉ (p.bracket.enter :: p.padding ++ [p.reorder]).flatMap (·.outputs) := by
    refine fun hmem => hapart.bias ?_
    unfold early
    rw [List.flatMap_append]
    exact List.mem_append_right _ hmem
  have hfit : z.Fits p.lifted.params (store p.lifted.input) (store p.lifted.weight) (store p.bias) := by
    refine hfits hx hw ?_
    rw [hsame, hbiasProd, hz]
  obtain ⟨store', hrun, hdims', hentry⟩ :=
    h.run_core hfit hx hw hout hdims hapart.weight hapart.data hbias'
  refine ⟨store', hrun, hdims'.trans hdims.symm, fun index hindex => ?_⟩
  rw [hdims] at hindex
  rcases hindex with _ | ⟨hb, _ | ⟨ho, _ | ⟨hi, _ | ⟨hj, _ | _⟩⟩⟩⟩
  refine (hentry _ _ _ _ hb ho hi hj).trans (ConvParams.convolve_congr ?_)
  rw [hsame]
  exact hbiasFlat _ (hz ▸ ho)

theorem early_nodup (hnodup : ((p.chain n.activation).flatMap (·.outputs)).Nodup) :
    (p.early.flatMap (·.outputs)).Nodup := by
  have hchain : ∃ rest, p.chain n.activation = p.early ++ rest := by
    refine ⟨⟨p.kind n.activation, [p.data, p.filter, p.bias], [p.bracket.output]⟩ ::
      p.bracket.leave :: p.lifted.after, ?_⟩
    unfold chain early
    simp only [List.append_assoc, List.cons_append, List.nil_append]
  obtain ⟨rest, hrest⟩ := hchain
  rw [hrest, List.flatMap_append] at hnodup
  exact (List.nodup_append.mp hnodup).1

/-- The chain of a convolution puts the convolution into the output. -/
theorem Fits.run (h : p.Fits n g first) (hd : n.Declares g tx tw ty)
    (hweight : n.weight.index < first) (hbias : ∀ id ∈ n.bias, id.index < first)
    (hnodup : ((p.chain n.activation).flatMap (·.outputs)).Nodup) :
    ∃ final, g.runChain activate (p.chain n.activation) (g.store reading entries) = some final ∧
      Holds n activate (g.store reading entries) ty final := by
  have hearly := early_nodup hnodup
  have hapart := h.apart hweight hbias hearly
  unfold early at hearly
  rw [List.flatMap_append] at hearly
  have hraisable := n.raisable g (activate n.activation) (biasEntry (g.store reading entries) n.bias)
  obtain ⟨x, w, out, hlays, hsized⟩ := h.lifts.lays hd.input hd.weight hd.output hraisable hd.sized
  obtain ⟨final, hrun, hdims, hentry⟩ := h.lifts.run activate reading entries hd.input
    hd.weight hd.output hweight (List.nodup_append.mp hearly).1 hraisable hd.sized hlays.output
    fun store hbefore => h.run_lifted activate reading entries hapart hbefore hlays hsized
  exact ⟨final, by rw [chain_eq]; exact hrun, hdims, hentry⟩

end Whole

end Plan

omit [CommRing R] in
theorem Declares.extend {n : Convolution} {g' : Graph} {tx tw ty : Tensor}
    (h : n.Declares g tx tw ty) (hextends : g.tensors <+: g'.tensors)
    (hbias : ∀ id ∈ n.bias, (g.tensor? id).isSome) : n.Declares g' tx tw ty where
  input := Graph.tensor?_of_extend hextends h.input
  weight := Graph.tensor?_of_extend hextends h.weight
  output := Graph.tensor?_of_extend hextends h.output
  sizes := h.sizes
  groups := h.groups
  bias id hid t ht := by
    obtain ⟨t', ht'⟩ := Option.isSome_iff_exists.mp (hbias id hid)
    rw [Graph.tensor?_of_extend hextends ht'] at ht
    exact h.bias id hid t (ht'.trans ht)

end Convolution

/-- A convolution is replaced by operators that compute it. Whatever the entries of its operands
are, running the operators in order succeeds and puts into the output, at every index, the
cross-correlation of the input with the weight plus the bias. -/
theorem Edit.runNodes_of_lowered_convolution {s s' : Session} {id : NodeId} {node : Node}
    {n : Convolution} {options : Options} {result : Lowered} {x w y : Tensor}
    (hwf : s.graph.WellFormed) (hnode : s.graph.node? id = some node)
    (hkind : node.kind = .composite (.convolution n)) (hdeclares : n.Declares s.graph x w y)
    (hlower : lowerNode id options s = .ok result s') (activate : Activation → R → R)
    (reading : Reading R) (entries : TensorId → List Nat → R) :
    ∃ final, s'.graph.runNodes activate result.nodes (s'.graph.store reading entries) = some final ∧
      (final n.output).dims = y.shape.dims ∧
      ∀ index, InBounds y.shape.dims index → (final n.output).entry index =
        n.params.convolve (activate n.activation) (s'.graph.store reading entries n.input)
          (s'.graph.store reading entries n.weight)
          (Convolution.biasEntry (s'.graph.store reading entries) n.bias) index := by
  have hlowers := (lowerNode_run id options s).1 result s' hlower
  obtain ⟨chain, ⟨p, hfits, rfl⟩, hnodup, hextends, hrun⟩ := hlowers.chain (R := R) hwf hnode hkind
  have hbias : ∀ t ∈ n.bias, (s.graph.tensor? t).isSome := by
    intro t ht
    refine hwf.registered id node hnode t (List.mem_append_left _ ?_)
    rw [hkind]
    simp [NodeKind.inputs, Composite.inputs, Option.mem_def.mp ht]
  have hold : ∀ t ∈ n.bias, t.index < s.graph.tensors.length := by
    intro t ht
    obtain ⟨_, htensor⟩ := Option.isSome_iff_exists.mp (hbias t ht)
    exact Graph.tensor?_lt htensor
  obtain ⟨final, hfinal, hholds⟩ := hfits.run activate reading entries (hdeclares.extend hextends hbias)
    (Graph.tensor?_lt hdeclares.weight) hold hnodup
  exact ⟨final, (hrun activate _).trans hfinal, hholds.dims, hholds.entry⟩

/-- A padded convolution along a line, with two groups of one input channel and two output channels,
and one bias for all. -/
def rectifiedLine : Convolution :=
  ⟨⟨0⟩, ⟨1⟩, some ⟨2⟩, ⟨3⟩, ⟨[2], [1], [1], [0], 2⟩, .relu⟩

def rectifiedLineTensors : List Tensor :=
  [.computed "x" ⟨.i32, ⟨[1, 2, 3]⟩⟩ none,
    .constant "w" ⟨⟨[4, 1, 2]⟩, .i32 (.listed [1, 2, 3, 4, 5, 6, 7, 8])⟩ none,
    .constant "b" ⟨⟨[1]⟩, .i32 (.listed [10])⟩ none, .computed "y" ⟨.i32, ⟨[1, 4, 2]⟩⟩ none]

theorem rectifiedLine_declares {g : Graph} (h : g.tensors = rectifiedLineTensors) :
    ∃ x w y, rectifiedLine.Declares g x w y ∧ y.shape.dims = [1, 4, 2] := by
  have htensor (id : TensorId) : g.tensor? id = rectifiedLineTensors[id.index]? := by
    unfold Graph.tensor?
    rw [h]
  refine ⟨_, _, _, ⟨htensor ⟨0⟩, htensor ⟨1⟩, htensor ⟨3⟩, by decide +kernel, by decide, ?_⟩, rfl⟩
  rintro _ ⟨rfl⟩ t ht
  rw [htensor] at ht
  cases ht
  exact .inr rfl

def integers : Reading ℤ where
  float _ := 0
  int32 := Int32.toInt
  int64 := Int64.toInt
  int8 := Int8.toInt
  uint8 x := x.toNat
  float_zero := rfl
  int32_zero := rfl

/-- Seven operators compute the convolution along the line. At its last index it is `7 * 2 + 8 * 3 +
10`. -/
theorem Edit.runNodes_of_lowered_line :
    ∃ w result s final, World.after
      (rectifiedLineTensors.map .addTensor ++ [.addComposite (.convolution rectifiedLine)]) = some w ∧
      lowerNode ⟨0⟩ .default w.session = .ok result s ∧ result.nodes.length = 7 ∧
      s.graph.runNodes (fun _ r => max r 0) result.nodes
        (s.graph.store integers fun _ index => index.sum) = some final ∧
      (final ⟨3⟩).dims = [1, 4, 2] ∧ (final ⟨3⟩).entry [0, 3, 1] = 48 := by
  have hrun : ((World.after (rectifiedLineTensors.map .addTensor ++
      [.addComposite (.convolution rectifiedLine)])).bind fun w =>
      ((lowerNode ⟨0⟩ .default).success? w.session).map fun r =>
        let store := r.2.graph.store integers fun _ index => index.sum
        (w.graph.tensors, (w.graph.node? ⟨0⟩).map (·.kind), r.1.nodes.length,
          rectifiedLine.params.convolve (max · 0) (store ⟨0⟩)
          (store ⟨1⟩) (Convolution.biasEntry store (some ⟨2⟩)) [0, 3, 1])) =
      some (rectifiedLineTensors, some (.composite (.convolution rectifiedLine)), 7, 48) := by
    decide +kernel
  obtain ⟨w, hw, hlower⟩ := Option.bind_eq_some_iff.mp hrun
  obtain ⟨⟨result, s⟩, hsuccess, hall⟩ := Option.map_eq_some_iff.mp hlower
  simp only [Prod.mk.injEq, Option.map_eq_some_iff] at hall
  obtain ⟨htensors, ⟨node, hnode, hkind⟩, hcount, hvalue⟩ := hall
  obtain ⟨tx, tw, ty, hdeclares, hshape⟩ := rectifiedLine_declares htensors
  have hlowered := success?_eq_some hsuccess
  obtain ⟨final, hfinal, hdims, hentry⟩ :=
    runNodes_of_lowered_convolution (World.after_sound hw).wellFormed hnode hkind hdeclares hlowered
      (fun _ r => max r 0) integers fun _ index => index.sum
  rw [hshape] at hdims hentry
  have hindex : InBounds [1, 4, 2] [0, 3, 1] :=
    .cons (by decide) (.cons (by decide) (.cons (by decide) .nil))
  exact ⟨w, result, s, final, hw, hlowered, hcount, hfinal, hdims, (hentry _ hindex).trans hvalue⟩

end GraphLowering
