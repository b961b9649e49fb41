import GraphLowering.Proofs.Contracts
import GraphLowering.Proofs.Meaning.TransposedConvolution
import GraphLowering.Proofs.Stopping

/-!
# When a convolution can be lowered

Once its draft is made, a chain is refused only for the element types of its tensors. So a composite
can be lowered if and only if its draft is accepted and the operators of the chain keep their
contracts (`Edit.lowerNode_iff_contract`).

A draft can fail because of what surrounds the node: a name that it gives is taken, an element type
has no text, or a quantized axis cannot be moved. `Lift.Unhindered` excludes these. What is left are
conditions on the operands and parameters, `Convolution.Admits` and `TransposedConvolution.Admits`,
and memory for a bias that has to be made. They are enough (`Admits.outline_ok`), and each of them
is needed (`Plan.Fits.admits`).
-/

namespace GraphLowering

/-- A composite whose output is no operand can be replaced if and only if it has an outline whose
operators keep their contracts. -/
theorem Edit.lowerNode_iff_contract {s : Session} {id : NodeId} {node : Node} {op : Composite}
    {options : Options} (hwf : s.graph.WellFormed) (hflows : s.graph.Flows)
    (hnode : s.graph.node? id = some node) (hkind : node.kind = .composite op)
    (hfresh : op.output ∉ op.inputs) :
    (∃ result s', lowerNode id options s = .ok result s') ↔
      ∃ o t, op.outline options ⟨s.graph.eraseNode id, s.events⟩ = .ok o t ∧
        ∀ op ∈ o.chain, op.check t.graph = .ok () := by
  have hregistered : ∀ t ∈ op.inputs ++ [op.output], (s.graph.tensor? t).isSome := by
    intro t ht
    refine hwf.registered id node hnode t ?_
    rw [hkind]
    exact ht
  obtain ⟨hinputs, houtput⟩ := List.forall_mem_append.mp hregistered
  obtain ⟨y, hy⟩ := Option.isSome_iff_exists.mp (houtput op.output List.mem_cons_self)
  rw [lowerNode_succeeds_iff hwf hflows hnode hkind]
  refine exists_congr fun o => exists_congr fun t =>
    and_congr_right fun houtline => ⟨Graph.Coherent.contract, fun hcontract => ?_⟩
  exact Composite.coherent_of_contract (s := ⟨s.graph.eraseNode id, s.events⟩)
    hinputs hy (.inl hfresh) houtline hcontract

/-! ## Operands -/

namespace Lift

/-- The operands and the output of a convolution, in a session where nothing else is in the way of
its lowering. -/
structure Unhindered (s : Session) (input weight output : TensorId) (x w y : Tensor) : Prop where
  wellFormed : s.graph.WellFormed
  printable : s.graph.printable
  distinct : input ≠ weight
  input : s.graph.tensor? input = some x
  weight : s.graph.tensor? weight = some w
  output : s.graph.tensor? output = some y
  axes : ∀ t ∈ [x, w, y], t.AxisFits
  names : ∀ t ∈ s.graph.tensors, ¬ Owned y.name t.name

variable {s : Session} {input weight output : TensorId} {x w y : Tensor}

namespace Unhindered

theorem eraseNode (h : Unhindered s input weight output x w y) (id : NodeId) :
    Unhindered ⟨s.graph.eraseNode id, s.events⟩ input weight output x w y :=
  ⟨h.wellFormed.eraseNode id, h.printable, h.distinct, h.input, h.weight, h.output, h.axes, h.names⟩

theorem axisFits (h : Unhindered s input weight output x w y) :
    ∀ id ∈ [input, weight, output], ∀ t, s.graph.tensor? id = some t → t.AxisFits := by
  have haxes := h.axes
  simp only [List.forall_mem_cons] at haxes ⊢
  refine ⟨fun t ht => ?_, fun t ht => ?_, fun t ht => ?_, List.forall_mem_nil _⟩
  · cases h.input.symm.trans ht
    exact haxes.1
  · cases h.weight.symm.trans ht
    exact haxes.2.1
  · cases h.output.symm.trans ht
    exact haxes.2.2.1

theorem free (h : Unhindered s input weight output x w y) :
    Drafting.Free ⟨s, y.name, 0, 0⟩ (raisedNames y.name x.name w.name) := by
  refine .of_unowned h.wellFormed h.names (owned_raisedNames _ _ _)
    (nodup_raisedNames _ fun hsame => h.distinct ?_)
  have hinput := (h.wellFormed.indexed x.name input).mpr ⟨x, h.input, rfl⟩
  have hweight := (h.wellFormed.indexed w.name weight).mpr ⟨w, h.weight, rfl⟩
  rw [hsame] at hinput
  exact Option.some.inj (hinput.symm.trans hweight)

end Unhindered

end Lift

/-- A tensor can get a unit axis. If it has no buffer, its sizes become operands of a reshape, and
if it has one, its buffer has to have as many elements as its shape, and its shape to be one of
buffers. -/
def Tensor.TakesUnitAxis (t : Tensor) : Prop :=
  match t.data with
  | none => ∀ k ∈ t.shape.dims, k < 2 ^ 31
  | some data => data.size = t.shape.elementCount ∧ t.shape.addressable

/-- What both convolutions require of ranks, parameters and element types. -/
structure ConvParams.Suits (params : ConvParams) (x w y : Tensor) : Prop where
  rank : x.rank = 3 ∨ x.rank = 4
  ranks : w.rank = x.rank ∧ y.rank = x.rank
  entries : params.stride.length = x.rank - 2 ∧ params.padding.length = x.rank - 2 ∧
    params.dilation.length = x.rank - 2
  strides : ∀ k ∈ params.stride, 1 ≤ k ∧ k < 2 ^ 32
  types : x.elementType = y.elementType
  line : x.rank = 3 → (∀ k ∈ x.shape.dims, k < 2 ^ 31) ∧ w.TakesUnitAxis

namespace Lift

variable {g : Graph} {first : Nat} {params : ConvParams}
  {input weight output source result : TensorId} {x w y t : Tensor}

theorem liftable_of_suits (h : params.Suits x w y) (hdilations : 0 ∉ params.dilation)
    (houtput : x.rank = 3 → ∀ k ∈ y.shape.dims, k < 2 ^ 31) (owner : String) :
    Liftable owner x w y params (raisedNames owner x.name w.name) := by
  have hint32 {dims : List Nat} (hdims : ∀ k ∈ dims, k < 2 ^ 31) : ∀ k ∈ dims, k ≤ maxInt32 :=
    fun k hk => Nat.le_of_lt_succ (hdims k hk)
  refine ⟨h.rank, h.ranks, ?_, rfl,
    fun hline => hint32 (h.line hline).1, fun hline => ?_, fun hline => hint32 (houtput hline)⟩
  · refine parameterObjection?_eq_none.mpr ⟨h.entries, fun hzero => ?_, hdilations⟩
    exact absurd (h.strides 0 hzero).1 (Nat.not_succ_le_zero 0)
  · have hweight := (h.line hline).2
    unfold Tensor.TakesUnitAxis at hweight
    unfold Tensor.isConstant
    cases hdata : w.data with
    | none =>
      rw [hdata] at hweight
      exact ⟨fun hconstant => absurd hconstant Bool.false_ne_true, fun _ => hint32 hweight⟩
    | some data =>
      rw [hdata] at hweight
      exact ⟨fun _ => Buffer.reshaped?_insertAxis_isSome.mpr hweight,
        fun hcomputed => absurd rfl hcomputed⟩

theorem lt_of_toInt32s? {shape : Shape} {xs : List Int32} (h : shape.toInt32s? = some xs) :
    ∀ k ∈ shape.dims, k < 2 ^ 31 :=
  fun k hk => Nat.lt_succ_of_le (le_of_mapM_toInt32? h k hk)

theorem Expands.lt {op : Operator} (h : Expands g first source result op)
    (ht : g.tensor? source = some t) :
    ∀ k ∈ t.shape.dims, k < 2 ^ 31 := by
  obtain ⟨t', _, ht', _, _, dims, hdims, _⟩ := h
  cases ht.symm.trans ht'
  intro k hk
  exact lt_of_toInt32s? hdims k ((t.shape.perm_insertAxis axis).mem_iff.mpr (List.mem_cons_of_mem _ hk))

theorem Collapses.lt {op : Operator} (h : Collapses g first source result op)
    (ht : g.tensor? result = some t) :
    ∀ k ∈ t.shape.dims, k < 2 ^ 31 := by
  obtain ⟨t', _, ht', _, _, dims, hdims, _⟩ := h
  cases ht.symm.trans ht'
  exact lt_of_toInt32s? hdims

theorem ExpandsWeight.takesUnitAxis {ops : List Operator}
    (h : ExpandsWeight g first weight ops result) (hw : g.tensor? weight = some w) :
    w.TakesUnitAxis := by
  unfold Tensor.TakesUnitAxis
  cases h with
  | folded hknown hdata hreshaped _ _ =>
    cases hw.symm.trans hknown
    rw [hdata]
    exact Buffer.reshaped?_insertAxis_isSome.mp (Option.isSome_of_eq_some hreshaped)
  | reshaped hexpands hcomputed =>
    have hnone : w.data = none := Option.not_isSome_iff_eq_none.mp (hcomputed w hw)
    rw [hnone]
    exact hexpands.lt hw

theorem LiftsTo.suits {l : Lifted} (h : LiftsTo g first input weight output params l)
    (hx : g.tensor? input = some x) (hw : g.tensor? weight = some w)
    (hy : g.tensor? output = some y) (htypes : x.elementType = y.elementType)
    (hstrides : ∀ k ∈ params.stride, k ≤ maxUInt32) :
    params.Suits x w y ∧ 0 ∉ params.dilation ∧ (x.rank = 3 → ∀ k ∈ y.shape.dims, k < 2 ^ 31) := by
  have hpositive (hzero : 0 ∉ params.stride) (k : Nat) (hk : k ∈ params.stride) : 1 ≤ k ∧ k < 2 ^ 32 :=
    ⟨Nat.pos_of_ne_zero fun h => hzero (h ▸ hk), Nat.lt_succ_of_le (hstrides k hk)⟩
  cases h with
  | image hranked hvalid =>
    obtain ⟨hxRank, hwRank, hyRank⟩ := hranked.ranks hx hw hy
    obtain ⟨hentries, hstride, hdilation⟩ := parameterObjection?_eq_none.mp hvalid
    have hfour (hthree : x.rank = 3) : False := by omega
    refine ⟨⟨.inr hxRank, ⟨hwRank.trans hxRank.symm, hyRank.trans hxRank.symm⟩, ?_, hpositive hstride,
      htypes, fun hthree => (hfour hthree).elim⟩, hdilation, fun hthree => (hfour hthree).elim⟩
    rw [hxRank]
    exact hentries
  | line hranked hvalid hinput hweight houtput =>
    obtain ⟨hxRank, hwRank, hyRank⟩ := hranked.ranks hx hw hy
    obtain ⟨hentries, hstride, hdilation⟩ := parameterObjection?_eq_none.mp hvalid
    refine ⟨⟨.inl hxRank, ⟨hwRank.trans hxRank.symm, hyRank.trans hxRank.symm⟩, ?_, hpositive hstride,
      htypes, fun _ => ⟨hinput.lt hx, hweight.takesUnitAxis hw⟩⟩, hdilation, fun _ => houtput.lt hy⟩
    rw [hxRank]
    exact hentries

end Lift

theorem forall_mem_of_entries {entries : List Nat} {a : PerAxis} {P : Nat → Prop}
    (hlength : entries.length = 2) (h : entries[0]? = some a.height ∧ entries[1]? = some a.width)
    (hP : P a.height ∧ P a.width) : ∀ k ∈ entries, P k := by
  obtain ⟨b, c, rfl⟩ := List.length_eq_two.mp hlength
  obtain ⟨hheight, hwidth⟩ := h
  cases hheight
  cases hwidth
  exact List.forall_mem_cons.mpr ⟨hP.1, List.forall_mem_singleton.mpr hP.2⟩

/-! ## Convolution -/

theorem Values.head?_isSome {α : Type} {v : Values α} : v.head?.isSome ↔ v.size ≠ 0 := by
  cases v with
  | listed values => cases values <;> simp [head?, size]
  | uniform count value => simp [head?, size]

theorem Buffer.repeatFirst?_isSome {b : Buffer} {n : Nat} :
    (b.repeatFirst? n).isSome ↔ ¬ b.isEmpty := by
  have hempty : ¬ b.isEmpty ↔ b.elements.size ≠ 0 := not_congr beq_iff_eq
  unfold repeatFirst?
  rw [hempty, Option.isSome_map]
  cases b.elements with
  | f32 values | i32 values | i64 values | i8 values | u8 values =>
    unfold Elements.repeatFirst?
    rw [Option.isSome_map]
    exact Values.head?_isSome

namespace Convolution

variable {n : Convolution} {options : Options} {g : Graph} {first : Nat}
  {s : Session} {x w y : Tensor} {bias : Option Tensor}

structure Admits (n : Convolution) (options : Options) (x w y : Tensor) (bias : Option Tensor) :
    Prop extends n.params.Suits x w y where
  groups : 1 ≤ n.params.groups
  dilations : ∀ k ∈ n.params.dilation, 1 ≤ k ∧ k < 2 ^ 32
  channels : x.shape.dims.getD 1 0 = w.shape.dims.getD 1 0 * n.params.groups
  permitted : ¬ (options.denyGrouped ∧ x.shape.dims.getD 1 0 ≠ w.shape.dims.getD 1 0 ∧
    ¬ (w.shape.dims.getD 1 0 = 1 ∧ w.shape.dims.getD 0 0 = n.params.groups))
  padding : ∀ p ∈ n.params.padding.zip (x.shape.dims.drop 2), p.1 < 2 ^ 31 ∧ p.2 + 2 * p.1 < 2 ^ 64
  bias : ∀ b ∈ bias, b.shape.elementCount = w.shape.dims.getD 0 0 ∨
    b.shape.elementCount = 1 ∧ ∃ data ∈ b.data, ¬ data.isEmpty
  output : x.rank = 3 → ∀ k ∈ y.shape.dims, k < 2 ^ 31

theorem Admits.acceptable (h : n.Admits options x w y (n.bias.bind s.graph.tensor?))
    (hoperands : Lift.Unhindered s n.input n.weight n.output x w y)
    (hbias : ∀ id ∈ n.bias, (s.graph.tensor? id).isSome) :
    n.Acceptable options y.name s.graph (Lift.raisedNames y.name x.name w.name) x w y := by
  have hdilation : 0 ∉ n.params.dilation :=
    fun hzero => absurd (h.dilations 0 hzero).1 (Nat.not_succ_le_zero 0)
  refine ⟨hoperands.input, hoperands.weight, hoperands.output,
    Lift.liftable_of_suits h.toSuits hdilation h.output y.name,
    h.channels, fun k hk => Nat.le_of_lt_succ (h.strides k hk).2, fun k hk =>
    Nat.le_of_lt_succ (h.dilations k hk).2, h.permitted, fun _ p hp => ?_, fun id hid => ?_⟩
  · obtain ⟨hpadding, hsize⟩ := h.padding p hp
    unfold maxInt32 maxSize
    omega
  · obtain ⟨b, hb⟩ := Option.isSome_iff_exists.mp (hbias id hid)
    refine ⟨b, hb, (h.bias b (Option.bind_eq_some_iff.mpr ⟨id, hid, hb⟩)).imp_right ?_⟩
    rintro ⟨hone, data, hdata, hsome⟩
    refine ⟨hone, ?_⟩
    rw [hdata]
    exact Buffer.repeatFirst?_isSome.mpr hsome

theorem bind_tensor?_of_extend {g' : Graph} {id : Option TensorId}
    (hid : ∀ t ∈ id, (g.tensor? t).isSome) (hextend : g.tensors <+: g'.tensors) :
    id.bind g'.tensor? = id.bind g.tensor? := by
  cases id with
  | none => rfl
  | some t =>
    obtain ⟨b, hb⟩ := Option.isSome_iff_exists.mp (hid t rfl)
    show g'.tensor? t = g.tensor? t
    rw [hb, Graph.tensor?_of_extend hextend hb]

theorem Admits.outline_ok (h : n.Admits options x w y (n.bias.bind s.graph.tensor?))
    (hmemory : BiasFits (n.bias.bind s.graph.tensor?) (w.shape.dims.getD 0 0))
    (hoperands : Lift.Unhindered s n.input n.weight n.output x w y)
    (hbias : ∀ id ∈ n.bias, (s.graph.tensor? id).isSome)
    (hproduct : w.shape.dims.getD 1 0 * n.params.groups < 2 ^ 64) :
    ∃ o t, n.outline options s = .ok o t := by
  have hsafe : Safe True (fun _ => False) (n.outline options) s fun _ s' =>
      False ∨ s'.graph.printable := by
    refine n.outline_safe options (.inr hoperands.printable)
        (fun id hid t ht => .inr (hoperands.axisFits id hid t ht)) ?_ fun _ =>
      ⟨Nat.ne_of_gt h.groups, _, x, w, y, h.acceptable hoperands hbias, hoperands.free⟩
    intro y' l d' _ hlift
    have hopen : Drafting.Open ⟨s, y'.name, 0, 0⟩ 0 := Nat.zero_le _
    have hextend := Drafting.Registered.extend
      ((Draft.liftConvolution_ends lowering n.input n.weight n.output n.params hopen).of_ok hlift).1
    refine ⟨?_, ?_⟩
    · rintro ⟨w', groupWidth, hw', hgroupWidth, hlarge⟩
      cases hw'.symm.trans (Graph.tensor?_of_extend hextend hoperands.weight)
      rw [List.getD_eq_getElem?_getD, hgroupWidth, Option.getD_some] at hproduct
      unfold maxSize at hlarge
      omega
    · rintro g hg ⟨w', channels, hw', hchannels, hexceeds⟩
      have hextend := hextend.trans hg
      cases hw'.symm.trans (Graph.tensor?_of_extend hextend hoperands.weight)
      rw [bind_tensor?_of_extend hbias hextend] at hexceeds
      rw [List.getD_eq_getElem?_getD, hchannels, Option.getD_some] at hmemory
      exact hexceeds hmemory
  obtain ⟨o, t, hrun, _⟩ := hsafe.run trivial fun _ => not_false
  exact ⟨o, t, hrun⟩

theorem Pads.bounds {id data : TensorId} {params : ConvParams} {ops : List Operator} {t : Tensor}
    {batch height width channels : Nat} (h : Pads g first id params ops data)
    (ht : g.tensor? id = some t) (himage : t.shape.dims = [batch, height, width, channels])
    (hentries : params.padding.length = 2) (hsizes : height < 2 ^ 64 ∧ width < 2 ^ 64) :
    ∀ p ∈ params.padding.zip [height, width], p.1 < 2 ^ 31 ∧ p.2 + 2 * p.1 < 2 ^ 64 := by
  obtain ⟨ph, pw, hpadding⟩ := List.length_eq_two.mp hentries
  have hbounds : (ph < 2 ^ 31 ∧ height + 2 * ph < 2 ^ 64) ∧
      (pw < 2 ^ 31 ∧ width + 2 * pw < 2 ^ 64) := by
    cases h with
    | unpadded hzero =>
      have hzero : ph = 0 ∧ pw = 0 := by
        simpa [ConvParams.hasPadding, hpadding] using hzero
      omega
    | padded _ hheight hwidth hph hpw hknown hrows hcolumns _ _ hfits =>
      cases ht.symm.trans hknown
      rw [hpadding] at hheight hwidth
      rw [himage] at hrows hcolumns
      cases hheight
      cases hwidth
      cases hrows
      cases hcolumns
      have hph := le_of_toInt32? hph
      have hpw := le_of_toInt32? hpw
      unfold maxInt32 at hph hpw
      unfold maxSize at hfits
      omega
  rw [hpadding]
  exact List.forall_mem_cons.mpr ⟨hbounds.1, List.forall_mem_singleton.mpr hbounds.2⟩

theorem Biases.bounds {channels : Nat} {id : Option TensorId} {result : TensorId}
    (h : Biases g first channels id result) :
    (∀ b ∈ id.bind g.tensor?, b.shape.elementCount = channels ∨
      b.shape.elementCount = 1 ∧ ∃ data ∈ b.data, ¬ data.isEmpty) ∧
      BiasFits (id.bind g.tensor?) channels := by
  cases h with
  | zeros hzero _ hfits =>
    refine ⟨fun _ hb => (nomatch hb), ?_⟩
    rcases hzero with rfl | rfl
    · exact Buffer.fits_vector.mp hfits
    · exact Buffer.fits_vector.mp hfits
  | given hknown hlength =>
    rw [Option.bind_some, hknown]
    refine ⟨?_, fun hother => absurd hlength hother⟩
    rintro _ ⟨⟩
    exact .inl hlength
  | @repeated _ t data copies _ hknown hone _ hdata hcopied _ hfits =>
    rw [Option.bind_some, hknown]
    refine ⟨?_, fun _ data' hdata' => ?_⟩
    · rintro _ ⟨⟩
      exact .inr ⟨hone, data, hdata, Buffer.repeatFirst?_isSome.mp (Option.isSome_of_eq_some hcopied)⟩
    · cases hdata.symm.trans hdata'
      exact (fits_copies hcopied).mp hfits

theorem Plan.Fits.admits {p : Plan} (h : p.Fits n g first) (hpermitted : p.Permitted options)
    (hgroups : n.params.groups ≠ 0) (hx : g.tensor? n.input = some x)
    (hw : g.tensor? n.weight = some w) (hy : g.tensor? n.output = some y)
    (htypes : x.elementType = y.elementType) (hsizes : ∀ k ∈ x.shape.dims, k < 2 ^ 64) :
    n.Admits options x w y (n.bias.bind g.tensor?) ∧
    BiasFits (n.bias.bind g.tensor?) (w.shape.dims.getD 0 0) := by
  obtain ⟨x₁, w₁, y₁, x', w', y', hraised⟩ := h.lifts.raised
  cases hx.symm.trans hraised.input
  cases hw.symm.trans hraised.weight
  cases hy.symm.trans hraised.output
  obtain ⟨⟨hstride, hpadding, hdilation⟩, _⟩ := Lift.parameterObjection?_eq_none.mp hraised.lays.valid
  have hstrides := (hraised.strides (P := (· ≤ maxUInt32)) (by decide)).mp
    (forall_mem_of_entries hstride h.stride h.strideRange)
  have hdilations := (hraised.dilations (P := (· ≤ maxUInt32)) (by decide)).mp
    (forall_mem_of_entries hdilation h.dilation h.dilationRange)
  obtain ⟨hsuits, hdilated, houtput⟩ := h.lifts.suits hx hw hy htypes hstrides
  obtain ⟨hinputChannels, houtputChannels, hgroupWidth, hgroups'⟩ := h.operandChannels hx hw
  obtain ⟨hbias, hmemory⟩ := h.biases.bounds
  have hC : x.shape.dims.getD 1 0 = p.groupWidth * n.params.groups := by
    rw [List.getD_eq_getElem?_getD, hinputChannels, Option.getD_some]
  have hW₀ : w.shape.dims.getD 0 0 = p.outputChannels := by
    rw [List.getD_eq_getElem?_getD, houtputChannels, Option.getD_some]
  have hW₁ : w.shape.dims.getD 1 0 = p.groupWidth := by
    rw [List.getD_eq_getElem?_getD, hgroupWidth, Option.getD_some]
  rw [hW₀]
  refine ⟨⟨hsuits, Nat.pos_of_ne_zero hgroups,
    fun k hk => ⟨?_, Nat.lt_succ_of_le (hdilations k hk)⟩, ?_, ?_, ?_, ?_, houtput⟩, hmemory⟩
  · exact Nat.pos_of_ne_zero fun hzero => hdilated (hzero ▸ hk)
  · rw [hC, hW₁]
  · rw [hC, hW₀, hW₁]
    rintro ⟨hdeny, hother, hgrouped⟩
    refine hpermitted ⟨hdeny, fun hdepthwise => hgrouped ?_, hgroups'.symm ▸ hother⟩
    rw [← hgroups']
    exact of_decide_eq_true hdepthwise
  · obtain ⟨batch, channels, height, width, hxDims⟩ := List.length_eq_four.mp hraised.lays.ranks.1
    obtain ⟨t, ht, htDims⟩ := h.brackets.declared_input hraised.lays.input hxDims
    refine (hraised.padding rfl hraised.inputDims (by decide)).mp ?_
    rw [hxDims]
    have hsmall : ∀ k ∈ x'.shape.dims, k < 2 ^ 64 := by
      rw [hraised.inputDims]
      intro k hk
      rcases Lift.mem_raise hk with rfl | hk
      · decide
      · exact hsizes k hk
    rw [hxDims] at hsmall
    exact h.pads.bounds ht htDims hpadding ⟨hsmall height (by simp), hsmall width (by simp)⟩
  · rw [hW₀]
    exact hbias

/-- The chain of an outline keeps its contracts if and only if the data and the output have one
element type. -/
theorem contract_of_outline {o : Outline} {t : Session} (hx : s.graph.tensor? n.input = some x)
    (hy : s.graph.tensor? n.output = some y)
    (h : (Composite.convolution n).outline options s = .ok o t) :
    s.graph.tensors <+: t.graph.tensors ∧ n.params.groups ≠ 0 ∧
      ∃ p : Plan, p.Fits n t.graph s.graph.tensors.length ∧ p.Permitted options ∧
        ((∀ op ∈ o.chain, op.check t.graph = .ok ()) ↔ x.elementType = y.elementType) := by
  have hextend := (Composite.outlines_of_ok h).1.extend
  obtain ⟨hgroups, p, hfits, hpermitted, hchain⟩ := plans_of_ok h
  refine ⟨hextend, hgroups, p, hfits, hpermitted, ?_⟩
  rw [hchain]
  exact hfits.contract_iff (Graph.tensor?_of_extend hextend hx) (Graph.tensor?_of_extend hextend hy)

end Convolution

/-! ## Transposed convolution -/

namespace TransposedConvolution

variable {n : TransposedConvolution} {g : Graph} {first : Nat}
  {s : Session} {x w y : Tensor} {bias : Option Tensor}

structure Admits (n : TransposedConvolution) (x w y : Tensor) (bias : Option Tensor) :
    Prop extends n.params.Suits x w y where
  groups : n.params.groups = 1
  dilations : ∀ k ∈ n.params.dilation, k = 1
  channels : x.shape.dims.getD 1 0 = w.shape.dims.getD 0 0
  batch : y.shape.dims.getD 0 0 < 2 ^ 31
  outputChannels : y.shape.dims.getD 1 0 < 2 ^ 31
  padding : ∀ p ∈ n.params.padding.zip (y.shape.dims.drop 2), p.2 + 2 * p.1 < 2 ^ 31
  bias : ∀ b ∈ bias, (b.shape.elementCount = 1 ∨ b.shape.elementCount = w.shape.dims.getD 1 0) ∧
    b.elementType = y.elementType

theorem Admits.output (h : n.Admits x w y bias) (hline : x.rank = 3) :
    ∀ k ∈ y.shape.dims, k < 2 ^ 31 := by
  have hbatch := h.batch
  have hchannels := h.outputChannels
  have hpadding := h.padding
  obtain ⟨a, b, c, hy⟩ := List.length_eq_three.mp (h.ranks.2.trans hline)
  obtain ⟨q, hq⟩ :=
    List.length_eq_one_iff.mp (show n.params.padding.length = 1 by rw [h.entries.2.1, hline])
  rw [hy] at hbatch hchannels hpadding ⊢
  rw [hq] at hpadding
  have hwidth : c + 2 * q < 2 ^ 31 := hpadding (q, c) List.mem_cons_self
  simp only [List.forall_mem_cons]
  exact ⟨hbatch, hchannels, by omega, List.forall_mem_nil _⟩

theorem Admits.acceptable (h : n.Admits x w y (n.bias.bind s.graph.tensor?))
    (hoperands : Lift.Unhindered s n.input n.weight n.output x w y)
    (hbias : ∀ id ∈ n.bias, (s.graph.tensor? id).isSome) :
    n.Acceptable y.name s.graph (Lift.raisedNames y.name x.name w.name) x w y := by
  have hdilation : 0 ∉ n.params.dilation := fun hzero => absurd (h.dilations 0 hzero) Nat.zero_ne_one
  refine ⟨hoperands.input, hoperands.weight, hoperands.output, Lift.liftable_of_suits h.toSuits
    hdilation h.output y.name, h.channels.symm, fun k hk => Nat.le_of_lt_succ (h.strides k hk).2,
    Nat.le_of_lt_succ h.batch, Nat.le_of_lt_succ h.outputChannels, fun p hp => ?_, fun id hid => ?_⟩
  · have hsize := h.padding p hp
    unfold maxInt32
    omega
  · obtain ⟨b, hb⟩ := Option.isSome_iff_exists.mp (hbias id hid)
    exact ⟨b, hb, h.bias b (Option.bind_eq_some_iff.mpr ⟨id, hid, hb⟩)⟩

theorem Admits.outline_ok (options : Options) (h : n.Admits x w y (n.bias.bind s.graph.tensor?))
    (hoperands : Lift.Unhindered s n.input n.weight n.output x w y)
    (hbias : ∀ id ∈ n.bias, (s.graph.tensor? id).isSome) :
    ∃ o t, n.outline options s = .ok o t := by
  have hsafe : Safe True (fun _ => False) (n.outline options) s fun _ s' =>
      False ∨ s'.graph.printable :=
    n.outline_safe options (.inr hoperands.printable)
        (fun id hid t ht => .inr (hoperands.axisFits id hid t ht)) fun _ =>
      ⟨h.groups, h.dilations, _, x, w, y, h.acceptable hoperands hbias, hoperands.free⟩
  obtain ⟨o, t, hrun, _⟩ := hsafe.run trivial fun _ => not_false
  exact ⟨o, t, hrun⟩

theorem Plan.Fits.operandChannels {p : Plan} (h : p.Fits n g first)
    (hx : g.tensor? n.input = some x) (hw : g.tensor? n.weight = some w) :
    w.shape.dims[0]? = x.shape.dims[1]? ∧ w.shape.dims[1]? = some p.outputChannels := by
  obtain ⟨x₁, w₁, y, x', w', y', hraised⟩ := h.lifts.raised
  cases hx.symm.trans hraised.input
  cases hw.symm.trans hraised.weight
  cases hraised.lays.input.symm.trans h.input
  cases hraised.lays.weight.symm.trans h.weight
  rw [← Lift.getElem?_raise x.shape.dims Nat.one_lt_two,
    ← Lift.getElem?_raise w.shape.dims Nat.one_lt_two,
    ← Lift.getElem?_raise w.shape.dims Nat.two_pos, ← hraised.inputDims, ← hraised.weightDims]
  exact ⟨h.channels, h.outputChannels⟩

theorem Plan.Fits.full_lt {p : Plan} {batch height width channels : Nat} (h : p.Fits n g first)
    (hout : p.out.shape.dims = [batch, height, width, channels])
    (hentries : p.lifted.params.padding.length = 2) :
    batch < 2 ^ 31 ∧ channels < 2 ^ 31 ∧
    ∀ q ∈ p.lifted.params.padding.zip [height, width], q.2 + 2 * q.1 < 2 ^ 31 := by
  obtain ⟨ph, pw, hpadding⟩ := List.length_eq_two.mp hentries
  obtain ⟨dims, hdims, _⟩ := h.shapes
  have hsizes := Lift.lt_of_toInt32s? hdims
  rw [h.fullShape_image hout hpadding] at hsizes
  simp only [List.forall_mem_cons] at hsizes
  obtain ⟨hbatch, hheight, hwidth, hchannels, _⟩ := hsizes
  rw [hpadding]
  refine ⟨hbatch, hchannels, List.forall_mem_cons.mpr ⟨?_, List.forall_mem_singleton.mpr ?_⟩⟩
  · rw [Nat.mul_comm]
    exact hheight
  · rw [Nat.mul_comm]
    exact hwidth

theorem AddsBias.length {channels : Nat} {output cropped : TensorId} {out : Tensor}
    {id : Option TensorId} {ops : List Operator}
    (h : AddsBias g first channels output out id ops cropped) :
    ∀ b ∈ id.bind g.tensor?, b.shape.elementCount = 1 ∨ b.shape.elementCount = channels := by
  cases h with
  | unbiased => exact fun _ hb => nomatch hb
  | biased hknown hlength _ =>
    rw [Option.bind_some, hknown]
    rintro _ ⟨⟩
    exact hlength

theorem Plan.Fits.admits {p : Plan} (h : p.Fits n g first) (hgroups : n.params.groups = 1)
    (hdilations : ∀ k ∈ n.params.dilation, k = 1) (hx : g.tensor? n.input = some x)
    (hw : g.tensor? n.weight = some w) (hy : g.tensor? n.output = some y)
    (htypes : x.elementType = y.elementType)
    (hbias : ∀ id ∈ n.bias, ∀ b, g.tensor? id = some b → b.elementType = y.elementType) :
    n.Admits x w y (n.bias.bind g.tensor?) := by
  obtain ⟨x₁, w₁, y₁, x', w', y', hraised⟩ := h.lifts.raised
  cases hx.symm.trans hraised.input
  cases hw.symm.trans hraised.weight
  cases hy.symm.trans hraised.output
  obtain ⟨⟨hstride, hpadding, _⟩, _⟩ := Lift.parameterObjection?_eq_none.mp hraised.lays.valid
  have hstrides := (hraised.strides (P := (· ≤ maxUInt32)) (by decide)).mp
    (forall_mem_of_entries hstride h.stride h.strideRange)
  obtain ⟨hsuits, _, _⟩ := h.lifts.suits hx hw hy htypes hstrides
  obtain ⟨hchannels, houtputChannels⟩ := h.operandChannels hx hw
  obtain ⟨batch, channels, height, width, hyDims⟩ := List.length_eq_four.mp hraised.lays.ranks.2.2
  obtain ⟨out, hout, houtDims⟩ := h.brackets.declared_output hraised.lays.output hyDims
  cases h.out.symm.trans hout
  obtain ⟨hbatch, hchannelCount, hpadded⟩ := h.full_lt houtDims hpadding
  obtain ⟨hyBatch, hyChannels⟩ := Lift.entries_of_raise hraised.outputDims hyDims
  refine ⟨hsuits, hgroups, hdilations, ?_, ?_, ?_, ?_, fun b hb => ⟨?_, ?_⟩⟩
  · rw [List.getD_eq_getElem?_getD, List.getD_eq_getElem?_getD, hchannels]
  · rw [List.getD_eq_getElem?_getD, hyBatch]
    exact hbatch
  · rw [List.getD_eq_getElem?_getD, hyChannels]
    exact hchannelCount
  · refine (hraised.padding hraised.ranks.2 hraised.outputDims (by decide)).mp ?_
    rw [hyDims]
    exact hpadded
  · rw [List.getD_eq_getElem?_getD, houtputChannels]
    exact h.adds.length b hb
  · obtain ⟨id, hid, hb⟩ := Option.bind_eq_some_iff.mp hb
    exact hbias id hid b hb

theorem contract_of_outline {options : Options} {o : Outline} {t : Session}
    (hx : s.graph.tensor? n.input = some x) (hy : s.graph.tensor? n.output = some y)
    (h : (Composite.transposedConvolution n).outline options s = .ok o t) :
    s.graph.tensors <+: t.graph.tensors ∧ n.params.groups = 1 ∧ (∀ k ∈ n.params.dilation, k = 1) ∧
      ∃ p : Plan, p.Fits n t.graph s.graph.tensors.length ∧
        ((∀ op ∈ o.chain, op.check t.graph = .ok ()) ↔ x.elementType = y.elementType ∧
          ∀ id ∈ n.bias, ∀ b, t.graph.tensor? id = some b → b.elementType = y.elementType) := by
  have hextend := (Composite.outlines_of_ok h).1.extend
  obtain ⟨hgroups, hdilations, p, hfits, hchain⟩ := plans_of_ok h
  refine ⟨hextend, hgroups, hdilations, p, hfits, ?_⟩
  rw [hchain]
  exact hfits.contract_iff (Graph.tensor?_of_extend hextend hx) (Graph.tensor?_of_extend hextend hy)

end TransposedConvolution

/-! ## Reachable graphs -/

section Reachable

variable {calls : List Call} {world : World} {id : NodeId} {node : Node} {x w y : Tensor}

theorem World.unhindered {input weight output : TensorId}
    (hcalls : World.after calls = some world) (hx : world.graph.tensor? input = some x)
    (hw : world.graph.tensor? weight = some w) (hy : world.graph.tensor? output = some y)
    (hdistinct : input ≠ weight) (haxes : ∀ t ∈ [x, w, y], t.AxisFits)
    (hwidths : ∀ t ∈ world.graph.tensors, t.elementType.width.toNat < 32)
    (hnames : ∀ t ∈ world.graph.tensors, ¬ (y.name ++ "_").toList <+: t.name.toList) :
    Lift.Unhindered world.session input weight output x w y :=
  ⟨(World.after_sound hcalls).wellFormed, Graph.printable_of_widths hwidths,
    hdistinct, hx, hw, hy, haxes, fun t ht => not_owned (hnames t ht)⟩

theorem World.exists_after {tensors : List Tensor} {kind : NodeKind}
    (h : ((World.after calls).map fun world =>
      (world.graph.tensors, (world.graph.node? id).map (·.kind))) = some (tensors, some kind)) :
    ∃ world node, World.after calls = some world ∧ world.graph.node? id = some node ∧
      node.kind = kind ∧ world.graph.tensors = tensors ∧
      ∀ t, world.graph.tensor? t = tensors[t.index]? := by
  obtain ⟨world, hworld, hfacts⟩ := Option.map_eq_some_iff.mp h
  obtain ⟨htensors, hcomposite⟩ := Prod.mk.inj hfacts
  obtain ⟨node, hnode, hkind⟩ := Option.map_eq_some_iff.mp hcomposite
  refine ⟨world, node, hworld, hnode, hkind, htensors, fun t => ?_⟩
  rw [← htensors]
  rfl

theorem Graph.WellFormed.bias_registered {g : Graph} {op : Composite} (hwf : g.WellFormed)
    (hnode : g.node? id = some node) (hkind : node.kind = .composite op) {bias : Option TensorId}
    (hbias : ∀ t ∈ bias, t ∈ op.inputs) : ∀ t ∈ bias, (g.tensor? t).isSome :=
  fun t ht => hwf.operand_registered hnode hkind (hbias t ht)

namespace Edit

/-- A convolution, reached by any calls that put in no edge by hand, whose output is no operand and
whose input and weight are different tensors. There are no more channels in all groups than sizes,
element types are narrower than 32 bytes, quantized axes can be moved, and no name begins with that
of the output and an underscore. It can be lowered if and only if it admits its operands and
parameters and a bias that has to be made fits into memory. -/
theorem convolution_lowers_iff {n : Convolution} (hcalls : World.after calls = some world)
    (hconnect : ∀ call ∈ calls, ¬ call.isConnect) (hnode : world.graph.node? id = some node)
    (hkind : node.kind = .composite (.convolution n)) (hx : world.graph.tensor? n.input = some x)
    (hw : world.graph.tensor? n.weight = some w) (hy : world.graph.tensor? n.output = some y)
    (hfresh : n.output ∉ (Composite.convolution n).inputs) (hdistinct : n.input ≠ n.weight)
    (hproduct : w.shape.dims.getD 1 0 * n.params.groups < 2 ^ 64)
    (haxes : ∀ t ∈ [x, w, y], t.AxisFits)
    (hwidths : ∀ t ∈ world.graph.tensors, t.elementType.width.toNat < 32)
    (hnames : ∀ t ∈ world.graph.tensors, ¬ (y.name ++ "_").toList <+: t.name.toList)
    (hsizes : ∀ k ∈ x.shape.dims, k < 2 ^ 64) (options : Options) :
    (∃ result s, lowerNode id options world.session = .ok result s) ↔
      n.Admits options x w y (n.bias.bind world.graph.tensor?) ∧
        Convolution.BiasFits (n.bias.bind world.graph.tensor?) (w.shape.dims.getD 0 0) := by
  have hsound := World.after_sound hcalls
  have hbias : ∀ t ∈ n.bias, (world.graph.tensor? t).isSome :=
    hsound.wellFormed.bias_registered hnode hkind fun t ht =>
    List.mem_cons_of_mem _ (List.mem_cons_of_mem _ (Option.mem_toList.mpr ht))
  rw [lowerNode_iff_contract hsound.wellFormed (hsound.flows hconnect) hnode hkind hfresh]
  have hoperands := (World.unhindered hcalls hx hw hy hdistinct haxes hwidths hnames).eraseNode id
  constructor
  · rintro ⟨o, t, houtline, hcontract⟩
    obtain ⟨hextend, hgroups, p, hfits, hpermitted, htypes⟩ :=
      Convolution.contract_of_outline hoperands.input hoperands.output houtline
    have hadmits := hfits.admits hpermitted hgroups (Graph.tensor?_of_extend hextend hx)
      (Graph.tensor?_of_extend hextend hw)
      (Graph.tensor?_of_extend hextend hy) (htypes.mp hcontract) hsizes
    rwa [Convolution.bind_tensor?_of_extend hbias hextend] at hadmits
  · rintro ⟨hadmits, hmemory⟩
    obtain ⟨o, t, houtline⟩ := hadmits.outline_ok
      (s := ⟨world.graph.eraseNode id, world.session.events⟩) hmemory hoperands hbias hproduct
    obtain ⟨_, _, _, _, _, htypes⟩ :=
      Convolution.contract_of_outline hoperands.input hoperands.output houtline
    exact ⟨o, t, houtline, htypes.mpr hadmits.types⟩

/-- A convolution of a line in two groups, with a constant weight, padding, and one element for a
bias. -/
def groupedByteLine : Convolution :=
  ⟨⟨0⟩, ⟨1⟩, some ⟨2⟩, ⟨3⟩, ⟨[1], [1], [1], [0], 2⟩, .none⟩

def groupedByteLineTensors : List Tensor :=
  [.computed "x" ⟨.i8, ⟨[2, 4, 5]⟩⟩ none, .constant "w" ⟨⟨[4, 2, 3]⟩, .i8 (.uniform 24 1)⟩ none,
    .constant "b" ⟨⟨[1]⟩, .i32 (.uniform 1 1)⟩ none, .computed "y" ⟨.i8, ⟨[2, 4, 5]⟩⟩ none]

/-- It is lowered, unless convolutions in groups are denied. -/
theorem convolution_lowers_iff_grouped_line :
    ∃ world, World.after (groupedByteLineTensors.map .addTensor ++
      [.addComposite (.convolution groupedByteLine)]) = some world ∧
      (∃ result s, lowerNode ⟨0⟩ .default world.session = .ok result s) ∧
      ¬ ∃ result s, lowerNode ⟨0⟩ ⟨true, true⟩ world.session = .ok result s := by
  have hrun : ((World.after (groupedByteLineTensors.map .addTensor ++
      [.addComposite (.convolution groupedByteLine)])).map fun world =>
      (world.graph.tensors, (world.graph.node? ⟨0⟩).map (·.kind))) =
        some (groupedByteLineTensors, some (.composite (.convolution groupedByteLine))) := by
    decide +kernel
  obtain ⟨world, node, hworld, hnode, hkind, htensors, htensor⟩ := World.exists_after hrun
  have hplain :
      ∀ t ∈ [groupedByteLineTensors[0], groupedByteLineTensors[1], groupedByteLineTensors[3]],
      t.quantization = none := by
    decide
  have hwidths : ∀ t ∈ groupedByteLineTensors, t.elementType.width.toNat < 32 := by
    decide
  have hnames : ∀ t ∈ groupedByteLineTensors, ¬ ("y" ++ "_").toList <+: t.name.toList := by
    decide
  rw [← htensors] at hwidths hnames
  have hb : groupedByteLine.bias.bind world.graph.tensor? = some groupedByteLineTensors[2] :=
    htensor ⟨2⟩
  have hlowers := convolution_lowers_iff hworld (by decide) hnode hkind
    (htensor ⟨0⟩) (htensor ⟨1⟩) (htensor ⟨3⟩) (by decide) (by decide)
    (by decide) (fun t ht => Tensor.axisFits_of_plain (hplain t ht)) hwidths hnames (by decide)
  rw [hb] at hlowers
  refine ⟨world, hworld, (hlowers .default).mpr ⟨⟨⟨.inl rfl, ⟨rfl, rfl⟩, ⟨rfl, rfl, rfl⟩, by decide,
    rfl, fun _ => ⟨by decide, by decide, by decide⟩⟩, by decide, by decide,
    rfl, by decide, by decide, ?_, fun _ => by decide⟩, ?_⟩, fun hlowered => ?_⟩
  · rintro _ ⟨⟩
    exact .inr ⟨rfl, _, rfl, by decide⟩
  · rintro _ _ ⟨⟩
    decide
  · exact ((hlowers ⟨true, true⟩).mp hlowered).1.permitted ⟨rfl, by decide, by decide⟩

/-- A convolution without bias that has 2 ^ 61 output channels. -/
def wideImage : Convolution :=
  ⟨⟨0⟩, ⟨1⟩, none, ⟨2⟩, .unit 2, .none⟩

def wideImageTensors : List Tensor :=
  [.computed "x" ⟨.f32, ⟨[1, 2, 4, 4]⟩⟩ none,
    .computed "w" ⟨.f32, ⟨[2305843009213693952, 2, 1, 1]⟩⟩ none,
    .computed "y" ⟨.f32, ⟨[1, 5, 4, 4]⟩⟩ none]

/-- It admits its operands, but there is no memory for its zeros. -/
theorem convolution_beyond_memory :
    ∃ world s, World.after
      (wideImageTensors.map .addTensor ++ [.addComposite (.convolution wideImage)]) = some world ∧
      world.graph.tensors = wideImageTensors ∧
        (∀ t ∈ wideImageTensors, t.AxisFits ∧ t.elementType.width.toNat < 32 ∧
        ¬ (wideImageTensors[2].name ++ "_").toList <+: t.name.toList) ∧
      wideImage.Admits .default wideImageTensors[0] wideImageTensors[1] wideImageTensors[2] none ∧
      lowerNode ⟨0⟩ .default world.session = .error (.fault .bufferSize) s := by
  have hrun :
      ((World.after (wideImageTensors.map .addTensor ++ [.addComposite (.convolution wideImage)])).map
      fun world =>
      (world.graph.tensors, (lowerNode ⟨0⟩ .default).fault? world.session)) =
        some (wideImageTensors, some .bufferSize) := by
    decide +kernel
  obtain ⟨world, hworld, hfacts⟩ := Option.map_eq_some_iff.mp hrun
  obtain ⟨htensors, hfault⟩ := Prod.mk.inj hfacts
  obtain ⟨s, hstop⟩ := fault?_eq_some hfault
  have hplain : ∀ t ∈ wideImageTensors, t.quantization = none ∧ t.elementType.width.toNat < 32 ∧
      ¬ (wideImageTensors[2].name ++ "_").toList <+: t.name.toList := by
    decide
  refine ⟨world, s, hworld, htensors,
    fun t ht => ⟨Tensor.axisFits_of_plain (hplain t ht).1, (hplain t ht).2⟩, ?_, hstop⟩
  exact ⟨⟨.inr rfl, ⟨rfl, rfl⟩, ⟨rfl, rfl, rfl⟩, by decide, rfl,
    fun hline => absurd hline (by decide)⟩, by decide, by decide,
    rfl, by decide, by decide, fun _ hb => (nomatch hb), fun hline => absurd hline (by decide)⟩

/-- A transposed convolution under the same circumstances can be lowered if and only if it admits
its operands and parameters. -/
theorem transposedConvolution_lowers_iff {n : TransposedConvolution}
    (hcalls : World.after calls = some world) (hconnect : ∀ call ∈ calls, ¬ call.isConnect)
    (hnode : world.graph.node? id = some node)
    (hkind : node.kind = .composite (.transposedConvolution n))
    (hx : world.graph.tensor? n.input = some x) (hw : world.graph.tensor? n.weight = some w)
    (hy : world.graph.tensor? n.output = some y)
    (hfresh : n.output ∉ (Composite.transposedConvolution n).inputs)
    (hdistinct : n.input ≠ n.weight) (haxes : ∀ t ∈ [x, w, y], t.AxisFits)
    (hwidths : ∀ t ∈ world.graph.tensors, t.elementType.width.toNat < 32)
    (hnames : ∀ t ∈ world.graph.tensors, ¬ (y.name ++ "_").toList <+: t.name.toList)
    (options : Options) :
    (∃ result s, lowerNode id options world.session = .ok result s) ↔
    n.Admits x w y (n.bias.bind world.graph.tensor?) := by
  have hsound := World.after_sound hcalls
  have hbias : ∀ t ∈ n.bias, (world.graph.tensor? t).isSome :=
    hsound.wellFormed.bias_registered hnode hkind fun t ht =>
    List.mem_cons_of_mem _ (List.mem_cons_of_mem _ (Option.mem_toList.mpr ht))
  rw [lowerNode_iff_contract hsound.wellFormed (hsound.flows hconnect) hnode hkind hfresh]
  have hoperands := (World.unhindered hcalls hx hw hy hdistinct haxes hwidths hnames).eraseNode id
  constructor
  · rintro ⟨o, t, houtline, hcontract⟩
    obtain ⟨hextend, hgroups, hdilations, p, hfits, htypes⟩ :=
      TransposedConvolution.contract_of_outline hoperands.input hoperands.output houtline
    obtain ⟨hsame, hbiasType⟩ := htypes.mp hcontract
    have hadmits := hfits.admits hgroups hdilations (Graph.tensor?_of_extend hextend hx)
      (Graph.tensor?_of_extend hextend hw)
      (Graph.tensor?_of_extend hextend hy) hsame hbiasType
    rwa [Convolution.bind_tensor?_of_extend hbias hextend] at hadmits
  · intro hadmits
    obtain ⟨o, t, houtline⟩ := hadmits.outline_ok options
      (s := ⟨world.graph.eraseNode id, world.session.events⟩) hoperands hbias
    obtain ⟨hextend, _, _, _, _, htypes⟩ :=
      TransposedConvolution.contract_of_outline hoperands.input hoperands.output houtline
    refine ⟨o, t, houtline, htypes.mpr ⟨hadmits.types, fun id hid b hb => ?_⟩⟩
    refine (hadmits.bias b ?_).2
    rw [← Convolution.bind_tensor?_of_extend hbias hextend]
    exact Option.bind_eq_some_iff.mpr ⟨id, hid, hb⟩

/-- A transposed convolution of a line with a constant weight, padding, and a bias that is
computed. -/
def paddedByteLine : TransposedConvolution :=
  ⟨⟨0⟩, ⟨1⟩, some ⟨2⟩, ⟨3⟩, ⟨[2], [1], [1], [0], 1⟩⟩

def paddedByteLineTensors : List Tensor :=
  [.computed "x" ⟨.i8, ⟨[2, 3, 5]⟩⟩ none, .constant "w" ⟨⟨[3, 2, 3]⟩, .i8 (.uniform 18 1)⟩ none,
    .computed "b" ⟨.i8, ⟨[2]⟩⟩ none, .computed "y" ⟨.i8, ⟨[2, 2, 9]⟩⟩ none]

theorem transposedConvolution_lowers_iff_padded_line :
    ∃ world, World.after (paddedByteLineTensors.map .addTensor ++
      [.addComposite (.transposedConvolution paddedByteLine)]) = some world ∧
      ∃ result s, lowerNode ⟨0⟩ .default world.session = .ok result s := by
  have hrun : ((World.after (paddedByteLineTensors.map .addTensor ++
      [.addComposite (.transposedConvolution paddedByteLine)])).map fun world =>
      (world.graph.tensors, (world.graph.node? ⟨0⟩).map (·.kind))) =
        some (paddedByteLineTensors, some (.composite (.transposedConvolution paddedByteLine))) := by
    decide +kernel
  obtain ⟨world, node, hworld, hnode, hkind, htensors, htensor⟩ := World.exists_after hrun
  have hplain : ∀ t ∈ [paddedByteLineTensors[0], paddedByteLineTensors[1], paddedByteLineTensors[3]],
      t.quantization = none := by
    decide
  have hwidths : ∀ t ∈ paddedByteLineTensors, t.elementType.width.toNat < 32 := by
    decide
  have hnames : ∀ t ∈ paddedByteLineTensors, ¬ ("y" ++ "_").toList <+: t.name.toList := by
    decide
  rw [← htensors] at hwidths hnames
  have hb : paddedByteLine.bias.bind world.graph.tensor? = some paddedByteLineTensors[2] := htensor ⟨2⟩
  refine ⟨world, hworld, (transposedConvolution_lowers_iff hworld
    (by decide) hnode hkind (htensor ⟨0⟩) (htensor ⟨1⟩) (htensor ⟨3⟩) (by decide) (by decide)
    (fun t ht => Tensor.axisFits_of_plain (hplain t ht)) hwidths hnames .default).mpr ?_⟩
  rw [hb]
  refine ⟨⟨.inl rfl, ⟨rfl, rfl⟩, ⟨rfl, rfl, rfl⟩, by decide, rfl, fun _ =>
    ⟨by decide, by decide, by decide⟩⟩, rfl, by decide, rfl, by decide, by decide, by decide, ?_⟩
  rintro _ ⟨⟩
  exact ⟨.inr rfl, rfl⟩

end Edit

end Reachable

end GraphLowering
