import GraphLowering.Proofs.Distinctness
import GraphLowering.Proofs.Success

/-!
# A drafted chain is in order

Of a chain that a lowering drafts only the element types of the operands are in doubt when it is put
into the graph. Every operator of the chain of a convolution keeps its contract if and only if the
data and the output have one element type, and the bias that is added to the result of a transposed
convolution has it too. The chain of a normalization keeps its contract if it has floating-point
numbers to add. Its tensors are registered, and no result is computed twice; so the chain can be
inserted (`Graph.Coherent`).
-/

namespace GraphLowering

variable {g : Graph} {first : Nat}

/-! ## Single operators -/

namespace Operator

variable {op : Operator}

theorem operand_eq_ok {slot : Nat} {id : TensorId} {t : Tensor} (hid : op.inputs[slot]? = some id)
    (ht : g.tensor? id = some t) :
    op.operand g slot = .ok t := by
  unfold operand
  rw [hid]
  exact Graph.tensor_eq_ok.mpr ht

theorem result_eq_ok {id : TensorId} {t : Tensor} (hid : op.outputs = [id])
    (ht : g.tensor? id = some t) : op.result g = .ok t := by
  unfold result
  rw [hid]
  exact Graph.tensor_eq_ok.mpr ht

theorem check_iff {types : Prop} {result : TensorId}
    (hinputs : op.kind.minInputs ≤ op.inputs.length ∧ op.inputs.length ≤ op.kind.maxInputs)
    (hresult : op.outputs = [result])
    (hslots : ∀ slot ∈ op.kind.int32Slots, ∃ id t, op.inputs[slot]? = some id ∧
      g.tensor? id = some t ∧ t.elementType = .i32)
    (htypes : op.checkTypes g = .ok () ↔ types) : op.check g = .ok () ↔ types := by
  have hcounts : op.checkCounts = .ok () := by
    unfold checkCounts
    rw [if_neg (by omega), hresult]
    rfl
  have hint32s (slots : List Nat)
      (h : ∀ slot ∈ slots, ∃ id t, op.inputs[slot]? = some id ∧
        g.tensor? id = some t ∧ t.elementType = .i32) :
      slots.forM (op.checkInt32Slot g) = .ok () := by
    induction slots with
    | nil => rfl
    | cons slot rest ih =>
      obtain ⟨⟨id, t, hid, ht, htype⟩, hrest⟩ := List.forall_mem_cons.mp h
      have hslot : op.checkInt32Slot g slot = .ok () := by
        unfold checkInt32Slot
        rw [hid]
        show (g.tensor id >>= fun tensor => _) = _
        rw [Graph.tensor_eq_ok.mpr ht]
        exact if_pos htype
      show (op.checkInt32Slot g slot >>= fun _ => rest.forM (op.checkInt32Slot g)) = _
      rw [hslot]
      exact ih hrest
  unfold check
  rw [hcounts, hint32s _ hslots]
  exact htypes

theorem check_eq_ok {result : TensorId}
    (hinputs : op.kind.minInputs ≤ op.inputs.length ∧ op.inputs.length ≤ op.kind.maxInputs)
    (hresult : op.outputs = [result])
    (hslots : ∀ slot ∈ op.kind.int32Slots, ∃ id t, op.inputs[slot]? = some id ∧
      g.tensor? id = some t ∧ t.elementType = .i32)
    (htypes : op.checkTypes g = .ok ()) : op.check g = .ok () :=
  (check_iff hinputs hresult hslots (iff_of_true htypes trivial)).mpr trivial

theorem ite_eq_ok {c : Prop} [Decidable c] {error : GraphError} :
    (if c then .ok () else .error error) = Except.ok () ↔ c := by
  split
  · next hc => exact iff_of_true rfl hc
  · next hc => exact iff_of_false (fun hok => nomatch hok) hc

def PassesType (kind : Primitive) : Prop :=
  kind = .transpose ∨ kind = .pad ∨ kind = .slice ∨ (∃ shape, kind = .reshape shape) ∨
    (∃ window dilation activation, kind = .conv2d window dilation activation) ∨
    (∃ window dilation multiplier activation, kind =
      .depthwiseConv2d window dilation multiplier activation) ∨
    ∃ window, kind = .transposeConv window

theorem checkTypes_passThrough {id result : TensorId} {t r : Tensor} (hkind : PassesType op.kind)
    (hid : op.inputs[op.kind.dataSlot]? = some id) (ht : g.tensor? id = some t)
    (hresult : op.outputs = [result]) (hr : g.tensor? result = some r) :
    op.checkTypes g = .ok () ↔ t.elementType = r.elementType := by
  unfold checkTypes
  rw [operand_eq_ok hid ht, result_eq_ok hresult hr]
  rcases hkind with h | h | h | ⟨_, h⟩ | ⟨_, _, _, h⟩ | ⟨_, _, _, _, h⟩ | ⟨_, h⟩
  all_goals
    rw [h]
    exact ite_eq_ok

theorem check_arithmetic {a b c : TensorId} {ta tb tc : Tensor} {kind : Primitive}
    (hkind : (∃ activation, kind = .mul activation) ∨ ∃ activation, kind = .add activation)
    (ha : g.tensor? a = some ta) (hb : g.tensor? b = some tb) (hc : g.tensor? c = some tc) :
    (⟨kind, [a, b], [c]⟩ : Operator).check g = .ok () ↔
    ta.elementType = tb.elementType ∧ ta.elementType = tc.elementType := by
  rcases hkind with ⟨_, rfl⟩ | ⟨_, rfl⟩
  all_goals
    refine check_iff ⟨Nat.le_refl 2, Nat.le_refl 2⟩ rfl (fun _ hslot => nomatch hslot) ?_
    unfold checkTypes
    rw [operand_eq_ok rfl ha, result_eq_ok rfl hc]
    show (operand g _ 1 >>= fun right => _) = _ ↔ _
    rw [operand_eq_ok rfl hb]
    exact ite_eq_ok

end Operator

theorem Graph.Operand.elementType {id : TensorId} {data : Buffer} (h : g.Operand first id data) :
    ∃ t, g.tensor? id = some t ∧ t.elementType = data.elementType := by
  obtain ⟨_, _, _, ht⟩ := h
  exact ⟨_, ht, rfl⟩

theorem Graph.Moves.check {kind : Primitive} {how : Buffer} {source result : TensorId}
    {op : Operator} {t r : Tensor} (h : g.Moves first kind how source result op)
    (hkind : kind = .transpose ∨ kind = .pad ∨ ∃ shape, kind = .reshape shape)
    (hhow : how.elementType = .i32) (ht : g.tensor? source = some t)
    (hr : g.tensor? result = some r) (htype : t.elementType = r.elementType) : op.check g = .ok () := by
  obtain ⟨p, hp, rfl⟩ := h
  obtain ⟨how', hhow', hhowType⟩ := hp.elementType
  have hslot : ∃ id t, [source, p][1]? = some id ∧ g.tensor? id = some t ∧ t.elementType = .i32 :=
    ⟨p, how', rfl, hhow', hhowType.trans hhow⟩
  rcases hkind with rfl | rfl | ⟨_, rfl⟩
  · refine Operator.check_eq_ok ⟨Nat.le_refl 2, Nat.le_refl 2⟩
      rfl (List.forall_mem_singleton.mpr hslot) ?_
    exact (Operator.checkTypes_passThrough (.inl rfl) rfl ht rfl hr).mpr htype
  · refine Operator.check_eq_ok ⟨Nat.le_refl 2, Nat.le_refl 2⟩
      rfl (List.forall_mem_singleton.mpr hslot) ?_
    exact (Operator.checkTypes_passThrough (.inr (.inl rfl)) rfl ht rfl hr).mpr htype
  · refine Operator.check_eq_ok ⟨Nat.le_succ 1, Nat.le_refl 2⟩
      rfl (List.forall_mem_singleton.mpr hslot) ?_
    exact (Operator.checkTypes_passThrough (.inr (.inr (.inr (.inl ⟨_, rfl⟩)))) rfl ht rfl hr).mpr htype

theorem Layout.Permuted.check {perm : List Nat} {source result : TensorId} {op : Operator}
    (h : Permuted g first perm source result)
    (hmoves : g.Moves first .transpose (permutationBuffer perm) source result op) :
    op.check g = .ok () := by
  obtain ⟨t, shape, ht, _, _, _, hr⟩ := h
  exact hmoves.check (.inl rfl) rfl ht hr rfl

theorem Layout.Brackets.check {input output : TensorId} {b : Bracket}
    (h : Brackets g first input output b) :
    b.enter.check g = .ok () ∧ b.leave.check g = .ok () := by
  obtain ⟨t, shape, ht, _, _, _, hr⟩ := h.output
  exact ⟨h.input.check h.enter, h.leave.check (.inl rfl) rfl hr ht rfl⟩

namespace Lift

variable {input weight output : TensorId} {params : ConvParams} {l : Lifted}

theorem Expands.check {source result : TensorId} {op : Operator}
    (h : Expands g first source result op) : op.check g = .ok () := by
  obtain ⟨t, _, ht, _, ⟨_, _, hr⟩, dims, _, hmoves⟩ := h
  exact hmoves.check (.inr (.inr ⟨dims, rfl⟩)) rfl ht hr rfl

theorem Collapses.check {source result : TensorId} {op : Operator}
    (h : Collapses g first source result op) : op.check g = .ok () := by
  obtain ⟨t, _, ht, _, ⟨_, _, hr⟩, dims, _, hmoves⟩ := h
  exact hmoves.check (.inr (.inr ⟨dims, rfl⟩)) rfl hr ht rfl

theorem LiftsTo.check (h : LiftsTo g first input weight output params l) :
    ∀ op ∈ l.before ++ l.after, op.check g = .ok () :=
  h.forall_mem (fun _ _ _ hexpands => hexpands.check) fun _ _ _ hcollapses => hcollapses.check

end Lift

/-! ## The chains -/

theorem Convolution.Pads.check {id data : TensorId} {params : ConvParams} {ops : List Operator}
    (h : Pads g first id params ops data) {t : Tensor} (ht : g.tensor? id = some t) :
    (∀ op ∈ ops, op.check g = .ok ()) ∧ ∃ r, g.tensor? data = some r ∧
      r.elementType = t.elementType := by
  cases h with
  | unpadded _ => exact ⟨fun _ hop => (nomatch hop), t, ht, rfl⟩
  | padded _ _ _ _ _ hknown _ _ hresult hmoves _ =>
    cases ht.symm.trans hknown
    obtain ⟨_, _, hr⟩ := hresult
    exact ⟨List.forall_mem_singleton.mpr (hmoves.check (.inr (.inl rfl)) rfl ht hr rfl), _, hr, rfl⟩

theorem Convolution.Plan.Fits.contract_iff {n : Convolution} {p : Convolution.Plan} {x y : Tensor}
    (h : p.Fits n g first) (hx : g.tensor? n.input = some x) (hy : g.tensor? n.output = some y) :
    (∀ op ∈ p.chain n.activation, op.check g = .ok ()) ↔ x.elementType = y.elementType := by
  obtain ⟨x₁, w₁, y₁, x', w', y', hraised⟩ := h.lifts.raised
  cases hx.symm.trans hraised.input
  cases hy.symm.trans hraised.output
  obtain ⟨_, inner, hinner, _⟩ := h.brackets.input.declared hraised.lays.input
  obtain ⟨_, out, hout, _⟩ := h.brackets.output.declared hraised.lays.output
  obtain ⟨hpads, data, hdata, hdataType⟩ := h.pads.check hinner
  have hconvolution : (⟨p.kind n.activation, [p.data, p.filter, p.bias], [p.bracket.output]⟩ :
      Operator).check g = .ok () ↔
      x.elementType = y.elementType := by
    have hxType : data.elementType = x.elementType := by
      rw [hdataType, h.brackets.input.elementType hraised.lays.input hinner, hraised.types.1]
    have hyType : out.elementType = y.elementType := by
      rw [h.brackets.output.elementType hraised.lays.output hout, hraised.types.2]
    rw [← hxType, ← hyType]
    unfold Survey.kind
    split
    · refine Operator.check_iff ⟨Nat.le_succ 2, Nat.le_refl 3⟩ rfl (fun _ hslot => nomatch hslot) ?_
      exact Operator.checkTypes_passThrough (by simp [Operator.PassesType]) rfl hdata rfl hout
    · refine Operator.check_iff ⟨Nat.le_succ 2, Nat.le_refl 3⟩ rfl (fun _ hslot => nomatch hslot) ?_
      exact Operator.checkTypes_passThrough (by simp [Operator.PassesType]) rfl hdata rfl hout
  refine ⟨fun hcontract => hconvolution.mp (hcontract _ (by simp [chain])), fun htype => ?_⟩
  exact p.forall_mem_chain h.lifts.check h.brackets.check.1 hpads
    (h.permuted.check h.reorders) (hconvolution.mpr htype) h.brackets.check.2

namespace TransposedConvolution

/-- The addition of a bias keeps its contract if the bias has the type of the output, to which it is
added. -/
theorem AddsBias.check {channels : Nat} {output cropped : TensorId} {out : Tensor}
    {bias : Option TensorId} {ops : List Operator}
    (h : AddsBias g first channels output out bias ops cropped)
    (hout : g.tensor? output = some out) :
    ((∀ op ∈ ops, op.check g = .ok ()) ↔
      ∀ id ∈ bias, ∀ b, g.tensor? id = some b → b.elementType = out.elementType) ∧
      ∃ r, g.tensor? cropped = some r ∧ r.elementType = out.elementType := by
  cases h with
  | unbiased =>
    exact ⟨iff_of_true (fun _ hop => nomatch hop) (fun _ hid => nomatch hid), out, hout, rfl⟩
  | @biased id _ t hknown _ hresult =>
    obtain ⟨_, _, hr⟩ := hresult
    refine ⟨?_, _, hr, rfl⟩
    rw [List.forall_mem_singleton, Operator.check_arithmetic (.inr ⟨_, rfl⟩) hr hknown hout]
    constructor
    · rintro ⟨htype, _⟩ _ ⟨⟩ b hb
      cases hknown.symm.trans hb
      exact htype.symm
    · exact fun hbias => ⟨(hbias id rfl t hknown).symm, rfl⟩

theorem Crops.check {out r : Tensor} {params : ConvParams} {c : Crop} {cropped : TensorId}
    (h : Crops g first out params c) (hr : g.tensor? cropped = some r)
    (htype : out.elementType = r.elementType) :
    (⟨.slice, [c.uncropped, c.begin, c.size], [cropped]⟩ : Operator).check g = .ok () := by
  obtain ⟨_, _, _, _, _, _, _, _, hbegin⟩ := h.begin
  obtain ⟨_, _, hsize⟩ := h.size
  obtain ⟨begin, hbegin, hbeginType⟩ := hbegin.elementType
  obtain ⟨size, hsize, hsizeType⟩ := hsize.elementType
  obtain ⟨_, _, huncropped⟩ := h.uncropped
  refine Operator.check_eq_ok ⟨Nat.le_refl 3, Nat.le_refl 3⟩ rfl ?_ ?_
  · intro slot hslot
    simp only [Primitive.int32Slots, List.mem_cons, List.not_mem_nil, or_false] at hslot
    rcases hslot with rfl | rfl
    · exact ⟨c.begin, begin, rfl, hbegin, hbeginType⟩
    · exact ⟨c.size, size, rfl, hsize, hsizeType⟩
  · exact (Operator.checkTypes_passThrough (by simp [Operator.PassesType]) rfl huncropped rfl hr).mpr
      htype

theorem Plan.Fits.contract_iff {n : TransposedConvolution} {p : Plan} {x y : Tensor}
    (h : p.Fits n g first) (hx : g.tensor? n.input = some x) (hy : g.tensor? n.output = some y) :
    (∀ op ∈ p.chain, op.check g = .ok ()) ↔ x.elementType = y.elementType ∧
      ∀ id ∈ n.bias, ∀ b, g.tensor? id = some b → b.elementType = y.elementType := by
  obtain ⟨x₁, w₁, y₁, x', w', y', hraised⟩ := h.lifts.raised
  cases hx.symm.trans hraised.input
  cases hy.symm.trans hraised.output
  obtain ⟨_, inner, hinner, _⟩ := h.brackets.input.declared hraised.lays.input
  have hinnerType : inner.elementType = x.elementType :=
    (h.brackets.input.elementType hraised.lays.input hinner).trans hraised.types.1
  have houtType : p.out.elementType = y.elementType :=
    (h.brackets.output.elementType hraised.lays.output h.out).trans hraised.types.2
  obtain ⟨hadds, r, hr, hrType⟩ := h.adds.check h.out
  rw [houtType] at hadds
  have hconvolved : ∃ c, g.tensor? p.convolved = some c ∧ c.elementType = p.out.elementType := by
    unfold convolved
    cases hcrop : p.crop with
    | none => exact ⟨r, hr, hrType⟩
    | some c =>
      obtain ⟨_, _, huncropped⟩ := (h.crops c hcrop).uncropped
      exact ⟨_, huncropped, rfl⟩
  have hconvolution : (⟨.transposeConv ⟨.valid, p.stride⟩,
      [p.outputShape, p.filter, p.bracket.input], [p.convolved]⟩ : Operator).check g =
      .ok () ↔ x.elementType = y.elementType := by
    obtain ⟨_, _, hshape⟩ := h.shapes
    obtain ⟨shape, hshape, hshapeType⟩ := hshape.elementType
    obtain ⟨c, hc, hcType⟩ := hconvolved
    rw [← hinnerType, ← houtType, ← hcType]
    refine Operator.check_iff ⟨Nat.le_refl 3, Nat.le_succ 3⟩ rfl
      (List.forall_mem_singleton.mpr ⟨p.outputShape, shape, rfl, hshape, hshapeType⟩) ?_
    exact Operator.checkTypes_passThrough (by simp [Operator.PassesType]) rfl hinner rfl hc
  refine ⟨fun hcontract => ⟨hconvolution.mp (hcontract _ (by simp [chain])),
    hadds.mp fun op hop => hcontract op (by simp [chain, hop])⟩, ?_⟩
  rintro ⟨htype, hbias⟩
  refine p.forall_mem_chain h.lifts.check h.brackets.check.1
    (h.permuted.check h.reorders) (hconvolution.mpr htype) ?_ (hadds.mpr hbias) h.brackets.check.2
  intro op hop
  obtain ⟨c, hc, rfl⟩ := List.mem_map.mp hop
  exact (h.crops c (Option.mem_toList.mp hc)).check hr hrType.symm

end TransposedConvolution

theorem BatchNorm.Plan.Fits.contract_iff {n : BatchNorm} {p : BatchNorm.Plan} {x y : Tensor}
    {channels : Nat} {scale shift : Buffer} (h : p.Fits x scale shift g first)
    (hfolds : n.Folds g x y channels scale shift) :
    (∀ op ∈ p.chain n, op.check g = .ok ()) ↔ (¬ x.isQuantized → y.elementType = .f32) := by
  obtain ⟨tscale, hscale, hscaleType⟩ := h.scale.elementType
  obtain ⟨tshift, hshift, hshiftType⟩ := h.shift.elementType
  rw [hfolds.scale.elementType] at hscaleType
  rw [hfolds.shift.elementType] at hshiftType
  obtain ⟨_, _, hscaled⟩ := h.scaled
  have hquantized := h.quantized
  unfold chain
  cases hunquantized : p.unquantized with
  | none =>
    rw [hunquantized] at hquantized
    have hplain : ¬ x.isQuantized := Bool.eq_false_iff.mp hquantized.symm
    have hfloat := hfolds.plain hplain
    dsimp only
    rw [List.forall_mem_cons, List.forall_mem_singleton,
      Operator.check_arithmetic (.inl ⟨_, rfl⟩) hfolds.input hscale hscaled,
      Operator.check_arithmetic (.inr ⟨_, rfl⟩) hscaled hshift hfolds.output]
    constructor
    · exact fun hcontract _ => hcontract.2.2.symm
    · exact fun hy => ⟨⟨hfloat.trans hscaleType.symm, hfloat⟩, hshiftType.symm, (hy hplain).symm⟩
  | some u =>
    rw [hunquantized] at hquantized
    have hx : x.isQuantized := hquantized.symm
    obtain ⟨⟨_, _, hdequantized⟩, ⟨_, _, hshifted⟩⟩ := h.unquantized u hunquantized
    refine iff_of_true ?_ fun hplain => absurd hx hplain
    refine List.forall_mem_cons.mpr ⟨?_,
      List.forall_mem_cons.mpr ⟨?_, List.forall_mem_cons.mpr ⟨?_, List.forall_mem_singleton.mpr ?_⟩⟩⟩
    · refine Operator.check_eq_ok ⟨Nat.le_refl 1, Nat.le_refl 1⟩ rfl (fun _ hslot => nomatch hslot) ?_
      unfold Operator.checkTypes
      rw [Operator.operand_eq_ok rfl hfolds.input, Operator.result_eq_ok rfl hdequantized]
      exact if_pos ⟨.inl hx, rfl⟩
    · exact (Operator.check_arithmetic (.inl ⟨_, rfl⟩) hdequantized hscale hscaled).mpr
        ⟨hscaleType.symm, rfl⟩
    · exact (Operator.check_arithmetic (.inr ⟨_, rfl⟩) hscaled hshift hshifted).mpr
        ⟨hshiftType.symm, rfl⟩
    · refine Operator.check_eq_ok ⟨Nat.le_refl 1, Nat.le_refl 1⟩ rfl (fun _ hslot => nomatch hslot) ?_
      unfold Operator.checkTypes
      rw [Operator.operand_eq_ok rfl hshifted, Operator.result_eq_ok rfl hfolds.output]
      exact if_pos ⟨.inl rfl, hfolds.quantized hx⟩

/-! ## All lowerings -/

theorem Chain.Supplied.registered {output : TensorId} {ready : List TensorId}
    {chain : List Operator} (h : Supplied g first output ready chain)
    (hready : ∀ t ∈ ready, (g.tensor? t).isSome) (houtput : (g.tensor? output).isSome) :
    ∀ op ∈ chain, ∀ t ∈ op.inputs ++ op.outputs, (g.tensor? t).isSome := by
  induction h with
  | nil => exact fun _ hop => nomatch hop
  | @cons ready op rest _ hreads hmakes _ ih =>
    have houtputs : ∀ t ∈ op.outputs, (g.tensor? t).isSome := by
      intro t ht
      rcases hmakes t ht with rfl | ⟨_, hdrafted, _⟩
      · exact houtput
      · exact Option.isSome_of_eq_some hdrafted.2
    refine List.forall_mem_cons.mpr ⟨?_, ih ?_⟩
    · refine List.forall_mem_append.mpr ⟨fun t ht => ?_, houtputs⟩
      rcases hreads t ht with hmem | ⟨_, hdrafted, _⟩
      · exact hready t hmem
      · exact Option.isSome_of_eq_some hdrafted.2
    · exact List.forall_mem_append.mpr ⟨houtputs, hready⟩

/-- The data and the output of a composite have one element type, and so has the bias that is added
to the output. -/
structure Composite.Typed (op : Composite) (g : Graph) (x y : Tensor) : Prop where
  input : ∀ id ∈ op.inputs.head?, g.tensor? id = some x
  output : g.tensor? op.output = some y
  same : x.elementType = y.elementType
  bias : ∀ n, op = .transposedConvolution n →
    ∀ id ∈ n.bias, ∀ b, g.tensor? id = some b → b.elementType = y.elementType

theorem Composite.Typed.extend {op : Composite} {g g' : Graph} {x y : Tensor} (h : op.Typed g x y)
    (hextend : g.tensors <+: g'.tensors) (hinputs : ∀ t ∈ op.inputs, (g.tensor? t).isSome) :
    op.Typed g' x y where
  input id hid := Graph.tensor?_of_extend hextend (h.input id hid)
  output := Graph.tensor?_of_extend hextend h.output
  same := h.same
  bias := by
    rintro n rfl id hid b hb
    have hmem : id ∈ (Composite.transposedConvolution n).inputs :=
      List.mem_cons_of_mem _ (List.mem_cons_of_mem _ (Option.mem_toList.mpr hid))
    obtain ⟨b', hb'⟩ := Option.isSome_iff_exists.mp (hinputs id hmem)
    cases hb.symm.trans (Graph.tensor?_of_extend hextend hb')
    exact h.bias n rfl id hid b hb'

/-- The chain of an outline keeps its contracts if the composite is well typed. -/
theorem Composite.contract_of_outline {op : Composite} {options : Options} {o : Outline}
    {s t : Session} {x y : Tensor} (htyped : op.Typed s.graph x y)
    (hinputs : ∀ id ∈ op.inputs, (s.graph.tensor? id).isSome) (h : op.outline options s = .ok o t) :
    ∀ op ∈ o.chain, op.check t.graph = .ok () := by
  obtain ⟨hregisters, hdrafts⟩ := outlines_of_ok h
  have htyped' := htyped.extend hregisters.extend hinputs
  cases op with
  | convolution n =>
    obtain ⟨p, hfits, hchain⟩ := hdrafts t.graph (List.prefix_refl _)
    rw [hchain]
    exact (hfits.contract_iff (htyped'.input n.input rfl) htyped'.output).mpr htyped.same
  | transposedConvolution n =>
    obtain ⟨p, hfits, hchain⟩ := hdrafts t.graph (List.prefix_refl _)
    rw [hchain]
    exact (hfits.contract_iff (htyped'.input n.input rfl) htyped'.output).mpr
      ⟨htyped.same, htyped'.bias n rfl⟩
  | batchNorm n =>
    obtain ⟨_, x₁, y₁, channels, scale, shift, hfolds, hdrafts⟩ := BatchNorm.folds_of_ok h
    obtain ⟨p, hfits, hchain⟩ := hdrafts t.graph (List.prefix_refl _)
    cases (htyped.input n.input rfl).symm.trans hfolds.input
    cases htyped.output.symm.trans hfolds.output
    rw [hchain]
    exact (hfits.contract_iff (hfolds.extend hregisters.extend)).mpr fun hplain =>
      htyped.same ▸ hfolds.plain hplain

/-- An operator reads the output of its composite only after it has been computed, unless the output
is an operand. -/
theorem Chain.Supplied.not_read {output : TensorId} {ready : List TensorId}
    {chain : List Operator} (h : Supplied g first output ready chain)
    (hold : output.index < first) (hready : output ∉ ready) (hnodup : (results chain).Nodup) :
    chain.Pairwise fun op later => output ∈ later.outputs → output ∉ op.inputs := by
  induction h with
  | nil => exact .nil
  | @cons ready op rest _ hreads _ _ ih =>
    have hread : output ∉ op.inputs := by
      intro hmem
      rcases hreads output hmem with hmem | ⟨_, ⟨hnew, _⟩, _⟩
      · exact hready hmem
      · omega
    obtain ⟨_, hrest, hdisjoint⟩ := List.nodup_append.mp hnodup
    refine .cons (fun _ _ _ => hread) ?_
    by_cases hmade : output ∈ op.outputs
    · -- it is computed here, so not once more
      refine List.pairwise_of_forall_mem_list fun _ _ later hlater hagain => ?_
      exact absurd rfl (hdisjoint output hmade output (List.mem_flatMap.mpr ⟨later, hlater, hagain⟩))
    · exact ih (fun hmem => (List.mem_append.mp hmem).elim hmade hready) hrest

/-- The chain of an outline can be inserted if it keeps its contracts and the output is no constant
that the chain may read. -/
theorem Composite.coherent_of_contract {op : Composite} {options : Options} {o : Outline}
    {s t : Session} {y : Tensor} (hinputs : ∀ id ∈ op.inputs, (s.graph.tensor? id).isSome)
    (hy : s.graph.tensor? op.output = some y) (hfresh : op.output ∉ op.inputs ∨ ¬ y.isConstant)
    (h : op.outline options s = .ok o t) (hcontract : ∀ op ∈ o.chain, op.check t.graph = .ok ()) :
    t.graph.Coherent o.chain := by
  obtain ⟨hregisters, hdrafts⟩ := outlines_of_ok h
  have hextend := hregisters.extend
  have hsupplied := (hdrafts t.graph (List.prefix_refl _)).supplied
  have houtput : t.graph.tensor? op.output = some y := Graph.tensor?_of_extend hextend hy
  have hold := Graph.tensor?_lt hy
  have hnodup := nodup_results_of_outline hold h
  refine ⟨hcontract, hsupplied.registered ?_ (Option.isSome_of_eq_some houtput), ?_⟩
  · intro id hid
    obtain ⟨b, hb⟩ := Option.isSome_iff_exists.mp (hinputs id hid)
    exact Option.isSome_of_eq_some (Graph.tensor?_of_extend hextend hb)
  · have hunread : o.chain.Pairwise fun before later =>
        op.output ∈ later.outputs → op.output ∈ before.inputs → ¬ y.isConstant := by
      rcases hfresh with hfresh | hcomputed
      · exact (hsupplied.not_read hold hfresh hnodup).imp fun hnot hmade hread =>
          absurd hread (hnot hmade)
      · exact List.pairwise_of_forall fun _ _ _ _ => hcomputed
    have hapart := (List.nodup_flatMap.mp hnodup).2
    refine (hapart.and hunread).imp_of_mem fun {before later} hbefore hlater hboth id hid =>
      ⟨fun hid' => hboth.1 hid' hid, fun ⟨hread, hconstant⟩ => ?_⟩
    rcases hsupplied.made later hlater id hid with rfl | ⟨r, hr, hresult⟩
    · rw [houtput] at hconstant
      exact hboth.2 hid hread hconstant
    · rw [hr.2] at hconstant
      exact hresult hconstant

theorem Composite.coherent_of_outline {op : Composite} {options : Options} {o : Outline}
    {s t : Session} {x y : Tensor} (htyped : op.Typed s.graph x y)
    (hinputs : ∀ id ∈ op.inputs, (s.graph.tensor? id).isSome) (hcomputed : ¬ y.isConstant)
    (h : op.outline options s = .ok o t) : t.graph.Coherent o.chain :=
  coherent_of_contract hinputs htyped.output (.inr hcomputed) h (contract_of_outline htyped hinputs h)

end GraphLowering
