import GraphLowering.Proofs.Chains

/-!
# Chains read what is there

An operator of a drafted chain reads operands of the composite, constants of the draft, and results
of operators before it. What it computes is the output of the composite or an intermediate result of
the draft. `Chain.Supplied` says so, and every draft makes such a chain
(`Composite.Drafts.supplied`).
-/

namespace GraphLowering

namespace Graph

def DraftedConstant (g : Graph) (first : Nat) (t : TensorId) : Prop :=
  ∃ tensor, g.Drafted first t tensor ∧ tensor.isConstant

def DraftedResult (g : Graph) (first : Nat) (t : TensorId) : Prop :=
  ∃ tensor, g.Drafted first t tensor ∧ ¬ tensor.isConstant

variable {g : Graph} {first : Nat} {t : TensorId}

theorem Operand.constant {data : Buffer} (h : g.Operand first t data) : g.DraftedConstant first t := by
  obtain ⟨name, quantization, hdrafted⟩ := h
  exact ⟨_, hdrafted, rfl⟩

theorem Intermediate.result {type : TensorType} {quantization : Option Quantization}
    (h : g.Intermediate first t type quantization) :
    g.DraftedResult first t := by
  obtain ⟨name, hdrafted⟩ := h
  exact ⟨_, hdrafted, Bool.false_ne_true⟩

theorem DraftedConstant.not_result (h : g.DraftedConstant first t) :
    ¬ g.DraftedResult first t := by
  rintro ⟨x, hx, hresult⟩
  obtain ⟨y, hy, hconst⟩ := h
  have hsame : some x = some y := hx.2.symm.trans hy.2
  cases hsame
  exact hresult hconst

theorem DraftedResult.ne (h : g.DraftedResult first t) {u : TensorId}
    (hu : u.index < first ∨ g.DraftedConstant first u) :
    u ≠ t := by
  rintro rfl
  rcases hu with hold | hconstant
  · obtain ⟨_, ⟨hnew, _⟩, _⟩ := h
    omega
  · exact hconstant.not_result h

end Graph

namespace Chain

/-- An operand of a chain: it is ready, or a constant of the draft. -/
def Available (g : Graph) (first : Nat) (ready : List TensorId) (t : TensorId) : Prop :=
  t ∈ ready ∨ g.DraftedConstant first t

/-- Each operator reads what is available, and its one result is ready for those after it. -/
inductive Supplied (g : Graph) (first : Nat) (output : TensorId) : List TensorId → List Operator → Prop
  | nil {ready : List TensorId} : Supplied g first output ready []
  | cons {ready : List TensorId} {op : Operator} {rest : List Operator} (single : op.outputs.length = 1)
      (reads : ∀ t ∈ op.inputs, Available g first ready t)
      (makes : ∀ t ∈ op.outputs, t = output ∨ g.DraftedResult first t)
      (next : Supplied g first output (op.outputs ++ ready) rest) :
      Supplied g first output ready (op :: rest)

variable {g : Graph} {first : Nat} {output : TensorId} {ready : List TensorId} {rest : List Operator}

theorem Available.mono {ready' : List TensorId} {t : TensorId} (h : Available g first ready t)
    (hready : ready ⊆ ready') :
    Available g first ready' t :=
  h.imp_left fun ht => hready ht

theorem Available.cons {t : TensorId} (h : Available g first ready t) (x : TensorId) :
    Available g first (x :: ready) t :=
  h.mono (List.subset_cons_self x ready)

theorem Available.self {t : TensorId} : Available g first (t :: ready) t :=
  .inl List.mem_cons_self

theorem Supplied.step {kind : Primitive} {inputs : List TensorId} {result : TensorId}
    (hreads : inputs.Forall (Available g first ready))
    (hresult : result = output ∨ g.DraftedResult first result)
    (hrest : Supplied g first output (result :: ready) rest) :
    Supplied g first output ready (⟨kind, inputs, [result]⟩ :: rest) :=
  .cons rfl (List.forall_iff_forall_mem.mp hreads)
    (fun _ ht => (List.mem_singleton.mp ht) ▸ hresult) hrest

theorem Supplied.moves {kind : Primitive} {how : Buffer} {source result : TensorId}
    {op : Operator} (hmoves : g.Moves first kind how source result op)
    (hsource : Available g first ready source)
    (hresult : result = output ∨ g.DraftedResult first result)
    (hrest : Supplied g first output (result :: ready) rest) :
    Supplied g first output ready (op :: rest) := by
  obtain ⟨p, hp, rfl⟩ := hmoves
  exact .step ⟨hsource, .inr hp.constant⟩ hresult hrest

theorem Supplied.single {chain : List Operator} (h : Supplied g first output ready chain) :
    ∀ op ∈ chain, op.outputs.length = 1 := by
  induction h with
  | nil => exact fun _ hop => (nomatch hop)
  | cons hsingle _ _ _ ih =>
    intro op hop
    rcases List.mem_cons.mp hop with rfl | hop
    · exact hsingle
    · exact ih op hop

theorem Supplied.made {chain : List Operator} (h : Supplied g first output ready chain) :
    ∀ op ∈ chain, ∀ t ∈ op.outputs, t = output ∨ g.DraftedResult first t := by
  induction h with
  | nil => exact fun _ hop => (nomatch hop)
  | cons _ _ hmakes _ ih => exact List.forall_mem_cons.mpr ⟨hmakes, ih⟩

end Chain

open Chain

/-! ## Lifting -/

namespace Lift

variable {g : Graph} {first : Nat} {input weight output : TensorId} {params : ConvParams} {l : Lifted}
  {ready : List TensorId} {rest : List Operator}

theorem LiftsTo.output_result (h : LiftsTo g first input weight output params l) :
    l.output = output ∨ g.DraftedResult first l.output := by
  cases h with
  | image _ _ => exact .inl rfl
  | line _ _ _ _ hcollapses =>
    obtain ⟨_, _, _, _, hintermediate, _⟩ := hcollapses
    exact .inr hintermediate.result

theorem LiftsTo.supplied_before (h : LiftsTo g first input weight output params l)
    (hinput : input ∈ ready) (hweight : weight ∈ ready)
    (hrest : ∀ ready', ready ⊆ ready' → Available g first ready' l.input →
      Available g first ready' l.weight → Supplied g first output ready' rest) :
    Supplied g first output ready (l.before ++ rest) := by
  cases h with
  | image _ _ => exact hrest ready (List.Subset.refl _) (.inl hinput) (.inl hweight)
  | line _ _ hexpands hweights _ =>
    obtain ⟨x, _, _, _, hintermediate, dims, _, hmoves⟩ := hexpands
    refine .moves hmoves (.inl hinput) (.inr hintermediate.result) ?_
    cases hweights with
    | folded _ _ _ _ hdrafted =>
      exact hrest _ (List.subset_cons_self _ _) .self (.inr ⟨_, hdrafted, rfl⟩)
    | reshaped hexpands =>
      obtain ⟨w, _, _, _, hintermediate, dims, _, hmoves⟩ := hexpands
      refine .moves hmoves (.inl (List.mem_cons_of_mem _ hweight)) (.inr hintermediate.result) ?_
      exact hrest _ (fun t ht => List.mem_cons_of_mem _ (List.mem_cons_of_mem _ ht))
        (Available.self.cons _) .self

theorem LiftsTo.supplied_after (h : LiftsTo g first input weight output params l)
    (houtput : l.output ∈ ready) :
    Supplied g first output ready l.after := by
  cases h with
  | image _ _ => exact .nil
  | line _ _ _ _ hcollapses =>
    obtain ⟨_, _, _, _, _, dims, _, hmoves⟩ := hcollapses
    exact .moves hmoves (.inl houtput) (.inl rfl) .nil

end Lift

theorem Layout.Permuted.result {g : Graph} {first : Nat} {perm : List Nat} {source result : TensorId}
    (h : Layout.Permuted g first perm source result) : g.DraftedResult first result := by
  obtain ⟨_, _, _, _, hintermediate⟩ := h
  exact hintermediate.result

/-! ## The three lowerings -/

section Lowerings

variable {g : Graph} {first : Nat} {output : TensorId} {ready : List TensorId} {rest : List Operator}

theorem Convolution.Pads.supplied {id data : TensorId} {params : ConvParams} {ops : List Operator}
    (h : Convolution.Pads g first id params ops data) (hid : Available g first ready id)
    (hrest : ∀ ready', ready ⊆ ready' → Available g first ready' data →
      Supplied g first output ready' rest) :
    Supplied g first output ready (ops ++ rest) := by
  cases h with
  | unpadded _ => exact hrest ready (List.Subset.refl _) hid
  | padded _ _ _ _ _ _ _ _ hintermediate hmoves _ =>
    exact .moves hmoves hid (.inr hintermediate.result) (hrest _ (List.subset_cons_self _ _) .self)

theorem Convolution.Biases.available {channels : Nat} {bias : Option TensorId} {result : TensorId}
    (h : Convolution.Biases g first channels bias result) (hbias : bias.toList ⊆ ready) :
    Available g first ready result := by
  cases h with
  | zeros _ hoperand _ => exact .inr hoperand.constant
  | given _ _ => exact .inl (hbias (by simp))
  | repeated _ _ _ _ _ hoperand _ => exact .inr hoperand.constant

theorem Convolution.Plan.Fits.supplied {n : Convolution} {p : Convolution.Plan} (h : p.Fits n g first) :
    Supplied g first n.output (n.input :: n.weight :: n.bias.toList) (p.chain n.activation) := by
  unfold Convolution.Plan.chain
  simp only [List.append_assoc, List.cons_append, List.nil_append]
  refine h.lifts.supplied_before (by simp) (by simp) fun ready₁ hready₁ hinput hweight => ?_
  refine .moves h.brackets.enter hinput (.inr h.brackets.input.result) ?_
  refine h.pads.supplied .self fun ready₂ hready₂ hdata => ?_
  have hready : ready₁ ⊆ ready₂ := fun _ ht => hready₂ (List.mem_cons_of_mem _ ht)
  have hbias : Available g first ready₂ p.bias :=
    h.biases.available fun _ ht => hready (hready₁ (List.mem_cons_of_mem _ (List.mem_cons_of_mem _ ht)))
  refine .moves h.reorders (hweight.mono hready) (.inr h.permuted.result) ?_
  refine .step ⟨hdata.cons _, .self, hbias.cons _⟩ (.inr h.brackets.output.result) ?_
  exact .moves h.brackets.leave .self h.lifts.output_result (h.lifts.supplied_after List.mem_cons_self)

theorem TransposedConvolution.AddsBias.supplied {channels : Nat} {out : Tensor}
    {bias : Option TensorId} {ops : List Operator} {result cropped : TensorId}
    (h : TransposedConvolution.AddsBias g first channels result out bias ops cropped)
    (hbias : bias.toList ⊆ ready) (hcropped : cropped ∈ ready)
    (hresult : result = output ∨ g.DraftedResult first result)
    (hrest : ∀ ready', result ∈ ready' → Supplied g first output ready' rest) :
    Supplied g first output ready (ops ++ rest) := by
  cases h with
  | unbiased => exact hrest ready hcropped
  | biased _ _ _ =>
    exact .step ⟨.inl hcropped, .inl (hbias (by simp))⟩ hresult (hrest _ List.mem_cons_self)

theorem TransposedConvolution.Plan.Fits.cropped_result {n : TransposedConvolution}
    {p : TransposedConvolution.Plan} (h : p.Fits n g first) : g.DraftedResult first p.cropped := by
  have hadds := h.adds
  have houtput := h.brackets.output.result
  generalize p.cropped = cropped, p.addition = addition, n.bias = bias at hadds ⊢
  cases hadds with
  | unbiased => exact houtput
  | biased _ _ hintermediate => exact hintermediate.result

theorem TransposedConvolution.Plan.Fits.supplied_slice {n : TransposedConvolution}
    {p : TransposedConvolution.Plan} (h : p.Fits n g first) (hconvolved : p.convolved ∈ ready)
    (hrest : ∀ ready', ready ⊆ ready' → p.cropped ∈ ready' → Supplied g first output ready' rest) :
    Supplied g first output ready (p.slice ++ rest) := by
  have hcropped := h.cropped_result
  have hcrops := h.crops
  unfold TransposedConvolution.Plan.convolved at hconvolved
  unfold TransposedConvolution.Plan.slice
  cases hcrop : p.crop with
  | none =>
    rw [hcrop] at hconvolved
    exact hrest ready (List.Subset.refl _) hconvolved
  | some c =>
    rw [hcrop] at hconvolved
    obtain ⟨_, _, _, _, _, _, _, _, hbegin⟩ := (hcrops c hcrop).begin
    obtain ⟨_, _, hsize⟩ := (hcrops c hcrop).size
    refine .step ⟨.inl hconvolved, .inr hbegin.constant, .inr hsize.constant⟩ (.inr hcropped) ?_
    exact hrest _ (List.subset_cons_self _ _) List.mem_cons_self

theorem TransposedConvolution.Plan.Fits.convolved_result {n : TransposedConvolution}
    {p : TransposedConvolution.Plan} (h : p.Fits n g first) : g.DraftedResult first p.convolved := by
  have hcrops := h.crops
  unfold TransposedConvolution.Plan.convolved
  cases hcrop : p.crop with
  | none => exact h.cropped_result
  | some c => exact (hcrops c hcrop).uncropped.result

theorem TransposedConvolution.Plan.Fits.supplied {n : TransposedConvolution}
    {p : TransposedConvolution.Plan} (h : p.Fits n g first) :
    Supplied g first n.output (n.input :: n.weight :: n.bias.toList) p.chain := by
  unfold TransposedConvolution.Plan.chain
  simp only [List.append_assoc, List.cons_append, List.nil_append]
  refine h.lifts.supplied_before (by simp) (by simp) fun ready hready hinput hweight => ?_
  refine .moves h.brackets.enter hinput (.inr h.brackets.input.result) ?_
  refine .moves h.reorders (hweight.cons _) (.inr h.permuted.result) ?_
  obtain ⟨_, _, hshape⟩ := h.shapes
  refine .step ⟨.inr hshape.constant, .self, Available.self.cons _⟩ (.inr h.convolved_result) ?_
  refine h.supplied_slice List.mem_cons_self fun ready₁ hready₁ hcropped => ?_
  refine h.adds.supplied (fun _ ht => hready₁ ?_) hcropped (.inr h.brackets.output.result)
    fun ready₂ houtput => ?_
  · simp only [List.mem_cons]
    exact .inr (.inr (.inr (hready (List.mem_cons_of_mem _ (List.mem_cons_of_mem _ ht)))))
  · exact .moves h.brackets.leave (.inl houtput) h.lifts.output_result
      (h.lifts.supplied_after List.mem_cons_self)

theorem BatchNorm.Plan.Fits.supplied {n : BatchNorm} {x : Tensor} {scale shift : Buffer}
    {p : BatchNorm.Plan} (h : p.Fits x scale shift g first) :
    Supplied g first n.output [n.input, n.weight, n.bias, n.mean, n.variance] (p.chain n) := by
  have hunquantized := h.unquantized
  unfold BatchNorm.Plan.chain
  cases hp : p.unquantized with
  | none =>
    refine .step ⟨.self, .inr h.scale.constant⟩ (.inr h.scaled.result) ?_
    exact .step ⟨.self, .inr h.shift.constant⟩ (.inl rfl) .nil
  | some u =>
    obtain ⟨hdequantized, hshifted⟩ := hunquantized u hp
    refine .step Available.self (.inr hdequantized.result) ?_
    refine .step ⟨.self, .inr h.scale.constant⟩ (.inr h.scaled.result) ?_
    refine .step ⟨.self, .inr h.shift.constant⟩ (.inr hshifted.result) ?_
    exact .step Available.self (.inl rfl) .nil

/-- The chain of a lowering reads the operands of the composite and makes its output. -/
theorem Composite.Drafts.supplied {op : Composite} {chain : List Operator}
    (h : op.Drafts g first chain) :
    Supplied g first op.output op.inputs chain := by
  cases op with
  | batchNorm n =>
    obtain ⟨x, scale, shift, p, _, hfits, rfl⟩ := h
    exact hfits.supplied
  | convolution n =>
    obtain ⟨p, hfits, rfl⟩ := h
    exact hfits.supplied
  | transposedConvolution n =>
    obtain ⟨p, hfits, rfl⟩ := h
    exact hfits.supplied

end Lowerings

/-! ## What is written before a convolution -/

section Writes

variable {g : Graph} {first : Nat}

theorem Graph.Moves.outputs {kind : Primitive} {how : Buffer} {source result : TensorId} {op : Operator}
    (h : g.Moves first kind how source result op) : op.outputs = [result] := by
  obtain ⟨_, _, rfl⟩ := h
  rfl

theorem Lift.Expands.writes {source result : TensorId} {op : Operator}
    (h : Lift.Expands g first source result op) :
    op.outputs = [result] ∧ g.DraftedResult first result := by
  obtain ⟨_, _, _, _, hintermediate, _, _, hmoves⟩ := h
  exact ⟨hmoves.outputs, hintermediate.result⟩

theorem Lift.LiftsTo.writes {input weight output : TensorId} {params : ConvParams} {l : Lifted}
    (h : Lift.LiftsTo g first input weight output params l) (hold : weight.index < first) :
    (∀ t ∈ l.before.flatMap (·.outputs), g.DraftedResult first t) ∧
      ((l.weight.index < first ∨ g.DraftedConstant first l.weight) ∨
        l.weight ∈ l.before.flatMap (·.outputs)) := by
  cases h with
  | image _ _ => exact ⟨fun t ht => (nomatch ht), .inl (.inl hold)⟩
  | line _ _ hexpands hweights _ =>
    obtain ⟨houtputs, hresult⟩ := hexpands.writes
    cases hweights with
    | folded _ _ _ _ hdrafted =>
      refine ⟨fun t ht => ?_, .inl (.inr ⟨_, hdrafted, rfl⟩)⟩
      simp only [List.flatMap_cons, List.flatMap_nil, houtputs, List.append_nil, List.mem_singleton]
        at ht
      rw [ht]
      exact hresult
    | reshaped hexpands' =>
      obtain ⟨houtputs', hresult'⟩ := hexpands'.writes
      simp only [List.flatMap_cons, List.flatMap_nil, houtputs,
        houtputs', List.append_nil, List.singleton_append]
      refine ⟨fun t ht => ?_, .inr (by simp)⟩
      rcases List.mem_cons.mp ht with rfl | ht
      · exact hresult
      · rw [List.mem_singleton.mp ht]
        exact hresult'

namespace Convolution

theorem Pads.writes {id data : TensorId} {params : ConvParams} {ops : List Operator}
    (h : Pads g first id params ops data) :
    (∀ t ∈ ops.flatMap (·.outputs), g.DraftedResult first t) ∧
    data ∈ id :: ops.flatMap (·.outputs) := by
  cases h with
  | unpadded _ => exact ⟨fun t ht => (nomatch ht), List.mem_cons_self⟩
  | padded _ _ _ _ _ _ _ _ hintermediate hmoves _ =>
    simp only [List.flatMap_cons, List.flatMap_nil, hmoves.outputs, List.append_nil, List.mem_singleton]
    refine ⟨?_, by simp⟩
    rintro t rfl
    exact hintermediate.result

theorem Biases.settled {channels : Nat} {bias : Option TensorId} {result : TensorId}
    (h : Biases g first channels bias result) (hold : ∀ id ∈ bias, id.index < first) :
    result.index < first ∨ g.DraftedConstant first result := by
  cases h with
  | zeros _ hoperand _ => exact .inr hoperand.constant
  | given _ _ => exact .inl (hold _ rfl)
  | repeated _ _ _ _ _ hoperand _ => exact .inr hoperand.constant

namespace Plan

def early (p : Plan) : List Operator :=
  p.lifted.before ++ (p.bracket.enter :: p.padding ++ [p.reorder])

/-- No operator before the convolution overwrites what a later one reads. -/
structure Apart (p : Plan) : Prop where
  weight : p.lifted.weight ∉ (p.bracket.enter :: p.padding).flatMap (·.outputs)
  data : p.data ≠ p.filter
  bias : p.bias ∉ p.early.flatMap (·.outputs)

theorem Fits.apart {n : Convolution} {p : Plan} (h : p.Fits n g first)
    (hweight : n.weight.index < first) (hbias : ∀ id ∈ n.bias, id.index < first)
    (hnodup : (p.early.flatMap (·.outputs)).Nodup) : p.Apart := by
  obtain ⟨hlifted, hliftedWeight⟩ := h.lifts.writes hweight
  obtain ⟨hpadded, hdata⟩ := h.pads.writes
  have henter := h.brackets.enter.outputs
  have hreorder := h.reorders.outputs
  have hentered : ∀ t ∈ (p.bracket.enter :: p.padding).flatMap (·.outputs),
      g.DraftedResult first t := by
    intro t ht
    rw [List.flatMap_cons, henter, List.singleton_append] at ht
    rcases List.mem_cons.mp ht with rfl | ht
    · exact h.brackets.input.result
    · exact hpadded t ht
  -- what is written is an intermediate result: the bias is none, and the weight is one only if a
  -- reshape has written it
  unfold early at hnodup
  rw [List.flatMap_append, List.flatMap_append] at hnodup
  obtain ⟨_, hinner, hbefore⟩ := List.nodup_append.mp hnodup
  refine ⟨fun hmem => ?_, ?_, fun hmem => ?_⟩
  · rcases hliftedWeight with hsettled | hwritten
    · exact (hentered _ hmem).ne hsettled rfl
    · exact hbefore _ hwritten _ (List.mem_append_left _ hmem) rfl
  · have hwritten : p.data ∈ (p.bracket.enter :: p.padding).flatMap (·.outputs) := by
      rw [List.flatMap_cons, henter, List.singleton_append]
      exact hdata
    have hfilter : p.filter ∈ [p.reorder].flatMap (·.outputs) := by
      rw [List.flatMap_cons, hreorder]
      exact List.mem_cons_self
    exact (List.nodup_append.mp hinner).2.2 _ hwritten _ hfilter
  · have hsettled := h.biases.settled hbias
    unfold early at hmem
    rw [List.flatMap_append, List.flatMap_append, List.mem_append, List.mem_append] at hmem
    rcases hmem with hmem | hmem | hmem
    · exact (hlifted _ hmem).ne hsettled rfl
    · exact (hentered _ hmem).ne hsettled rfl
    · rw [List.flatMap_cons, hreorder, List.flatMap_nil, List.append_nil, List.mem_singleton] at hmem
      rw [hmem] at hsettled
      exact h.permuted.result.ne hsettled rfl

end Plan

end Convolution

end Writes

end GraphLowering
