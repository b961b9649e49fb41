import GraphLowering.Proofs.Chains

/-!
# What a lowering decides before it changes the nodes

A lowering first looks at the tensors, checks what it requires of them and drafts its chain. Up to
there it has registered tensors and nothing else. What it has found out is an `Outline`, and the
rest, putting the chain into the graph, is the same for all lowerings (`Composite.lower_eq`).
-/

namespace GraphLowering

/-- A drafted chain and what else is known when it is put into the graph. -/
structure Outline where
  chain : List Operator
  diagnostics : List Diagnostic
  /-- Whether the chain is checked when it is in its place. -/
  verified : Bool

def Outline.place (o : Outline) (d : Detachment) : Edit Lowered := do
  let nodes ← Edit.emit o.chain d
  if o.verified then
    Edit.verify o.chain
  return ⟨nodes, o.diagnostics⟩

def Convolution.outline (n : Convolution) (options : Options) : Edit Outline := do
  if n.params.groups = 0 then
    reject (.precondition lowering .noGroups)
  let output ← liftGraph ((← Edit.graph).tensor n.output)
  let (chain, diagnostics) ← Draft.run output.name (n.draft options)
  return ⟨chain, diagnostics, true⟩

def TransposedConvolution.outline (n : TransposedConvolution) (options : Options) : Edit Outline := do
  if n.params.groups ≠ 1 then
    reject (.precondition lowering (.groupedTransposed n.params.groups))
  if n.params.dilation.any (· ≠ 1) then
    reject (.precondition lowering (.dilatedTransposed n.params.dilation))
  let output ← liftGraph ((← Edit.graph).tensor n.output)
  let chain ← Draft.run output.name n.draft
  return ⟨chain, [], options.verifyTransposed⟩

def BatchNorm.outline (n : BatchNorm) : Edit Outline := do
  let x ← liftGraph ((← Edit.graph).tensor n.input)
  if x.rank < 2 then
    reject (.precondition lowering (.noChannelAxis x.name x.shape))
  let channels ← entry x.shape.dims 1
  let weight ← channelValues n.weight channels
  let bias ← channelValues n.bias channels
  let mean ← channelValues n.mean channels
  let variance ← channelValues n.variance channels
  let (scale, shift) := fold n.epsilon weight bias mean variance
  if ¬ x.isQuantized ∧ x.elementType ≠ .f32 then
    reject (.precondition lowering (.unquantizedInput x.name x.elementType))
  let output ← liftGraph ((← Edit.graph).tensor n.output)
  if x.isQuantized ∧ ¬ output.isQuantized then
    reject (.precondition lowering (.unquantizedOutput output.name))
  let scale ← channelBuffer x.rank channels scale
  let shift ← channelBuffer x.rank channels shift
  let chain ← Draft.run output.name (n.draft x scale shift)
  return ⟨chain, [], false⟩

def Composite.outline (op : Composite) (options : Options) : Edit Outline :=
  match op with
  | .batchNorm n => n.outline
  | .convolution n => n.outline options
  | .transposedConvolution n => n.outline options

theorem Composite.lower_eq (op : Composite) (d : Detachment) (options : Options) :
    op.lower d options = op.outline options >>= fun o => o.place d := by
  have hite {α β : Type} {c : Prop} [Decidable c] (m m' : Edit α) (k : α → Edit β) :
      (if c then m else m') >>= k = if c then m >>= k else m' >>= k := apply_ite (· >>= k) c m m'
  cases op with
  | batchNorm n =>
    simp only [lower, outline, BatchNorm.lower, BatchNorm.outline,
      Outline.place, hite, bind_assoc, pure_bind]
    rfl
  | convolution n =>
    simp only [lower, outline, Convolution.lower, Convolution.outline,
      Outline.place, hite, bind_assoc, pure_bind]
    rfl
  | transposedConvolution n =>
    simp only [lower, outline, TransposedConvolution.lower, TransposedConvolution.outline,
      Outline.place, hite, bind_assoc, pure_bind]

/-! ## What an outline is -/

/-- An outline has registered tensors, and its chain is one that the lowering drafts with them. -/
def Composite.Outlines (op : Composite) (g : Graph) (o : Outline) (drafted : Graph) : Prop :=
  g.Registers drafted ∧ ∀ later, drafted.tensors <+: later.tensors →
    op.Drafts later g.tensors.length o.chain

section Ends

variable {s : Session} {d : Detachment}

open Edit (Along emit_ends verify_ends)

theorem Convolution.outline_plans (n : Convolution) (options : Options) :
    Ends (Along Graph.Registers) (n.outline options) s fun o s' =>
      n.params.groups ≠ 0 ∧ s.graph.Registers s'.graph ∧
      ∀ later, s'.graph.tensors <+: later.tensors →
        ∃ p : Plan, p.Fits n later s.graph.tensors.length ∧ p.Permitted options ∧
          o.chain = p.chain n.activation := by
  unfold outline
  refine .ite (fun _ => reject_bind_ends _) fun hgroups =>
    Ends.read rfl (Ends.andThen (liftGraph_ends _) fun output _ => ?_)
  exact (Draft.run_ends (n.draft_ends options (Nat.le_refl _))).bind fun r s₁ _ hr =>
    Ends.pure ⟨hgroups, hr⟩

theorem Convolution.outline_ends (n : Convolution) (options : Options) :
    Ends (Along Graph.Registers) (n.outline options) s fun o s' =>
      (Composite.convolution n).Outlines s.graph o s'.graph := by
  refine (n.outline_plans options).mono ?_
  rintro o s' _ ⟨_, hregisters, hplans⟩
  refine ⟨hregisters, fun later hlater => ?_⟩
  obtain ⟨p, hfits, _, hchain⟩ := hplans later hlater
  exact ⟨p, hfits, hchain⟩

theorem Convolution.plans_of_ok {n : Convolution} {options : Options} {o : Outline} {t : Session}
    (h : n.outline options s = .ok o t) :
    n.params.groups ≠ 0 ∧ ∃ p : Plan, p.Fits n t.graph s.graph.tensors.length ∧
      p.Permitted options ∧ o.chain = p.chain n.activation := by
  obtain ⟨hgroups, _, hplans⟩ := ((n.outline_plans options).of_ok h).2
  exact ⟨hgroups, hplans t.graph (List.prefix_refl _)⟩

theorem TransposedConvolution.outline_plans (n : TransposedConvolution) (options : Options) :
    Ends (Along Graph.Registers) (n.outline options) s fun o s' =>
      n.params.groups = 1 ∧ (∀ k ∈ n.params.dilation, k = 1) ∧
      s.graph.Registers s'.graph ∧ ∀ later, s'.graph.tensors <+: later.tensors →
        ∃ p : Plan, p.Fits n later s.graph.tensors.length ∧ o.chain = p.chain := by
  unfold outline
  refine .ite (fun _ => reject_bind_ends _) fun hgroups =>
    .ite (fun _ => reject_bind_ends _) fun hdilation => ?_
  refine Ends.read rfl (Ends.andThen (liftGraph_ends _) fun output _ => ?_)
  refine (Draft.run_ends (n.draft_ends (Nat.le_refl _))).bind fun chain s₁ _ hr =>
    Ends.pure ⟨not_not.mp hgroups, fun k hk => ?_, hr⟩
  by_contra hother
  exact hdilation (List.any_eq_true.mpr ⟨k, hk, decide_eq_true hother⟩)

theorem TransposedConvolution.outline_ends (n : TransposedConvolution) (options : Options) :
    Ends (Along Graph.Registers) (n.outline options) s fun o s' =>
      (Composite.transposedConvolution n).Outlines s.graph o s'.graph :=
  (n.outline_plans options).mono fun _ _ _ hplans => hplans.2.2

theorem TransposedConvolution.plans_of_ok {n : TransposedConvolution} {options : Options}
    {o : Outline} {t : Session} (h : n.outline options s = .ok o t) :
    n.params.groups = 1 ∧ (∀ k ∈ n.params.dilation, k = 1) ∧
      ∃ p : Plan, p.Fits n t.graph s.graph.tensors.length ∧ o.chain = p.chain := by
  obtain ⟨hgroups, hdilation, _, hplans⟩ := ((n.outline_plans options).of_ok h).2
  exact ⟨hgroups, hdilation, hplans t.graph (List.prefix_refl _)⟩

def BatchNorm.Folded (n : BatchNorm) (g : Graph) (channels : Nat) (scale shift : Buffer) : Prop :=
  ∃ weight bias mean variance,
    HoldsValues g channels n.weight weight ∧ HoldsValues g channels n.bias bias ∧
    HoldsValues g channels n.mean mean ∧ HoldsValues g channels n.variance variance ∧
    scale.elements = .f32 (.listed (fold n.epsilon weight bias mean variance).1) ∧
    shift.elements = .f32 (.listed (fold n.epsilon weight bias mean variance).2)

structure BatchNorm.Folds (n : BatchNorm) (g : Graph) (x y : Tensor)
    (channels : Nat) (scale shift : Buffer) : Prop where
  input : g.tensor? n.input = some x
  output : g.tensor? n.output = some y
  channelCount : x.shape.dims[1]? = some channels
  folded : n.Folded g channels scale shift
  plain : ¬ x.isQuantized → x.elementType = .f32
  quantized : x.isQuantized → y.isQuantized
  scale : AlongChannels x.rank channels scale
  shift : AlongChannels x.rank channels shift

theorem BatchNorm.HoldsValues.extend {g g' : Graph} {channels : Nat} {id : TensorId}
    {numbers : List Float32} (h : HoldsValues g channels id numbers)
    (hextend : g.tensors <+: g'.tensors) : HoldsValues g' channels id numbers := by
  obtain ⟨t, data, values, ht, hvalues⟩ := h
  exact ⟨t, data, values, Graph.tensor?_of_extend hextend ht, hvalues⟩

theorem BatchNorm.Folds.extend {n : BatchNorm} {g g' : Graph} {x y : Tensor} {channels : Nat}
    {scale shift : Buffer} (h : n.Folds g x y channels scale shift)
    (hextend : g.tensors <+: g'.tensors) : n.Folds g' x y channels scale shift :=
  { h with
    input := Graph.tensor?_of_extend hextend h.input
    output := Graph.tensor?_of_extend hextend h.output
    folded := by
      obtain ⟨weight, bias, mean, variance, hweight, hbias, hmean, hvariance, hfold⟩ := h.folded
      exact ⟨weight, bias, mean, variance, hweight.extend hextend,
        hbias.extend hextend, hmean.extend hextend, hvariance.extend hextend, hfold⟩ }

theorem BatchNorm.outline_folds (n : BatchNorm) :
    Ends (Along Graph.Registers) n.outline s fun o s' => s.graph.Registers s'.graph ∧
      ∃ x y channels scale shift, n.Folds s.graph x y channels scale shift ∧
        ∀ later, s'.graph.tensors <+: later.tensors →
          ∃ p : Plan, p.Fits x scale shift later s.graph.tensors.length ∧ o.chain = p.chain n := by
  unfold outline
  refine Ends.read rfl
    (Ends.andThen (liftGraph_ends _) fun x hx => .ite (fun _ => reject_bind_ends _) fun _ => ?_)
  refine Ends.andThen (entry_ends _ _) fun channels hchannels =>
    Ends.andThen (channelValues_ends _ _) fun weight hweight => ?_
  refine Ends.andThen (channelValues_ends _ _) fun bias hbias =>
    Ends.andThen (channelValues_ends _ _) fun mean hmean => ?_
  refine Ends.andThen (channelValues_ends _ _) fun variance hvariance =>
    .ite (fun _ => reject_bind_ends _) fun hplain => ?_
  refine Ends.read rfl (Ends.andThen (liftGraph_ends _) fun y hy =>
    .ite (fun _ => reject_bind_ends _) fun hquantized => ?_)
  refine Ends.andThen (channelBuffer_ends _ _ _) fun scale hscale => ?_
  refine Ends.andThen (channelBuffer_ends _ _ _) fun shift hshift => ?_
  refine (Draft.run_ends (n.draft_ends x scale shift (Nat.le_refl _))).bind
    fun chain s₁ _ ⟨hregisters, hdrafts⟩ => Ends.pure ?_
  refine ⟨hregisters, x, y, channels, scale, shift, ?_, hdrafts⟩
  exact {
    input := Graph.tensor_eq_ok.mp hx
    output := Graph.tensor_eq_ok.mp hy
    channelCount := hchannels
    folded := ⟨weight, bias, mean, variance, hweight, hbias, hmean, hvariance, hscale.2, hshift.2⟩
    plain := fun h => not_not.mp fun htype => hplain ⟨h, htype⟩
    quantized := fun h => not_not.mp fun houtput => hquantized ⟨h, houtput⟩
    scale := hscale.1
    shift := hshift.1 }

theorem BatchNorm.folds_of_ok {n : BatchNorm} {o : Outline} {t : Session} (h : n.outline s = .ok o t) :
    s.graph.Registers t.graph ∧ ∃ x y channels scale shift, n.Folds s.graph x y channels scale shift ∧
      ∀ later, t.graph.tensors <+: later.tensors →
        ∃ p : Plan, p.Fits x scale shift later s.graph.tensors.length ∧ o.chain = p.chain n :=
  (n.outline_folds.of_ok h).2

theorem BatchNorm.outline_ends (n : BatchNorm) :
    Ends (Along Graph.Registers) n.outline s fun o s' =>
      (Composite.batchNorm n).Outlines s.graph o s'.graph := by
  refine n.outline_folds.mono ?_
  rintro o s' _ ⟨hregisters, x, y, channels, scale, shift, hfolds, hdrafts⟩
  refine ⟨hregisters, fun later hlater => ?_⟩
  obtain ⟨p, hfits, hchain⟩ := hdrafts later hlater
  exact ⟨x, scale, shift, p, Graph.tensor?_of_extend (hregisters.extend.trans hlater) hfolds.input,
    hfits, hchain⟩

theorem Composite.outline_ends (op : Composite) (options : Options) :
    Ends (Along Graph.Registers) (op.outline options) s fun o s' => op.Outlines s.graph o s'.graph := by
  cases op with
  | batchNorm n => exact n.outline_ends
  | convolution n => exact n.outline_ends options
  | transposedConvolution n => exact n.outline_ends options

theorem Composite.outlines_of_ok {op : Composite} {options : Options} {o : Outline} {t : Session}
    (h : op.outline options s = .ok o t) : op.Outlines s.graph o t.graph :=
  ((op.outline_ends options).of_ok h).2

theorem Outline.place_ends (o : Outline) (hnew : d.firstNew ≤ s.graph.nextNode) :
    Ends (Along (Graph.Grows d.Permits)) (o.place d) s fun result s' =>
      s.graph.Replaces d o.chain result.nodes s'.graph := by
  unfold place
  refine (emit_ends o.chain hnew).bind fun ids s₁ _ hreplaces =>
    .ite (fun _ => ?_) fun _ => Ends.pure hreplaces
  exact Ends.andThen (verify_ends _) fun _ _ => Ends.pure hreplaces

/-- A lowering that ends with a result has replaced the composite by a chain. Wherever it ends, it
has only added to the graph. -/
theorem Composite.lower_ends (op : Composite) (options : Options)
    (hnew : d.firstNew ≤ s.graph.nextNode) :
    Ends (Along (Graph.Grows d.Permits)) (op.lower d options) s fun result s' =>
      op.Becomes d s.graph result.nodes s'.graph := by
  rw [op.lower_eq]
  have houtline : Ends (Along (Graph.Grows d.Permits)) (op.outline options) s _ :=
    (op.outline_ends options).along fun _ h => h.grows
  refine houtline.bind fun o s₁ hgrows ⟨hregisters, hdrafts⟩ => ?_
  refine (o.place_ends (Nat.le_trans hnew hgrows.nextNode_le)).mono fun result s₂ _ hreplaces => ?_
  exact ⟨s₁.graph, o.chain, hregisters, hdrafts, hreplaces⟩

end Ends

end GraphLowering
