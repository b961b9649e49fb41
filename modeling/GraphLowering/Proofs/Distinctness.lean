import GraphLowering.Proofs.Refusals
import GraphLowering.Proofs.Outlines

/-!
# A chain computes no tensor twice

Every intermediate result of a draft is registered when it is needed, so different results have
different numbers. `Drafting.Gains` keeps count of them while a draft goes on. The results of a
chain are these and the output of the composite, which was there before; so no two operators of a
chain compute the same tensor (`Composite.nodup_results_of_outline`).
-/

namespace GraphLowering

namespace Drafting

/-- Different tensors that were registered from one draft to the other. -/
def Gains (d d' : Drafting) (ids : List TensorId) : Prop :=
  ids.Nodup ∧ ∀ id ∈ ids, d.session.graph.tensors.length ≤ id.index ∧
    id.index < d'.session.graph.tensors.length

variable {d d₁ d₂ : Drafting} {ids ids' : List TensorId}

theorem Registered.length_le (h : Registered d d₁) :
    d.session.graph.tensors.length ≤ d₁.session.graph.tensors.length :=
  (Registered.extend h).length_le

theorem Gains.nil : d.Gains d₁ [] :=
  ⟨.nil, fun _ hid => nomatch hid⟩

theorem Gains.after (h : d₁.Gains d₂ ids) (hd : Registered d d₁) : d.Gains d₂ ids :=
  ⟨h.1, fun id hid => ⟨Nat.le_trans (Registered.length_le hd) (h.2 id hid).1, (h.2 id hid).2⟩⟩

theorem Gains.before (h : d.Gains d₁ ids) (hd : Registered d₁ d₂) : d.Gains d₂ ids :=
  ⟨h.1, fun id hid => ⟨(h.2 id hid).1, Nat.lt_of_lt_of_le (h.2 id hid).2 (Registered.length_le hd)⟩⟩

theorem Gains.append (h : d.Gains d₁ ids) (h' : d₁.Gains d₂ ids') (hd : Registered d d₁)
    (hd₁ : Registered d₁ d₂) :
    d.Gains d₂ (ids ++ ids') := by
  refine ⟨List.nodup_append.mpr ⟨h.1, h'.1, ?_⟩, fun id hid => ?_⟩
  · rintro id hid _ hid' rfl
    exact absurd (h.2 id hid).2 (Nat.not_lt.mpr (h'.2 id hid').1)
  · rcases List.mem_append.mp hid with hid | hid
    · exact (h.before hd₁).2 id hid
    · exact (h'.after hd).2 id hid

theorem Gains.single {id : TensorId} {type : TensorType} {quantization : Option Quantization}
    (h : d₁.session.graph.Intermediate d.session.graph.tensors.length id type quantization) :
    d.Gains d₁ [id] := by
  obtain ⟨_, hnew, htensor⟩ := h
  refine ⟨List.pairwise_singleton _ id, fun id' hid' => ?_⟩
  rw [List.mem_singleton.mp hid']
  exact ⟨hnew, Graph.tensor?_lt htensor⟩

theorem Gains.nodup_concat (h : d.Gains d₁ ids) {old : TensorId}
    (hold : old.index < d.session.graph.tensors.length) :
    (ids ++ [old]).Nodup := by
  refine List.nodup_append.mpr ⟨h.1, List.pairwise_singleton _ old, ?_⟩
  rintro id hid _ hid' rfl
  rw [List.mem_singleton.mp hid'] at hid
  exact absurd hold (Nat.not_lt.mpr (h.2 old hid).1)

end Drafting

open Drafting

def Chain.results (chain : List Operator) : List TensorId :=
  chain.flatMap (·.outputs)

open Chain (results)

@[simp] theorem Chain.results_nil : results [] = [] := rfl

@[simp] theorem Chain.results_cons (op : Operator) (chain : List Operator) :
    results (op :: chain) = op.outputs ++ results chain := rfl

@[simp] theorem Chain.results_append (chain chain' : List Operator) :
    results (chain ++ chain') = results chain ++ results chain' :=
  List.flatMap_append

variable {d : Drafting}

theorem Draft.intermediate_gains (type : TensorType) (quantization : Option Quantization) :
    Ends Registered (intermediate type quantization) d fun id d' => d.Gains d' [id] :=
  (intermediate_ends type quantization (Nat.le_refl _)).mono fun _ d' _ h =>
    .single (h _ (Before.refl d'))

/-! ## Layouts -/

namespace Layout

theorem channelLastCopy_gains (lowering : String) (id : TensorId) :
    Ends Registered (channelLastCopy lowering id) d fun copy d' => d.Gains d' [copy] := by
  unfold channelLastCopy
  refine Ends.andThen (Draft.tensor_ends id) fun t _ =>
    Ends.andThen (orReject_ends _ _) fun shape _ => ?_
  exact Draft.intermediate_gains _ _

theorem bracket_gains (lowering : String) (input output : TensorId) :
    Ends Registered (bracket lowering input output) d fun b d' =>
      b.enter.outputs = [b.input] ∧ b.leave.outputs = [output] ∧ d.Gains d' [b.input, b.output] := by
  have hopen (d : Drafting) : d.Open 0 := Nat.zero_le _
  unfold bracket
  refine (permutationOperand_ends _ (hopen d)).bind fun _ d₁ h₁ _ => ?_
  refine (permutationOperand_ends _ (hopen d₁)).bind fun _ d₂ h₂ _ => ?_
  refine (channelLastCopy_gains lowering input).bind fun innerInput d₃ h₃ hinput => ?_
  refine (channelLastCopy_gains lowering output).bind fun innerOutput d₄ h₄ houtput =>
    Ends.pure ⟨rfl, rfl, ?_⟩
  exact (hinput.append houtput h₃ h₄).after (Registered.trans h₁ h₂)

theorem permute_gains (lowering : String) (source : TensorId) (perm : List Nat) :
    Ends Registered (permute lowering source perm) d fun r d' =>
      r.1.outputs = [r.2] ∧ d.Gains d' [r.2] := by
  have hopen : d.Open 0 := Nat.zero_le _
  unfold permute
  refine (permutationOperand_ends _ hopen).bind fun _ d₁ h₁ _ =>
    Ends.andThen (Draft.tensor_ends source) fun t _ => ?_
  refine Ends.andThen (orReject_ends _ _) fun shape _ => ?_
  exact (Draft.intermediate_gains _ _).bind fun result d₂ _ hresult => Ends.pure ⟨rfl, hresult.after h₁⟩

end Layout

/-! ## A unit axis -/

namespace Lift

theorem Reshapes.outputs {g : Graph} {first : Nat} {shape : Shape} {source result : TensorId}
    {op : Operator} (h : Reshapes g first shape source result op) : op.outputs = [result] := by
  obtain ⟨_, _, _, _, rfl⟩ := h
  rfl

theorem expand_gains (lowering : String) (id : TensorId) :
    Ends Registered (expand lowering id) d fun r d' => r.1.outputs = [r.2] ∧ d.Gains d' [r.2] := by
  refine (expand_ends lowering id (Nat.le_refl _)).mono fun r d' _ hexpands => ?_
  obtain ⟨_, _, _, _, hresult, hop⟩ := hexpands _ (Before.refl d')
  exact ⟨hop.outputs, .single hresult⟩

theorem expandWeight_gains (lowering : String) (id : TensorId) :
    Ends Registered (expandWeight lowering id) d fun r d' => d.Gains d' (results r.1) := by
  refine (expandWeight_ends lowering id (Nat.le_refl _)).mono ?_
  rintro ⟨ops, result⟩ d' _ hexpands
  dsimp only at hexpands ⊢
  cases hexpands _ (Before.refl d') with
  | folded _ _ _ _ _ => exact .nil
  | reshaped hexpands =>
    obtain ⟨_, _, _, _, hresult, hop⟩ := hexpands
    rw [Chain.results_cons, Chain.results_nil, hop.outputs]
    exact .single hresult

theorem collapse_gains (lowering : String) (id : TensorId) :
    Ends Registered (collapse lowering id) d fun r d' => r.1.outputs = [id] ∧ d.Gains d' [r.2] := by
  refine (collapse_ends lowering id (Nat.le_refl _)).mono fun r d' _ hcollapses => ?_
  obtain ⟨_, _, _, _, hsource, hop⟩ := hcollapses _ (Before.refl d')
  exact ⟨hop.outputs, .single hsource⟩

end Lift

/-- What comes out of the reshapes of a lifted convolution, and of the operator that computes its
output, are new tensors and the output. -/
theorem Draft.liftConvolution_gains (lowering : String) (input weight output : TensorId)
    (params : ConvParams) :
    Ends Registered (liftConvolution lowering input weight output params) d fun l d' =>
      ∃ ids, d.Gains d' ids ∧
        (results l.before ++ l.output :: results l.after).Perm (ids ++ [output]) := by
  unfold liftConvolution
  refine Ends.andThen (Lift.rank_ends lowering input weight output) fun rank _ => ?_
  split
  · exact reject_ends _
  · refine .ite (fun _ => Ends.pure ⟨[], .nil, .refl _⟩) fun _ => ?_
    refine (Lift.expand_gains lowering input).bind fun x d₁ h₁ ⟨hxOp, hx⟩ => ?_
    refine (Lift.expandWeight_gains lowering weight).bind fun w d₂ h₂ hw => ?_
    refine (Lift.collapse_gains lowering output).bind fun y d₃ h₃ ⟨hyOp, hy⟩ =>
      Ends.pure ⟨_, (hx.append hw h₁ h₂).append hy (Registered.trans h₁ h₂) h₃, ?_⟩
    simp [hxOp, hyOp]

/-! ## The chains -/

theorem Convolution.padIfNeeded_gains (id : TensorId) (params : ConvParams) :
    Ends Registered (padIfNeeded id params) d fun r d' => d.Gains d' (results r.1) := by
  refine (padIfNeeded_ends id params (Nat.le_refl _)).mono ?_
  rintro ⟨ops, result⟩ d' _ hpads
  dsimp only at hpads ⊢
  cases hpads _ (Before.refl d') with
  | unpadded _ => exact .nil
  | padded _ _ _ _ _ _ _ _ hresult hmoves _ =>
    obtain ⟨_, _, rfl⟩ := hmoves
    exact .single hresult

theorem Convolution.survey_gains (n : Convolution) :
    Ends Registered n.survey d fun q d' => ∃ ids, d.Gains d' ids ∧
      (results q.lifted.before ++ q.lifted.output :: results q.lifted.after).Perm
        (ids ++ [n.output]) := by
  unfold survey
  refine (Draft.liftConvolution_gains _ _ _ _ _).bind fun l d₁ h₁ hl => ?_
  refine Ends.andThen (Draft.tensor_ends _) fun x _ =>
    Ends.andThen (entry_ends _ _) fun inputChannels _ => ?_
  refine Ends.andThen (Draft.tensor_ends _) fun w _ =>
    Ends.andThen (entry_ends _ _) fun outputChannels _ => ?_
  refine Ends.andThen (entry_ends _ _) fun groupWidth _ =>
    Ends.andThen (totalChannels_ends _ _) fun channels _ => ?_
  refine .ite (fun _ => reject_bind_ends _) fun _ => ?_
  refine Ends.andThen (Lift.perAxis_ends _) fun stride _ => ?_
  refine Ends.andThen (Lift.uint32_ends _ _ _) fun sh _ =>
    Ends.andThen (Lift.uint32_ends _ _ _) fun sw _ => ?_
  refine Ends.andThen (Lift.perAxis_ends _) fun dilation _ => ?_
  refine Ends.andThen (Lift.uint32_ends _ _ _) fun dh _ =>
    Ends.andThen (Lift.uint32_ends _ _ _) fun dw _ => ?_
  exact Ends.pure hl

/-- The chain of a convolution computes new tensors and the output, each once. -/
theorem Convolution.draft_gains (n : Convolution) (options : Options) :
    Ends Registered (n.draft options) d fun r d' =>
      ∃ ids, d.Gains d' ids ∧ (results r.1).Perm (ids ++ [n.output]) := by
  have hopen (d : Drafting) : d.Open 0 := Nat.zero_le _
  unfold draft
  refine n.survey_gains.bind fun q d₁ h₁ ⟨lifted, hl, hperm⟩ => ?_
  refine (warnings_ends _ _ _ _ _).bind fun diagnostics d₂ h₂ _ => ?_
  rw [assemble_eq]
  simp only [bind_assoc, pure_bind]
  refine (Layout.bracket_gains _ _ _).bind fun b d₃ h₃ ⟨henter, hleave, hb⟩ => ?_
  refine (padIfNeeded_gains _ _).bind fun padding d₄ h₄ hpadding => ?_
  refine (Layout.permute_gains _ _ _).bind fun reorder d₅ h₅ ⟨hreorder, hfilter⟩ => ?_
  refine (biasOperand_ends n _ _ _ (hopen d₅)).bind fun bias d₆ h₆ _ => Ends.pure ?_
  have hgains := ((hl.append (hb.after h₂) h₁ (Registered.trans h₂ h₃)).append hpadding
    (Registered.trans h₁ (Registered.trans h₂ h₃)) h₄).append
    (hfilter.before h₆) (Registered.trans h₁ (Registered.trans h₂ (Registered.trans h₃ h₄)))
    (Registered.trans h₅ h₆)
  refine ⟨_, hgains, List.perm_iff_count.mpr fun t => ?_⟩
  have hcount := List.perm_iff_count.mp hperm t
  simp only [Chain.results_append, Chain.results_cons, Chain.results_nil,
    henter, hleave, hreorder, List.count_append, List.count_cons, List.count_nil] at hcount ⊢
  omega

theorem TransposedConvolution.cropIfNeeded_gains (out : Tensor) (params : ConvParams) :
    Ends Registered (cropIfNeeded out params) d fun crop d' =>
      d.Gains d' (crop.map (·.uncropped)).toList := by
  refine (cropIfNeeded_ends out params (Nat.le_refl _)).mono ?_
  rintro crop d' _ ⟨_, hcrops⟩
  cases crop with
  | none => exact .nil
  | some c => exact .single (hcrops _ (Before.refl d') c rfl).uncropped

/-- The tensor to which a bias is added is new, unless it is the output. -/
theorem TransposedConvolution.addBias_gains (bias : Option TensorId) (channels : Nat)
    (output : TensorId) (out : Tensor) :
    Ends Registered (addBias bias channels output out) d fun r d' =>
      ∃ ids, d.Gains d' ids ∧ (r.2 :: results r.1).Perm (ids ++ [output]) := by
  refine (addBias_ends bias channels output out (Nat.le_refl _)).mono ?_
  rintro ⟨ops, result⟩ d' _ hadds
  dsimp only at hadds ⊢
  cases hadds _ (Before.refl d') with
  | unbiased => exact ⟨[], .nil, .refl _⟩
  | biased _ _ hintermediate => exact ⟨[result], .single hintermediate, .refl _⟩

theorem TransposedConvolution.draft_gains (n : TransposedConvolution) :
    Ends Registered n.draft d fun chain d' =>
      ∃ ids, d.Gains d' ids ∧ (results chain).Perm (ids ++ [n.output]) := by
  have hopen (d : Drafting) : d.Open 0 := Nat.zero_le _
  unfold draft
  refine (Draft.liftConvolution_gains _ _ _ _ _).bind fun l d₁ h₁ ⟨lifted, hl, hperm⟩ => ?_
  refine Ends.andThen (Draft.tensor_ends _) fun x _ =>
    Ends.andThen (entry_ends _ _) fun inputChannels _ => ?_
  refine Ends.andThen (Draft.tensor_ends _) fun w _ =>
    Ends.andThen (entry_ends _ _) fun weightChannels _ => ?_
  refine .ite (fun _ => reject_bind_ends _) fun _ =>
    Ends.andThen (entry_ends _ _) fun outputChannels _ => ?_
  refine Ends.andThen (Lift.perAxis_ends _) fun stride _ => ?_
  refine Ends.andThen (Lift.uint32_ends _ _ _) fun sh _ =>
    Ends.andThen (Lift.uint32_ends _ _ _) fun sw _ => ?_
  rw [assemble_eq]
  refine (Layout.bracket_gains _ _ _).bind fun b d₂ h₂ ⟨henter, hleave, hb⟩ => ?_
  refine Ends.andThen (Draft.tensor_ends _) fun out _ => ?_
  refine (cropIfNeeded_gains out l.params).bind fun crop d₃ h₃ hcrop => ?_
  refine Ends.andThen (Lift.int32Shape_ends _ _) fun dims _ => ?_
  refine (Draft.int32Operand_ends _ (hopen d₃)).bind fun outputShape d₄ h₄ _ => ?_
  refine (Layout.permute_gains _ _ _).bind fun reorder d₅ h₅ ⟨hreorder, hfilter⟩ => ?_
  refine (addBias_gains _ _ _ _).bind fun addition d₆ h₆ ⟨unbiased, hunbiased, hbiased⟩ => Ends.pure ?_
  have h₁₂ : Registered d d₂ := Registered.trans h₁ h₂
  have h₁₃ : Registered d d₃ := Registered.trans h₁₂ h₃
  have h₁₅ : Registered d d₅ := Registered.trans h₁₃ (Registered.trans h₄ h₅)
  have hgains := (((hl.append hb h₁ h₂).append hcrop h₁₂ h₃).append
    (hfilter.after h₄) h₁₃ (Registered.trans h₄ h₅)).append hunbiased h₁₅ h₆
  refine ⟨_, hgains, List.perm_iff_count.mpr fun t => ?_⟩
  have hlifted := List.perm_iff_count.mp hperm t
  have hadded := List.perm_iff_count.mp hbiased t
  cases crop with
  | none =>
    simp [Chain.results_append, Chain.results_cons, henter, hleave,
      hreorder, List.count_append, List.count_cons] at hlifted hadded ⊢
    omega
  | some c =>
    simp [Chain.results_append, Chain.results_cons, henter, hleave,
      hreorder, List.count_append, List.count_cons] at hlifted hadded ⊢
    omega

theorem BatchNorm.draft_gains (n : BatchNorm) (x : Tensor) (scale shift : Buffer) :
    Ends Registered (n.draft x scale shift) d fun chain d' =>
      ∃ ids, d.Gains d' ids ∧ (results chain).Perm (ids ++ [n.output]) := by
  have hopen (d : Drafting) : d.Open 0 := Nat.zero_le _
  unfold draft
  refine (Draft.operand_ends _ _ (hopen d)).bind fun _ d₁ h₁ _ =>
    (Draft.operand_ends _ _ (hopen d₁)).bind fun _ d₂ h₂ _ => ?_
  have h₁₂ : Registered d d₂ := Registered.trans h₁ h₂
  refine .ite (fun _ => ?_) fun _ => ?_
  · refine (Draft.intermediate_gains _ _).bind fun dequantized d₃ h₃ hdequantized => ?_
    refine (Draft.intermediate_gains _ _).bind fun scaled d₄ h₄ hscaled => ?_
    refine (Draft.intermediate_gains _ _).bind fun shifted d₅ h₅ hshifted =>
      Ends.pure ⟨[dequantized, scaled, shifted], ?_, .refl _⟩
    exact (hdequantized.append (hscaled.append hshifted h₄ h₅) h₃ (Registered.trans h₄ h₅)).after h₁₂
  · refine (Draft.intermediate_gains _ _).bind fun scaled d₃ h₃ hscaled =>
      Ends.pure ⟨[scaled], hscaled.after h₁₂, .refl _⟩

/-! ## Outlines -/

section Outlines

variable {s : Session}

open Edit (Along)

theorem Draft.run_nodup {α : Type} {draft : Draft α} {chain : α → List Operator} {owner : String}
    {output : TensorId} (hold : output.index < s.graph.tensors.length)
    (h : Ends Registered draft ⟨s, owner, 0, 0⟩ fun a d' =>
      ∃ ids, Gains ⟨s, owner, 0, 0⟩ d' ids ∧ (results (chain a)).Perm (ids ++ [output])) :
    Ends (Along Graph.Registers) (run owner draft) s fun a _ => (results (chain a)).Nodup := by
  have hdraft : Ends Registered draft ⟨s, owner, 0, 0⟩ fun a d' =>
      ∀ g, d'.Before g → (results (chain a)).Nodup := by
    refine h.mono fun a d' _ ⟨ids, hgains, hperm⟩ _ _ => ?_
    exact hperm.nodup_iff.mpr (hgains.nodup_concat hold)
  exact (run_ends hdraft).mono fun a s' _ ⟨_, hnodup⟩ => hnodup s'.graph (List.prefix_refl _)

theorem Convolution.outline_nodup (n : Convolution) (options : Options)
    (hold : n.output.index < s.graph.tensors.length) :
    Ends (Along Graph.Registers) (n.outline options) s fun o _ => (results o.chain).Nodup := by
  unfold outline
  refine .ite (fun _ => reject_bind_ends _) fun _ =>
    Ends.read rfl (Ends.andThen (liftGraph_ends _) fun output _ => ?_)
  exact (Draft.run_nodup hold (n.draft_gains options)).bind fun _ _ _ hnodup => Ends.pure hnodup

theorem TransposedConvolution.outline_nodup (n : TransposedConvolution) (options : Options)
    (hold : n.output.index < s.graph.tensors.length) :
    Ends (Along Graph.Registers) (n.outline options) s fun o _ => (results o.chain).Nodup := by
  unfold outline
  refine .ite (fun _ => reject_bind_ends _) fun _ => .ite (fun _ => reject_bind_ends _) fun _ => ?_
  refine Ends.read rfl (Ends.andThen (liftGraph_ends _) fun output _ => ?_)
  exact (Draft.run_nodup hold n.draft_gains).bind fun _ _ _ hnodup => Ends.pure hnodup

theorem BatchNorm.outline_nodup (n : BatchNorm) (hold : n.output.index < s.graph.tensors.length) :
    Ends (Along Graph.Registers) n.outline s fun o _ => (results o.chain).Nodup := by
  unfold outline
  refine Ends.read rfl
    (Ends.andThen (liftGraph_ends _) fun x _ => .ite (fun _ => reject_bind_ends _) fun _ => ?_)
  refine Ends.andThen (entry_ends _ _) fun channels _ =>
    Ends.andThen (channelValues_ends _ _) fun weight _ => ?_
  refine Ends.andThen (channelValues_ends _ _) fun bias _ =>
    Ends.andThen (channelValues_ends _ _) fun mean _ => ?_
  refine Ends.andThen (channelValues_ends _ _) fun variance _ =>
    .ite (fun _ => reject_bind_ends _) fun _ => ?_
  refine Ends.read rfl
    (Ends.andThen (liftGraph_ends _) fun output _ => .ite (fun _ => reject_bind_ends _) fun _ => ?_)
  refine Ends.andThen (channelBuffer_ends _ _ _) fun scale _ =>
    Ends.andThen (channelBuffer_ends _ _ _) fun shift _ => ?_
  exact (Draft.run_nodup hold (n.draft_gains x scale shift)).bind fun _ _ _ hnodup => Ends.pure hnodup

/-- No two operators of an outline compute the same tensor. -/
theorem Composite.nodup_results_of_outline {op : Composite} {options : Options} {o : Outline}
    {t : Session} (hold : op.output.index < s.graph.tensors.length)
    (h : op.outline options s = .ok o t) : (results o.chain).Nodup := by
  cases op with
  | batchNorm n => exact ((n.outline_nodup hold).of_ok h).2
  | convolution n => exact ((n.outline_nodup options hold).of_ok h).2
  | transposedConvolution n => exact ((n.outline_nodup options hold).of_ok h).2

end Outlines

end GraphLowering
