import GraphLowering.Proofs.Distinctness
import GraphLowering.Proofs.Threading

/-!
# Intermediate results are read once

The operators of a drafted chain hand their results on, and none of these is read by two operators.
`Chain.Spends` keeps a list of the results that wait to be read: an operator takes off the list what
it reads, and puts its own result on it. What was there before the draft and the constants of the
draft are not on the list, and may be read at any time. As no tensor is computed twice, two
operators never take the same one (`Chain.Spends.exclusive`).
-/

namespace GraphLowering

namespace Chain

/-- A tensor that was there before the draft, or a constant of the draft. -/
def Settled (g : Graph) (first : Nat) (t : TensorId) : Prop :=
  t.index < first ∨ g.DraftedConstant first t

/-- Each operator takes what it reads off the list of the results that wait, and its own results
wait for those after it. -/
inductive Spends (g : Graph) (first : Nat) : List TensorId → List Operator → Prop
  | nil {waiting : List TensorId} : Spends g first waiting []
  | cons {waiting used left : List TensorId} {op : Operator}
      {rest : List Operator} (split : waiting.Perm (used ++ left))
      (reads : ∀ t ∈ op.inputs, t ∈ used ∨ Settled g first t)
      (next : Spends g first (op.outputs ++ left) rest) :
      Spends g first waiting (op :: rest)

variable {g : Graph} {first : Nat} {waiting : List TensorId}
  {op : Operator} {chain rest : List Operator} {t : TensorId}

theorem not_settled_of_result (h : g.DraftedResult first t) : ¬ Settled g first t :=
  fun hsettled => h.ne hsettled rfl

namespace Spends

theorem step (used left : List TensorId) {kind : Primitive} {inputs : List TensorId}
    {result : TensorId} (hsplit : waiting.Perm (used ++ left))
    (hreads : inputs.Forall fun t => t ∈ used ∨ Settled g first t)
    (hrest : Spends g first (result :: left) rest) :
    Spends g first waiting (⟨kind, inputs, [result]⟩ :: rest) :=
  .cons hsplit (List.forall_iff_forall_mem.mp hreads) hrest

theorem moves (used left : List TensorId) {kind : Primitive} {how : Buffer}
    {source result : TensorId} (hmoves : g.Moves first kind how source result op)
    (hsplit : waiting.Perm (used ++ left)) (hsource : source ∈ used ∨ Settled g first source)
    (hrest : Spends g first (result :: left) rest) : Spends g first waiting (op :: rest) := by
  obtain ⟨p, hp, rfl⟩ := hmoves
  exact .step used left hsplit ⟨hsource, .inr (.inr hp.constant)⟩ hrest

theorem all {kind : Primitive} {inputs : List TensorId} {result : TensorId}
    (hreads : inputs.Forall fun t => t ∈ waiting ∨ Settled g first t)
    (hrest : Spends g first [result] rest) :
    Spends g first waiting (⟨kind, inputs, [result]⟩ :: rest) :=
  .step waiting [] (by rw [List.append_nil]) hreads hrest

theorem movesAll {kind : Primitive} {how : Buffer} {source result : TensorId}
    (hmoves : g.Moves first kind how source result op) (hrest : Spends g first [result] rest) :
    Spends g first [source] (op :: rest) :=
  .moves [source] [] hmoves (.refl _) (.inl List.mem_cons_self) hrest

theorem perm {waiting' : List TensorId} (h : Spends g first waiting chain)
    (hperm : waiting'.Perm waiting) :
    Spends g first waiting' chain := by
  cases h with
  | nil => exact .nil
  | cons hsplit hreads hnext => exact .cons (hperm.trans hsplit) hreads hnext

/-- What is read was waiting, is computed by the chain, or is settled. -/
theorem read (h : Spends g first waiting chain) (hread : Reads chain t) :
    t ∈ waiting ++ results chain ∨ Settled g first t := by
  induction h with
  | nil =>
    obtain ⟨_, hop, _⟩ := hread
    cases hop
  | @cons waiting used left op rest hsplit hreads _ ih =>
    obtain ⟨o, ho, ht⟩ := hread
    rcases List.mem_cons.mp ho with rfl | ho
    · exact (hreads t ht).imp_left fun hused =>
        List.mem_append_left _ (hsplit.mem_iff.mpr (List.mem_append_left _ hused))
    · refine (ih ⟨o, ho, ht⟩).imp_left fun hmem => ?_
      simp only [results_cons, List.mem_append, hsplit.mem_iff] at hmem ⊢
      tauto

/-- If no tensor is computed twice, what two operators read is settled. -/
theorem exclusive (h : Spends g first waiting chain) (hnodup : (waiting ++ results chain).Nodup) :
    chain.Pairwise fun op later => ∀ t ∈ op.inputs, t ∈ later.inputs → Settled g first t := by
  induction h with
  | nil => exact .nil
  | @cons waiting used left op rest hsplit hreads hnext ih =>
    have hparts : (used ++ ((op.outputs ++ left) ++ results rest)).Nodup := by
      refine (List.Perm.nodup_iff ?_).mp hnodup
      refine (hsplit.append_right _).trans ?_
      rw [results_cons, List.append_assoc, List.append_assoc]
      refine List.Perm.append_left used ?_
      exact List.perm_append_comm_assoc left op.outputs (results rest)
    obtain ⟨_, hlater, hdisjoint⟩ := List.nodup_append.mp hparts
    refine .cons (fun later hmem t ht ht' => ?_) (ih hlater)
    -- what this operator takes off the list is not there for a later one
    rcases hreads t ht with hused | hsettled
    · rcases hnext.read ⟨later, hmem, ht'⟩ with hwaiting | hsettled
      · exact absurd rfl (hdisjoint t hused t hwaiting)
      · exact hsettled
    · exact hsettled

end Spends

end Chain

open Chain

section Lowerings

variable {g : Graph} {first : Nat} {left : List TensorId} {rest : List Operator}

/-! ## Lifting -/

namespace Lift.LiftsTo

variable {input weight output : TensorId} {params : ConvParams} {l : Lifted}

theorem spends_before (h : LiftsTo g first input weight output params l)
    (hinput : input.index < first) (hweight : weight.index < first)
    (hrest : ∀ xs ws, l.input ∈ xs ∨ Settled g first l.input →
      l.weight ∈ ws ∨ Settled g first l.weight → Spends g first (xs ++ ws) rest) :
    Spends g first [] (l.before ++ rest) := by
  cases h with
  | image _ _ => exact hrest [] [] (.inr (.inl hinput)) (.inr (.inl hweight))
  | @line _ _ _ x w _ _ _ hexpands hweights _ =>
    obtain ⟨_, _, _, _, _, _, _, hmoves⟩ := hexpands
    refine .moves [] [] hmoves (.refl _) (.inr (.inl hinput)) ?_
    cases hweights with
    | folded _ _ _ _ hdrafted =>
      exact hrest [x] [] (.inl List.mem_cons_self) (.inr (.inr ⟨_, hdrafted, rfl⟩))
    | reshaped hexpands' =>
      obtain ⟨_, _, _, _, _, _, _, hmoves'⟩ := hexpands'
      refine .moves [] [x] hmoves' (.refl _) (.inr (.inl hweight)) ?_
      exact (hrest [x] [w] (.inl List.mem_cons_self) (.inl List.mem_cons_self)).perm (.swap x w [])

theorem spends_after (h : LiftsTo g first input weight output params l) :
    Spends g first [l.output] l.after := by
  cases h with
  | image _ _ => exact .nil
  | line _ _ _ _ hcollapses =>
    obtain ⟨_, _, _, _, _, _, _, hmoves⟩ := hcollapses
    exact .movesAll hmoves .nil

end Lift.LiftsTo

/-! ## The three lowerings -/

theorem Convolution.Pads.spends {id data : TensorId} {params : ConvParams} {ops : List Operator}
    (h : Convolution.Pads g first id params ops data) (hrest : Spends g first (data :: left) rest) :
    Spends g first (id :: left) (ops ++ rest) := by
  cases h with
  | unpadded _ => exact hrest
  | padded _ _ _ _ _ _ _ _ _ hmoves _ =>
    exact .moves [id] left hmoves (.refl _) (.inl List.mem_cons_self) hrest

theorem Convolution.Plan.Fits.spends {n : Convolution} {p : Convolution.Plan}
    (h : p.Fits n g first) (hinput : n.input.index < first) (hweight : n.weight.index < first)
    (hbias : ∀ id ∈ n.bias, id.index < first) : Spends g first [] (p.chain n.activation) := by
  unfold Convolution.Plan.chain
  simp only [List.append_assoc, List.cons_append, List.nil_append]
  refine h.lifts.spends_before hinput hweight fun xs ws hx hw => ?_
  refine .moves xs ws h.brackets.enter (.refl _) hx (h.pads.spends ?_)
  refine .moves ws [p.data] h.reorders (List.perm_append_singleton p.data ws).symm hw ?_
  refine .all ⟨.inl (by simp), .inl (by simp), ?_⟩ ?_
  · exact .inr (h.biases.settled hbias)
  · exact .movesAll h.brackets.leave h.lifts.spends_after

theorem TransposedConvolution.AddsBias.spends {channels : Nat} {out : Tensor}
    {bias : Option TensorId} {ops : List Operator} {result cropped : TensorId}
    (h : TransposedConvolution.AddsBias g first channels result out bias ops cropped)
    (hbias : ∀ id ∈ bias, id.index < first) (hrest : Spends g first [result] rest) :
    Spends g first [cropped] (ops ++ rest) := by
  cases h with
  | unbiased => exact hrest
  | biased _ _ _ => exact .all ⟨.inl List.mem_cons_self, .inr (.inl (hbias _ rfl))⟩ hrest

theorem TransposedConvolution.Plan.Fits.spends_slice {n : TransposedConvolution}
    {p : TransposedConvolution.Plan} (h : p.Fits n g first)
    (hrest : Spends g first [p.cropped] rest) : Spends g first [p.convolved] (p.slice ++ rest) := by
  have hcrops := h.crops
  unfold TransposedConvolution.Plan.slice TransposedConvolution.Plan.convolved
  cases hcrop : p.crop with
  | none => exact hrest
  | some c =>
    obtain ⟨_, _, _, _, _, _, _, _, hbegin⟩ := (hcrops c hcrop).begin
    obtain ⟨_, _, hsize⟩ := (hcrops c hcrop).size
    exact .all ⟨.inl List.mem_cons_self, .inr (.inr hbegin.constant), .inr (.inr hsize.constant)⟩ hrest

theorem TransposedConvolution.Plan.Fits.spends {n : TransposedConvolution}
    {p : TransposedConvolution.Plan} (h : p.Fits n g first) (hinput : n.input.index < first)
    (hweight : n.weight.index < first) (hbias : ∀ id ∈ n.bias, id.index < first) :
    Spends g first [] p.chain := by
  unfold TransposedConvolution.Plan.chain
  simp only [List.append_assoc, List.cons_append, List.nil_append]
  refine h.lifts.spends_before hinput hweight fun xs ws hx hw => ?_
  refine .moves xs ws h.brackets.enter (.refl _) hx ?_
  refine .moves ws [p.bracket.input] h.reorders
    (List.perm_append_singleton p.bracket.input ws).symm hw ?_
  obtain ⟨_, _, hshape⟩ := h.shapes
  refine .all ⟨.inr (.inr hshape.constant), .inl (by simp), .inl (by simp)⟩ ?_
  refine h.spends_slice (h.adds.spends hbias ?_)
  exact .movesAll h.brackets.leave h.lifts.spends_after

theorem BatchNorm.Plan.Fits.spends {n : BatchNorm} {x : Tensor} {scale shift : Buffer}
    {p : BatchNorm.Plan} (h : p.Fits x scale shift g first) (hinput : n.input.index < first) :
    Spends g first [] (p.chain n) := by
  unfold BatchNorm.Plan.chain
  cases p.unquantized with
  | none =>
    refine .all ⟨.inr (.inl hinput), .inr (.inr h.scale.constant)⟩ ?_
    exact .all ⟨.inl List.mem_cons_self, .inr (.inr h.shift.constant)⟩ .nil
  | some u =>
    refine .all (Or.inr (.inl hinput)) ?_
    refine .all ⟨.inl List.mem_cons_self, .inr (.inr h.scale.constant)⟩ ?_
    refine .all ⟨.inl List.mem_cons_self, .inr (.inr h.shift.constant)⟩ ?_
    exact .all (Or.inl List.mem_cons_self) .nil

theorem Composite.Drafts.spends {op : Composite} {chain : List Operator} (h : op.Drafts g first chain)
    (hold : ∀ t ∈ op.inputs, t.index < first) : Spends g first [] chain := by
  cases op with
  | batchNorm n =>
    obtain ⟨x, scale, shift, p, _, hfits, rfl⟩ := h
    exact hfits.spends (hold _ List.mem_cons_self)
  | convolution n =>
    obtain ⟨p, hfits, rfl⟩ := h
    refine hfits.spends (hold _ List.mem_cons_self) (hold _ (by simp [Composite.inputs]))
      fun id hid => hold id ?_
    simp [Composite.inputs, Option.mem_def.mp hid]
  | transposedConvolution n =>
    obtain ⟨p, hfits, rfl⟩ := h
    refine hfits.spends (hold _ List.mem_cons_self) (hold _ (by simp [Composite.inputs]))
      fun id hid => hold id ?_
    simp [Composite.inputs, Option.mem_def.mp hid]

end Lowerings

end GraphLowering
