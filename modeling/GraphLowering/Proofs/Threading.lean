import GraphLowering.Proofs.Supply

/-!
# Chains hang together

What an operator of a drafted chain computes is read by a later one, but for the last, which
computes the output of the composite (`Chain.Threaded`). So when a chain is in its place there is
nothing left for a check to find. The last operator reads tensors of the draft only
(`Chain.Closes`), also if the composite reads its own output.
-/

namespace GraphLowering

namespace Chain

def Reads (chain : List Operator) (t : TensorId) : Prop :=
  ∃ op ∈ chain, t ∈ op.inputs

/-- The last operator computes the output, and what another one computes is read later. -/
inductive Threaded (output : TensorId) : List Operator → Prop
  | last {op : Operator} (makes : op.outputs = [output]) : Threaded output [op]
  | cons {op : Operator} {rest : List Operator} (read : ∀ t ∈ op.outputs, Reads rest t)
      (next : Threaded output rest) :
      Threaded output (op :: rest)

/-- The last operator computes the output, from tensors whose numbers are `first` or more. -/
def Closes (first : Nat) (output : TensorId) (chain : List Operator) : Prop :=
  ∃ early op, chain = early ++ [op] ∧ op.outputs = [output] ∧ ∀ t ∈ op.inputs, first ≤ t.index

variable {output t : TensorId} {op : Operator} {chain rest : List Operator}

theorem Reads.head (h : t ∈ op.inputs) : Reads (op :: rest) t :=
  ⟨op, List.mem_cons_self, h⟩

theorem Reads.tail (h : Reads rest t) : Reads (op :: rest) t := by
  obtain ⟨o, ho, ht⟩ := h
  exact ⟨o, List.mem_cons_of_mem op ho, ht⟩

theorem Reads.append (h : Reads rest t) (ops : List Operator) : Reads (ops ++ rest) t := by
  obtain ⟨o, ho, ht⟩ := h
  exact ⟨o, List.mem_append_right ops ho, ht⟩

theorem Threaded.single (hmakes : op.outputs = [t]) (hread : Reads rest t)
    (hrest : Threaded output rest) :
    Threaded output (op :: rest) := by
  refine .cons (fun u hu => ?_) hrest
  rw [hmakes] at hu
  rw [List.mem_singleton.mp hu]
  exact hread

theorem Threaded.made (h : Threaded output chain) : ∃ op ∈ chain, output ∈ op.outputs := by
  induction h with
  | @last op hmakes => exact ⟨op, List.mem_cons_self, by simp [hmakes]⟩
  | cons _ _ ih =>
    obtain ⟨op, hop, hmakes⟩ := ih
    exact ⟨op, List.mem_cons_of_mem _ hop, hmakes⟩

theorem Closes.append {first : Nat} (h : Closes first output rest) (ops : List Operator) :
    Closes first output (ops ++ rest) := by
  obtain ⟨early, op, rfl, hop⟩ := h
  exact ⟨ops ++ early, op, (List.append_assoc ops early [op]).symm, hop⟩

section Supplied

variable {g : Graph} {first : Nat} {ready : List TensorId}

theorem Supplied.read (h : Supplied g first output ready chain) (hreads : Reads chain t) :
    t ∈ ready ∨ g.DraftedConstant first t ∨ ∃ op ∈ chain, t ∈ op.outputs := by
  induction h with
  | nil =>
    obtain ⟨_, hop, _⟩ := hreads
    cases hop
  | @cons ready op rest _ havailable _ _ ih =>
    obtain ⟨o, ho, ht⟩ := hreads
    rcases List.mem_cons.mp ho with rfl | ho
    · exact (havailable t ht).imp_right .inl
    · rcases ih ⟨o, ho, ht⟩ with hmem | hconst | ⟨maker, hmaker, hmade⟩
      · rcases List.mem_append.mp hmem with hmade | hmem
        · exact .inr (.inr ⟨op, List.mem_cons_self, hmade⟩)
        · exact .inl hmem
      · exact .inr (.inl hconst)
      · exact .inr (.inr ⟨maker, List.mem_cons_of_mem op hmaker, hmade⟩)

theorem Supplied.not_reads_output (h : Supplied g first output ready chain)
    (hthreaded : Threaded output chain)
    (hapart : chain.Pairwise fun op later => ∀ t ∈ later.outputs, t ∉ op.outputs)
    (hready : output ∉ ready) (hconst : ¬ g.DraftedConstant first output) : ¬ Reads chain output := by
  induction h with
  | nil => cases hthreaded
  | @cons ready op rest _ havailable _ _ ih =>
    rintro ⟨o, ho, hread⟩
    rcases List.mem_cons.mp ho with rfl | ho
    · exact (havailable output hread).elim hready hconst
    · obtain ⟨hhead, htail⟩ := List.pairwise_cons.mp hapart
      cases hthreaded with
      | last _ => cases ho
      | cons _ hnext =>
        obtain ⟨maker, hmaker, hmade⟩ := hnext.made
        refine ih hnext htail (fun hmem => ?_) ⟨o, ho, hread⟩
        exact (List.mem_append.mp hmem).elim (hhead maker hmaker output hmade) hready

end Supplied

end Chain

open Chain

theorem Graph.Moves.reads {g : Graph} {first : Nat} {kind : Primitive} {how : Buffer}
    {source result : TensorId} {op : Operator} (h : g.Moves first kind how source result op) :
    source ∈ op.inputs := by
  obtain ⟨_, _, rfl⟩ := h
  exact List.mem_cons_self

theorem Graph.Moves.closes {g : Graph} {first : Nat} {kind : Primitive} {how : Buffer}
    {source result : TensorId} {op : Operator} (h : g.Moves first kind how source result op)
    (hsource : g.DraftedResult first source) : Closes first result [op] := by
  obtain ⟨p, ⟨_, _, hp, _⟩, rfl⟩ := h
  obtain ⟨_, ⟨hnew, _⟩, _⟩ := hsource
  exact ⟨[], _, rfl, rfl, List.forall_mem_cons.mpr ⟨hnew, List.forall_mem_singleton.mpr hp⟩⟩

section Lowerings

variable {g : Graph} {first : Nat} {output : TensorId} {rest : List Operator}

/-! ## Lifting -/

namespace Lift.LiftsTo

variable {input weight : TensorId} {params : ConvParams} {l : Lifted}

theorem threaded_before (h : LiftsTo g first input weight output params l)
    (hinput : Reads rest l.input) (hweight : Reads rest l.weight) (hrest : Threaded output rest) :
    Threaded output (l.before ++ rest) := by
  cases h with
  | image _ _ => exact hrest
  | line _ _ hexpands hweights _ =>
    have houtputs := hexpands.writes.1
    cases hweights with
    | folded _ _ _ _ _ => exact .single houtputs hinput hrest
    | reshaped hexpands' =>
      exact .single houtputs hinput.tail (.single hexpands'.writes.1 hweight hrest)

theorem threaded_after (h : LiftsTo g first input weight output params l) {leave : Operator}
    (hleave : leave.outputs = [l.output]) :
    Threaded output (leave :: l.after) := by
  cases h with
  | image _ _ => exact .last hleave
  | line _ _ _ _ hcollapses =>
    obtain ⟨_, _, _, _, _, _, _, hmoves⟩ := hcollapses
    exact .single hleave (.head hmoves.reads) (.last hmoves.outputs)

theorem closes (h : LiftsTo g first input weight output params l) {b : Layout.Bracket}
    (hbrackets : Layout.Brackets g first l.input l.output b) :
    Closes first output (b.leave :: l.after) := by
  cases h with
  | image _ _ => exact hbrackets.leave.closes hbrackets.output.result
  | line _ _ _ _ hcollapses =>
    obtain ⟨_, _, _, _, hintermediate, _, _, hmoves⟩ := hcollapses
    exact (hmoves.closes hintermediate.result).append [b.leave]

end Lift.LiftsTo

/-! ## The three lowerings -/

theorem Convolution.Pads.threaded {id data : TensorId} {params : ConvParams} {ops : List Operator}
    (h : Convolution.Pads g first id params ops data) (hdata : Reads rest data)
    (hrest : Threaded output rest) :
    Threaded output (ops ++ rest) ∧ Reads (ops ++ rest) id := by
  cases h with
  | unpadded _ => exact ⟨hrest, hdata⟩
  | padded _ _ _ _ _ _ _ _ _ hmoves _ => exact ⟨.single hmoves.outputs hdata hrest, .head hmoves.reads⟩

theorem Convolution.Plan.Fits.threaded {n : Convolution} {p : Convolution.Plan} (h : p.Fits n g first) :
    Threaded n.output (p.chain n.activation) := by
  unfold Convolution.Plan.chain
  simp only [List.append_assoc, List.cons_append, List.nil_append]
  have hleave := h.lifts.threaded_after h.brackets.leave.outputs
  have hconvolve : Threaded n.output
      (⟨p.kind n.activation, [p.data, p.filter, p.bias], [p.bracket.output]⟩ ::
        p.bracket.leave :: p.lifted.after) :=
    .single rfl (.head h.brackets.leave.reads) hleave
  have hreorder := hconvolve.single h.reorders.outputs (.head (by simp))
  obtain ⟨hpads, hentered⟩ := h.pads.threaded (Reads.tail (.head (by simp))) hreorder
  have henter := hpads.single h.brackets.enter.outputs hentered
  refine h.lifts.threaded_before (.head h.brackets.enter.reads) ?_ henter
  exact ((Reads.head h.reorders.reads).append p.padding).tail

theorem TransposedConvolution.AddsBias.threaded {channels : Nat} {out : Tensor}
    {bias : Option TensorId} {ops : List Operator} {result cropped : TensorId}
    (h : TransposedConvolution.AddsBias g first channels result out bias ops cropped)
    (hresult : Reads rest result) (hrest : Threaded output rest) :
    Threaded output (ops ++ rest) ∧ Reads (ops ++ rest) cropped := by
  cases h with
  | unbiased => exact ⟨hrest, hresult⟩
  | biased _ _ _ => exact ⟨.single rfl hresult hrest, .head List.mem_cons_self⟩

theorem TransposedConvolution.Plan.threaded_slice (p : TransposedConvolution.Plan)
    (hcropped : Reads rest p.cropped) (hrest : Threaded output rest) :
    Threaded output (p.slice ++ rest) ∧ Reads (p.slice ++ rest) p.convolved := by
  unfold TransposedConvolution.Plan.slice TransposedConvolution.Plan.convolved
  cases p.crop with
  | none => exact ⟨hrest, hcropped⟩
  | some c => exact ⟨.single rfl hcropped hrest, .head List.mem_cons_self⟩

theorem TransposedConvolution.Plan.Fits.threaded {n : TransposedConvolution}
    {p : TransposedConvolution.Plan} (h : p.Fits n g first) : Threaded n.output p.chain := by
  unfold TransposedConvolution.Plan.chain
  simp only [List.append_assoc, List.cons_append, List.nil_append]
  have hleave := h.lifts.threaded_after h.brackets.leave.outputs
  obtain ⟨hadds, hcropped⟩ := h.adds.threaded (.head h.brackets.leave.reads) hleave
  obtain ⟨hslices, hconvolved⟩ := p.threaded_slice hcropped hadds
  have hconvolve : Threaded n.output
      (⟨.transposeConv ⟨.valid, p.stride⟩, [p.outputShape, p.filter, p.bracket.input],
      [p.convolved]⟩ :: (p.slice ++ (p.addition ++ p.bracket.leave :: p.lifted.after))) :=
    .single rfl hconvolved hslices
  have hreorder := hconvolve.single h.reorders.outputs (.head (by simp))
  have henter := hreorder.single h.brackets.enter.outputs (Reads.tail (.head (by simp)))
  exact h.lifts.threaded_before (.head h.brackets.enter.reads)
    (Reads.tail (.head h.reorders.reads)) henter

theorem BatchNorm.Plan.threaded (p : BatchNorm.Plan) (n : BatchNorm) :
    Threaded n.output (p.chain n) := by
  unfold BatchNorm.Plan.chain
  cases p.unquantized with
  | none => exact .single rfl (.head List.mem_cons_self) (.last rfl)
  | some u =>
    refine .single rfl (.head List.mem_cons_self) (.single rfl (.head List.mem_cons_self) ?_)
    exact .single rfl (.head List.mem_cons_self) (.last rfl)

/-- The chain of a lowering hangs together and ends with the output of the composite. -/
theorem Composite.Drafts.threaded {op : Composite} {chain : List Operator}
    (h : op.Drafts g first chain) :
    Threaded op.output chain := by
  cases op with
  | batchNorm n =>
    obtain ⟨x, scale, shift, p, _, hfits, rfl⟩ := h
    exact p.threaded n
  | convolution n =>
    obtain ⟨p, hfits, rfl⟩ := h
    exact hfits.threaded
  | transposedConvolution n =>
    obtain ⟨p, hfits, rfl⟩ := h
    exact hfits.threaded

theorem BatchNorm.Plan.Fits.closes {x : Tensor} {scale shift : Buffer} {p : BatchNorm.Plan}
    (h : p.Fits x scale shift g first) (n : BatchNorm) : Closes first n.output (p.chain n) := by
  have hunquantized := h.unquantized
  obtain ⟨_, _, hshift, _⟩ := h.shift
  obtain ⟨_, hscaled, _⟩ := h.scaled
  unfold BatchNorm.Plan.chain
  cases hp : p.unquantized with
  | none =>
    exact ⟨[_], _, rfl, rfl, List.forall_mem_cons.mpr ⟨hscaled, List.forall_mem_singleton.mpr hshift⟩⟩
  | some u =>
    obtain ⟨_, _, hshifted, _⟩ := hunquantized u hp
    exact ⟨[_, _, _], _, rfl, rfl, List.forall_mem_singleton.mpr hshifted⟩

theorem Composite.Drafts.closes {op : Composite} {chain : List Operator} (h : op.Drafts g first chain) :
    Closes first op.output chain := by
  cases op with
  | batchNorm n =>
    obtain ⟨x, scale, shift, p, _, hfits, rfl⟩ := h
    exact hfits.closes n
  | convolution n =>
    obtain ⟨p, hfits, rfl⟩ := h
    have hchain : p.chain n.activation = (p.lifted.before ++ p.bracket.enter :: p.padding ++ [p.reorder,
        ⟨p.kind n.activation, [p.data, p.filter, p.bias], [p.bracket.output]⟩]) ++
          p.bracket.leave :: p.lifted.after := by
      simp [Convolution.Plan.chain]
    rw [hchain]
    exact (hfits.lifts.closes hfits.brackets).append _
  | transposedConvolution n =>
    obtain ⟨p, hfits, rfl⟩ := h
    exact (hfits.lifts.closes hfits.brackets).append _

end Lowerings

end GraphLowering
