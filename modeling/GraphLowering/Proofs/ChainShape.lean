import GraphLowering.Proofs.Frame
import GraphLowering.Proofs.Lowerable
import GraphLowering.Proofs.SingleUse

/-!
# The shape of a chain

Which operators a composite becomes can be told from its operands before it is lowered
(`Composite.chainKinds?`): from the rank and the quantization of the input, from the weight, and
from whether there is padding or a bias. The operators stand one after the other (`Graph.Relays`):
each of them computes one new tensor, which one later operator of the chain reads and no other node
of the graph, and the last one computes the output of the composite.
-/

namespace GraphLowering

/-! ## Kinds of operators -/

def Chain.onlyIf (c : Prop) [Decidable c] (kind : String) : List String :=
  if c then [kind] else []

open Chain

/-- The kinds of the operators that a convolution of the given input and weight becomes. -/
def Convolution.chainKinds (n : Convolution) (x w : Tensor) : List String :=
  onlyIf (x.rank = 3) "RESHAPE" ++ onlyIf (x.rank = 3 ∧ w.data.isNone) "RESHAPE" ++ ["TRANSPOSE"] ++
    onlyIf (n.params.padding.any (· ≠ 0)) "PAD" ++ ["TRANSPOSE"] ++
    [if w.shape.dims[1]? = some 1 ∧ w.shape.dims[0]? = some n.params.groups
      then "DEPTHWISE_CONV_2D" else "CONV_2D"] ++
    ["TRANSPOSE"] ++ onlyIf (x.rank = 3) "RESHAPE"

def TransposedConvolution.chainKinds (n : TransposedConvolution) (x w : Tensor) : List String :=
  onlyIf (x.rank = 3) "RESHAPE" ++ onlyIf (x.rank = 3 ∧ w.data.isNone) "RESHAPE" ++
    ["TRANSPOSE", "TRANSPOSE", "TRANSPOSE_CONV"] ++
    onlyIf (n.params.padding.any (· ≠ 0)) "SLICE" ++ onlyIf n.bias.isSome "ADD" ++
      ["TRANSPOSE"] ++ onlyIf (x.rank = 3) "RESHAPE"

def BatchNorm.chainKinds (x : Tensor) : List String :=
  onlyIf x.isQuantized "DEQUANTIZE" ++ ["MUL", "ADD"] ++ onlyIf x.isQuantized "QUANTIZE"

/-- The kinds of the operators that a composite becomes, if its operands are registered. -/
def Composite.chainKinds? (op : Composite) (g : Graph) : Option (List String) :=
  match op with
  | .batchNorm n => (g.tensor? n.input).map BatchNorm.chainKinds
  | .convolution n => (g.tensor? n.input).bind fun x => (g.tensor? n.weight).map (n.chainKinds x)
  | .transposedConvolution n =>
    (g.tensor? n.input).bind fun x => (g.tensor? n.weight).map (n.chainKinds x)

section Kinds

variable {g : Graph} {first : Nat} {x w : Tensor}

theorem Graph.Moves.kind_eq {kind : Primitive} {how : Buffer} {source result : TensorId} {op : Operator}
    (h : g.Moves first kind how source result op) : op.kind = kind := by
  obtain ⟨_, _, rfl⟩ := h
  rfl

/-- A unit axis is added to the input and to a weight that is not constant, and taken off the
output. -/
theorem Lift.LiftsTo.kinds {input weight output : TensorId} {params : ConvParams} {l : Lifted}
    (h : LiftsTo g first input weight output params l) (hx : g.tensor? input = some x)
    (hw : g.tensor? weight = some w) :
    l.before.map (·.kind.name) = onlyIf (x.rank = 3) "RESHAPE" ++
      onlyIf (x.rank = 3 ∧ w.data.isNone) "RESHAPE" ∧
      l.after.map (·.kind.name) = onlyIf (x.rank = 3) "RESHAPE" := by
  cases h with
  | image hranked _ =>
    obtain ⟨x', _, _, hx', _, _, hrank, _⟩ := hranked
    cases hx.symm.trans hx'
    simp [onlyIf, hrank]
  | line hranked _ hinput hweight houtput =>
    obtain ⟨x', _, _, hx', _, _, hrank, _⟩ := hranked
    cases hx.symm.trans hx'
    obtain ⟨_, _, _, _, _, _, _, hinput⟩ := hinput
    obtain ⟨_, _, _, _, _, _, _, houtput⟩ := houtput
    have hafter := houtput.kind_eq
    cases hweight with
    | folded hknown hconstant _ _ _ =>
      cases hw.symm.trans hknown
      simp [onlyIf, hrank, hconstant, hinput.kind_eq, hafter, Primitive.name]
    | reshaped hexpands hcomputed =>
      obtain ⟨_, _, _, _, _, _, _, hexpands⟩ := hexpands
      have hnone : w.data.isNone := by simpa [Tensor.isConstant] using hcomputed w hw
      simp [onlyIf, hrank, hnone, hinput.kind_eq, hexpands.kind_eq, hafter, Primitive.name]

namespace Convolution

theorem Pads.kinds {id data : TensorId} {params : ConvParams} {ops : List Operator}
    (h : Pads g first id params ops data) :
    ops.map (·.kind.name) = onlyIf params.hasPadding "PAD" := by
  cases h with
  | unpadded hzero => simp [onlyIf, hzero]
  | padded hpadding _ _ _ _ _ _ _ _ hmoves _ => simp [onlyIf, hpadding, hmoves.kind_eq, Primitive.name]

theorem Plan.Fits.depthwise_iff {n : Convolution} {p : Plan} (h : p.Fits n g first)
    (hx : g.tensor? n.input = some x) (hw : g.tensor? n.weight = some w) :
    p.depthwise ↔ w.shape.dims[1]? = some 1 ∧ w.shape.dims[0]? = some n.params.groups := by
  obtain ⟨_, houtputs, hwidth, hgroups⟩ := h.operandChannels hx hw
  rw [houtputs, hwidth, ← hgroups]
  simp [Survey.depthwise]

theorem Plan.Fits.kinds {n : Convolution} {p : Plan} (h : p.Fits n g first)
    (hx : g.tensor? n.input = some x) (hw : g.tensor? n.weight = some w) :
    (p.chain n.activation).map (·.kind.name) = n.chainKinds x w := by
  obtain ⟨hbefore, hafter⟩ := h.lifts.kinds hx hw
  obtain ⟨_, _, _, _, _, _, hraised⟩ := h.lifts.raised
  have hkind : (p.kind n.activation).name =
      if w.shape.dims[1]? = some 1 ∧ w.shape.dims[0]? = some n.params.groups
        then "DEPTHWISE_CONV_2D" else "CONV_2D" := by
    unfold Survey.kind
    by_cases hdepthwise : p.depthwise
    · rw [if_pos hdepthwise, if_pos ((h.depthwise_iff hx hw).mp hdepthwise)]
      rfl
    · rw [if_neg hdepthwise, if_neg fun hw' => hdepthwise ((h.depthwise_iff hx hw).mpr hw')]
      rfl
  have hpads : p.padding.map (·.kind.name) = onlyIf (n.params.padding.any (· ≠ 0)) "PAD" := by
    rw [h.pads.kinds, hraised.hasPadding]
    rfl
  unfold Plan.chain chainKinds
  simp only [List.map_append, List.map_cons, hbefore, hafter, hkind, hpads, h.brackets.enter.kind_eq,
    h.brackets.leave.kind_eq, h.reorders.kind_eq, List.append_assoc, List.cons_append, List.nil_append]
  rfl

end Convolution

namespace TransposedConvolution

theorem AddsBias.kinds {channels : Nat} {output : TensorId} {out : Tensor}
    {bias : Option TensorId} {ops : List Operator} {cropped : TensorId}
    (h : AddsBias g first channels output out bias ops cropped) :
    ops.map (·.kind.name) = onlyIf bias.isSome "ADD" := by
  cases h with
  | unbiased => rfl
  | biased _ _ _ => rfl

theorem Plan.kinds_slice (p : Plan) : p.slice.map (·.kind.name) = onlyIf p.crop.isSome "SLICE" := by
  unfold slice
  cases p.crop with
  | none => rfl
  | some c => rfl

theorem Plan.Fits.kinds {n : TransposedConvolution} {p : Plan} (h : p.Fits n g first)
    (hx : g.tensor? n.input = some x) (hw : g.tensor? n.weight = some w) :
    p.chain.map (·.kind.name) = n.chainKinds x w := by
  obtain ⟨hbefore, hafter⟩ := h.lifts.kinds hx hw
  obtain ⟨_, _, _, _, _, _, hraised⟩ := h.lifts.raised
  have hslice : p.slice.map (·.kind.name) = onlyIf (n.params.padding.any (· ≠ 0)) "SLICE" := by
    rw [p.kinds_slice, h.cropping, hraised.hasPadding]
    rfl
  unfold Plan.chain chainKinds
  simp only [List.map_append, List.map_cons, hbefore, hafter,
    hslice, h.adds.kinds, h.brackets.enter.kind_eq, h.brackets.leave.kind_eq,
    h.reorders.kind_eq, List.append_assoc, List.cons_append, List.nil_append]
  rfl

end TransposedConvolution

theorem BatchNorm.Plan.Fits.kinds {n : BatchNorm} {scale shift : Buffer} {p : BatchNorm.Plan}
    (h : p.Fits x scale shift g first) :
    (p.chain n).map (·.kind.name) = BatchNorm.chainKinds x := by
  have hquantized := h.quantized
  unfold BatchNorm.Plan.chain BatchNorm.chainKinds
  cases hp : p.unquantized with
  | none =>
    rw [hp] at hquantized
    simp [onlyIf, ← hquantized, Primitive.name]
  | some u =>
    rw [hp] at hquantized
    simp [onlyIf, ← hquantized, Primitive.name]

theorem Composite.Drafts.kinds {op : Composite} {chain : List Operator} (h : op.Drafts g first chain) :
    op.chainKinds? g = some (chain.map (·.kind.name)) := by
  cases op with
  | batchNorm n =>
    obtain ⟨x, scale, shift, p, hx, hfits, rfl⟩ := h
    rw [hfits.kinds]
    simp [chainKinds?, hx]
  | convolution n =>
    obtain ⟨p, hfits, rfl⟩ := h
    obtain ⟨x, w, _, _, _, _, hraised⟩ := hfits.lifts.raised
    rw [hfits.kinds hraised.input hraised.weight]
    simp [chainKinds?, hraised.input, hraised.weight]
  | transposedConvolution n =>
    obtain ⟨p, hfits, rfl⟩ := h
    obtain ⟨x, w, _, _, _, _, hraised⟩ := hfits.lifts.raised
    rw [hfits.kinds hraised.input hraised.weight]
    simp [chainKinds?, hraised.input, hraised.weight]

theorem Composite.chainKinds?_extend {op : Composite} {g' : Graph} (hextend : g.tensors <+: g'.tensors)
    (hold : ∀ t ∈ op.inputs, t.index < g.tensors.length) : op.chainKinds? g' = op.chainKinds? g := by
  have hsame : ∀ t ∈ op.inputs, g'.tensor? t = g.tensor? t := by
    intro t ht
    have hknown : g.tensor? t = some _ := List.getElem?_eq_getElem (hold t ht)
    rw [hknown]
    exact Graph.tensor?_of_extend hextend hknown
  cases op with
  | batchNorm n => simp only [chainKinds?, hsame n.input List.mem_cons_self]
  | convolution n =>
    simp only [chainKinds?, hsame n.input List.mem_cons_self, hsame n.weight (by simp [inputs])]
  | transposedConvolution n =>
    simp only [chainKinds?, hsame n.input List.mem_cons_self, hsame n.weight (by simp [inputs])]

end Kinds

/-! ## Readers of the results -/

namespace Graph

/-- The nodes of a chain, which were added from one graph to the other. Each computes one new
tensor. A later node of the chain reads it, and no other node does. The last one computes the
output. -/
inductive Relays (g g' : Graph) (output : TensorId) : List NodeId → Prop
  | last {n : NodeId} {op : Operator} (operator : g'.HasOperator n op)
    (makes : op.outputs = [output]) : Relays g g' output [n]
  | cons {n reader : NodeId} {op : Operator} {t : TensorId} {rest : List NodeId}
      (operator : g'.HasOperator n op)
      (makes : op.outputs = [t]) (new : g.tensor? t = none ∧ (g'.tensor? t).isSome)
      (later : reader ∈ rest)
      (only : ∀ m, g'.Reads m t ↔ m = reader) (next : Relays g g' output rest) :
      Relays g g' output (n :: rest)

variable {g drafted emitted g' : Graph} {chain : List Operator}
  {ids : List NodeId} {n m : NodeId} {t output : TensorId} {first : Nat}

theorem HasOperator.reads_iff {op : Operator} (h : g.HasOperator n op) :
    g.Reads n t ↔ t ∈ op.inputs := by
  obtain ⟨node, hnode, hkind⟩ := hasOperator_iff.mp h
  constructor
  · rintro ⟨other, hother, ht⟩
    rw [hnode] at hother
    cases hother
    rwa [hkind] at ht
  · intro ht
    exact ⟨node, hnode, by rwa [hkind]⟩

theorem Emits.operators (h : drafted.Emits chain ids emitted) :
    List.Forall₂ emitted.HasOperator ids chain := by
  refine h.nodes.imp fun n op ⟨name, hnode, _⟩ => ?_
  exact hasOperator_iff.mpr ⟨_, hnode, rfl⟩

theorem Emits.reader_mem (h : drafted.Emits chain ids emitted) (hwf : drafted.WellFormed)
    (hunread : ∀ k, ¬ drafted.Reads k t) (hreads : emitted.Reads n t) : n ∈ ids := by
  obtain ⟨node, hnode, ht⟩ := hreads
  rcases h.brought hwf hnode with hold | ⟨hnew, ⟨op, _, hkind⟩ | ⟨u, hkind, _⟩⟩
  · exact absurd ⟨node, hold, ht⟩ (hunread n)
  · exact h.mem_ids hwf hnode hkind hnew
  · rw [hkind] at ht
    cases ht

theorem exists_operator (hnodes : List.Forall₂ g'.HasOperator ids chain) :
    (∀ n ∈ ids, ∃ op ∈ chain, g'.HasOperator n op) ∧
    ∀ op ∈ chain, ∃ n ∈ ids, g'.HasOperator n op := by
  induction hnodes with
  | nil => exact ⟨List.forall_mem_nil _, List.forall_mem_nil _⟩
  | @cons n op _ _ hhead _ ih =>
    refine ⟨List.forall_mem_cons.mpr ⟨⟨op, List.mem_cons_self, hhead⟩, fun m hm => ?_⟩,
      List.forall_mem_cons.mpr ⟨⟨n, List.mem_cons_self, hhead⟩, fun o ho => ?_⟩⟩
    · obtain ⟨o, ho, hoperator⟩ := ih.1 m hm
      exact ⟨o, List.mem_cons_of_mem op ho, hoperator⟩
    · obtain ⟨m, hm, hoperator⟩ := ih.2 o ho
      exact ⟨m, List.mem_cons_of_mem n hm, hoperator⟩

theorem map_label (hnodes : List.Forall₂ g'.HasOperator ids chain) :
    ids.map (fun n => (g'.node? n).map (·.kind.label)) = (chain.map (·.kind.name)).map some := by
  induction hnodes with
  | nil => rfl
  | cons hhead _ ih =>
    obtain ⟨node, hnode, hkind⟩ := hasOperator_iff.mp hhead
    rw [List.map_cons, ih, hnode, Option.map_some, hkind]
    rfl

theorem eq_of_exclusive {settled : TensorId → Prop}
    (hnodes : List.Forall₂ g'.HasOperator ids chain)
    (hexclusive : chain.Pairwise fun op later => ∀ t ∈ op.inputs, t ∈ later.inputs → settled t)
    (ht : ¬ settled t) (hn : n ∈ ids) (hm : m ∈ ids) (hnReads : g'.Reads n t)
    (hmReads : g'.Reads m t) : n = m := by
  induction hnodes with
  | nil => cases hn
  | @cons head op ids chain hhead hrest ih =>
    obtain ⟨hshared, hexclusive⟩ := List.pairwise_cons.mp hexclusive
    have hapart : ∀ j ∈ ids, g'.Reads j t → ¬ g'.Reads head t := by
      intro j hj hjReads hreads
      obtain ⟨later, hlater, hoperator⟩ := (exists_operator hrest).1 j hj
      exact ht (hshared later hlater t (hhead.reads_iff.mp hreads) (hoperator.reads_iff.mp hjReads))
    rcases List.mem_cons.mp hn with rfl | hnRest
    · rcases List.mem_cons.mp hm with rfl | hmRest
      · rfl
      · exact absurd hnReads (hapart m hmRest hmReads)
    · rcases List.mem_cons.mp hm with rfl | hmRest
      · exact absurd hmReads (hapart n hnRest hnReads)
      · exact ih hexclusive hnRest hmRest

/-- A threaded chain hands on its results, if those that are new have one reader at most. -/
theorem Relays.of_threaded (hthreaded : Threaded output chain)
    (hnodes : List.Forall₂ g'.HasOperator ids chain)
    (hsingle : ∀ op ∈ chain, op.outputs.length = 1)
    (hmade : ∀ op ∈ chain, ∀ t ∈ op.outputs, t = output ∨ drafted.DraftedResult first t)
    (hnodup : (results chain).Nodup)
    (hnew : ∀ t, drafted.DraftedResult first t → g.tensor? t = none ∧ (g'.tensor? t).isSome)
    (honly : ∀ t, drafted.DraftedResult first t → ∀ n m, g'.Reads n t → g'.Reads m t → n = m) :
    Relays g g' output ids := by
  induction hthreaded generalizing ids with
  | last hmakes =>
    cases hnodes with
    | cons hhead hrest =>
      cases hrest
      exact .last hhead hmakes
  | @cons op rest hread hnext ih =>
    cases hnodes with
    | @cons n _ ids _ hhead hrest =>
      obtain ⟨t, hmakes⟩ := List.length_eq_one_iff.mp (hsingle op List.mem_cons_self)
      have ht : t ∈ op.outputs := by simp [hmakes]
      obtain ⟨_, hnodupRest, hdisjoint⟩ := List.nodup_append.mp hnodup
      -- the output is computed later, so it is not what this operator computes
      have hresult : drafted.DraftedResult first t := by
        refine (hmade op List.mem_cons_self t ht).resolve_left ?_
        rintro rfl
        obtain ⟨last, hlast, hmade⟩ := hnext.made
        exact hdisjoint t ht t (List.mem_flatMap.mpr ⟨last, hlast, hmade⟩) rfl
      obtain ⟨later, hlater, hreads⟩ := hread t ht
      obtain ⟨reader, hreader, hoperator⟩ := (exists_operator hrest).2 later hlater
      have hreaderReads : g'.Reads reader t := hoperator.reads_iff.mpr hreads
      refine .cons hhead hmakes (hnew t hresult) hreader
        (fun m => ⟨fun hm => honly t hresult m reader hm hreaderReads, ?_⟩)
        (ih hrest (fun o ho => hsingle o (List.mem_cons_of_mem op ho))
        (fun o ho => hmade o (List.mem_cons_of_mem op ho)) hnodupRest)
      rintro rfl
      exact hreaderReads

end Graph

/-! ## Lowering a node -/

/-- The operators by which a composite is replaced have the kinds that its operands tell, in this
order. Each but the last computes one new tensor, which one later operator reads and no other node
of the graph; the last one computes the output of the composite. -/
theorem Edit.lowerNode_shape {s s' : Session} {id : NodeId} {node : Node} {op : Composite}
    {options : Options} {result : Lowered} (hcontainer : s.graph.Container)
    (hnode : s.graph.node? id = some node) (hkind : node.kind = .composite op)
    (hlower : lowerNode id options s = .ok result s') :
    (∃ kinds, op.chainKinds? s.graph = some kinds ∧
      result.nodes.map (fun n => (s'.graph.node? n).map (·.kind.label)) = kinds.map some) ∧
    s.graph.Relays s'.graph op.output result.nodes := by
  have hwf := hcontainer.wellFormed
  have hold : ∀ t ∈ op.inputs, t.index < s.graph.tensors.length :=
    fun _ ht => hwf.operand_lt hnode hkind ht
  obtain ⟨o, t, houtline, ⟨hregisters, hdrafts⟩, _, emitted, hemits, hlinked, _⟩ :=
    lowerNode_ok hnode hkind hlower
  have hdrafted := hdrafts t.graph (List.prefix_refl _)
  have hwf' := hregisters.wellFormed (hwf.eraseNode id)
  have hnodes : List.Forall₂ s'.graph.HasOperator result.nodes o.chain := by
    refine hemits.operators.imp fun n op hoperator => ?_
    unfold Graph.HasOperator
    rw [hlinked.node?]
    exact hoperator
  refine ⟨⟨o.chain.map (·.kind.name), ?_, Graph.map_label hnodes⟩, ?_⟩
  · rw [← hdrafted.kinds]
    exact (Composite.chainKinds?_extend hregisters.extend hold).symm
  · have hnodup := Composite.nodup_results_of_outline (s := ⟨s.graph.eraseNode id, s.events⟩)
      (hwf.output_lt hnode hkind) houtline
    have hexclusive := (hdrafted.spends hold).exclusive hnodup
    have hextend : t.graph.tensors <+: s'.graph.tensors :=
      hemits.grown.tensors_extend.trans hlinked.grows.tensors_extend
    refine .of_threaded hdrafted.threaded hnodes hdrafted.supplied.single
      hdrafted.supplied.made hnodup ?_ ?_
    · rintro u ⟨tensor, ⟨hnew, htensor⟩, _⟩
      exact ⟨List.getElem?_eq_none hnew,
        Option.isSome_iff_exists.mpr ⟨tensor, Graph.tensor?_of_extend hextend htensor⟩⟩
    · intro u hu n m hn hm
      have hunread : ∀ k, ¬ t.graph.Reads k u := by
        rintro k ⟨reader, hreader, hread⟩
        rw [hregisters.node?] at hreader
        obtain ⟨_, ⟨hnew, _⟩, _⟩ := hu
        exact absurd (hwf.tensor_lt (Graph.node?_of_eraseNode hreader).2 (List.mem_append_left _ hread))
          (Nat.not_lt.mpr hnew)
      refine Graph.eq_of_exclusive hnodes hexclusive (not_settled_of_result hu) ?_ ?_ hn hm
      · exact hemits.reader_mem hwf' hunread (hlinked.reads.mp hn)
      · exact hemits.reader_mem hwf' hunread (hlinked.reads.mp hm)

/-- A padded convolution of lines, with one channel in each group. -/
def depthwiseLine : Composite :=
  .convolution ⟨⟨0⟩, ⟨1⟩, none, ⟨2⟩, ⟨[1], [1], [1], [0], 2⟩, .none⟩

def depthwiseLineCalls : List Call :=
  [.addInput (.computed "x" ⟨.f32, ⟨[1, 2, 4]⟩⟩ none),
    .addInput (.computed "w" ⟨.f32, ⟨[2, 1, 2]⟩⟩ none),
    .addTensor (.computed "y" ⟨.f32, ⟨[1, 2, 5]⟩⟩ none), .addComposite depthwiseLine, .markOutput ⟨2⟩]

/-- Both operands get a unit axis, and the convolution is depthwise. -/
theorem Edit.lowerNode_shape_padded_line :
    ∃ w result s', World.after depthwiseLineCalls = some w ∧
      lowerNode ⟨2⟩ .default w.session = .ok result s' ∧
      result.nodes.map (fun n => (s'.graph.node? n).map (·.kind.label)) =
        [some "RESHAPE", some "RESHAPE", some "TRANSPOSE", some "PAD",
        some "TRANSPOSE", some "DEPTHWISE_CONV_2D", some "TRANSPOSE", some "RESHAPE"] ∧
      w.graph.Relays s'.graph ⟨2⟩ result.nodes := by
  have hrun : ((World.after depthwiseLineCalls).bind fun w =>
      ((lowerNode ⟨2⟩ .default).success? w.session).map fun _ =>
      ((w.graph.node? ⟨2⟩).map (·.kind), depthwiseLine.chainKinds? w.graph)) =
      some (some (.composite depthwiseLine),
        some ["RESHAPE", "RESHAPE", "TRANSPOSE", "PAD", "TRANSPOSE",
          "DEPTHWISE_CONV_2D", "TRANSPOSE", "RESHAPE"]) := by
    decide +kernel
  obtain ⟨w, hw, hlower⟩ := Option.bind_eq_some_iff.mp hrun
  obtain ⟨⟨result, s'⟩, hsuccess, hfacts⟩ := Option.map_eq_some_iff.mp hlower
  obtain ⟨hcomposite, hkinds⟩ := Prod.mk.inj hfacts
  obtain ⟨node, hnode, hkind⟩ := Option.map_eq_some_iff.mp hcomposite
  have hok := success?_eq_some hsuccess
  obtain ⟨⟨kinds, hkinds', hlabels⟩, hrelays⟩ :=
    lowerNode_shape (World.after_sound hw).wellFormed.container hnode hkind hok
  cases hkinds'.symm.trans hkinds
  exact ⟨w, result, s', hw, hok, hlabels, hrelays⟩

end GraphLowering
