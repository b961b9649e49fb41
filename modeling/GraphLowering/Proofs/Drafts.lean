import GraphLowering.Lowering.BatchNorm
import GraphLowering.Proofs.Splicing
import GraphLowering.Proofs.Emission

/-!
# What a draft registers

A draft only registers tensors (`Drafting.Registered`). Each function of a draft has one lemma that
says which tensors it registered and how the operators that it returns use them.

Tensors keep their numbers, so what such a lemma says about a tensor holds in all graphs to come. It
is therefore stated for every graph that the draft leads to (`Drafting.Before`), and nothing has to
be carried from one registration to the next. The tensors of a draft are told from those that were
there by their numbers: they are `first` or more.
-/

namespace GraphLowering

namespace Graph

/-- A tensor that was registered under one of the numbers from `first` on. -/
def Drafted (g : Graph) (first : Nat) (id : TensorId) (t : Tensor) : Prop :=
  first ≤ id.index ∧ g.tensor? id = some t

def Operand (g : Graph) (first : Nat) (id : TensorId) (data : Buffer) : Prop :=
  ∃ name quantization, g.Drafted first id (.constant name data quantization)

def Intermediate (g : Graph) (first : Nat) (id : TensorId) (type : TensorType)
    (quantization : Option Quantization) : Prop :=
  ∃ name, g.Drafted first id (.computed name type quantization)

/-- An operator that moves the elements of one tensor to another one, in a way that a constant of
the draft tells it. -/
def Moves (g : Graph) (first : Nat) (kind : Primitive) (how : Buffer) (source result : TensorId)
    (op : Operator) : Prop :=
  ∃ p, g.Operand first p how ∧ op = ⟨kind, [source, p], [result]⟩

theorem tensor_eq_ok {g : Graph} {id : TensorId} {t : Tensor} :
    g.tensor id = .ok t ↔ g.tensor? id = some t := by
  unfold tensor
  cases g.tensor? id with
  | none => simp
  | some t' => simp

end Graph

def Layout.permutationBuffer (perm : List Nat) : Buffer :=
  .ofInt32s (perm.map Int32.ofNat)

namespace Drafting

abbrev Registered : Drafting → Drafting → Prop :=
  Function.onFun Graph.Registers fun d => d.session.graph

/-- A graph that has the tensors of the draft, and perhaps more. -/
def Before (d : Drafting) (g : Graph) : Prop :=
  d.session.graph.tensors <+: g.tensors

/-- The tensors that are registered from now on have the number `first` or a larger one. -/
def Open (d : Drafting) (first : Nat) : Prop :=
  first ≤ d.session.graph.tensors.length

variable {d d' : Drafting} {g : Graph} {first : Nat}

theorem Registered.extend (h : Registered d d') :
    d.session.graph.tensors <+: d'.session.graph.tensors :=
  Graph.Registers.extend h

theorem Registered.before (h : Registered d d') (hg : d'.Before g) : d.Before g :=
  h.extend.trans hg

theorem Registered.isOpen (h : Registered d d') (hopen : d.Open first) : d'.Open first :=
  Nat.le_trans hopen h.extend.length_le

theorem Before.tensor? (hg : d.Before g) {id : TensorId} {t : Tensor}
    (ht : d.session.graph.tensor? id = some t) :
    g.tensor? id = some t :=
  Graph.tensor?_of_extend hg ht

end Drafting

/-! ## Single tensors -/

namespace Draft

open Drafting

variable {α : Type} {d : Drafting} {first : Nat}

theorem lift_ends {R : Session → Session → Prop} {R' : Drafting → Drafting → Prop} {edit : Edit α}
    {post : α → Session → Prop} (h : Ends R edit d.session post)
    (hR : ∀ s, R d.session s → R' d { d with session := s }) :
    Ends R' (lift edit) d fun a d' => post a d'.session := by
  unfold Ends at h ⊢
  unfold lift
  cases hrun : edit d.session with
  | ok a s =>
    rw [hrun] at h
    exact ⟨hR s h.1, h.2⟩
  | error e s =>
    rw [hrun] at h
    exact hR s h

theorem run_ends {draft : Draft α} {owner : String} {s : Session} {post : α → Graph → Prop}
    (h : Ends Registered draft ⟨s, owner, 0, 0⟩ fun a d => ∀ g, d.Before g → post a g) :
    Ends (Edit.Along Graph.Registers) (run owner draft) s fun a s' =>
      s.graph.Registers s'.graph ∧ ∀ g, s'.graph.tensors <+: g.tensors → post a g := by
  unfold Ends at h ⊢
  unfold run
  cases hrun : draft ⟨s, owner, 0, 0⟩ with
  | ok a d =>
    rw [hrun] at h
    exact ⟨h.1, h⟩
  | error e d =>
    rw [hrun] at h
    exact h

theorem tensor_ends (id : TensorId) :
    Ends Eq (tensor id) d fun t _ => ∀ g, d.Before g → g.tensor? id = some t := by
  have hlook : Ends Eq (do liftGraph ((← Edit.graph).tensor id) : Edit Tensor) d.session fun t _ =>
      d.session.graph.tensor? id = some t :=
    Ends.read rfl ((liftGraph_ends _).mono fun _ _ _ ht => Graph.tensor_eq_ok.mp ht)
  have hlift : ∀ s, d.session = s → d = { d with session := s } := by
    rintro _ rfl
    rfl
  exact (lift_ends hlook hlift).mono fun t _ _ ht g hg => hg.tensor? ht

theorem note_ends (event : Event) : Ends Registered (note event) d fun _ _ => True :=
  (lift_ends (Edit.note_ends (R := Graph.Registers) event) fun _ h => h).mono fun _ _ _ _ => trivial

theorem addTensor_ends (t : Tensor) (hopen : d.Open first) :
    Ends Registered (lift (Edit.addTensor t)) d fun id d' =>
      ∀ g, d'.Before g → g.Drafted first id t := by
  refine (lift_ends (Edit.addTensor_ends t) fun _ h => h).mono ?_
  rintro id d' _ ⟨_, rfl, hgraph⟩ g hg
  refine ⟨hopen, hg.tensor? ?_⟩
  rw [hgraph, Graph.tensor?_pushTensor, if_pos rfl]

theorem namedOperand_ends (name : String) (data : Buffer) (quantization : Option Quantization)
    (hopen : d.Open first) :
    Ends Registered (namedOperand name data quantization) d fun id d' =>
      ∀ g, d'.Before g → g.Operand first id data :=
  (addTensor_ends _ hopen).mono fun _ _ _ h g hg => ⟨name, quantization, h g hg⟩

theorem namedIntermediate_ends (name : String) (type : TensorType) (quantization : Option Quantization)
    (hopen : d.Open first) :
    Ends Registered (namedIntermediate name type quantization) d fun id d' =>
      ∀ g, d'.Before g → g.Intermediate first id type quantization :=
  (addTensor_ends _ hopen).mono fun _ _ _ h g hg => ⟨name, h g hg⟩

theorem count_ends {d' : Drafting} (hcount : d'.session = d.session) :
    Ends Registered (set d' : Draft PUnit) d fun _ d'' => d'' = d' := by
  refine ⟨?_, rfl⟩
  show Graph.Registers d.session.graph d'.session.graph
  rw [hcount]

theorem operand_ends (data : Buffer) (quantization : Option Quantization) (hopen : d.Open first) :
    Ends Registered (operand data quantization) d fun id d' =>
      ∀ g, d'.Before g → g.Operand first id data := by
  unfold operand
  refine Ends.read rfl (Ends.bind (count_ends rfl) fun _ d' _ hd' => ?_)
  subst hd'
  exact namedOperand_ends _ data quantization hopen

theorem intermediate_ends (type : TensorType) (quantization : Option Quantization)
    (hopen : d.Open first) :
    Ends Registered (intermediate type quantization) d fun id d' =>
      ∀ g, d'.Before g → g.Intermediate first id type quantization := by
  unfold intermediate
  refine Ends.read rfl (Ends.bind (count_ends rfl) fun _ d' _ hd' => ?_)
  subst hd'
  exact namedIntermediate_ends _ type quantization hopen

theorem int32Operand_ends (values : List Int32) (hopen : d.Open first) :
    Ends Registered (int32Operand values) d fun id d' =>
      ∀ g, d'.Before g → g.Operand first id (.ofInt32s values) :=
  operand_ends _ _ hopen

end Draft

/-! ## Layouts -/

namespace Layout

open Drafting

variable {d : Drafting} {first : Nat}

/-- A result has the layout that a permutation makes of the axes of a source, and so has its
quantization. -/
def Permuted (g : Graph) (first : Nat) (perm : List Nat) (source result : TensorId) : Prop :=
  ∃ t shape, g.tensor? source = some t ∧ t.shape.permuted? perm = some shape ∧
    g.Intermediate first result ⟨t.elementType, shape⟩ (t.quantization.map (·.permuted perm))

theorem permutationOperand_ends (perm : List Nat) (hopen : d.Open first) :
    Ends Registered (permutationOperand perm) d fun id d' =>
      ∀ g, d'.Before g → g.Operand first id (permutationBuffer perm) :=
  Draft.int32Operand_ends _ hopen

theorem channelLastCopy_ends (lowering : String) (id : TensorId) (hopen : d.Open first) :
    Ends Registered (channelLastCopy lowering id) d fun copy d' =>
      ∀ g, d'.Before g → Permuted g first toChannelLast id copy := by
  unfold channelLastCopy
  refine Ends.andThen (Draft.tensor_ends id) fun t ht =>
    Ends.andThen (orReject_ends _ _) fun shape hshape => ?_
  refine (Draft.intermediate_ends _ _ hopen).mono fun copy d' hd' hcopy g hg => ?_
  exact ⟨t, shape, ht g (Registered.before hd' hg), hshape, hcopy g hg⟩

/-- The transposes of a bracket lead from the input to its channel-last copy, and from that of the
output to the output. -/
structure Brackets (g : Graph) (first : Nat) (input output : TensorId) (b : Bracket) : Prop where
  enter : g.Moves first .transpose (permutationBuffer toChannelLast) input b.input b.enter
  leave : g.Moves first .transpose (permutationBuffer toChannelFirst) b.output output b.leave
  input : Permuted g first toChannelLast input b.input
  output : Permuted g first toChannelLast output b.output

theorem bracket_ends (lowering : String) (input output : TensorId) (hopen : d.Open first) :
    Ends Registered (bracket lowering input output) d fun b d' =>
      ∀ g, d'.Before g → Brackets g first input output b := by
  unfold bracket
  refine (permutationOperand_ends _ hopen).bind fun toFirst d₁ h₁ hfirst => ?_
  have hopen₁ := Registered.isOpen h₁ hopen
  refine (permutationOperand_ends _ hopen₁).bind fun toLast d₂ h₂ hlast => ?_
  have hopen₂ := Registered.isOpen h₂ hopen₁
  refine (channelLastCopy_ends lowering input hopen₂).bind fun innerInput d₃ h₃ hinput => ?_
  refine (channelLastCopy_ends lowering output (Registered.isOpen h₃ hopen₂)).bind
    fun innerOutput d₄ h₄ houtput => ?_
  refine Ends.pure fun g hg => ?_
  have hg₃ : d₃.Before g := Registered.before h₄ hg
  have hg₂ : d₂.Before g := Registered.before h₃ hg₃
  exact ⟨⟨toLast, hlast g hg₂, rfl⟩, ⟨toFirst, hfirst g (Registered.before h₂ hg₂), rfl⟩,
    hinput g hg₃, houtput g hg⟩

theorem permute_ends (lowering : String) (source : TensorId) (perm : List Nat) (hopen : d.Open first) :
    Ends Registered (permute lowering source perm) d fun r d' => ∀ g, d'.Before g →
      g.Moves first .transpose (permutationBuffer perm) source r.2 r.1 ∧
      Permuted g first perm source r.2 := by
  unfold permute
  refine (permutationOperand_ends _ hopen).bind fun p d₁ h₁ hp => ?_
  refine Ends.andThen (Draft.tensor_ends source) fun t ht =>
    Ends.andThen (orReject_ends _ _) fun shape hshape => ?_
  refine (Draft.intermediate_ends _ _ (Registered.isOpen h₁ hopen)).bind fun result d₂ h₂ hresult => ?_
  refine Ends.pure fun g hg => ?_
  have hg₁ : d₁.Before g := Registered.before h₂ hg
  exact ⟨⟨p, hp g hg₁, rfl⟩, t, shape, ht g hg₁, hshape, hresult g hg⟩

end Layout

/-! ## A unit axis -/

namespace Lift

open Drafting

variable {d : Drafting} {first : Nat}

theorem int32_ends (lowering parameter : String) (value : Nat) :
    Ends Eq (int32 lowering parameter value) d fun x _ => toInt32? value = some x :=
  orReject_ends _ _

theorem uint32_ends (lowering parameter : String) (value : Nat) :
    Ends Eq (uint32 lowering parameter value) d fun x _ => x = value ∧ value ≤ maxUInt32 := by
  unfold uint32
  exact .ite (fun hsmall => Ends.pure ⟨rfl, hsmall⟩) (fun _ => reject_ends _)

theorem int32Shape_ends (lowering : String) (shape : Shape) :
    Ends Eq (int32Shape lowering shape) d fun dims _ => shape.toInt32s? = some dims :=
  orReject_ends _ _

theorem paddedSize_ends (lowering : String) (size padding : Nat) :
    Ends Eq (paddedSize lowering size padding) d fun x _ =>
      x = size + padding * 2 ∧ size + padding * 2 ≤ maxSize := by
  unfold paddedSize
  exact .ite (fun hsmall => Ends.pure ⟨rfl, hsmall⟩) (fun _ => reject_ends _)

theorem perAxis_ends (entries : List Nat) :
    Ends Eq (perAxis entries) d fun p _ => entries[0]? = some p.1 ∧ entries[1]? = some p.2 := by
  unfold perAxis
  refine Ends.andThen (entry_ends _ _) fun h hh => Ends.andThen (entry_ends _ _) fun w hw => ?_
  exact Ends.pure ⟨hh, hw⟩

def Quantized (q r : Option Quantization) : Prop :=
  Option.Rel (fun a b => a.insertAxis? axis = some b) q r

theorem quantization_ends (q : Option Quantization) :
    Ends Eq (quantization q) d fun r _ => Quantized q r := by
  unfold quantization
  split
  · exact Ends.pure .none
  · exact Ends.andThen (orFault_ends _ _) fun _ hq => Ends.pure (.some hq)

def Reshapes (g : Graph) (first : Nat) (shape : Shape) (source result : TensorId)
    (op : Operator) : Prop :=
  ∃ dims, shape.toInt32s? = some dims ∧ g.Moves first (.reshape dims) (.ofInt32s dims) source result op

theorem reshape_ends (lowering : String) (source : TensorId) (shape : Shape) (result : TensorId)
    (hopen : d.Open first) :
    Ends Registered (reshape lowering source shape result) d fun op d' =>
      ∀ g, d'.Before g → Reshapes g first shape source result op := by
  unfold reshape
  refine Ends.andThen (int32Shape_ends _ _) fun dims hdims => ?_
  refine (Draft.int32Operand_ends _ hopen).bind fun p d₁ h₁ hp => Ends.pure fun g hg => ?_
  exact ⟨dims, hdims, p, hp g hg, rfl⟩

theorem owner_ends : Ends Eq Draft.owner d fun _ _ => True :=
  ⟨rfl, trivial⟩

def Expands (g : Graph) (first : Nat) (source result : TensorId) (op : Operator) : Prop :=
  ∃ t q, g.tensor? source = some t ∧ Quantized t.quantization q ∧
    g.Intermediate first result ⟨t.elementType, t.shape.insertAxis axis⟩ q ∧
    Reshapes g first (t.shape.insertAxis axis) source result op

def Collapses (g : Graph) (first : Nat) (source result : TensorId) (op : Operator) : Prop :=
  ∃ t q, g.tensor? result = some t ∧ Quantized t.quantization q ∧
    g.Intermediate first source ⟨t.elementType, t.shape.insertAxis axis⟩ q ∧
    Reshapes g first t.shape source result op

theorem expand_ends (lowering : String) (id : TensorId) (hopen : d.Open first) :
    Ends Registered (expand lowering id) d fun r d' =>
      ∀ g, d'.Before g → Expands g first id r.2 r.1 := by
  unfold expand
  refine Ends.andThen (Draft.tensor_ends id) fun t ht =>
    Ends.andThen (quantization_ends _) fun q hq => ?_
  refine Ends.andThen owner_ends fun owner _ => ?_
  refine (Draft.namedIntermediate_ends _ _ _ hopen).bind fun expanded d₁ h₁ hexpanded => ?_
  refine (reshape_ends lowering id _ expanded (Registered.isOpen h₁ hopen)).bind
    fun op d₂ h₂ hop => Ends.pure ?_
  intro g hg
  have hg₁ : d₁.Before g := Registered.before h₂ hg
  exact ⟨t, q, ht g (Registered.before h₁ hg₁), hq, hexpanded g hg₁, hop g hg⟩

theorem collapse_ends (lowering : String) (id : TensorId) (hopen : d.Open first) :
    Ends Registered (collapse lowering id) d fun r d' =>
      ∀ g, d'.Before g → Collapses g first r.2 id r.1 := by
  unfold collapse
  refine Ends.andThen (Draft.tensor_ends id) fun t ht =>
    Ends.andThen (quantization_ends _) fun q hq => ?_
  refine Ends.andThen owner_ends fun owner _ => ?_
  refine (Draft.namedIntermediate_ends _ _ _ hopen).bind fun expanded d₁ h₁ hexpanded => ?_
  refine (reshape_ends lowering expanded _ id (Registered.isOpen h₁ hopen)).bind
    fun op d₂ h₂ hop => Ends.pure ?_
  intro g hg
  have hg₁ : d₁.Before g := Registered.before h₂ hg
  exact ⟨t, q, ht g (Registered.before h₁ hg₁), hq, hexpanded g hg₁, hop g hg⟩

/-- A weight gets a unit axis: a constant one at once, any other by a reshape. -/
inductive ExpandsWeight (g : Graph) (first : Nat) (weight : TensorId) : List Operator → TensorId → Prop
  | folded {t : Tensor} {name : String} {data expanded : Buffer}
      {q : Option Quantization} {result : TensorId}
      (known : g.tensor? weight = some t) (constant : t.data = some data)
      (reshaped : data.reshaped? (t.shape.insertAxis axis) = some expanded)
      (quantized : Quantized t.quantization q)
      (drafted : g.Drafted first result (.constant name expanded q)) :
      ExpandsWeight g first weight [] result
  | reshaped {op : Operator} {result : TensorId} (expands : Expands g first weight result op)
      (computed : ∀ t, g.tensor? weight = some t → ¬ t.isConstant) :
      ExpandsWeight g first weight [op] result

theorem expandConstant_ends (lowering : String) (id : TensorId) (hopen : d.Open first) :
    Ends Registered (expandConstant lowering id) d fun result d' =>
      ∀ g, d'.Before g → ExpandsWeight g first id [] result := by
  unfold expandConstant
  refine Ends.andThen (Draft.tensor_ends id) fun t ht =>
    Ends.andThen (orReject_ends _ _) fun expanded hexpanded => ?_
  obtain ⟨data, hdata, hreshaped⟩ := Option.bind_eq_some_iff.mp hexpanded
  refine Ends.andThen (quantization_ends _) fun q hq => Ends.andThen owner_ends fun owner _ => ?_
  refine (Draft.addTensor_ends _ hopen).mono fun result d₁ h₁ hresult g hg => ?_
  exact .folded (ht g (Registered.before h₁ hg)) hdata hreshaped hq (hresult g hg)

theorem expandWeight_ends (lowering : String) (id : TensorId) (hopen : d.Open first) :
    Ends Registered (expandWeight lowering id) d fun r d' =>
      ∀ g, d'.Before g → ExpandsWeight g first id r.1 r.2 := by
  unfold expandWeight
  refine Ends.andThen (Draft.tensor_ends id) fun t ht => .ite (fun _ => ?_) (fun hcomputed => ?_)
  · exact (expandConstant_ends lowering id hopen).bind fun result d₁ _ hresult => Ends.pure hresult
  · refine (expand_ends lowering id hopen).bind fun r d₁ h₁ hr =>
      Ends.pure fun g hg => .reshaped (hr g hg) fun t' ht' => ?_
    cases (ht g (Registered.before h₁ hg)).symm.trans ht'
    exact hcomputed

def Ranked (g : Graph) (input weight output : TensorId) (rank : Nat) : Prop :=
  ∃ x w y, g.tensor? input = some x ∧ g.tensor? weight = some w ∧ g.tensor? output = some y ∧
    x.rank = rank ∧ w.rank = rank ∧ y.rank = rank

theorem rank_ends (lowering : String) (input weight output : TensorId) :
    Ends Eq (rank lowering input weight output) d fun r _ =>
      (r = 3 ∨ r = 4) ∧ ∀ g, d.Before g → Ranked g input weight output r := by
  unfold rank
  refine Ends.andThen (Draft.tensor_ends input) fun x hx =>
    Ends.andThen (Draft.tensor_ends weight) fun w hw => ?_
  refine Ends.andThen (Draft.tensor_ends output) fun y hy => ?_
  refine .ite (fun _ => reject_ends _) fun hranks =>
    .ite (fun _ => reject_ends _) fun hequal => Ends.pure ?_
  rw [not_or, not_not, not_not] at hranks hequal
  exact ⟨hranks.1, fun g hg => ⟨x, w, y, hx g hg, hw g hg, hy g hg, rfl, hequal.1.symm, hequal.2.symm⟩⟩

/-- How the operands of a two-dimensional convolution come from those of a composite. -/
inductive LiftsTo (g : Graph) (first : Nat) (input weight output : TensorId)
  (params : ConvParams) : Lifted → Prop
  | image (ranked : Ranked g input weight output 4) (valid : parameterObjection? params 2 = none) :
      LiftsTo g first input weight output params ⟨input, weight, output, params, [], []⟩
  | line {inputOp outputOp : Operator} {weightOps : List Operator} {input' weight' output' : TensorId}
      (ranked : Ranked g input weight output 3) (valid : parameterObjection? params 1 = none)
      (expandsInput : Expands g first input input' inputOp)
      (expandsWeight : ExpandsWeight g first weight weightOps weight')
      (collapses : Collapses g first output' output outputOp) :
      LiftsTo g first input weight output params
        ⟨input', weight', output', params.lifted, inputOp :: weightOps, [outputOp]⟩

end Lift

theorem Draft.liftConvolution_ends {d : Drafting} {first : Nat} (lowering : String)
    (input weight output : TensorId) (params : ConvParams) (hopen : d.Open first) :
    Ends Drafting.Registered (Draft.liftConvolution lowering input weight output params) d fun l d' =>
      ∀ g, d'.Before g → Lift.LiftsTo g first input weight output params l := by
  unfold Draft.liftConvolution
  refine Ends.andThen (Lift.rank_ends lowering input weight output) fun rank ⟨hrank, hranked⟩ => ?_
  split
  · exact reject_ends _
  · next hvalid =>
    refine .ite (fun hfour => Ends.pure fun g hg => ?_) (fun hfour => ?_)
    · subst hfour
      exact .image (hranked g hg) hvalid
    · have hthree : rank = 3 := by omega
      subst hthree
      refine (Lift.expand_ends lowering input hopen).bind fun x d₁ h₁ hx => ?_
      have hopen₁ := Drafting.Registered.isOpen h₁ hopen
      refine (Lift.expandWeight_ends lowering weight hopen₁).bind fun w d₂ h₂ hw => ?_
      refine (Lift.collapse_ends lowering output (Drafting.Registered.isOpen h₂ hopen₁)).bind
        fun y d₃ h₃ hy => ?_
      refine Ends.pure fun g hg => ?_
      have hg₂ : d₂.Before g := Drafting.Registered.before h₃ hg
      have hg₁ : d₁.Before g := Drafting.Registered.before h₂ hg₂
      exact .line (hranked g (Drafting.Registered.before h₁ hg₁)) hvalid (hx g hg₁) (hw g hg₂) (hy g hg)

end GraphLowering
