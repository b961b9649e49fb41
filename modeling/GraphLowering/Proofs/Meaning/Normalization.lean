import GraphLowering.Proofs.Lowerable
import GraphLowering.Proofs.ShapeRules

/-!
# What a lowered normalization computes

Elements and their arithmetic are left open (`Numerics`). Constants hold 32-bit floating-point
numbers, products and sums are taken entry by entry with the last axes in correspondence, and
nothing is said of what dequantization and quantization do with the entries of a tensor.

A normalization can be lowered if and only if it is foldable (`BatchNorm.Foldable`). The chain then
multiplies and adds constants `[1, C, 1, …]`. Each entry of the input meets the scale and the shift
of its own channel (`Numerics.combine_channels`), whatever the other axes are, so the chain computes
the normalization (`BatchNorm.Normalizes`).
-/

namespace GraphLowering

universe u

variable {E : Type u}

/-! ## Operators on elements of any kind -/

/-- Combines entries whose last axes correspond. -/
def Value.combine (f : E → E → E) (x y : Value E) : Option (Value E) :=
  (commonDims x.dims.reverse y.dims.reverse).map fun dims =>
    ⟨dims.reverse, fun index => f (x.stretched index) (y.stretched index)⟩

/-- The arithmetic of elements. Without an activation, results stay as they are. Dequantization and
quantization may depend on the parameters of the tensor and on all of its entries. -/
structure Numerics (E : Type u) where
  float : Float32 → E
  add : E → E → E
  mul : E → E → E
  activate : Activation → E → E
  activate_none : ∀ e, activate .none e = e
  dequantize : Option Quantization → Value E → List Nat → E
  quantize : Option Quantization → Value E → List Nat → E

namespace Numerics

def constant (N : Numerics E) (dims : List Nat) (numbers : List Float32) : Value E :=
  ⟨dims, fun index => N.float (numbers.getD (offset dims index) 0)⟩

/-- The store before anything is run. Tensors with floating-point numbers have them, others any
entries. -/
def load (N : Numerics E) (g : Graph) (entries : TensorId → List Nat → E) : Store E := fun id =>
  match g.tensor? id with
  | none => ⟨[], entries id⟩
  | some t =>
    match t.data.bind (·.floats?) with
    | none => ⟨t.shape.dims, entries id⟩
    | some values => N.constant t.shape.dims values.toList

def dequantized (N : Numerics E) (t : Tensor) (v : Value E) : Value E :=
  ⟨v.dims, N.dequantize t.quantization v⟩

def quantized (N : Numerics E) (t : Tensor) (v : Value E) : Value E :=
  ⟨v.dims, N.quantize t.quantization v⟩

def run (N : Numerics E) (g : Graph) (op : Operator) (store : Store E) : Option (Store E) :=
  match op.kind, op.inputs, op.outputs with
  | .mul activation, [x, y], [z] =>
    ((store x).combine (fun a b => N.activate activation (N.mul a b)) (store y)).map
      (Function.update store z)
  | .add activation, [x, y], [z] =>
    ((store x).combine (fun a b => N.activate activation (N.add a b)) (store y)).map
      (Function.update store z)
  | .dequantize, [x], [z] =>
    (g.tensor? x).map fun t => Function.update store z (N.dequantized t (store x))
  | .quantize, [x], [z] =>
    (g.tensor? z).map fun t => Function.update store z (N.quantized t (store x))
  | _, _, _ => none

def runChain (N : Numerics E) (g : Graph) (chain : List Operator) (store : Store E) :
    Option (Store E) :=
  chain.foldlM (fun store op => N.run g op store) store

def runNodes (N : Numerics E) (g : Graph) (ids : List NodeId) (store : Store E) : Option (Store E) :=
  g.stepNodes (N.run g) ids store

variable {N : Numerics E} {g : Graph} {first : Nat}

section Steps

variable {store : Store E} {x y z : TensorId} {t : Tensor} {v : Value E} {activation : Activation}

theorem run_mul
    (h : (store x).combine (fun a b => N.activate activation (N.mul a b)) (store y) = some v) :
    N.run g ⟨.mul activation, [x, y], [z]⟩ store = some (Function.update store z v) := by
  unfold run
  dsimp only
  rw [h, Option.map_some]

theorem run_add
    (h : (store x).combine (fun a b => N.activate activation (N.add a b)) (store y) = some v) :
    N.run g ⟨.add activation, [x, y], [z]⟩ store = some (Function.update store z v) := by
  unfold run
  dsimp only
  rw [h, Option.map_some]

theorem run_dequantize (hx : g.tensor? x = some t) (hv : store x = v) :
    N.run g ⟨.dequantize, [x], [z]⟩ store = some (Function.update store z (N.dequantized t v)) := by
  unfold run
  dsimp only
  rw [hx, hv, Option.map_some]

theorem run_quantize (hz : g.tensor? z = some t) (hv : store x = v) :
    N.run g ⟨.quantize, [x], [z]⟩ store = some (Function.update store z (N.quantized t v)) := by
  unfold run
  dsimp only
  rw [hz, hv, Option.map_some]

end Steps

theorem runChain_cons {op : Operator} {chain : List Operator} {store store' : Store E}
    (h : N.run g op store = some store') :
    N.runChain g (op :: chain) store = N.runChain g chain store' := by
  unfold runChain
  rw [List.foldlM_cons, h]
  rfl

theorem load_dims {entries : TensorId → List Nat → E} {id : TensorId} {t : Tensor}
    (ht : g.tensor? id = some t) :
    (N.load g entries id).dims = t.shape.dims := by
  unfold load
  simp only [ht]
  cases t.data.bind (·.floats?) with
  | none => rfl
  | some values => rfl

theorem load_operand {entries : TensorId → List Nat → E} {id : TensorId} {b : Buffer}
    {numbers : List Float32} (h : g.Operand first id b)
    (hnumbers : b.elements = .f32 (.listed numbers)) :
    N.load g entries id = N.constant b.shape.dims numbers := by
  obtain ⟨name, quantization, _, ht⟩ := h
  have hfloats : b.floats? = some (.listed numbers) := by
    unfold Buffer.floats?
    rw [hnumbers]
  unfold load
  simp only [ht, Tensor.constant, Option.bind_some, hfloats]
  rfl

/-! ## Constants along the channel axis -/

theorem offset_repeated (k : Nat) (index : List Nat) :
    offset (List.replicate k 1)
      (List.zipWith (fun d i => if d = 1 then 0 else i) (List.replicate k 1) index) = 0 := by
  induction k generalizing index with
  | zero => cases index <;> rfl
  | succ k ih =>
    cases index with
    | nil => rfl
    | cons i index =>
      rw [List.replicate_succ, List.zipWith_cons_cons, if_pos rfl,
        offset, Nat.zero_mul, Nat.zero_add, ih]

/-- The axes are `[1, C, 1, …]`, so all numbers of an index but that of its channel become zero. -/
theorem offset_channelShape {dims index : List Nat} {channels : Nat}
    (hchannels : dims[1]? = some channels) (h : InBounds dims index) :
    offset (BatchNorm.channelShape dims.length channels).dims
      (List.zipWith (fun d i => if d = 1 then 0 else i)
        (BatchNorm.channelShape dims.length channels).dims index) = index.getD 1 0 := by
  match dims, index, h, hchannels with
  | _ :: channels :: rest, i :: c :: index, .cons _ (.cons hc _), rfl =>
    have hnumber : (if channels = 1 then 0 else c) = c := by
      split <;> omega
    show offset (1 :: channels :: List.replicate rest.length 1)
      (List.zipWith _ (1 :: channels :: List.replicate rest.length 1) (i :: c :: index)) = c
    simp only [List.zipWith_cons_cons, offset, offset_repeated, hnumber, if_true,
      List.prod_replicate, Nat.one_pow, Nat.zero_mul, Nat.zero_add, Nat.mul_one, Nat.add_zero]

theorem stretched_constant {dims index : List Nat} {channels : Nat}
    (hchannels : dims[1]? = some channels) (h : InBounds dims index) (numbers : List Float32) :
    (N.constant (BatchNorm.channelShape dims.length channels).dims numbers).stretched index =
      N.float (numbers.getD (index.getD 1 0) 0) := by
  have hlength : index.length = (BatchNorm.channelShape dims.length channels).dims.length := by
    unfold BatchNorm.channelShape
    rw [List.length_set, List.length_replicate]
    exact h.length_eq
  unfold Value.stretched constant
  dsimp only
  rw [hlength, Nat.sub_self, List.drop_zero, offset_channelShape hchannels h]

theorem combine_channels (f : E → E → E) {v : Value E} {channels : Nat}
    (hchannels : v.dims[1]? = some channels) (numbers : List Float32) :
    ∃ w, v.combine f (N.constant (BatchNorm.channelShape v.dims.length channels).dims numbers) =
      some w ∧ w.dims = v.dims ∧
      ∀ index, InBounds v.dims index →
        w.entry index = f (v.entry index) (N.float (numbers.getD (index.getD 1 0) 0)) := by
  unfold Value.combine
  rw [show (N.constant (BatchNorm.channelShape v.dims.length channels).dims numbers).dims =
    (BatchNorm.channelShape v.dims.length channels).dims from rfl,
    BatchNorm.commonDims_channelShape hchannels, Option.map_some]
  refine ⟨_, rfl, List.reverse_reverse _, fun index hindex => ?_⟩
  show f (v.stretched index) (Value.stretched _ index) = _
  rw [Value.stretched_of_inBounds hindex, stretched_constant hchannels hindex]

end Numerics

/-! ## The chain of a normalization -/

namespace BatchNorm

variable {n : BatchNorm} {N : Numerics E} {g g' : Graph} {first channels : Nat}
  {x y : Tensor} {scale shift : Buffer} {p : Plan}

/-- A scale and a shift can be folded for each channel, and types and quantization fit the chain. -/
structure Foldable (n : BatchNorm) (g : Graph) (x y : Tensor) : Prop where
  rank : 2 ≤ x.rank
  values : ∀ id ∈ [n.weight, n.bias, n.mean, n.variance], HoldsChannels g (x.shape.dims.getD 1 0) id
  quantized : x.isQuantized → y.isQuantized
  plain : ¬ x.isQuantized → x.elementType = .f32 ∧ y.elementType = .f32

def normalize (n : BatchNorm) (N : Numerics E) (weight bias mean variance : Float32) (e : E) : E :=
  let deviation := (variance + n.epsilon).sqrt
  N.activate n.activation
    (N.add (N.mul e (N.float (weight / deviation))) (N.float (bias - weight * mean / deviation)))

/-- A value of given sizes becomes another one of these sizes, in which each element is normalized
by the numbers of its channel. -/
def Normalizes (n : BatchNorm) (N : Numerics E) (g : Graph) (dims : List Nat) (v w : Value E) : Prop :=
  w.dims = dims ∧ ∃ weight bias mean variance, HoldsValues g (dims.getD 1 0) n.weight weight ∧
    HoldsValues g (dims.getD 1 0) n.bias bias ∧ HoldsValues g (dims.getD 1 0) n.mean mean ∧
    HoldsValues g (dims.getD 1 0) n.variance variance ∧ ∀ index, InBounds dims index →
      let channel := index.getD 1 0
      w.entry index =
        n.normalize N (weight.getD channel 0) (bias.getD channel 0)
          (mean.getD channel 0) (variance.getD channel 0) (v.entry index)

theorem HoldsValues.eq {id : TensorId} {numbers floats : List Float32} {name : String}
    {quantization : Option Quantization} (h : HoldsValues g channels id numbers)
    (ht : g.tensor? id = some (.constant name (.ofFloats floats) quantization)) :
    numbers = floats := by
  obtain ⟨_, _, _, ht', hdata, hvalues, _, rfl⟩ := h
  cases ht.symm.trans ht'
  cases hdata
  cases hvalues
  rfl

theorem HoldsValues.length {id : TensorId} {numbers : List Float32}
    (h : HoldsValues g channels id numbers) :
    numbers.length = channels := by
  obtain ⟨_, _, values, _, _, _, hsize, rfl⟩ := h
  rw [Values.length_toList, hsize]

theorem getD_fold (epsilon : Float32) {weight bias mean variance : List Float32}
    (hweight : weight.length = channels) (hbias : bias.length = channels)
    (hmean : mean.length = channels) (hvariance : variance.length = channels) {c : Nat}
    (hc : c < channels) :
    ((fold epsilon weight bias mean variance).1.getD c 0,
      (fold epsilon weight bias mean variance).2.getD c 0) =
      foldChannel epsilon (weight.getD c 0) (bias.getD c 0) (mean.getD c 0) (variance.getD c 0) := by
  subst hweight
  unfold fold
  simp [List.getD_eq_getElem?_getD, List.unzip_eq_map, hc, hbias, hmean, hvariance]

theorem Folds.normalizes (h : n.Folds g x y channels scale shift) (N : Numerics E) :
    ∃ scales shifts, scale.elements = .f32 (.listed scales) ∧ shift.elements = .f32 (.listed shifts) ∧
      ∀ v : Value E, v.dims = x.shape.dims → ∃ product sum,
        v.combine (fun a b => N.activate .none (N.mul a b)) (N.constant scale.shape.dims scales) =
          some product ∧
        product.combine (fun a b => N.activate n.activation (N.add a b))
          (N.constant shift.shape.dims shifts) = some sum ∧
        n.Normalizes N g v.dims v sum := by
  obtain ⟨weight, bias, mean, variance, hweight, hbias, hmean, hvariance, hscales, hshifts⟩ := h.folded
  refine ⟨_, _, hscales, hshifts, fun v hv => ?_⟩
  have hchannels : v.dims[1]? = some channels := hv ▸ h.channelCount
  have hscale : scale.shape = channelShape v.dims.length channels := hv ▸ h.scale.shape
  have hshift : shift.shape = channelShape v.dims.length channels := hv ▸ h.shift.shape
  rw [hscale, hshift]
  obtain ⟨product, hproduct, hproductDims, hproductEntry⟩ :=
    N.combine_channels (fun a b => N.activate .none (N.mul a b))
      hchannels (fold n.epsilon weight bias mean variance).1
  obtain ⟨sum, hsum, hsumDims, hsumEntry⟩ :=
    N.combine_channels (fun a b => N.activate n.activation (N.add a b))
      (hproductDims ▸ hchannels) (fold n.epsilon weight bias mean variance).2
  rw [hproductDims] at hsum hsumDims hsumEntry
  have hcount : v.dims.getD 1 0 = channels := by
    rw [List.getD_eq_getElem?_getD, hchannels, Option.getD_some]
  refine ⟨product, sum, hproduct, hsum, hsumDims, weight, bias, mean, variance,
    hcount ▸ hweight, hcount ▸ hbias, hcount ▸ hmean, hcount ▸ hvariance, fun index hindex => ?_⟩
  have hfold := getD_fold n.epsilon hweight.length hbias.length hmean.length hvariance.length
    (hindex.getD_lt hchannels)
  obtain ⟨hscaleNumber, hshiftNumber⟩ := Prod.mk.inj hfold
  rw [hsumEntry index hindex, hproductEntry index hindex, N.activate_none, hscaleNumber, hshiftNumber]
  rfl

theorem Plan.Fits.scales (h : p.Fits x scale shift g' first)
    (hfolds : n.Folds g x y channels scale shift) {entries : TensorId → List Nat → E}
    {store : Store E} {source : TensorId} (result : TensorId) (chain : List Operator)
    (hdims : (store source).dims = x.shape.dims)
    (hscale : store p.scale = N.load g' entries p.scale)
    (hshift : store p.shift = N.load g' entries p.shift) :
    ∃ product sum, n.Normalizes N g x.shape.dims (store source) sum ∧
      N.runChain g' (⟨.mul .none, [source, p.scale], [p.scaled]⟩ ::
        ⟨.add n.activation, [p.scaled, p.shift], [result]⟩ :: chain) store =
        N.runChain g' chain (Function.update (Function.update store p.scaled product) result sum) := by
  obtain ⟨scales, shifts, hscales, hshifts, hnormalizes⟩ := hfolds.normalizes N
  obtain ⟨product, sum, hproduct, hsum, hnormalizes⟩ := hnormalizes (store source) hdims
  rw [hdims] at hnormalizes
  have hdistinct : p.shift ≠ p.scaled := by
    intro hsame
    exact h.shift.constant.not_result (hsame ▸ h.scaled.result)
  refine ⟨product, sum, hnormalizes, ?_⟩
  rw [← Numerics.load_operand h.scale hscales, ← hscale] at hproduct
  rw [← Numerics.load_operand h.shift hshifts, ← hshift] at hsum
  have hadd : (Function.update store p.scaled product p.scaled).combine
      (fun a b => N.activate n.activation (N.add a b))
      (Function.update store p.scaled product p.shift) = some sum := by
    rw [Function.update_self, Function.update_of_ne hdistinct]
    exact hsum
  rw [Numerics.runChain_cons (Numerics.run_mul hproduct),
    Numerics.runChain_cons (Numerics.run_add hadd)]

/-- The chain computes the normalization, between a dequantization and a quantization if the input
is quantized. -/
theorem Plan.Fits.computes (h : p.Fits x scale shift g' first)
    (hfolds : n.Folds g x y channels scale shift) (hextend : g.tensors <+: g'.tensors)
    (entries : TensorId → List Nat → E) :
    ∃ store w, N.runChain g' (p.chain n) (N.load g' entries) = some store ∧
      n.Normalizes N g x.shape.dims
        (if x.isQuantized then N.dequantized x (N.load g' entries n.input)
          else N.load g' entries n.input) w ∧
      store n.output = if x.isQuantized then N.quantized y w else w := by
  have hx := Graph.tensor?_of_extend hextend hfolds.input
  have hy := Graph.tensor?_of_extend hextend hfolds.output
  have hquantized := h.quantized
  unfold chain
  cases hunquantized : p.unquantized with
  | none =>
    rw [hunquantized] at hquantized
    rw [← hquantized]
    obtain ⟨product, sum, hnormalizes, hrun⟩ :=
      h.scales hfolds n.output [] (Numerics.load_dims hx) rfl rfl
    exact ⟨_, sum, hrun, hnormalizes, Function.update_self _ _ _⟩
  | some u =>
    rw [hunquantized] at hquantized
    rw [← hquantized]
    obtain ⟨dequantized, shifted⟩ := u
    obtain ⟨hdequantized, _⟩ := h.unquantized _ hunquantized
    -- the constants are no results, so the dequantized input does not take the place of one of them
    have hdistinct {t : TensorId} (ht : g'.DraftedConstant first t) : t ≠ dequantized := by
      rintro rfl
      exact ht.not_result hdequantized.result
    let opened : Store E :=
      Function.update (N.load g' entries) dequantized (N.dequantized x (N.load g' entries n.input))
    have hopened : opened dequantized = N.dequantized x (N.load g' entries n.input) :=
      Function.update_self _ _ _
    have hdims : (opened dequantized).dims = x.shape.dims := by
      rw [hopened]
      exact Numerics.load_dims hx
    obtain ⟨product, sum, hnormalizes, hrun⟩ :=
      h.scales hfolds shifted [⟨.quantize, [shifted], [n.output]⟩]
        hdims (Function.update_of_ne (hdistinct h.scale.constant) _ _)
        (Function.update_of_ne (hdistinct h.shift.constant) _ _)
    rw [hopened] at hnormalizes
    refine ⟨Function.update (Function.update (Function.update opened p.scaled product) shifted sum)
      n.output (N.quantized y sum), sum, ?_, hnormalizes, Function.update_self _ _ _⟩
    rw [Numerics.runChain_cons (Numerics.run_dequantize hx rfl), hrun,
      Numerics.runChain_cons (Numerics.run_quantize hy (Function.update_self _ _ _))]
    rfl

/-! ## Acceptance -/

theorem HoldsChannels.le {id : TensorId} (h : HoldsChannels g channels id)
    (hmemory : ∀ t ∈ g.tensors, ∀ data ∈ t.data, data.fits) :
    channels ≤ maxBufferSize := by
  obtain ⟨t, data, values, ht, hdata, hvalues, rfl⟩ := h
  have hfits := hmemory t (List.mem_of_getElem? ht) data hdata
  have helements : data.elements = .f32 values := by
    unfold Buffer.floats? at hvalues
    split at hvalues
    · next hfloats =>
      cases hvalues
      exact hfloats
    · cases hvalues
  have hbytes : 4 * values.size ≤ maxBufferSize := by
    unfold Buffer.fits at hfits
    rw [Bool.and_eq_true, decide_eq_true_eq, Buffer.elementType, Buffer.size, helements] at hfits
    exact hfits.2
  omega

theorem Foldable.outline_ok {s : Session} (h : n.Foldable s.graph x y) (hwf : s.graph.WellFormed)
    (hprintable : s.graph.printable) (hx : s.graph.tensor? n.input = some x)
    (hy : s.graph.tensor? n.output = some y)
    (hnames : ∀ t ∈ s.graph.tensors, ¬ Owned y.name t.name)
    (hmemory : ∀ t ∈ s.graph.tensors, ∀ data ∈ t.data, data.fits) (options : Options) :
    ∃ o t, n.outline s = .ok o t := by
  have hacceptable : n.Acceptable s.graph x y := by
    refine ⟨hx, hy, h.rank, (h.values n.weight List.mem_cons_self).le hmemory, h.values, ?_⟩
    by_cases hquantized : x.isQuantized
    · exact .inl ⟨hquantized, h.quantized hquantized⟩
    · exact .inr ⟨(h.plain hquantized).1, hquantized⟩
  have hsafe : Safe True (fun _ => False) n.outline s fun _ s' => False ∨ s'.graph.printable :=
    n.outline_safe options (.inr hprintable) fun _ =>
      ⟨x, y, hacceptable, .of_unowned hwf hnames (fun _ hname => (nomatch hname)) .nil⟩
  obtain ⟨o, t, hrun, _⟩ := hsafe.run trivial fun _ => not_false
  exact ⟨o, t, hrun⟩

theorem HoldsValues.holdsChannels {id : TensorId} {numbers : List Float32}
    (h : HoldsValues g channels id numbers) :
    HoldsChannels g channels id := by
  obtain ⟨t, data, values, ht, hdata, hvalues, hsize, _⟩ := h
  exact ⟨t, data, values, ht, hdata, hvalues, hsize⟩

theorem Folds.foldable (h : n.Folds g x y channels scale shift)
    (htype : ¬ x.isQuantized → y.elementType = .f32) : n.Foldable g x y := by
  obtain ⟨hrank, hcount⟩ := List.getElem?_eq_some_iff.mp h.channelCount
  obtain ⟨_, _, _, _, hweight, hbias, hmean, hvariance, _⟩ := h.folded
  refine ⟨hrank, ?_, h.quantized, fun hplain => ⟨h.plain hplain, htype hplain⟩⟩
  rw [List.getD_eq_getElem?_getD, h.channelCount, Option.getD_some]
  simp only [List.forall_mem_cons]
  exact ⟨hweight.holdsChannels, hbias.holdsChannels, hmean.holdsChannels,
    hvariance.holdsChannels, List.forall_mem_nil _⟩

theorem foldable_eraseNode (id : NodeId) : n.Foldable (g.eraseNode id) x y ↔ n.Foldable g x y :=
  ⟨fun h => ⟨h.rank, h.values, h.quantized, h.plain⟩, fun h => ⟨h.rank, h.values, h.quantized, h.plain⟩⟩

/-- The chain of an outline keeps its contracts if and only if the output of a chain without
quantization is floating-point. -/
theorem folds_of_outline {s t : Session} {o : Outline} (h : n.outline s = .ok o t)
    (hx : s.graph.tensor? n.input = some x) (hy : s.graph.tensor? n.output = some y) :
    ∃ channels scale shift, n.Folds s.graph x y channels scale shift ∧
      ((∀ op ∈ o.chain, op.check t.graph = .ok ()) ↔ (¬ x.isQuantized → y.elementType = .f32)) ∧
      ∀ later, t.graph.tensors <+: later.tensors →
        ∃ p : Plan, p.Fits x scale shift later s.graph.tensors.length ∧ o.chain = p.chain n := by
  obtain ⟨hregisters, x', y', channels, scale, shift, hfolds, hdrafts⟩ := folds_of_ok h
  cases hx.symm.trans hfolds.input
  cases hy.symm.trans hfolds.output
  obtain ⟨p, hfits, hchain⟩ := hdrafts t.graph (List.prefix_refl _)
  refine ⟨channels, scale, shift, hfolds, ?_, hdrafts⟩
  rw [hchain]
  exact hfits.contract_iff (hfolds.extend hregisters.extend)

end BatchNorm

namespace Edit

variable {calls : List Call} {world : World} {id : NodeId} {node : Node} {n : BatchNorm} {x y : Tensor}

/-- A normalization, reached by any calls that put in no edge by hand, whose output is no operand.
Element types are narrower than 32 bytes, no name begins with that of the output and an underscore,
and buffers fit into memory. It can be lowered if and only if it is foldable. Then, whatever the
arithmetic and the entries of the tensors are, the operators run in order and put the normalized
input into the output, through a dequantization and a quantization if the input is quantized. -/
theorem normalization_folds (hcalls : World.after calls = some world)
    (hconnect : ∀ call ∈ calls, ¬ call.isConnect) (hnode : world.graph.node? id = some node)
    (hkind : node.kind = .composite (.batchNorm n)) (hx : world.graph.tensor? n.input = some x)
    (hy : world.graph.tensor? n.output = some y)
    (hfresh : n.output ∉ (Composite.batchNorm n).inputs)
    (hwidths : ∀ t ∈ world.graph.tensors, t.elementType.width.toNat < 32)
    (hnames : ∀ t ∈ world.graph.tensors, ¬ (y.name ++ "_").toList <+: t.name.toList)
    (hmemory : ∀ t ∈ world.graph.tensors, ∀ data ∈ t.data, data.fits) (options : Options) :
    ((∃ result s, lowerNode id options world.session = .ok result s) ↔ n.Foldable world.graph x y) ∧
      ∀ result s, lowerNode id options world.session = .ok result s →
        ∀ {E : Type u} (N : Numerics E) (entries : TensorId → List Nat → E), ∃ store v,
          N.runNodes s.graph result.nodes (N.load s.graph entries) = some store ∧
          n.Normalizes N world.graph x.shape.dims
            (if x.isQuantized then N.dequantized x (N.load s.graph entries n.input)
              else N.load s.graph entries n.input) v ∧
          store n.output = if x.isQuantized then N.quantized y v else v := by
  have hsound := World.after_sound hcalls
  refine ⟨?_, fun result s hrun E N entries => ?_⟩
  · rw [lowerNode_iff_contract hsound.wellFormed (hsound.flows hconnect) hnode hkind hfresh,
      ← BatchNorm.foldable_eraseNode id]
    constructor
    · rintro ⟨o, t, houtline, hcontract⟩
      obtain ⟨_, _, _, hfolds, htype, _⟩ := BatchNorm.folds_of_outline houtline hx hy
      exact hfolds.foldable (htype.mp hcontract)
    · intro hfoldable
      obtain ⟨o, t, houtline⟩ :=
        hfoldable.outline_ok (s := ⟨world.graph.eraseNode id, world.session.events⟩)
        (hsound.wellFormed.eraseNode id) (Graph.printable_of_widths hwidths)
        hx hy (fun t ht => not_owned (hnames t ht)) hmemory options
      obtain ⟨_, _, _, _, htype, _⟩ := BatchNorm.folds_of_outline houtline hx hy
      exact ⟨o, t, houtline, htype.mpr fun hplain => (hfoldable.plain hplain).2⟩
  · obtain ⟨o, t, houtline, _, hgrows, hreplaces⟩ := lowerNode_ok hnode hkind hrun
    obtain ⟨hextend, _, hnodes⟩ := hreplaces.operators
    obtain ⟨_, _, _, hfolds, _, hdrafts⟩ := BatchNorm.folds_of_outline houtline hx hy
    obtain ⟨p, hfits, hchain⟩ := hdrafts s.graph hextend
    obtain ⟨store, v, hchainRun, hnormalizes, houtput⟩ :=
      hfits.computes (N := N) hfolds hgrows.tensors_extend entries
    refine ⟨store, v, ?_, hnormalizes, houtput⟩
    unfold Numerics.runNodes
    rw [Graph.stepNodes_eq_foldlM hnodes, hchain]
    exact hchainRun

/-- A quantized normalization with two channels, of which no axis can be told by its size. -/
def quantizedCube : BatchNorm :=
  ⟨⟨0⟩, ⟨1⟩, ⟨2⟩, ⟨3⟩, ⟨4⟩, ⟨5⟩, 1, .relu⟩

def quantizedCubeTensors : List Tensor :=
  [.computed "x" ⟨.i8, ⟨[2, 2, 2]⟩⟩ (some (.perTensor 1 0)), .constant "weight" (.ofFloats [1, 2]) none,
    .constant "bias" (.ofFloats [3, 4]) none, .constant "mean" (.ofFloats [5, 6]) none,
    .constant "variance" (.ofFloats [7, 8]) none,
    .computed "y" ⟨.i8, ⟨[2, 2, 2]⟩⟩ (some (.perTensor 2 1))]

theorem normalization_folds_quantized_cube :
    ∃ world result s, World.after (quantizedCubeTensors.map .addTensor ++
      [.addComposite (.batchNorm quantizedCube)]) = some world ∧
      lowerNode ⟨0⟩ .default world.session = .ok result s ∧
      ∀ (N : Numerics Float32) (entries : TensorId → List Nat → Float32), ∃ store v,
        N.runNodes s.graph result.nodes (N.load s.graph entries) = some store ∧
        store ⟨5⟩ = N.quantized quantizedCubeTensors[5] v ∧
        let w := N.dequantized quantizedCubeTensors[0] (N.load s.graph entries ⟨0⟩)
        v.entry [1, 0, 1] = quantizedCube.normalize N 1 3 5 7 (w.entry [1, 0, 1]) ∧
        v.entry [0, 1, 0] = quantizedCube.normalize N 2 4 6 8 (w.entry [0, 1, 0]) := by
  have hrun : ((World.after (quantizedCubeTensors.map .addTensor ++
      [.addComposite (.batchNorm quantizedCube)])).map fun world =>
      (world.graph.tensors, (world.graph.node? ⟨0⟩).map (·.kind))) =
        some (quantizedCubeTensors, some (.composite (.batchNorm quantizedCube))) := by
    decide +kernel
  obtain ⟨world, node, hworld, hnode, hkind, htensors, htensor⟩ := World.exists_after hrun
  have hwidths : ∀ t ∈ quantizedCubeTensors, t.elementType.width.toNat < 32 := by
    decide
  have hnames : ∀ t ∈ quantizedCubeTensors, ¬ ("y" ++ "_").toList <+: t.name.toList := by
    decide
  have hmemory : ∀ t ∈ quantizedCubeTensors, ∀ data ∈ t.data, data.fits := by
    decide
  rw [← htensors] at hwidths hnames hmemory
  obtain ⟨haccepts, hcomputes⟩ := normalization_folds hworld
    (by decide) hnode hkind (htensor ⟨0⟩) (htensor ⟨5⟩) (by decide) hwidths hnames hmemory .default
  have hvalues :
      ∀ id ∈ [quantizedCube.weight, quantizedCube.bias, quantizedCube.mean, quantizedCube.variance],
      BatchNorm.HoldsChannels world.graph 2 id := by
    simp only [List.forall_mem_cons]
    exact ⟨⟨_, _, _, htensor ⟨1⟩, rfl, rfl, rfl⟩, ⟨_, _, _, htensor ⟨2⟩, rfl, rfl, rfl⟩,
      ⟨_, _, _, htensor ⟨3⟩, rfl, rfl, rfl⟩, ⟨_, _, _, htensor ⟨4⟩, rfl, rfl, rfl⟩,
      List.forall_mem_nil _⟩
  obtain ⟨result, s, hlowered⟩ :=
    haccepts.mpr ⟨by decide, hvalues, fun _ => rfl, fun hplain => absurd rfl hplain⟩
  refine ⟨world, result, s, hworld, hlowered, fun N entries => ?_⟩
  obtain ⟨store, v, hstore, ⟨_, _, _, _, _, hweight, hbias, hmean, hvariance, hentries⟩, houtput⟩ :=
    hcomputes result s hlowered N entries
  cases hweight.eq (htensor ⟨1⟩)
  cases hbias.eq (htensor ⟨2⟩)
  cases hmean.eq (htensor ⟨3⟩)
  cases hvariance.eq (htensor ⟨4⟩)
  have hbounds : InBounds [2, 2, 2] [1, 0, 1] ∧ InBounds [2, 2, 2] [0, 1, 0] := by
    unfold InBounds
    decide
  exact ⟨store, v, hstore, houtput, hentries _ hbounds.1, hentries _ hbounds.2⟩

end Edit

end GraphLowering
