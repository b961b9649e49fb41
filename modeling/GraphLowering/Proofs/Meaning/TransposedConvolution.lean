import GraphLowering.Proofs.Meaning.Convolution
import GraphLowering.Proofs.Meaning.Scattering

/-!
# What the chain of a transposed convolution computes

The chain works on images: it puts the operands into the layouts of the target format, spreads the
entries of the input over a result that is larger by the padding (`Plan.Fits.run_convolved`), cuts
the padding off (`Plan.Fits.run_slice`), adds the bias (`Plan.Fits.run_addition`) and leaves the
channel-last layout. The window that is cut out lies within the larger result
(`Plan.Fits.windowIn`).
-/

namespace GraphLowering

universe u

variable {R : Type u} [CommRing R] {g : Graph} {first : Nat} {x w : Value R} {z : Canvas}

omit [CommRing R] in
theorem Value.flat_vector {v : Value R} {count : Nat} (h : v.dims = [count]) (k : Nat) :
    v.flat k = v.entry [k] := by
  unfold flat
  simp [h, indexAt]

/-- The operations that lay elements out in another way and compute nothing. -/
def Primitive.isLayout : Primitive → Bool
  | .transpose | .reshape _ => true
  | _ => false

namespace TransposedConvolution

/-- The sizes that a graph declares for a transposed convolution fit together, and a bias has one
axis. -/
structure Declares (n : TransposedConvolution) (g : Graph) (x w y : Tensor) : Prop where
  input : g.tensor? n.input = some x
  weight : g.tensor? n.weight = some w
  output : g.tensor? n.output = some y
  sizes : y.shape.dims.map Nat.cast = n.params.scatterDims x.shape.dims w.shape.dims
  bias : ∀ id ∈ n.bias, ∀ t, g.tensor? id = some t → t.rank = 1

structure Sized (params : ConvParams) (x w y : List Nat) : Prop where
  sizes : y.map Nat.cast = params.scatterDims x w
  channels : w[0]? = x[1]?

omit [CommRing R] in
theorem Sized.canvas {params : ConvParams} {x w y : List Nat} (h : Sized params x w y)
    (hranks : x.length = 4 ∧ w.length = 4 ∧ y.length = 4)
    (hentries : params.stride.length = 2 ∧ params.padding.length = 2) :
    ∃ z : Canvas, y = [z.batch, z.outputs, z.rows, z.columns] ∧ w[1]? = some z.outputs ∧
      params.padding = [z.padding.height, z.padding.width] ∧
      ∀ {R : Type u} {input weight : Value R},
        input.dims = x → weight.dims = w → z.Fits params input weight := by
  obtain ⟨hx, hw, hy⟩ := hranks
  have hleading : y[0]? = x[0]? ∧ y[1]? = w[1]? := by
    match x, hx, w, hw, y, hy, h.sizes with
    | [_, _, _, _], _, [_, _, _, _], _, [_, _, _, _], _, hsizes =>
      obtain ⟨hbatch, houtputs⟩ := List.cons.inj hsizes
      exact ⟨congrArg some (Int.natCast_inj.mp hbatch),
        congrArg some (Int.natCast_inj.mp (List.cons.inj houtputs).1)⟩
  exact exists_canvas hx hw hy hentries hleading.1 h.channels hleading.2

theorem raisable (bias : Nat → R) : Lift.Raisable Sized fun params x w => params.scatter x w bias where
  sizes := by
    rintro params a b c a' b' c' a'' b'' c'' ⟨hsizes, hchannels⟩
    refine ⟨?_, hchannels⟩
    rw [ConvParams.scatterDims_lifted, ← hsizes]
    rfl
  entries := by
    rintro params a b c a' b' c' a'' b'' c'' x x' w w' hx hw ⟨hsizes, hchannels⟩ n o j hn ho
    obtain rfl : a' = b := Option.some.inj hchannels
    obtain ⟨hbatch, hrest⟩ := List.cons.inj hsizes
    obtain rfl : a'' = a := Int.natCast_inj.mp hbatch
    obtain rfl : b'' = b' := Int.natCast_inj.mp (List.cons.inj hrest).1
    exact ConvParams.scatter_lifted hx hw hn ho

omit [CommRing R] in
theorem Declares.extend {n : TransposedConvolution} {g' : Graph} {tx tw ty : Tensor}
    (h : n.Declares g tx tw ty) (hextends : g.tensors <+: g'.tensors)
    (hbias : ∀ id ∈ n.bias, (g.tensor? id).isSome) : n.Declares g' tx tw ty where
  input := Graph.tensor?_of_extend hextends h.input
  weight := Graph.tensor?_of_extend hextends h.weight
  output := Graph.tensor?_of_extend hextends h.output
  sizes := h.sizes
  bias id hid t ht := by
    obtain ⟨t', ht'⟩ := Option.isSome_iff_exists.mp (hbias id hid)
    rw [Graph.tensor?_of_extend hextends ht'] at ht
    exact h.bias id hid t (ht'.trans ht)

/-! ## Sizes -/

theorem Crops.window {out : Tensor} {params : ConvParams} {c : Crop} {ph pw : Nat}
    (h : Crops g first out params c) (hpadding : params.padding = [ph, pw]) :
    g.sizes? c.begin = some [0, ph, pw, 0] ∧ g.sizes? c.size = some out.shape.dims := by
  obtain ⟨_, _, top, left, hheight, hwidth, htop, hleft, hbegin⟩ := h.begin
  obtain ⟨dims, hdims, hsize⟩ := h.size
  rw [hpadding] at hheight hwidth
  cases hheight
  cases hwidth
  have hcorner : [0, ph, pw, 0].mapM toInt32? = some [0, top, left, 0] := by
    simp only [List.mapM_cons, List.mapM_nil, htop, hleft]
    rfl
  exact ⟨hbegin.sizes? (mapM_ofInt32? hcorner), hsize.sizes? (mapM_ofInt32? hdims)⟩

theorem Crops.fullShape_dims {out : Tensor} {params : ConvParams} {c : Crop}
    {batch height width channels ph pw : Nat} (h : Crops g first out params c)
    (hout : out.shape.dims = [batch, height, width, channels])
    (hpadding : params.padding = [ph, pw]) :
    c.fullShape.dims = [batch, height + ph * 2, width + pw * 2, channels] := by
  obtain ⟨_, _, _, _, hph, hpw, hheight, hwidth, hfull⟩ := h.fullShape
  rw [hpadding] at hph hpw
  rw [hout] at hheight hwidth hfull
  cases hph
  cases hpw
  cases hheight
  cases hwidth
  rw [hfull]
  rfl

theorem AddsBias.declared {channels : Nat} {output cropped : TensorId} {out : Tensor}
    {bias : Option TensorId} {ops : List Operator}
    (h : AddsBias g first channels output out bias ops cropped)
    (hout : g.tensor? output = some out) :
    ∃ t, g.tensor? cropped = some t ∧ t.shape.dims = out.shape.dims ∧
      t.quantization = out.quantization := by
  cases h with
  | unbiased => exact ⟨_, hout, rfl, rfl⟩
  | biased _ _ hintermediate =>
    obtain ⟨_, _, hresult⟩ := hintermediate
    exact ⟨_, hresult, rfl, rfl⟩

namespace Plan

variable {n : TransposedConvolution} {p : Plan}

theorem Fits.fullShape_image {batch height width channels ph pw : Nat} (h : p.Fits n g first)
    (hout : p.out.shape.dims = [batch, height, width, channels])
    (hpadding : p.lifted.params.padding = [ph, pw]) :
    p.fullShape.dims = [batch, height + ph * 2, width + pw * 2, channels] := by
  have hcropping := h.cropping
  have hcrops := h.crops
  unfold fullShape
  cases hcrop : p.crop with
  | none =>
    rw [hcrop] at hcropping
    have hzero : ph = 0 ∧ pw = 0 := by
      simpa [ConvParams.hasPadding, hpadding] using hcropping
    rw [hzero.1, hzero.2]
    exact hout
  | some c => exact (hcrops c hcrop).fullShape_dims hout hpadding

structure On (p : Plan) (z : Canvas) : Prop where
  out : p.out.shape.dims = z.dims
  padding : p.lifted.params.padding = [z.padding.height, z.padding.width]
  channels : p.outputChannels = z.outputs

theorem Fits.padding_zero (h : p.Fits n g first) (hz : p.On z) (hcrop : p.crop = none) :
    z.padding = ⟨0, 0⟩ := by
  have hcropping := h.cropping
  rw [hcrop] at hcropping
  have hzero : z.padding.height = 0 ∧ z.padding.width = 0 := by
    simpa [ConvParams.hasPadding, hz.padding] using hcropping
  rw [← show (⟨z.padding.height, z.padding.width⟩ : PerAxis) = z.padding from rfl, hzero.1, hzero.2]

theorem Fits.fullShape_dims (h : p.Fits n g first) (hz : p.On z) : p.fullShape.dims = z.fullDims :=
  h.fullShape_image hz.out hz.padding

theorem Fits.cropped_declared (h : p.Fits n g first) :
    ∃ t, g.tensor? p.cropped = some t ∧ t.shape.dims = p.out.shape.dims := by
  obtain ⟨t, ht, hdims, _⟩ := h.adds.declared h.out
  exact ⟨t, ht, hdims⟩

theorem Fits.convolved_declared (h : p.Fits n g first) :
    ∃ t, g.tensor? p.convolved = some t ∧ t.shape.dims = p.fullShape.dims := by
  have hcrops := h.crops
  unfold convolved fullShape
  cases hcrop : p.crop with
  | none => exact h.cropped_declared
  | some c =>
    obtain ⟨_, _, hresult⟩ := (hcrops c hcrop).uncropped
    exact ⟨_, hresult, rfl⟩

theorem Fits.window (h : p.Fits n g first) (hz : p.On z) {c : Crop} (hcrop : p.crop = some c) :
    g.sizes? c.begin = some [0, z.padding.height, z.padding.width, 0] ∧
    g.sizes? c.size = some z.dims := by
  rw [← hz.out]
  exact (h.crops c hcrop).window hz.padding

/-- A bias has one element or as many as there are output channels, which are too few for the count
to have stopped. -/
theorem Fits.bias_length (h : p.Fits n g first) (hz : p.On z) {t : Tensor} (hrank : t.rank = 1)
    (hlength : t.shape.elementCount = 1 ∨ t.shape.elementCount = p.outputChannels) :
    ∃ count, t.shape.dims = [count] ∧ (count = 1 ∨ count = z.outputs) := by
  obtain ⟨count, hcount⟩ := List.length_eq_one_iff.mp hrank
  obtain ⟨dims, hdims, _⟩ := h.shapes
  have hsmall : z.outputs ≤ maxInt32 := by
    refine le_of_mapM_toInt32? hdims _ ?_
    rw [h.fullShape_dims hz]
    simp [Canvas.fullDims]
  rw [Shape.elementCount_eq, hcount, List.prod_singleton, hz.channels] at hlength
  refine ⟨count, hcount, ?_⟩
  unfold maxInt32 at hsmall
  unfold maxSize at hlength
  omega

theorem Fits.windowIn (h : p.Fits n g first) (hz : p.On z) {op : Operator} (hop : op ∈ p.slice) :
    ∃ begin size, op.inputs = [p.convolved, begin, size] ∧
      ∃ t corner sizes, g.tensor? p.convolved = some t ∧
      g.sizes? begin = some corner ∧ g.sizes? size = some sizes ∧
      Value.WindowIn t.shape.dims corner sizes := by
  have hdeclared := h.convolved_declared
  unfold slice at hop
  unfold convolved at hdeclared ⊢
  cases hcrop : p.crop with
  | none =>
    rw [hcrop] at hop
    cases hop
  | some c =>
    rw [hcrop] at hop hdeclared
    cases List.mem_singleton.mp hop
    obtain ⟨t, ht, htDims⟩ := hdeclared
    obtain ⟨hbegin, hsize⟩ := h.window hz hcrop
    refine ⟨_, _, rfl, t, _, _, ht, hbegin, hsize, ?_⟩
    rw [htDims, h.fullShape_dims hz]
    exact z.windowIn

/-! ## Steps -/

section Steps

variable (activate : Activation → R → R)

def spread (p : Plan) : List Operator :=
  [p.bracket.enter, p.reorder,
    ⟨.transposeConv ⟨.valid, p.stride⟩, [p.outputShape, p.filter, p.bracket.input], [p.convolved]⟩]

theorem Fits.run_convolved (h : p.Fits n g first) (hz : p.On z) (store : Store R)
    (hfits : z.Fits p.lifted.params (store p.lifted.input) (store p.lifted.weight))
    (hx : (store p.lifted.input).dims = p.x.shape.dims)
    (hw : (store p.lifted.weight).dims = p.w.shape.dims)
    (hweight : p.lifted.weight ≠ p.bracket.input) (hdata : p.bracket.input ≠ p.filter) :
    ∃ store', g.runChain activate p.spread store = some store' ∧
      z.PaintsFull p.lifted.params (store p.lifted.input) (store p.lifted.weight)
        (store' p.convolved) := by
  obtain ⟨_, data, hrun₁, hdataDims, hdataEntry⟩ :=
    h.brackets.run_enter activate store h.input hx (hx.symm.trans hfits.input)
  -- the weight is still there when its axes are reordered, and the data when they are convolved
  have hsame : Function.update store p.bracket.input data p.lifted.weight = store p.lifted.weight :=
    Function.update_of_ne hweight _ _
  obtain ⟨filter, hrun₂, hfilterDims, hfilterEntry⟩ :=
    h.permuted.run activate (Function.update store p.bracket.input data)
    h.reorders (by decide) h.weight (by rw [hsame]; exact hw)
  rw [hsame] at hfilterDims hfilterEntry
  rw [hfits.weight] at hfilterDims
  obtain ⟨y, hy, hpaints⟩ :=
    hfits.transposeConv hdataDims hdataEntry hfilterDims fun o u v c => hfilterEntry [o, u, v, c]
  obtain ⟨dims, hdims, hshape⟩ := h.shapes
  have hshape' : g.sizes? p.outputShape = some z.fullDims := by
    rw [hshape.sizes? (mapM_ofInt32? hdims), h.fullShape_dims hz]
  have hstride : p.stride = z.stride := perAxis_eq hfits.stride h.stride
  obtain ⟨t, ht, htDims⟩ := h.convolved_declared
  have hrun₃ : (⟨.transposeConv ⟨.valid, p.stride⟩, [p.outputShape, p.filter, p.bracket.input],
      [p.convolved]⟩ : Operator).run g
      activate (Function.update (Function.update store p.bracket.input data) p.filter filter) =
      some (Function.update (Function.update (Function.update store p.bracket.input data)
        p.filter filter) p.convolved y) := by
    refine Graph.run_of_result rfl ?_ ht (by rw [htDims, h.fullShape_dims hz, hpaints.dims])
    show (g.sizes? p.outputShape).bind (fun dims => Value.transposeConv p.stride dims _ _) = some y
    rw [hshape', Option.bind_some, Function.update_self, Function.update_of_ne hdata,
      Function.update_self, hstride]
    exact hy
  refine ⟨_, (Graph.runChain_cons hrun₁).trans
    ((Graph.runChain_cons hrun₂).trans (Graph.runChain_cons hrun₃)), ?_⟩
  rw [Function.update_self]
  exact hpaints

theorem Fits.run_slice (h : p.Fits n g first) (hz : p.On z) (store : Store R)
    (hpaints : z.PaintsFull p.lifted.params x w (store p.convolved)) :
    ∃ store', g.runChain activate p.slice store = some store' ∧
      z.Paints p.lifted.params x w 0 (store' p.cropped) := by
  unfold convolved at hpaints
  unfold slice
  cases hcrop : p.crop with
  | none =>
    rw [hcrop] at hpaints
    exact ⟨store, rfl, hpaints.paints (h.padding_zero hz hcrop)⟩
  | some c =>
    rw [hcrop] at hpaints
    obtain ⟨hbegin, hsize⟩ := h.window hz hcrop
    obtain ⟨v, hv, hcut⟩ := hpaints.slice
    obtain ⟨t, ht, htDims⟩ := h.cropped_declared
    have hrun :
        (⟨.slice, [c.uncropped, c.begin, c.size], [p.cropped]⟩ : Operator).run g activate store =
        some (Function.update store p.cropped v) := by
      refine Graph.run_of_result rfl ?_ ht (by rw [htDims, hz.out, hcut.dims])
      show (g.sizes? c.begin).bind (fun begin =>
        (g.sizes? c.size).bind fun size => (store c.uncropped).slice begin size) = some v
      rw [hbegin, hsize]
      exact hv
    refine ⟨_, Graph.runChain_cons hrun, ?_⟩
    rw [Function.update_self]
    exact hcut

theorem Fits.run_addition (h : p.Fits n g first) (hz : p.On z) (hnone : ∀ r, activate .none r = r)
    (store start : Store R) (hfits : z.Fits p.lifted.params x w)
    (hrank : ∀ id ∈ n.bias, ∀ t, g.tensor? id = some t → t.rank = 1 ∧ (store id).dims = t.shape.dims)
    (hsame : ∀ id ∈ n.bias, store id = start id)
    (hpaints : z.Paints p.lifted.params x w 0 (store p.cropped)) :
    ∃ store', g.runChain activate p.addition store = some store' ∧
      z.Paints p.lifted.params x w (Convolution.biasEntry start n.bias) (store' p.bracket.output) := by
  have hadds := h.adds
  generalize hbias : n.bias = bias at hadds hrank hsame ⊢
  generalize p.cropped = cropped, p.addition = addition at hadds hpaints ⊢
  cases hadds with
  | unbiased => exact ⟨store, rfl, hpaints⟩
  | @biased id _ t hknown hlength _ =>
    obtain ⟨hone, hdims⟩ := hrank id rfl t hknown
    obtain ⟨count, hcount, hchoice⟩ := h.bias_length hz hone hlength
    rw [hcount] at hdims
    obtain ⟨v, hv, hadded⟩ := hpaints.add hfits hdims hchoice hnone
    have hrun : (⟨.add .none, [cropped, id], [p.bracket.output]⟩ : Operator).run g activate store =
        some (Function.update store p.bracket.output v) :=
      Graph.run_of_result rfl hv h.out (hz.out.trans hadded.dims.symm)
    have hentries : (fun o => (store id).entry [if count = 1 then 0 else o]) =
        Convolution.biasEntry start (some id) := by
      funext o
      rw [← Value.flat_vector hdims, hsame id rfl]
      rw [hsame id rfl] at hdims
      unfold Convolution.biasEntry
      simp [hdims]
    refine ⟨_, Graph.runChain_cons hrun, ?_⟩
    rw [Function.update_self, ← hentries]
    exact hadded

end Steps

/-! ## The whole chain -/

def core (p : Plan) : List Operator :=
  p.spread ++ (p.slice ++ (p.addition ++ [p.bracket.leave]))

theorem chain_eq (p : Plan) : p.chain = p.lifted.before ++ (p.core ++ p.lifted.after) := by
  unfold chain core spread
  simp only [List.append_assoc, List.cons_append, List.nil_append]

def early (p : Plan) : List Operator :=
  p.lifted.before ++ (p.spread ++ p.slice)

/-- No operator overwrites what a later one reads. -/
structure Apart (n : TransposedConvolution) (p : Plan) : Prop where
  weight : p.lifted.weight ≠ p.bracket.input
  data : p.bracket.input ≠ p.filter
  bias : ∀ id ∈ n.bias, id ∉ p.early.flatMap (·.outputs)

omit [CommRing R] in
theorem Fits.apart (h : p.Fits n g first) (hweight : n.weight.index < first)
    (hbias : ∀ id ∈ n.bias, id.index < first) (hnodup : (p.chain.flatMap (·.outputs)).Nodup) :
    p.Apart n := by
  obtain ⟨hbefore, hlifted⟩ := h.lifts.writes hweight
  have hspread : p.spread.flatMap (·.outputs) = [p.bracket.input, p.filter, p.convolved] := by
    simp [spread, h.brackets.enter.outputs, h.reorders.outputs]
  have hslice : ∀ t ∈ p.slice.flatMap (·.outputs), t = p.cropped := by
    unfold slice
    cases p.crop <;> simp
  rw [chain_eq, core, List.flatMap_append, List.flatMap_append, List.flatMap_append, hspread] at hnodup
  obtain ⟨_, hrest, hdisjoint⟩ := List.nodup_append.mp hnodup
  refine ⟨?_, ?_, fun id hid hmem => ?_⟩
  · rcases hlifted with hsettled | hwritten
    · exact h.brackets.input.result.ne hsettled
    · exact hdisjoint _ hwritten _ (by simp)
  · simp only [List.cons_append, List.nodup_cons, List.mem_cons, not_or] at hrest
    exact hrest.1.1
  · -- what is written is an intermediate result, the bias is none
    have hold : id.index < first ∨ g.DraftedConstant first id := .inl (hbias id hid)
    simp only [early, List.flatMap_append, hspread, List.mem_append,
      List.mem_cons, List.not_mem_nil, or_false] at hmem
    rcases hmem with hmem | (hmem | hmem | hmem) | hmem
    · exact (hbefore _ hmem).ne hold rfl
    · exact h.brackets.input.result.ne hold hmem
    · exact h.permuted.result.ne hold hmem
    · exact h.convolved_result.ne hold hmem
    · exact h.cropped_result.ne hold (hslice _ hmem)

variable {tx tw ty : Tensor} (activate : Activation → R → R)
  (reading : Reading R) (entries : TensorId → List Nat → R)

omit [CommRing R] in
theorem Fits.canvas (h : p.Fits n g first) {x w out : Tensor} (hlays : Lift.Lays g p.lifted x w out)
    (hsized : Sized p.lifted.params x.shape.dims w.shape.dims out.shape.dims) :
    ∃ z, p.On z ∧ out.shape.dims = [z.batch, z.outputs, z.rows, z.columns] ∧
      ∀ {input weight : Value R}, input.dims = x.shape.dims → weight.dims = w.shape.dims →
        z.Fits p.lifted.params input weight := by
  obtain ⟨⟨hstride, hpadding, _⟩, _, _⟩ := Lift.parameterObjection?_eq_none.mp hlays.valid
  obtain ⟨z, hdims, houtputs, hpadding, hfits⟩ := hsized.canvas hlays.ranks ⟨hstride, hpadding⟩
  obtain ⟨t, ht, htDims⟩ := h.brackets.declared_output hlays.output hdims
  cases h.out.symm.trans ht
  cases h.weight.symm.trans hlays.weight
  exact ⟨z, ⟨htDims, hpadding, Option.some.inj (h.outputChannels.symm.trans houtputs)⟩, hdims, hfits⟩

theorem Fits.run_lifted (h : p.Fits n g first) (hapart : p.Apart n)
    (hnone : ∀ r, activate .none r = r)
    (hrank : ∀ id ∈ n.bias, ∀ t, g.tensor? id = some t → t.rank = 1) {store : Store R}
    {x w out : Tensor}
    (hbefore : g.runChain activate p.lifted.before (g.store reading entries) = some store)
    (hlays : Lift.Lays g p.lifted x w out)
    (hsized : Sized p.lifted.params x.shape.dims w.shape.dims out.shape.dims) :
    ∃ store', g.runChain activate p.core store = some store' ∧
      (store' p.lifted.output).dims = out.shape.dims ∧
      ∀ index, InBounds out.shape.dims index → (store' p.lifted.output).entry index =
        p.lifted.params.scatter (store p.lifted.input) (store p.lifted.weight)
          (Convolution.biasEntry (g.store reading entries) n.bias) index := by
  obtain ⟨z, hz, hdims, hfits⟩ := h.canvas (R := R) hlays hsized
  have htyped := Graph.runChain_typed hbefore (g.store_typed reading entries)
  have hfits := hfits (htyped _ _ hlays.input) (htyped _ _ hlays.weight)
  obtain ⟨store₁, hrun₁, hfull⟩ := h.run_convolved activate hz store hfits
    (htyped _ _ h.input) (htyped _ _ h.weight) hapart.weight hapart.data
  obtain ⟨store₂, hrun₂, hcut⟩ := h.run_slice activate hz store₁ hfull
  -- the bias is still there when it is added
  have hsame : ∀ id ∈ n.bias, store₂ id = g.store reading entries id := fun id hid =>
    Graph.runChain_frame (Graph.runChain_append hbefore (Graph.runChain_append hrun₁ hrun₂))
      (hapart.bias id hid)
  obtain ⟨store₃, hrun₃, hpaints⟩ := h.run_addition activate hz hnone store₂ (g.store reading entries)
    hfits (fun id hid t ht => ⟨hrank id hid t ht, by rw [hsame id hid]; exact Graph.store_dims ht⟩)
    hsame hcut
  obtain ⟨y, hrun₄, hyDims, hyEntry⟩ :=
    h.brackets.run_leave activate store₃ hlays.output hdims hpaints.dims
  refine ⟨Function.update store₃ p.lifted.output y, ?_, ?_, fun index hindex => ?_⟩
  · exact Graph.runChain_append hrun₁
      (Graph.runChain_append hrun₂ (Graph.runChain_append hrun₃ (Graph.runChain_cons hrun₄)))
  · rw [Function.update_self, hyDims, hdims]
  · rw [hdims] at hindex
    rcases hindex with _ | ⟨hn, _ | ⟨ho, _ | ⟨hi, _ | ⟨hj, _ | _⟩⟩⟩⟩
    rw [Function.update_self, hyEntry]
    exact hpaints.entry _ _ _ _ hn hi hj ho

omit [CommRing R] in
theorem Fits.sized (h : p.Fits n g first) (hd : n.Declares g tx tw ty) :
    Sized n.params tx.shape.dims tw.shape.dims ty.shape.dims := by
  obtain ⟨hx, hw⟩ := h.lifts.take_two hd.input hd.weight hd.output h.input h.weight
  refine ⟨hd.sizes, ?_⟩
  have hchannels := h.channels
  rw [← List.getElem?_take_of_lt (show 0 < 2 by decide),
    ← List.getElem?_take_of_lt (show 1 < 2 by decide), hx, hw,
    List.getElem?_take_of_lt (by decide), List.getElem?_take_of_lt (by decide)] at hchannels
  exact hchannels

/-- The chain puts the transposed convolution into the output. -/
theorem Fits.run (h : p.Fits n g first) (hd : n.Declares g tx tw ty) (hnone : ∀ r, activate .none r = r)
    (hweight : n.weight.index < first) (hbias : ∀ id ∈ n.bias, id.index < first)
    (hnodup : (p.chain.flatMap (·.outputs)).Nodup) :
    ∃ final, g.runChain activate p.chain (g.store reading entries) = some final ∧
      (final n.output).dims = ty.shape.dims ∧
      ∀ index, InBounds ty.shape.dims index → (final n.output).entry index =
        n.params.scatter (g.store reading entries n.input) (g.store reading entries n.weight)
          (Convolution.biasEntry (g.store reading entries) n.bias) index := by
  have hapart := h.apart hweight hbias hnodup
  rw [chain_eq] at hnodup ⊢
  rw [List.flatMap_append] at hnodup
  have hraisable := raisable (Convolution.biasEntry (g.store reading entries) n.bias)
  obtain ⟨x, w, out, hlays, hsized⟩ := h.lifts.lays hd.input hd.weight hd.output hraisable (h.sized hd)
  exact h.lifts.run activate reading entries hd.input hd.weight hd.output hweight
    (List.nodup_append.mp hnodup).1 hraisable (h.sized hd) hlays.output fun store hbefore =>
    h.run_lifted activate reading entries hapart hnone hd.bias hbefore hlays hsized

omit [CommRing R] in
theorem convolution_mem (p : Plan) :
    ⟨.transposeConv ⟨.valid, p.stride⟩, [p.outputShape, p.filter, p.bracket.input], [p.convolved]⟩ ∈
      p.chain := by
  unfold chain
  simp

omit [CommRing R] in
theorem Fits.mem_chain_cases (h : p.Fits n g first) {op : Operator} (hop : op ∈ p.chain) :
    op.kind.isLayout ∨ op = ⟨.transposeConv ⟨.valid, p.stride⟩,
      [p.outputShape, p.filter, p.bracket.input], [p.convolved]⟩ ∨
      op ∈ p.slice ∨ op ∈ p.addition := by
  obtain ⟨_, _, henter⟩ := h.brackets.enter
  obtain ⟨_, _, hleave⟩ := h.brackets.leave
  obtain ⟨_, _, hreorder⟩ := h.reorders
  refine p.forall_mem_chain (P := fun op => op.kind.isLayout ∨ op = _ ∨ op ∈ p.slice ∨ op ∈ p.addition)
    (fun op hlift => ?_) (.inl (by rw [henter]; rfl)) (.inl (by rw [hreorder]; rfl))
    (.inr (.inl rfl)) (fun op hslice => .inr (.inr (.inl hslice)))
    (fun op hadds => .inr (.inr (.inr hadds))) (.inl (by rw [hleave]; rfl)) op hop
  obtain ⟨_, hreshape⟩ := h.lifts.reshapes op hlift
  exact .inl (by rw [hreshape]; rfl)

omit [CommRing R] in
/-- The operators that move elements into and out of the layouts cut nothing off, nor does the
addition. -/
theorem Fits.mem_slice (h : p.Fits n g first) {op : Operator} (hop : op ∈ p.chain)
    (hkind : op.kind = .slice) : op ∈ p.slice := by
  have hadds := h.adds
  have haddition : ∀ op ∈ p.addition, op.kind = .add .none := by
    generalize p.addition = addition, p.cropped = cropped, n.bias = bias at hadds
    cases hadds <;> simp
  rcases h.mem_chain_cases hop with hlayout | rfl | hslice | hadds
  · rw [hkind] at hlayout
    cases hlayout
  · cases hkind
  · exact hslice
  · rw [haddition op hadds] at hkind
    cases hkind

end Plan

end TransposedConvolution

def Graph.Runs (g : Graph) (ids : List NodeId) (op : Operator) : Prop :=
  ∃ id ∈ ids, ∃ node, g.node? id = some node ∧ node.kind = .operator op

omit [CommRing R] in
theorem Graph.runs_iff_mem {ids : List NodeId} {chain : List Operator}
    (h : List.Forall₂ (fun id op => ∃ node, g.node? id = some node ∧ node.kind = .operator op)
      ids chain)
    (op : Operator) :
    g.Runs ids op ↔ op ∈ chain := by
  unfold Runs
  induction h with
  | nil => simp
  | @cons id op' ids chain hnode _ ih =>
    obtain ⟨node, hnode, hkind⟩ := hnode
    have hhead : (∃ node, g.node? id = some node ∧ node.kind = .operator op) ↔ op = op' := by
      simp [hnode, hkind, eq_comm]
    rw [List.mem_cons, ← ih, ← hhead]
    simp only [List.mem_cons, exists_eq_or_imp]

/-- A slice of what a transposed convolution among the nodes computes, with a window that lies
within it. -/
def Graph.CutsOut (g : Graph) (ids : List NodeId) (op : Operator) : Prop :=
  ∃ x begin size, op.inputs = [x, begin, size] ∧
    (∃ window inputs, g.Runs ids ⟨.transposeConv window, inputs, [x]⟩) ∧
    ∃ t corner sizes, g.tensor? x = some t ∧ g.sizes? begin = some corner ∧ g.sizes? size = some sizes ∧
      Value.WindowIn t.shape.dims corner sizes

/-- A transposed convolution is replaced by operators that compute it. Whatever the entries of its
operands are, running the operators in order succeeds and puts into the output, at every index, the
bias and the products of the input and the weight that land there. What is cut off lies within what
is computed. -/
theorem Edit.runNodes_of_lowered_transposedConvolution {s s' : Session} {id : NodeId}
    {node : Node} {n : TransposedConvolution} {options : Options} {result : Lowered}
    {x w y : Tensor} (hwf : s.graph.WellFormed) (hnode : s.graph.node? id = some node)
    (hkind : node.kind = .composite (.transposedConvolution n))
    (hdeclares : n.Declares s.graph x w y) (hlower : lowerNode id options s = .ok result s')
    (activate : Activation → R → R) (hnone : ∀ r, activate .none r = r) (reading : Reading R)
    (entries : TensorId → List Nat → R) :
    (∃ final, s'.graph.runNodes activate result.nodes (s'.graph.store reading entries) = some final ∧
      (final n.output).dims = y.shape.dims ∧
      ∀ index, InBounds y.shape.dims index → (final n.output).entry index =
        n.params.scatter (s'.graph.store reading entries n.input)
          (s'.graph.store reading entries n.weight)
          (Convolution.biasEntry (s'.graph.store reading entries) n.bias) index) ∧
      ∀ op, s'.graph.Runs result.nodes op → op.kind = .slice → s'.graph.CutsOut result.nodes op := by
  have hlowers := (lowerNode_run id options s).1 result s' hlower
  obtain ⟨chain, ⟨p, hfits, rfl⟩, hids, hnodes⟩ := hlowers.operators hnode hkind
  have hnodup := hlowers.nodup_outputs hwf hnodes hids hfits.supplied.single
  have hbias : ∀ t ∈ n.bias, (s.graph.tensor? t).isSome := by
    intro t ht
    refine hwf.registered id node hnode t (List.mem_append_left _ ?_)
    rw [hkind]
    simp [NodeKind.inputs, Composite.inputs, Option.mem_def.mp ht]
  have hold : ∀ t ∈ n.bias, t.index < s.graph.tensors.length := by
    intro t ht
    obtain ⟨_, htensor⟩ := Option.isSome_iff_exists.mp (hbias t ht)
    exact Graph.tensor?_lt htensor
  have hdeclares' := hdeclares.extend hlowers.tensors_extend hbias
  constructor
  · rw [Graph.runNodes_eq_runChain hnodes]
    exact hfits.run activate reading entries hdeclares' hnone
      (Graph.tensor?_lt hdeclares.weight) hold hnodup
  · intro op hruns hslice
    obtain ⟨_, _, _, hlays, hsized⟩ := hfits.lifts.lays hdeclares'.input hdeclares'.weight
      hdeclares'.output (TransposedConvolution.raisable (0 : Nat → R)) (hfits.sized hdeclares')
    obtain ⟨z, hz, _⟩ := hfits.canvas (R := R) hlays hsized
    obtain ⟨begin, size, hinputs, hwindow⟩ := hfits.windowIn hz
      (hfits.mem_slice ((Graph.runs_iff_mem hnodes op).mp hruns) hslice)
    exact ⟨p.convolved, begin, size, hinputs,
      ⟨_, _, (Graph.runs_iff_mem hnodes _).mpr p.convolution_mem⟩, hwindow⟩

/-- A transposed convolution along a line with stride two, whose result is cut off on both sides,
and one bias for all. -/
def croppedLine : TransposedConvolution :=
  ⟨⟨0⟩, ⟨1⟩, some ⟨2⟩, ⟨3⟩, ⟨[2], [1], [1], [1], 1⟩⟩

def croppedLineTensors : List Tensor :=
  [.computed "x" ⟨.i32, ⟨[1, 2, 2]⟩⟩ none,
    .constant "w" ⟨⟨[2, 1, 3]⟩, .i32 (.listed [1, 2, 3, 4, 5, 6])⟩ none,
    .constant "b" ⟨⟨[1]⟩, .i32 (.listed [10])⟩ none, .computed "y" ⟨.i32, ⟨[1, 1, 4]⟩⟩ none]

theorem croppedLine_declares {g : Graph} (h : g.tensors = croppedLineTensors) :
    ∃ x w y, croppedLine.Declares g x w y ∧ y.shape.dims = [1, 1, 4] := by
  have htensor (id : TensorId) : g.tensor? id = croppedLineTensors[id.index]? := by
    unfold Graph.tensor?
    rw [h]
  refine ⟨_, _, _, ⟨htensor ⟨0⟩, htensor ⟨1⟩, htensor ⟨3⟩, by decide +kernel, ?_⟩, rfl⟩
  rintro _ ⟨rfl⟩ t ht
  rw [htensor] at ht
  cases ht
  rfl

/-- Eight operators compute the transposed convolution along the line. Two products for each channel
land at index one: `1 * 6 + (1 * 1 + 2 * 4) + 10`. -/
theorem Edit.runNodes_of_lowered_padded_line :
    ∃ w result s final, World.after
        (croppedLineTensors.map .addTensor ++ [.addComposite (.transposedConvolution croppedLine)]) =
        some w ∧ lowerNode ⟨0⟩ .default w.session = .ok result s ∧ result.nodes.length = 8 ∧
      s.graph.runNodes (fun _ r => r) result.nodes
        (s.graph.store integers fun _ index => index.sum) = some final ∧
      (final ⟨3⟩).dims = [1, 1, 4] ∧ (final ⟨3⟩).entry [0, 0, 1] = 25 ∧
      ∃ op, s.graph.Runs result.nodes op ∧ op.kind = .slice ∧ s.graph.CutsOut result.nodes op := by
  have hrun : ((World.after
      (croppedLineTensors.map .addTensor ++ [.addComposite (.transposedConvolution croppedLine)])).bind
      fun w => ((lowerNode ⟨0⟩ .default).success? w.session).map fun r =>
        let store := r.2.graph.store integers fun _ index => index.sum
        (w.graph.tensors, (w.graph.node? ⟨0⟩).map (·.kind), r.1.nodes.length,
          croppedLine.params.scatter (store ⟨0⟩) (store ⟨1⟩)
          (Convolution.biasEntry store (some ⟨2⟩)) [0, 0, 1],
          r.1.nodes[4]?.bind fun id => (r.2.graph.node? id).map (·.kind))) =
      some (croppedLineTensors, some (.composite (.transposedConvolution croppedLine)), 8, 25,
        some (.operator ⟨.slice, [⟨15⟩, ⟨13⟩, ⟨14⟩], [⟨19⟩]⟩)) := by
    decide +kernel
  obtain ⟨w, hw, hlower⟩ := Option.bind_eq_some_iff.mp hrun
  obtain ⟨⟨result, s⟩, hsuccess, hall⟩ := Option.map_eq_some_iff.mp hlower
  simp only [Prod.mk.injEq, Option.map_eq_some_iff, Option.bind_eq_some_iff] at hall
  obtain ⟨htensors, ⟨node, hnode, hkind⟩, hcount, hvalue, ⟨id, hid, slice, hslice, hsliceKind⟩⟩ := hall
  obtain ⟨tx, tw, ty, hdeclares, hshape⟩ := croppedLine_declares htensors
  have hlowered := success?_eq_some hsuccess
  obtain ⟨⟨final, hfinal, hdims, hentry⟩, hcuts⟩ :=
    runNodes_of_lowered_transposedConvolution (World.after_sound hw).wellFormed
      hnode hkind hdeclares hlowered (fun _ r => r) (fun _ => rfl) integers fun _ index => index.sum
  rw [hshape] at hdims hentry
  have hindex : InBounds [1, 1, 4] [0, 0, 1] :=
    .cons (by decide) (.cons (by decide) (.cons (by decide) .nil))
  have hruns : s.graph.Runs result.nodes ⟨.slice, [⟨15⟩, ⟨13⟩, ⟨14⟩], [⟨19⟩]⟩ :=
    ⟨id, List.mem_of_getElem? hid, slice, hslice, hsliceKind⟩
  exact ⟨w, result, s, final, hw, hlowered, hcount, hfinal, hdims,
    (hentry _ hindex).trans hvalue, _, hruns, rfl, hcuts _ hruns rfl⟩

end GraphLowering
