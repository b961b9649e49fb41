import GraphLowering.Proofs.Meaning.Correlation

/-!
# Transposed convolution of channel-first values

`ConvParams.scatter` is what a transposed convolution means: each product of an entry of the input
and one of the weight is added to the entry of the output where it lands. For images, the
channel-last operation computes it from transposed operands (`Canvas.Fits.transposeConv`). Its
result is larger by the padding, which a slice cuts off (`Canvas.Paints.slice`).
-/

namespace GraphLowering

universe u

namespace ConvParams

variable {R : Type u} [CommRing R]

/-- The product of the input at one place and the weight at another one belongs to a position of the
output. -/
def Lands (p : ConvParams) (position place kernel : List Nat) : Prop :=
  ∀ axis < position.length,
    place.getD axis 0 * p.stride.getD axis 0 + kernel.getD axis 0 =
      position.getD axis 0 + p.padding.getD axis 0

instance (p : ConvParams) (position place kernel : List Nat) :
    Decidable (p.Lands position place kernel) :=
  inferInstanceAs (Decidable (∀ axis < position.length, _))

theorem lands_line {p : ConvParams} {j b v : Nat} :
    p.Lands [j] [b] [v] ↔ b * p.stride.getD 0 0 + v = j + p.padding.getD 0 0 := by
  constructor
  · intro h
    exact h 0 (Nat.zero_lt_succ 0)
  · intro h axis haxis
    obtain rfl : axis = 0 := Nat.lt_one_iff.mp haxis
    exact h

theorem lands_image {p : ConvParams} {i j a b u v : Nat} : p.Lands [i, j] [a, b] [u, v] ↔
    a * p.stride.getD 0 0 + u = i + p.padding.getD 0 0 ∧
    b * p.stride.getD 1 0 + v = j + p.padding.getD 1 0 := by
  constructor
  · intro h
    exact ⟨h 0 (by simp), h 1 (by simp)⟩
  · rintro ⟨hrow, hcolumn⟩ axis haxis
    obtain rfl | rfl : axis = 0 ∨ axis = 1 := by
      simp only [List.length_cons, List.length_nil] at haxis
      omega
    · exact hrow
    · exact hcolumn

/-- The entries of a transposed convolution. The index is that of a batch, an output channel and a
position. -/
def scatter (p : ConvParams) (x w : Value R) (bias : Nat → R) (index : List Nat) : R :=
  match index, x.dims, w.dims with
  | batch :: o :: position, _ :: channels :: spatial, _ :: _ :: kernel =>
    bias o + ∑ c ∈ Finset.range channels, boxSum spatial fun a => boxSum kernel fun u =>
      if p.Lands position a u then x.entry (batch :: c :: a) * w.entry (c :: o :: u) else 0
  | _, _, _ => 0

def scatterDims (p : ConvParams) (x w : List Nat) : List Int :=
  match x, w with
  | batch :: _ :: spatial, _ :: outputs :: kernel =>
    batch :: outputs :: (List.range spatial.length).map fun axis =>
      ((spatial.getD axis 0 : Int) - 1) * p.stride.getD axis 0 +
        kernel.getD axis 0 + p.outputPadding.getD axis 0
        - 2 * p.padding.getD axis 0
  | _, _ => []

theorem scatterDims_lifted {p : ConvParams} (batch channels width channels' outputs kernel : Nat) :
    p.lifted.scatterDims [batch, channels, 1, width] [channels', outputs, 1, kernel] =
      (p.scatterDims [batch, channels, width] [channels', outputs, kernel]).insertIdx 2 1 := by
  simp [scatterDims, lifted, List.range_succ]

theorem scatter_lifted {p : ConvParams} {x x' w w' : Value R} {bias : Nat → R}
    {batch channels width outputs kernel : Nat} (hx : Raises x x' batch channels width)
    (hw : Raises w w' channels outputs kernel) {n o j : Nat} (hn : n < batch) (ho : o < outputs) :
    p.lifted.scatter x' w' bias [n, o, 0, j] = p.scatter x w bias [n, o, j] := by
  have hlands (b v : Nat) : p.lifted.Lands [0, j] [0, b] [0, v] ↔ p.Lands [j] [b] [v] := by
    rw [lands_image, lands_line]
    simp [lifted]
  unfold scatter
  simp only [hx.dims, hx.raisedDims, hw.dims, hw.raisedDims, boxSum, Finset.sum_range_one, hlands]
  refine congrArg (bias o + ·) ?_
  refine Finset.sum_congr rfl fun c hc =>
    Finset.sum_congr rfl fun b hb => Finset.sum_congr rfl fun v hv => ?_
  rw [Finset.mem_range] at hc hb hv
  rw [hx.entry n c b hn hc hb, hw.entry c o v hc ho hv]

end ConvParams

/-- The sizes and parameters of a transposed convolution of images. -/
structure Canvas where
  batch : Nat
  channels : Nat
  height : Nat
  width : Nat
  outputs : Nat
  kernelHeight : Nat
  kernelWidth : Nat
  rows : Nat
  columns : Nat
  stride : PerAxis
  padding : PerAxis

namespace Canvas

variable {R : Type u} [CommRing R] {z : Canvas} {p : ConvParams} {x w data filter y : Value R}

def dims (z : Canvas) : List Nat :=
  [z.batch, z.rows, z.columns, z.outputs]

def fullDims (z : Canvas) : List Nat :=
  [z.batch, z.rows + z.padding.height * 2, z.columns + z.padding.width * 2, z.outputs]

structure Fits (z : Canvas) (p : ConvParams) (x w : Value R) : Prop where
  input : x.dims = [z.batch, z.channels, z.height, z.width]
  weight : w.dims = [z.channels, z.outputs, z.kernelHeight, z.kernelWidth]
  stride : p.stride = [z.stride.height, z.stride.width]
  padding : p.padding = [z.padding.height, z.padding.width]

theorem Fits.scatter_eq (h : z.Fits p x w) (bias : Nat → R) (n o i j : Nat) :
    p.scatter x w bias [n, o, i, j] =
      bias o + ∑ c ∈ Finset.range z.channels, ∑ a ∈ Finset.range z.height, ∑ b ∈ Finset.range z.width,
        ∑ u ∈ Finset.range z.kernelHeight, ∑ v ∈ Finset.range z.kernelWidth,
          if a * z.stride.height + u = i + z.padding.height ∧
            b * z.stride.width + v = j + z.padding.width then
            x.entry [n, c, a, b] * w.entry [c, o, u, v]
          else 0 := by
  have hlands (a b u v : Nat) : p.Lands [i, j] [a, b] [u, v] ↔
      a * z.stride.height + u = i + z.padding.height ∧
      b * z.stride.width + v = j + z.padding.width := by
    rw [ConvParams.lands_image, h.stride, h.padding]
    rfl
  unfold ConvParams.scatter
  simp only [h.input, h.weight, boxSum, hlands]

/-- A channel-last value with the entries of the transposed convolution, and a bias. -/
structure Paints (z : Canvas) (p : ConvParams) (x w : Value R)
    (bias : Nat → R) (y : Value R) : Prop where
  dims : y.dims = z.dims
  entry : ∀ n i j o, n < z.batch → i < z.rows → j < z.columns → o < z.outputs →
    y.entry [n, i, j, o] = p.scatter x w bias [n, o, i, j]

/-- The same with the padding around it, which moves the entries. -/
structure PaintsFull (z : Canvas) (p : ConvParams) (x w y : Value R) : Prop where
  dims : y.dims = z.fullDims
  entry : ∀ n i j o, y.entry [n, i + z.padding.height, j + z.padding.width, o] =
    p.scatter x w 0 [n, o, i, j]

theorem Fits.transposeConv (h : z.Fits p x w)
    (hdata : data.dims = [z.batch, z.height, z.width, z.channels])
    (hdataEntry : ∀ n a b c, data.entry [n, a, b, c] = x.entry [n, c, a, b])
    (hfilter : filter.dims = [z.outputs, z.kernelHeight, z.kernelWidth, z.channels])
    (hfilterEntry : ∀ o u v c, filter.entry [o, u, v, c] = w.entry [c, o, u, v]) :
    ∃ y, data.transposeConv z.stride z.fullDims filter = some y ∧ z.PaintsFull p x w y := by
  unfold Value.transposeConv fullDims
  simp only [hdata, hfilter, true_and, if_true]
  refine ⟨_, rfl, rfl, fun n i j o => ?_⟩
  rw [h.scatter_eq, Pi.zero_apply, zero_add]
  simp only [hdataEntry, hfilterEntry]

theorem PaintsFull.paints (h : z.PaintsFull p x w y) (hzero : z.padding = ⟨0, 0⟩) :
    z.Paints p x w 0 y := by
  have hdims := h.dims
  have hentry := h.entry
  unfold fullDims at hdims
  rw [hzero] at hdims hentry
  exact ⟨hdims, fun n i j o _ _ _ _ => hentry n i j o⟩

theorem windowIn (z : Canvas) :
    Value.WindowIn z.fullDims [0, z.padding.height, z.padding.width, 0] z.dims := by
  refine ⟨rfl, ?_⟩
  unfold dims fullDims
  simp only [List.zipWith_cons_cons, List.zipWith_nil_left, List.forall₂_cons,
    List.Forall₂.nil, and_true]
  omega

theorem PaintsFull.slice (h : z.PaintsFull p x w y) :
    ∃ v, y.slice [0, z.padding.height, z.padding.width, 0] z.dims = some v ∧ z.Paints p x w 0 v := by
  unfold Value.slice
  rw [h.dims, if_pos z.windowIn]
  exact ⟨_, rfl, rfl, fun n i j o _ _ _ _ => h.entry n i j o⟩

theorem Paints.stretched {bias : Nat → R} (h : z.Paints p x w bias y) {n i j o : Nat}
    (hn : n < z.batch) (hi : i < z.rows) (hj : j < z.columns) (ho : o < z.outputs) :
    y.stretched [n, i, j, o] = p.scatter x w bias [n, o, i, j] := by
  have hbounds : InBounds y.dims [n, i, j, o] := by
    rw [h.dims]
    exact .cons hn (.cons hi (.cons hj (.cons ho .nil)))
  rw [Value.stretched_of_inBounds hbounds]
  exact h.entry n i j o hn hi hj ho

theorem Paints.add {b : Value R} {activate : R → R} {count : Nat} (h : z.Paints p x w 0 y)
    (hz : z.Fits p x w) (hb : b.dims = [count]) (hcount : count = 1 ∨ count = z.outputs)
    (hactivate : ∀ r, activate r = r) :
    ∃ v, y.add activate b = some v ∧
      z.Paints p x w (fun o => b.entry [if count = 1 then 0 else o]) v := by
  have hcommon : Value.commonDims y.dims.reverse b.dims.reverse = some z.dims.reverse := by
    rw [h.dims, hb]
    show (if z.outputs = count ∨ count = 1 then _ else _) = _
    rw [if_pos (by omega)]
    rfl
  unfold Value.add
  rw [hcommon]
  refine ⟨_, rfl, List.reverse_reverse _, fun n i j o hn hi hj ho => ?_⟩
  have hbias : b.stretched [n, i, j, o] = b.entry [if count = 1 then 0 else o] := by
    unfold Value.stretched
    rw [hb]
    rfl
  show activate (y.stretched [n, i, j, o] + b.stretched [n, i, j, o]) = _
  rw [hactivate, h.stretched hn hi hj ho, hbias, hz.scatter_eq,
    hz.scatter_eq, Pi.zero_apply, zero_add, add_comm]

end Canvas

theorem exists_canvas {params : ConvParams} {x w y : List Nat} (hx : x.length = 4)
    (hw : w.length = 4) (hy : y.length = 4)
    (hentries : params.stride.length = 2 ∧ params.padding.length = 2) (hbatch : y[0]? = x[0]?)
    (hchannels : w[0]? = x[1]?) (houtputs : y[1]? = w[1]?) :
    ∃ z : Canvas, y = [z.batch, z.outputs, z.rows, z.columns] ∧ w[1]? = some z.outputs ∧
      params.padding = [z.padding.height, z.padding.width] ∧
      ∀ {R : Type u} {input weight : Value R},
        input.dims = x → weight.dims = w → z.Fits params input weight := by
  match x, hx, w, hw, y, hy with
  | [batch, channels, height, width], _, [channels', outputs, kernelHeight, kernelWidth],
      _, [batch', outputs', rows, columns], _ =>
    obtain ⟨hstride, hpadding⟩ := hentries
    obtain ⟨sh, sw, hstride⟩ := List.length_eq_two.mp hstride
    obtain ⟨ph, pw, hpadding⟩ := List.length_eq_two.mp hpadding
    cases hbatch
    cases hchannels
    cases houtputs
    exact ⟨⟨batch, channels, height, width, outputs, kernelHeight,
      kernelWidth, rows, columns, ⟨sh, sw⟩, ⟨ph, pw⟩⟩, rfl, rfl,
      hpadding, fun hinput hweight => ⟨hinput, hweight, hstride, hpadding⟩⟩

end GraphLowering
