import GraphLowering.Operator
import GraphLowering.Proofs.Meaning.Value
import Mathlib.Algebra.BigOperators.Group.Finset.Sigma
import Mathlib.Tactic.Linarith

/-!
# Convolution of channel-first values

`ConvParams.convolve` is what a convolution composite means: the cross-correlation of an input with
a weight, in groups, with stride, dilation and zeros around the input, for any number of spatial
axes. For images, the channel-last operations compute it from transposed operands (`Setting.conv2d`,
`Setting.depthwiseConv2d`).
-/

namespace GraphLowering

universe u

def boxSum {R : Type u} [AddCommMonoid R] : List Nat → (List Nat → R) → R
  | [], f => f []
  | d :: dims, f => ∑ i ∈ Finset.range d, boxSum dims fun index => f (i :: index)

namespace ConvParams

variable {R : Type u} [CommRing R]

/-- Where the kernel, placed at a position of the output, lies on the input. -/
def tap (p : ConvParams) (position kernel : List Nat) : List Int :=
  (List.range position.length).map fun axis =>
    (position.getD axis 0 : Int) * p.stride.getD axis 0 +
      kernel.getD axis 0 * p.dilation.getD axis 0 - p.padding.getD axis 0

/-- The entries of a convolution. The index is that of a batch, an output channel and a position. -/
def convolve (p : ConvParams) (activate : R → R) (x w : Value R) (bias : Nat → R)
    (index : List Nat) : R :=
  match index, w.dims with
  | batch :: o :: position, outputs :: depth :: kernel =>
    let group := o / (outputs / p.groups)
    activate (bias o + ∑ c ∈ Finset.range depth, boxSum kernel fun k =>
      x.orZero (batch :: ↑(group * depth + c) :: p.tap position k) * w.entry (o :: c :: k))
  | _, _ => 0

theorem convolve_congr {p : ConvParams} {activate : R → R} {x w : Value R} {bias bias' : Nat → R}
    {batch o : Nat} {position : List Nat} (h : bias o = bias' o) :
    p.convolve activate x w bias (batch :: o :: position) =
      p.convolve activate x w bias' (batch :: o :: position) := by
  unfold convolve
  rcases w.dims with _ | ⟨outputs, _ | ⟨depth, kernel⟩⟩
  · rfl
  · rfl
  · simp only [h]

def outputDims (p : ConvParams) (x w : List Nat) : List Int :=
  match x, w with
  | batch :: _ :: spatial, outputs :: _ :: kernel =>
    batch :: outputs :: (List.range spatial.length).map fun axis =>
      Value.windows (spatial.getD axis 0 + 2 * p.padding.getD axis 0)
        (kernel.getD axis 0) (p.stride.getD axis 0)
        (p.dilation.getD axis 0)
  | _, _ => []

end ConvParams

theorem Value.tap_lt {size kernel stride dilation i k : Nat} (hstride : 0 < stride)
    (hi : (i : Int) < windows size kernel stride dilation) (hk : k < kernel) :
    i * stride + k * dilation < size := by
  unfold windows at hi
  have hle : (i : Int) ≤ ((size : Int) - dilation * ((kernel : Int) - 1) - 1) / stride := by omega
  have hlast : (i : Int) * stride ≤ size - dilation * ((kernel : Int) - 1) - 1 :=
    (Int.le_ediv_iff_mul_le (Int.natCast_pos.mpr hstride)).mp hle
  have hkernel : (dilation : Int) * k ≤ dilation * ((kernel : Int) - 1) :=
    mul_le_mul_of_nonneg_left (by omega) (Int.natCast_nonneg _)
  have hsum : ((i * stride + k * dilation : Nat) : Int) < size := by
    push_cast
    linarith [mul_comm (dilation : Int) k]
  exact_mod_cast hsum

/-- The sizes and parameters of a convolution of images. -/
structure Setting where
  batch : Nat
  channels : Nat
  height : Nat
  width : Nat
  outputs : Nat
  depth : Nat
  kernelHeight : Nat
  kernelWidth : Nat
  rows : Nat
  columns : Nat
  stride : PerAxis
  padding : PerAxis
  dilation : PerAxis

namespace Setting

variable {R : Type u} {z : Setting} {p : ConvParams} {x w bias data filter : Value R} {activate : R → R}

def paddedHeight (z : Setting) : Nat :=
  z.height + 2 * z.padding.height

def paddedWidth (z : Setting) : Nat :=
  z.width + 2 * z.padding.width

structure Fits (z : Setting) (p : ConvParams) (x w bias : Value R) : Prop where
  input : x.dims = [z.batch, z.channels, z.height, z.width]
  weight : w.dims = [z.outputs, z.depth, z.kernelHeight, z.kernelWidth]
  bias : bias.dims.prod = z.outputs
  stride : p.stride = [z.stride.height, z.stride.width]
  padding : p.padding = [z.padding.height, z.padding.width]
  dilation : p.dilation = [z.dilation.height, z.dilation.width]
  positive : 0 < z.stride.height ∧ 0 < z.stride.width
  channels : z.channels = z.depth * p.groups
  groups : p.groups ∣ z.outputs
  rows : (z.rows : Int) = Value.windows z.paddedHeight z.kernelHeight z.stride.height z.dilation.height
  columns : (z.columns : Int) =
    Value.windows z.paddedWidth z.kernelWidth z.stride.width z.dilation.width

theorem Fits.within (h : z.Fits p x w bias) {i j k l : Nat} (hi : i < z.rows) (hj : j < z.columns)
    (hk : k < z.kernelHeight) (hl : l < z.kernelWidth) :
    i * z.stride.height + k * z.dilation.height < z.paddedHeight ∧
      j * z.stride.width + l * z.dilation.width < z.paddedWidth := by
  have hrows := h.rows
  have hcolumns := h.columns
  exact ⟨Value.tap_lt h.positive.1 (by omega) hk, Value.tap_lt h.positive.2 (by omega) hl⟩

theorem Fits.channel_lt (h : z.Fits p x w bias) {o c : Nat} (ho : o < z.outputs) (hc : c < z.depth) :
    o / (z.outputs / p.groups) * z.depth + c < z.channels := by
  have hgroup : o / (z.outputs / p.groups) < p.groups := by
    refine Nat.div_lt_of_lt_mul ?_
    rw [Nat.div_mul_cancel h.groups]
    exact ho
  calc o / (z.outputs / p.groups) * z.depth + c < o / (z.outputs / p.groups) * z.depth + z.depth :=
    Nat.add_lt_add_left hc _
    _ = (o / (z.outputs / p.groups) + 1) * z.depth := (Nat.succ_mul _ _).symm
    _ ≤ p.groups * z.depth := Nat.mul_le_mul_right _ hgroup
    _ = z.channels := by rw [h.channels, Nat.mul_comm]

variable [CommRing R]

structure Lays (z : Setting) (x data : Value R) : Prop where
  dims : data.dims = [z.batch, z.paddedHeight, z.paddedWidth, z.channels]
  entry : ∀ n a b c, n < z.batch → a < z.paddedHeight → b < z.paddedWidth → c < z.channels →
    data.entry [n, a, b, c] = x.orZero [n, c, a - z.padding.height, b - z.padding.width]

/-- The entries of a convolution of images, with the sums in the order of the filter's axes. -/
theorem Fits.convolve_eq (h : z.Fits p x w bias) (n o i j : Nat) :
    p.convolve activate x w bias.flat [n, o, i, j] =
      activate (∑ k ∈ Finset.range z.kernelHeight,
        ∑ l ∈ Finset.range z.kernelWidth, ∑ c ∈ Finset.range z.depth,
        x.orZero [n, ↑(o / (z.outputs / p.groups) * z.depth + c),
          ↑(i * z.stride.height + k * z.dilation.height) - z.padding.height,
          ↑(j * z.stride.width + l * z.dilation.width) - z.padding.width] * w.entry [o, c, k, l] +
            bias.flat o) := by
  have htap (k l : Nat) : p.tap [i, j] [k, l] =
      ([↑(i * z.stride.height + k * z.dilation.height) - ↑z.padding.height,
        ↑(j * z.stride.width + l * z.dilation.width) - ↑z.padding.width] : List Int) := by
    simp [ConvParams.tap, h.stride, h.padding, h.dilation, List.range_succ]
  unfold ConvParams.convolve
  simp only [h.weight, boxSum, htap]
  rw [add_comm, Finset.sum_comm]
  congr 2
  refine Finset.sum_congr rfl fun k _ => ?_
  exact Finset.sum_comm

/-- A channel-last value with the entries of the convolution. -/
structure Gives (z : Setting) (p : ConvParams) (activate : R → R) (x w bias y : Value R) : Prop where
  dims : y.dims = [z.batch, z.rows, z.columns, z.outputs]
  entry : ∀ n i j o, n < z.batch → i < z.rows → j < z.columns → o < z.outputs →
    y.entry [n, i, j, o] = p.convolve activate x w bias.flat [n, o, i, j]

theorem Fits.conv2d (h : z.Fits p x w bias) (hdata : z.Lays x data)
    (hfilter : filter.dims = [z.outputs, z.kernelHeight, z.kernelWidth, z.depth])
    (hentry : ∀ o k l c, filter.entry [o, k, l, c] = w.entry [o, c, k, l]) :
    ∃ y, data.conv2d z.stride z.dilation activate filter bias = some y ∧
      z.Gives p activate x w bias y := by
  have hrows := h.rows
  have hcolumns := h.columns
  have hgroups : z.depth ≠ 0 → z.channels / z.depth = p.groups := by
    intro hdepth
    rw [h.channels, Nat.mul_div_cancel_left _ (Nat.pos_of_ne_zero hdepth)]
  -- without channels there is nothing to sum, and no number of groups to be had from the sizes
  have hgrouped : z.channels / z.depth ∣ z.outputs ∨ z.depth = 0 := by
    by_cases hdepth : z.depth = 0
    · exact .inr hdepth
    · rw [hgroups hdepth]
      exact .inl h.groups
  unfold Value.conv2d
  simp only [hdata.dims, hfilter]
  rw [if_pos ⟨⟨p.groups, h.channels⟩, hgrouped, h.bias, by omega, by omega⟩]
  refine ⟨_, rfl, ?_, ?_⟩
  · rw [← hrows, ← hcolumns, Int.toNat_natCast, Int.toNat_natCast]
  · intro n i j o hn hi hj ho
    rw [h.convolve_eq]
    refine congrArg (fun sum => activate (sum + bias.flat o)) ?_
    refine Finset.sum_congr rfl fun k hk =>
      Finset.sum_congr rfl fun l hl => Finset.sum_congr rfl fun c hc => ?_
    rw [Finset.mem_range] at hk hl hc
    obtain ⟨hrow, hcolumn⟩ := h.within hi hj hk hl
    rw [hgroups (by omega), hentry, hdata.entry _ _ _ _ hn hrow hcolumn (h.channel_lt ho hc)]

theorem Fits.depthwiseConv2d (h : z.Fits p x w bias) (hdepth : z.depth = 1)
    (houtputs : z.outputs = p.groups) (hdata : z.Lays x data)
    (hfilter : filter.dims = [z.depth, z.kernelHeight, z.kernelWidth, z.outputs])
    (hentry : ∀ o k l c, filter.entry [c, k, l, o] = w.entry [o, c, k, l]) :
    ∃ y, data.depthwiseConv2d z.stride z.dilation 1 activate filter bias = some y ∧
      z.Gives p activate x w bias y := by
  have hrows := h.rows
  have hcolumns := h.columns
  have hchannels : z.outputs = z.channels * 1 := by
    rw [h.channels, hdepth, houtputs, Nat.mul_one, Nat.one_mul]
  unfold Value.depthwiseConv2d
  simp only [hdata.dims, hfilter]
  rw [if_pos ⟨hdepth, hchannels, h.bias, by omega, by omega⟩]
  refine ⟨_, rfl, ?_, ?_⟩
  · rw [← hrows, ← hcolumns, Int.toNat_natCast, Int.toNat_natCast]
  · intro n i j o hn hi hj ho
    rw [h.convolve_eq]
    refine congrArg (fun sum => activate (sum + bias.flat o)) ?_
    refine Finset.sum_congr rfl fun k hk => Finset.sum_congr rfl fun l hl => ?_
    rw [Finset.mem_range] at hk hl
    obtain ⟨hrow, hcolumn⟩ := h.within hi hj hk hl
    have hgroup : o / (z.outputs / p.groups) * 1 + 0 = o := by
      rw [← houtputs, Nat.div_self (Nat.zero_lt_of_lt ho), Nat.div_one, Nat.mul_one, Nat.add_zero]
    rw [hdepth, Finset.sum_range_one, hgroup, Nat.div_one, hentry,
      hdata.entry _ _ _ _ hn hrow hcolumn (by omega)]

/-! ## Layouts of the input -/

theorem orZero_channelLast {y : Value R} {batch channels height width : Nat}
    (hx : x.dims = [batch, channels, height, width]) (hdims : y.dims = [batch, height, width, channels])
    (hentry : ∀ n i j c, y.entry [n, i, j, c] = x.entry [n, c, i, j]) (n i j c : Int) :
    y.orZero [n, i, j, c] = x.orZero [n, c, i, j] := by
  unfold Value.orZero
  simp only [hx, hdims, List.forall₂_cons, List.forall₂_nil_left_iff,
    List.map_cons, List.map_nil, hentry, and_true]
  refine if_congr ?_ rfl rfl
  tauto

theorem Fits.lays (h : z.Fits p x w bias) (hzero : z.padding = ⟨0, 0⟩) {y : Value R}
    (hdims : y.dims = [z.batch, z.height, z.width, z.channels])
    (hentry : ∀ n i j c, y.entry [n, i, j, c] = x.entry [n, c, i, j]) : z.Lays x y := by
  constructor
  · unfold paddedHeight paddedWidth
    rw [hdims, hzero]
    rfl
  · intro n a b c hn ha hb hc
    unfold paddedHeight at ha
    unfold paddedWidth at hb
    simp only [hzero, Nat.mul_zero, Nat.add_zero] at ha hb ⊢
    rw [← orZero_channelLast h.input hdims hentry]
    unfold Value.orZero
    rw [if_pos]
    · simp
    · simp only [hdims, List.forall₂_cons, List.forall₂_nil_left_iff, and_true]
      omega

theorem Fits.lays_pad (h : z.Fits p x w bias) {y : Value R}
    (hdims : y.dims = [z.batch, z.height, z.width, z.channels])
    (hentry : ∀ n i j c, y.entry [n, i, j, c] = x.entry [n, c, i, j]) :
    ∃ data, y.pad [(0, 0), (z.padding.height, z.padding.height),
      (z.padding.width, z.padding.width), (0, 0)] = some data ∧
      z.Lays x data := by
  unfold Value.pad
  rw [if_pos (by rw [hdims]; rfl)]
  refine ⟨_, rfl, ?_, ?_⟩
  · have hheight : z.padding.height + z.height + z.padding.height = z.paddedHeight := by
      unfold paddedHeight
      omega
    have hwidth : z.padding.width + z.width + z.padding.width = z.paddedWidth := by
      unfold paddedWidth
      omega
    simp only [hdims, List.zipWith_cons_cons, List.zipWith_nil_left,
      hheight, hwidth, Nat.zero_add, Nat.add_zero]
  · intro n a b c _ _ _ _
    exact (orZero_channelLast h.input hdims hentry _ _ _ _).trans (by simp)

end Setting

theorem exists_setting {params : ConvParams} {x w y : List Nat} (hx : x.length = 4)
    (hw : w.length = 4) (hy : y.length = 4)
    (hentries : params.stride.length = 2 ∧ params.padding.length = 2 ∧ params.dilation.length = 2)
    (hpositive : 0 ∉ params.stride) (hsizes : y.map Nat.cast = params.outputDims x w)
    (hchannels : x.getD 1 0 = w.getD 1 0 * params.groups) (hgroups : params.groups ∣ w.headD 0) :
    ∃ z : Setting, z.outputs = w.headD 0 ∧ y = [z.batch, z.outputs, z.rows, z.columns] ∧
      ∀ {R : Type u} {input weight bias : Value R},
        input.dims = x → weight.dims = w → bias.dims.prod = z.outputs →
        z.Fits params input weight bias := by
  match x, hx, w, hw, y, hy with
  | [batch, channels, height, width], _, [outputs, depth, kernelHeight, kernelWidth],
      _, [a, b, rows, columns], _ =>
    obtain ⟨hstride, hpadding, hdilation⟩ := hentries
    obtain ⟨sh, sw, hstride⟩ := List.length_eq_two.mp hstride
    obtain ⟨ph, pw, hpadding⟩ := List.length_eq_two.mp hpadding
    obtain ⟨dh, dw, hdilation⟩ := List.length_eq_two.mp hdilation
    have houtput : params.outputDims [batch, channels, height, width]
        [outputs, depth, kernelHeight, kernelWidth] =
        ([↑batch, ↑outputs, Value.windows (height + 2 * ph) kernelHeight sh dh,
          Value.windows (width + 2 * pw) kernelWidth sw dw] : List Int) := by
      simp [ConvParams.outputDims, hstride, hpadding, hdilation, List.range_succ]
    rw [houtput] at hsizes
    simp only [List.map_cons, List.map_nil, List.cons.injEq, Nat.cast_inj, and_true] at hsizes
    obtain ⟨rfl, rfl, hrows, hcolumns⟩ := hsizes
    rw [hstride] at hpositive
    refine ⟨⟨a, channels, height, width, b, depth, kernelHeight, kernelWidth,
      rows, columns, ⟨sh, sw⟩, ⟨ph, pw⟩, ⟨dh, dw⟩⟩, rfl, rfl, fun hinput hweight hbias => ?_⟩
    refine ⟨hinput, hweight, hbias, hstride, hpadding, hdilation,
      ?_, hchannels, hgroups, hrows, hcolumns⟩
    simp only [List.mem_cons, List.not_mem_nil, or_false, not_or] at hpositive
    exact ⟨Nat.pos_of_ne_zero (Ne.symm hpositive.1), Nat.pos_of_ne_zero (Ne.symm hpositive.2)⟩

/-! ## Lines as images of height one -/

/-- The same entries with a unit axis before the last one. -/
structure Raises {R : Type u} (v raised : Value R) (a b c : Nat) : Prop where
  dims : v.dims = [a, b, c]
  raisedDims : raised.dims = [a, b, 1, c]
  entry : ∀ i j k, i < a → j < b → k < c → raised.entry [i, j, 0, k] = v.entry [i, j, k]

section Raises

variable {R : Type u} {v raised : Value R} {a b c : Nat}

theorem offset_unit (i j k : Nat) : offset [a, b, 1, c] [i, j, 0, k] = offset [a, b, c] [i, j, k] := by
  simp only [offset, List.prod_cons, List.prod_nil, Nat.one_mul, Nat.zero_mul, Nat.zero_add]

theorem inBounds_line {i j k : Nat} (hi : i < a) (hj : j < b) (hk : k < c) :
    InBounds [a, b, c] [i, j, k] :=
  .cons hi (.cons hj (.cons hk .nil))

theorem exists_raised (h : v.dims = [a, b, c]) :
    ∃ raised, v.reshape [a, b, 1, c] = some raised ∧ Raises v raised a b c := by
  unfold Value.reshape
  rw [h, if_pos (by simp only [List.prod_cons, List.prod_nil, Nat.one_mul])]
  refine ⟨_, rfl, h, rfl, fun i j k hi hj hk => ?_⟩
  show v.entry (indexAt v.dims (offset [a, b, 1, c] [i, j, 0, k])) = v.entry [i, j, k]
  rw [h, offset_unit, indexAt_offset (inBounds_line hi hj hk)]

theorem exists_raising (h : raised.dims = [a, b, 1, c]) :
    ∃ v, raised.reshape [a, b, c] = some v ∧ Raises v raised a b c := by
  unfold Value.reshape
  rw [h, if_pos (by simp only [List.prod_cons, List.prod_nil, Nat.one_mul])]
  refine ⟨_, rfl, rfl, h, fun i j k hi hj hk => ?_⟩
  have hbounds : InBounds [a, b, 1, c] [i, j, 0, k] :=
    .cons hi (.cons hj (.cons Nat.one_pos (.cons hk .nil)))
  show raised.entry [i, j, 0, k] = raised.entry (indexAt raised.dims (offset [a, b, c] [i, j, k]))
  rw [h, ← offset_unit, indexAt_offset hbounds]

variable [CommRing R]

theorem Raises.orZero (h : Raises v raised a b c) (i j k : Int) :
    raised.orZero [i, j, 0, k] = v.orZero [i, j, k] := by
  unfold Value.orZero
  simp only [h.dims, h.raisedDims, List.forall₂_cons, List.forall₂_nil_left_iff,
    List.map_cons, List.map_nil, and_true]
  by_cases hbounds : (0 ≤ i ∧ i < a) ∧ (0 ≤ j ∧ j < b) ∧ 0 ≤ k ∧ k < c
  · rw [if_pos (by omega), if_pos hbounds]
    exact h.entry _ _ _ (by omega) (by omega) (by omega)
  · rw [if_neg (by omega), if_neg hbounds]

theorem ConvParams.outputDims_lifted {p : ConvParams}
    (batch channels width outputs depth kernel : Nat) :
    p.lifted.outputDims [batch, channels, 1, width] [outputs, depth, 1, kernel] =
      (p.outputDims [batch, channels, width] [outputs, depth, kernel]).insertIdx 2 1 := by
  simp [outputDims, lifted, List.range_succ, Value.windows]

theorem ConvParams.convolve_lifted {p : ConvParams} {x x' w w' : Value R} {activate : R → R}
    {bias : Nat → R} {batch channels width outputs depth kernel : Nat}
    (hx : Raises x x' batch channels width) (hw : Raises w w' outputs depth kernel) {n o j : Nat}
    (ho : o < outputs) :
    p.lifted.convolve activate x' w' bias [n, o, 0, j] = p.convolve activate x w bias [n, o, j] := by
  have htap (l : Nat) : p.lifted.tap [0, j] [0, l] = 0 :: p.tap [j] [l] := by
    simp [ConvParams.tap, ConvParams.lifted, List.range_succ]
  unfold ConvParams.convolve
  simp only [hw.dims, hw.raisedDims, boxSum, Finset.sum_range_one, htap]
  refine congrArg (fun sum => activate (bias o + sum)) ?_
  refine Finset.sum_congr rfl fun c hc => Finset.sum_congr rfl fun l hl => ?_
  rw [Finset.mem_range] at hc hl
  rw [hw.entry o c l ho hc hl]
  exact congrArg (· * w.entry [o, c, l]) (hx.orZero _ _ _)

end Raises

end GraphLowering
