import GraphLowering.Proofs.Answers

/-!
# Sizes of convolutions and of transposed convolutions

The size of an output is computed axis by axis. On one axis, a transposed convolution makes of an
input the largest size that a convolution makes that input of, up to the output padding, and a
convolution loses what its stride leaves over (`AxisParams.remainder`). So one undoes the other
(`AxisParams.result_result_true`, `AxisParams.result_result_false`), and the way back stays in the
range of the sizes if the way there does. `outputShape_eq_ok` says what the computation of a shape
amounts to.
-/

namespace GraphLowering.Command

section Sizes

variable {α β : Type} {m : Except SampleStop α} {f : α → Except SampleStop β} {a b c : Nat}

theorem bind_eq_ok {y : β} : m >>= f = .ok y ↔ ∃ x, m = .ok x ∧ f x = .ok y := by
  cases m with
  | error stop => exact iff_of_false (fun h => nomatch h) fun ⟨_, h, _⟩ => nomatch h
  | ok x =>
    constructor
    · exact fun h => ⟨x, rfl, h⟩
    · rintro ⟨_, ⟨⟩, h⟩
      exact h

theorem addSizes_eq_ok : addSizes a b = .ok c ↔ a + b ≤ maxSize ∧ c = a + b := by
  unfold addSizes
  split
  · next h => simp [h, eq_comm]
  · next h => simp [h]

theorem mulSizes_eq_ok : mulSizes a b = .ok c ↔ a * b ≤ maxSize ∧ c = a * b := by
  unfold mulSizes
  split
  · next h => simp [h, eq_comm]
  · next h => simp [h]

end Sizes

namespace AxisParams

variable {a : AxisParams} {size : Nat}

/-- No number on the way to the size of the output is larger than a size can be. -/
def InRange (a : AxisParams) : Bool → Prop
  | false => a.extent ≤ maxSize ∧ a.padded ≤ maxSize
  | true => a.full ≤ maxSize ∧ 2 * a.padding ≤ maxSize

/-- What a convolution leaves over of its padded input because of its stride. -/
def remainder (a : AxisParams) : Nat :=
  (a.size + 2 * a.padding - a.dilation * (a.kernel - 1) - 1) % a.stride

theorem span_eq_ok : a.span = .ok size ↔ a.extent ≤ maxSize ∧ size = a.extent := by
  unfold span
  simp only [bind_eq_ok, mulSizes_eq_ok, addSizes_eq_ok]
  unfold extent
  constructor
  · rintro ⟨_, ⟨_, rfl⟩, hspan⟩
    exact hspan
  · rintro ⟨hrange, rfl⟩
    exact ⟨_, ⟨Nat.le_trans (Nat.le_add_right _ _) hrange, rfl⟩, hrange, rfl⟩

theorem outputSize?_eq_ok :
    a.outputSize? = .ok (some size) ↔ a.InRange false ∧ a.HasOutput false ∧ size = a.result false := by
  unfold outputSize?
  simp only [bind_eq_ok, span_eq_ok, mulSizes_eq_ok, addSizes_eq_ok]
  constructor
  · rintro ⟨_, ⟨hextent, rfl⟩, _, ⟨_, rfl⟩, _, ⟨hpadded, rfl⟩, hsize⟩
    have hsize : (if a.padded < a.extent ∨ a.stride = 0 then none
        else some ((a.padded - a.extent) / a.stride + 1)) = some size :=
      Except.ok.inj hsize
    split at hsize
    · cases hsize
    · next hfits =>
      obtain ⟨hfits, hstride⟩ := not_or.mp hfits
      exact ⟨⟨hextent, hpadded⟩, ⟨hstride, Nat.not_lt.mp hfits⟩, (Option.some.inj hsize).symm⟩
  · rintro ⟨⟨hextent, hpadded⟩, ⟨hstride, hfits⟩, rfl⟩
    refine ⟨_, ⟨hextent, rfl⟩, _, ⟨Nat.le_trans (Nat.le_add_left _ _) hpadded, rfl⟩,
      _, ⟨hpadded, rfl⟩, congrArg Except.ok (if_neg ?_)⟩
    rintro (hsmall | hzero)
    · exact Nat.not_lt.mpr hfits hsmall
    · exact hstride hzero

theorem transposedSize?_eq_ok :
    a.transposedSize? = .ok (some size) ↔ a.InRange true ∧ a.HasOutput true ∧ size = a.result true := by
  unfold transposedSize?
  simp only [bind_eq_ok, span_eq_ok, mulSizes_eq_ok, addSizes_eq_ok]
  constructor
  · rintro ⟨_, ⟨_, rfl⟩, _, ⟨_, rfl⟩, _, ⟨_, rfl⟩, _, ⟨hfull, rfl⟩, _, ⟨hcut, rfl⟩, hsize⟩
    have hsize : (if a.full ≤ 2 * a.padding then none else some (a.full - 2 * a.padding)) =
        some size := Except.ok.inj hsize
    split at hsize
    · cases hsize
    · next hleft => exact ⟨⟨hfull, hcut⟩, Nat.not_le.mp hleft, (Option.some.inj hsize).symm⟩
  · rintro ⟨⟨hfull, hcut⟩, hleft, rfl⟩
    have hsum : (a.size - 1) * a.stride + a.extent ≤ a.full := Nat.le_add_right _ _
    refine ⟨_, ⟨?_, rfl⟩, _, ⟨?_, rfl⟩, _, ⟨?_, rfl⟩, _, ⟨hfull, rfl⟩,
      _, ⟨hcut, rfl⟩, congrArg Except.ok (if_neg (Nat.not_le.mpr hleft))⟩
    all_goals omega

/-! ## One axis -/

/-- A convolution of the result of a transposed convolution has the size from which that started. -/
theorem result_result_true (hsize : 1 ≤ a.size) (hoverhang : a.outputPadding < a.stride)
    (hrange : a.InRange true) (hleft : a.HasOutput true) :
    let back : AxisParams := { a with size := a.result true }
    back.InRange false ∧ back.HasOutput false ∧ back.result false = a.size := by
  obtain ⟨hfull, _⟩ := hrange
  -- with its padding the result is as large as before the padding was cut off
  have hpadded : a.result true + 2 * a.padding = a.full := Nat.sub_add_cancel (Nat.le_of_lt hleft)
  have hextent : a.extent ≤ a.full := by
    unfold full
    omega
  have hsteps : a.full - a.extent = (a.size - 1) * a.stride + a.outputPadding := by
    unfold full
    omega
  have hstride : 0 < a.stride := Nat.zero_lt_of_lt hoverhang
  refine ⟨⟨Nat.le_trans hextent hfull, ?_⟩, ⟨Nat.ne_of_gt hstride, ?_⟩, ?_⟩
  · show a.result true + 2 * a.padding ≤ maxSize
    rw [hpadded]
    exact hfull
  · show a.extent ≤ a.result true + 2 * a.padding
    rw [hpadded]
    exact hextent
  · show (a.result true + 2 * a.padding - a.extent) / a.stride + 1 = a.size
    rw [hpadded, hsteps, Nat.mul_comm, Nat.mul_add_div hstride, Nat.div_eq_of_lt hoverhang]
    omega

/-- A transposed convolution of the result of a convolution, with an output padding that makes up
for what was left over, has the size from which that started. -/
theorem result_result_false (hsize : 1 ≤ a.size) (hrange : a.InRange false)
    (hfits : a.HasOutput false) :
    let back : AxisParams := { a with size := a.result false, outputPadding := a.remainder }
    back.InRange true ∧ back.HasOutput true ∧ back.result true = a.size := by
  obtain ⟨_, hpadded⟩ := hrange
  obtain ⟨hstride, hextent⟩ := hfits
  have hremainder : a.remainder = (a.padded - a.extent) % a.stride := by
    unfold remainder padded extent
    rw [Nat.sub_sub]
  have hfull : (a.result false - 1) * a.stride + a.extent + a.remainder = a.padded := by
    have hsteps : (a.result false - 1) * a.stride + a.remainder = a.padded - a.extent := by
      rw [hremainder]
      exact Nat.div_add_mod' _ _
    omega
  have hsize' : a.padded = a.size + 2 * a.padding := rfl
  refine ⟨⟨?_, ?_⟩, ?_, ?_⟩
  · show (a.result false - 1) * a.stride + a.extent + a.remainder ≤ maxSize
    rw [hfull]
    exact hpadded
  · show 2 * a.padding ≤ maxSize
    omega
  · show 2 * a.padding < (a.result false - 1) * a.stride + a.extent + a.remainder
    omega
  · show (a.result false - 1) * a.stride + a.extent + a.remainder - 2 * a.padding = a.size
    omega

end AxisParams

/-! ## All axes -/

theorem spatialSizes_eq_ok {transposed : Bool} {axes : List AxisParams} {axis : Nat}
    {sizes : List Nat} :
    spatialSizes transposed axis axes = .ok sizes ↔
      (∀ a ∈ axes, a.InRange transposed ∧ a.HasOutput transposed) ∧
      sizes = axes.map (·.result transposed) := by
  induction axes generalizing axis sizes with
  | nil => simp [spatialSizes, eq_comm]
  | cons a rest ih =>
    have hsize (size : Nat) : (if transposed then a.transposedSize? else a.outputSize?) =
        .ok (some size) ↔
        a.InRange transposed ∧ a.HasOutput transposed ∧ size = a.result transposed := by
      cases transposed with
      | false => exact AxisParams.outputSize?_eq_ok
      | true => exact AxisParams.transposedSize?_eq_ok
    rw [spatialSizes_cons, bind_eq_ok, List.forall_mem_cons, List.map_cons]
    constructor
    · rintro ⟨size, hfirst, hrest⟩
      cases size with
      | none => cases hrest
      | some size =>
        obtain ⟨hrange, houtput, rfl⟩ := (hsize size).mp hfirst
        obtain ⟨sizes', hsizes', hcons⟩ := bind_eq_ok.mp hrest
        cases hcons
        obtain ⟨hall, rfl⟩ := ih.mp hsizes'
        exact ⟨⟨⟨hrange, houtput⟩, hall⟩, rfl⟩
    · rintro ⟨⟨⟨hrange, houtput⟩, hall⟩, rfl⟩
      exact ⟨_, (hsize _).mpr ⟨hrange, houtput, rfl⟩, bind_eq_ok.mpr ⟨_, ih.mpr ⟨hall, rfl⟩, rfl⟩⟩

theorem outputShape_eq_ok {input weight output : List Nat} {params : ConvParams} {transposed : Bool} :
    outputShape input weight params transposed = .ok output ↔
      (transposed → weight.getD 1 0 * params.groups ≤ maxSize) ∧
      (∀ a ∈ spatialAxes input weight params, a.InRange transposed ∧ a.HasOutput transposed) ∧
      output = input.getD 0 0 ::
        (if transposed then weight.getD 1 0 * params.groups else weight.getD 0 0) ::
        (spatialAxes input weight params).map (·.result transposed) := by
  have hchannels (channels : Nat) : (if transposed then mulSizes (weight.getD 1 0) params.groups
      else .ok (weight.getD 0 0)) = .ok channels ↔
      (transposed → weight.getD 1 0 * params.groups ≤ maxSize) ∧
        channels = if transposed then weight.getD 1 0 * params.groups else weight.getD 0 0 := by
    cases transposed with
    | false => simp [eq_comm]
    | true => simp [mulSizes_eq_ok]
  rw [outputShape_eq, bind_eq_ok]
  constructor
  · rintro ⟨channels, hcount, hrest⟩
    obtain ⟨hrange, rfl⟩ := (hchannels channels).mp hcount
    obtain ⟨sizes, hsizes, hcons⟩ := bind_eq_ok.mp hrest
    cases hcons
    obtain ⟨hall, rfl⟩ := spatialSizes_eq_ok.mp hsizes
    exact ⟨hrange, hall, rfl⟩
  · rintro ⟨hrange, hall, rfl⟩
    exact ⟨_, (hchannels _).mpr ⟨hrange, rfl⟩,
      bind_eq_ok.mpr ⟨_, spatialSizes_eq_ok.mpr ⟨hall, rfl⟩, rfl⟩⟩

/-- An input and a weight of one rank, and parameters of one group with an entry for each spatial
axis. The input has no spatial axis of size zero, and the sizes of the weight are numbers that sizes
can be. -/
structure Proportioned (input weight : List Nat) (params : ConvParams) : Prop where
  rank : 2 ≤ input.length
  weightRank : weight.length = input.length
  stride : params.stride.length = input.length - 2
  padding : params.padding.length = input.length - 2
  dilation : params.dilation.length = input.length - 2
  outputPadding : params.outputPadding.length = input.length - 2
  groups : params.groups = 1
  positive : ∀ k ∈ input.drop 2, 1 ≤ k
  range : ∀ k ∈ weight, k ≤ maxSize

namespace Proportioned

variable {input weight : List Nat} {params : ConvParams}

theorem length_axes (h : Proportioned input weight params) :
    (spatialAxes input weight params).length = input.length - 2 := by
  simp [spatialAxes, h.weightRank, h.stride, h.padding, h.dilation, h.outputPadding]

theorem map_size (h : Proportioned input weight params) :
    (spatialAxes input weight params).map (·.size) = input.drop 2 := by
  refine List.ext_getElem (by rw [List.length_map, h.length_axes, List.length_drop]) fun i _ _ => ?_
  simp [spatialAxes]

theorem map_outputPadding (h : Proportioned input weight params) :
    (spatialAxes input weight params).map (·.outputPadding) = params.outputPadding := by
  refine List.ext_getElem (by rw [List.length_map, h.length_axes, h.outputPadding]) fun i _ _ => ?_
  simp [spatialAxes]

theorem map_overhang (h : Proportioned input weight params) :
    (spatialAxes input weight params).map (fun a => (a.outputPadding, a.stride)) =
      params.outputPadding.zip params.stride := by
  refine List.ext_getElem
    (by rw [List.length_map, h.length_axes, List.length_zip, h.outputPadding, h.stride, Nat.min_self])
    fun i _ _ => ?_
  simp [spatialAxes]

theorem size_pos (h : Proportioned input weight params) {a : AxisParams}
    (ha : a ∈ spatialAxes input weight params) : 1 ≤ a.size :=
  h.positive _ (h.map_size ▸ List.mem_map_of_mem ha)

theorem input_eq (h : Proportioned input weight params) :
    input = input.getD 0 0 :: input.getD 1 0 :: (spatialAxes input weight params).map (·.size) := by
  rw [h.map_size]
  match input, h.rank with
  | _ :: _ :: _, _ => rfl

theorem axes_of_sizes (h : Proportioned input weight params) (batch channels : Nat)
    (size overhang : AxisParams → Nat) :
    spatialAxes (batch :: channels :: (spatialAxes input weight params).map size) weight
        { params with outputPadding := (spatialAxes input weight params).map overhang } =
      (spatialAxes input weight params).map fun a =>
        { a with size := size a, outputPadding := overhang a } := by
  have hlength : (spatialAxes (batch :: channels :: (spatialAxes input weight params).map size) weight
      { params with outputPadding := (spatialAxes input weight params).map overhang }).length =
        input.length - 2 := by
    rw [spatialAxes]
    simp [h.length_axes, h.weightRank, h.stride, h.padding, h.dilation]
  refine List.ext_getElem (by rw [hlength, List.length_map, h.length_axes]) fun i _ _ => ?_
  simp [spatialAxes]

end Proportioned

/-- Convolution and transposed convolution undo each other on shapes. The shape of a transposed
convolution whose output padding is smaller than its stride is one of which a convolution makes the
shape of the input. The shape of a convolution is one of which a transposed convolution makes the
shape of the input, if its output padding is what the convolution leaves over. -/
theorem outputShape_inverse {input weight output : List Nat} {params : ConvParams}
    (h : Proportioned input weight params) :
    (input[1]? = weight[0]? → (∀ p ∈ params.outputPadding.zip params.stride, p.1 < p.2) →
        outputShape input weight params true = .ok output →
          outputShape output weight params false = .ok input) ∧
      (input[1]? = weight[1]? → outputShape input weight params false = .ok output →
        outputShape output weight
          { params with outputPadding := (spatialAxes input weight params).map (·.remainder) } true =
          .ok input) := by
  constructor
  · intro hchannels hoverhang houtput
    obtain ⟨_, hall, rfl⟩ := outputShape_eq_ok.mp houtput
    have haxes := h.axes_of_sizes (input.getD 0 0) (weight.getD 1 0 * params.groups)
      (·.result true) (·.outputPadding)
    rw [h.map_outputPadding] at haxes
    have hback (a : AxisParams) (ha : a ∈ spatialAxes input weight params) :=
      AxisParams.result_result_true (h.size_pos ha)
        (hoverhang (a.outputPadding, a.stride) (h.map_overhang ▸ List.mem_map_of_mem ha))
        (hall a ha).1 (hall a ha).2
    refine outputShape_eq_ok.mpr ⟨fun hfalse => absurd hfalse Bool.false_ne_true, ?_, ?_⟩
    · rw [if_pos rfl, haxes, List.forall_mem_map]
      exact fun a ha => ⟨(hback a ha).1, (hback a ha).2.1⟩
    · rw [if_pos rfl, haxes, List.map_map, if_neg Bool.false_ne_true, List.getD_cons_zero]
      refine h.input_eq.trans
        (congrArg₂ _ rfl (congrArg₂ _ ?_ (List.map_congr_left fun a ha => (hback a ha).2.2.symm)))
      rw [List.getD_eq_getElem?_getD, List.getD_eq_getElem?_getD, hchannels]
  · intro hchannels houtput
    obtain ⟨_, hall, rfl⟩ := outputShape_eq_ok.mp houtput
    have haxes := h.axes_of_sizes (input.getD 0 0) (weight.getD 0 0) (·.result false) (·.remainder)
    have hback (a : AxisParams) (ha : a ∈ spatialAxes input weight params) :=
      AxisParams.result_result_false (h.size_pos ha) (hall a ha).1 (hall a ha).2
    have hgroups : weight.getD 1 0 * params.groups = input.getD 1 0 := by
      rw [h.groups, Nat.mul_one, List.getD_eq_getElem?_getD, List.getD_eq_getElem?_getD, hchannels]
    refine outputShape_eq_ok.mpr ⟨fun _ => ?_, ?_, ?_⟩
    · have hsecond : 1 < weight.length := h.weightRank ▸ h.rank
      show weight.getD 1 0 * params.groups ≤ maxSize
      rw [h.groups, Nat.mul_one, List.getD_eq_getElem _ _ hsecond]
      exact h.range _ (List.getElem_mem hsecond)
    · rw [if_neg Bool.false_ne_true, haxes, List.forall_mem_map]
      exact fun a ha => ⟨(hback a ha).1, (hback a ha).2.1⟩
    · rw [if_neg Bool.false_ne_true, haxes, List.map_map, if_pos rfl, List.getD_cons_zero]
      exact h.input_eq.trans (congrArg₂ _ rfl
        (congrArg₂ _ hgroups.symm (List.map_congr_left fun a ha => (hback a ha).2.2.symm)))

/-- Strides two and three, padding on one axis and dilation on the other. -/
def stridedParams : ConvParams :=
  ⟨[2, 3], [1, 0], [1, 2], [1, 2], 1⟩

theorem outputShape_inverse_strided :
    outputShape [1, 4, 5, 6] [4, 2, 3, 3] stridedParams true = .ok [1, 2, 10, 22] ∧
      outputShape [1, 2, 10, 22] [4, 2, 3, 3] stridedParams false = .ok [1, 4, 5, 6] ∧
      outputShape [1, 2, 8, 9] [4, 2, 3, 3] stridedParams false = .ok [1, 4, 4, 2] ∧
      outputShape [1, 4, 4, 2] [4, 2, 3, 3] { stridedParams with outputPadding := [1, 1] } true =
        .ok [1, 2, 8, 9] := by
  have hwidened : outputShape [1, 4, 5, 6] [4, 2, 3, 3] stridedParams true = .ok [1, 2, 10, 22] := rfl
  have hnarrowed : outputShape [1, 2, 8, 9] [4, 2, 3, 3] stridedParams false = .ok [1, 4, 4, 2] := rfl
  have hproportioned (input : List Nat) (hlength : input.length = 4)
      (hpositive : ∀ k ∈ input.drop 2, 1 ≤ k) :
      Proportioned input [4, 2, 3, 3] stridedParams :=
    ⟨by omega, hlength.symm, by rw [hlength]; rfl, by rw [hlength]; rfl, by rw [hlength]; rfl,
      by rw [hlength]; rfl, rfl, hpositive, by decide⟩
  refine ⟨hwidened, ?_, hnarrowed, ?_⟩
  · exact (outputShape_inverse (hproportioned [1, 4, 5, 6] rfl (by decide))).1 rfl (by decide) hwidened
  · exact (outputShape_inverse (hproportioned [1, 2, 8, 9] rfl (by decide))).2 rfl hnarrowed

end GraphLowering.Command
