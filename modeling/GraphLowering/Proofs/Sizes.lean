import GraphLowering.Proofs.Drafts
import GraphLowering.Proofs.Permutations
import Mathlib.Algebra.BigOperators.Group.List.Basic
import Mathlib.Algebra.BigOperators.Ring.List
import Mathlib.Algebra.Group.Nat.Defs
import Mathlib.Algebra.GroupWithZero.Nat

/-!
# The sizes of drafted tensors

What sizes a draft declares for the tensors it registers, when those of the operands are known:
permuted sizes for a copy in another layout, and a unit axis after the channels for the operands of
a convolution along a line.
-/

namespace GraphLowering

variable {g : Graph} {first : Nat}

/-- The element count stops at the largest size. -/
theorem Shape.elementCount_eq (s : Shape) : s.elementCount = min s.dims.prod maxSize := by
  have hfold (dims : List Nat) (n : Nat) (hn : n ≤ maxSize) :
      dims.foldl (fun n d => min (n * d) maxSize) n = min (n * dims.prod) maxSize := by
    induction dims generalizing n with
    | nil =>
      rw [List.foldl_nil, List.prod_nil, Nat.mul_one, Nat.min_eq_left hn]
    | cons d dims ih =>
      rw [List.foldl_cons, ih _ (Nat.min_le_right _ _), List.prod_cons, ← Nat.mul_assoc]
      rcases Nat.le_total (n * d) maxSize with hle | hle
      · rw [Nat.min_eq_left hle]
      · -- once the count has stopped, only an empty axis changes it
        rw [Nat.min_eq_right hle]
        rcases Nat.eq_zero_or_pos dims.prod with hzero | hpos
        · rw [hzero, Nat.mul_zero, Nat.mul_zero]
        · rw [Nat.min_eq_right (Nat.le_mul_of_pos_right _ hpos),
            Nat.min_eq_right (Nat.le_trans hle (Nat.le_mul_of_pos_right _ hpos))]
  have hone : (1 : Nat) ≤ maxSize := by decide
  unfold elementCount
  rw [hfold s.dims 1 hone, Nat.one_mul]

theorem Shape.addressable_iff {s : Shape} :
    s.addressable ↔ (s.dims.filter (· ≠ 0)).prod ≤ maxBufferSize := by
  unfold addressable
  rw [decide_eq_true_eq, List.prod_eq_foldl]

theorem Shape.prod_le_of_addressable {s : Shape} (h : s.addressable) : s.dims.prod ≤ maxBufferSize := by
  by_cases hzero : 0 ∈ s.dims
  · rw [List.prod_eq_zero hzero]
    exact Nat.zero_le _
  · have hkept : s.dims.filter (· ≠ 0) = s.dims := by
      refine List.filter_eq_self.mpr fun d hd => decide_eq_true ?_
      rintro rfl
      exact hzero hd
    rw [addressable_iff, hkept] at h
    exact h

theorem Shape.elementCount_of_addressable {s : Shape} (h : s.addressable) :
    s.elementCount = s.dims.prod := by
  rw [elementCount_eq]
  exact Nat.min_eq_left (Nat.le_trans (prod_le_of_addressable h) (by decide))

theorem Shape.perm_insertAxis (s : Shape) (axis : Nat) : (s.insertAxis axis).dims.Perm (1 :: s.dims) :=
  List.perm_insertIdx 1 s.dims (Nat.min_le_right _ _)

theorem Shape.prod_insertAxis (s : Shape) (axis : Nat) :
    (s.insertAxis axis).dims.prod = s.dims.prod := by
  rw [(s.perm_insertAxis axis).prod_eq, List.prod_cons, Nat.one_mul]

theorem Shape.elementCount_insertAxis (s : Shape) (axis : Nat) :
    (s.insertAxis axis).elementCount = s.elementCount := by
  rw [elementCount_eq, elementCount_eq, prod_insertAxis]

theorem Shape.addressable_insertAxis {s : Shape} {axis : Nat} :
    (s.insertAxis axis).addressable ↔ s.addressable := by
  rw [addressable_iff, addressable_iff, ((s.perm_insertAxis axis).filter _).prod_eq,
    List.filter_cons_of_pos rfl, List.prod_cons, Nat.one_mul]

/-- A unit axis changes neither the number of elements nor whether a buffer can have the shape. -/
theorem Buffer.reshaped?_insertAxis_isSome {b : Buffer} {s : Shape} {axis : Nat} :
    (b.reshaped? (s.insertAxis axis)).isSome ↔ b.size = s.elementCount ∧ s.addressable := by
  unfold reshaped?
  rw [Option.isSome_ite, Shape.elementCount_insertAxis, Shape.addressable_insertAxis, eq_comm]

theorem Elements.size_repeatFirst? {elements copies : Elements} {n : Nat}
    (h : elements.repeatFirst? n = some copies) :
    copies.size = n := by
  cases elements with
  | f32 values | i32 values | i64 values | i8 values | u8 values =>
    obtain ⟨x, _, rfl⟩ := Option.map_eq_some_iff.mp h
    rfl

theorem Elements.elementType_repeatFirst? {elements copies : Elements} {n : Nat}
    (h : elements.repeatFirst? n = some copies) :
    copies.elementType = elements.elementType := by
  cases elements with
  | f32 values | i32 values | i64 values | i8 values | u8 values =>
    obtain ⟨x, _, rfl⟩ := Option.map_eq_some_iff.mp h
    rfl

/-! ## Layouts -/

namespace Layout

variable {perm : List Nat} {source result input output : TensorId}
  {b : Bracket} {t : Tensor} {batch channels height width : Nat}

theorem Permuted.declared (h : Permuted g first perm source result) {t : Tensor}
    (ht : g.tensor? source = some t) :
    IsPermutation perm t.shape.dims.length ∧
      ∃ r, g.tensor? result = some r ∧ r.shape.dims = perm.map (t.shape.dims.getD · 0) := by
  obtain ⟨t', shape, ht', hshape, _, _, hresult⟩ := h
  rw [ht] at ht'
  cases ht'
  have hperm := Shape.permuted?_isSome_iff.mp (Option.isSome_of_eq_some hshape)
  rw [Shape.permuted?_eq_some hperm] at hshape
  cases hshape
  exact ⟨hperm, _, hresult, rfl⟩

theorem Permuted.elementType (h : Permuted g first perm source result) {t r : Tensor}
    (ht : g.tensor? source = some t) (hr : g.tensor? result = some r) :
    r.elementType = t.elementType := by
  obtain ⟨t', shape, ht', _, _, _, hresult⟩ := h
  cases ht.symm.trans ht'
  cases hr.symm.trans hresult
  rfl

theorem Brackets.declared_input (h : Brackets g first input output b) (ht : g.tensor? input = some t)
    (himage : t.shape.dims = [batch, channels, height, width]) :
    ∃ r, g.tensor? b.input = some r ∧ r.shape.dims = [batch, height, width, channels] := by
  obtain ⟨_, r, hr, hrDims⟩ := h.input.declared ht
  rw [himage] at hrDims
  exact ⟨r, hr, hrDims⟩

theorem Brackets.declared_output (h : Brackets g first input output b) (ht : g.tensor? output = some t)
    (himage : t.shape.dims = [batch, channels, height, width]) :
    ∃ r, g.tensor? b.output = some r ∧ r.shape.dims = [batch, height, width, channels] := by
  obtain ⟨_, r, hr, hrDims⟩ := h.output.declared ht
  rw [himage] at hrDims
  exact ⟨r, hr, hrDims⟩

end Layout

/-! ## A unit axis -/

namespace Lift

theorem parameterObjection?_eq_none {params : ConvParams} {spatial : Nat} :
    parameterObjection? params spatial = none ↔
      (params.stride.length = spatial ∧ params.padding.length = spatial ∧
        params.dilation.length = spatial) ∧
        0 ∉ params.stride ∧ 0 ∉ params.dilation := by
  simp [parameterObjection?]

variable {source result : TensorId} {op : Operator} {t : Tensor} {a b c : Nat}

theorem insertAxis_line {shape : Shape} (h : shape.dims = [a, b, c]) :
    (shape.insertAxis axis).dims = [a, b, 1, c] := by
  unfold Shape.insertAxis Shape.rank
  rw [h]
  rfl

theorem Expands.declared (h : Expands g first source result op) (ht : g.tensor? source = some t)
    (hline : t.shape.dims = [a, b, c]) :
    ∃ r, g.tensor? result = some r ∧ r.shape.dims = [a, b, 1, c] := by
  obtain ⟨t', _, ht', _, ⟨_, _, hresult⟩, _⟩ := h
  rw [ht] at ht'
  cases ht'
  exact ⟨_, hresult, insertAxis_line hline⟩

theorem ExpandsWeight.declared {weight : TensorId} {ops : List Operator}
    (h : ExpandsWeight g first weight ops result) (ht : g.tensor? weight = some t)
    (hline : t.shape.dims = [a, b, c]) :
    ∃ r, g.tensor? result = some r ∧ r.shape.dims = [a, b, 1, c] := by
  cases h with
  | folded hknown _ hreshaped _ hdrafted =>
    rw [ht] at hknown
    cases hknown
    obtain rfl := Buffer.eq_of_reshaped? hreshaped
    exact ⟨_, hdrafted.2, insertAxis_line hline⟩
  | reshaped hexpands => exact hexpands.declared ht hline

theorem Collapses.declared (h : Collapses g first source result op)
    (ht : g.tensor? result = some t) (hline : t.shape.dims = [a, b, c]) :
    ∃ r, g.tensor? source = some r ∧ r.shape.dims = [a, b, 1, c] := by
  obtain ⟨t', _, ht', _, ⟨_, _, hsource⟩, _⟩ := h
  rw [ht] at ht'
  cases ht'
  exact ⟨_, hsource, insertAxis_line hline⟩

/-! ## Lines and images -/

theorem valid_lifted {params : ConvParams} (h : parameterObjection? params 1 = none) :
    parameterObjection? params.lifted 2 = none := by
  obtain ⟨⟨hstride, hpadding, hdilation⟩, hpositive, hpositive'⟩ := parameterObjection?_eq_none.mp h
  simp [parameterObjection?, ConvParams.lifted, hstride, hpadding, hdilation, hpositive, hpositive']

theorem Ranked.ranks {input weight output : TensorId} {rank : Nat} {tx tw ty : Tensor}
    (h : Ranked g input weight output rank) (hx : g.tensor? input = some tx)
    (hw : g.tensor? weight = some tw) (hy : g.tensor? output = some ty) :
    tx.rank = rank ∧ tw.rank = rank ∧ ty.rank = rank := by
  obtain ⟨x, w, y, hx', hw', hy', hranks⟩ := h
  obtain rfl : tx = x := Option.some.inj (hx.symm.trans hx')
  obtain rfl : tw = w := Option.some.inj (hw.symm.trans hw')
  obtain rfl : ty = y := Option.some.inj (hy.symm.trans hy')
  exact hranks

theorem LiftsTo.take_two {input weight output : TensorId} {params : ConvParams} {l : Lifted}
    {tx tw ty x w : Tensor} (h : LiftsTo g first input weight output params l)
    (hx : g.tensor? input = some tx) (hw : g.tensor? weight = some tw)
    (hy : g.tensor? output = some ty) (hx' : g.tensor? l.input = some x)
    (hw' : g.tensor? l.weight = some w) :
    x.shape.dims.take 2 = tx.shape.dims.take 2 ∧ w.shape.dims.take 2 = tw.shape.dims.take 2 := by
  cases h with
  | image _ _ =>
    cases hx.symm.trans hx'
    cases hw.symm.trans hw'
    exact ⟨rfl, rfl⟩
  | line hranked _ hinput hweight _ =>
    obtain ⟨hxRank, hwRank, _⟩ := hranked.ranks hx hw hy
    obtain ⟨a, b, c, hxDims⟩ := List.length_eq_three.mp hxRank
    obtain ⟨a', b', c', hwDims⟩ := List.length_eq_three.mp hwRank
    obtain ⟨x₁, hx₁, hx₁Dims⟩ := hinput.declared hx hxDims
    obtain ⟨w₁, hw₁, hw₁Dims⟩ := hweight.declared hw hwDims
    cases hx₁.symm.trans hx'
    cases hw₁.symm.trans hw'
    rw [hxDims, hwDims, hx₁Dims, hw₁Dims]
    exact ⟨rfl, rfl⟩

theorem LiftsTo.forall_mem {input weight output : TensorId} {params : ConvParams} {l : Lifted}
    (h : LiftsTo g first input weight output params l) {P : Operator → Prop}
    (hexpands : ∀ source result op, Expands g first source result op → P op)
    (hcollapses : ∀ source result op, Collapses g first source result op → P op) :
    ∀ op ∈ l.before ++ l.after, P op := by
  cases h with
  | image _ _ => exact List.forall_mem_nil _
  | line _ _ hinput hweight houtput =>
    have hafter := List.forall_mem_singleton.mpr (hcollapses _ _ _ houtput)
    refine List.forall_mem_cons.mpr ⟨hexpands _ _ _ hinput, ?_⟩
    cases hweight with
    | folded _ _ _ _ _ => exact hafter
    | reshaped hweight => exact List.forall_mem_cons.mpr ⟨hexpands _ _ _ hweight, hafter⟩

theorem LiftsTo.reshapes {input weight output : TensorId} {params : ConvParams} {l : Lifted}
    (h : LiftsTo g first input weight output params l) :
    ∀ op ∈ l.before ++ l.after, ∃ shape, op.kind = .reshape shape := by
  refine h.forall_mem ?_ ?_
  · rintro _ _ _ ⟨_, _, _, _, _, shape, _, _, _, rfl⟩
    exact ⟨shape, rfl⟩
  · rintro _ _ _ ⟨_, _, _, _, _, shape, _, _, _, rfl⟩
    exact ⟨shape, rfl⟩

structure Lays (g : Graph) (l : Lifted) (x w out : Tensor) : Prop where
  input : g.tensor? l.input = some x
  weight : g.tensor? l.weight = some w
  output : g.tensor? l.output = some out
  ranks : x.rank = 4 ∧ w.rank = 4 ∧ out.rank = 4
  valid : parameterObjection? l.params 2 = none

/-- Sizes with a unit axis after the channels, if there is one spatial axis. -/
def raise : List Nat → List Nat
  | [a, b, c] => [a, b, 1, c]
  | dims => dims

theorem raise_of_four {dims : List Nat} (h : dims.length = 4) : raise dims = dims := by
  obtain ⟨a, b, c, d, rfl⟩ := List.length_eq_four.mp h
  rfl

theorem getElem?_raise (dims : List Nat) {i : Nat} (hi : i < 2) : (raise dims)[i]? = dims[i]? := by
  unfold raise
  split
  · obtain rfl | rfl : i = 0 ∨ i = 1 := by omega
    · rfl
    · rfl
  · rfl

theorem mem_raise {dims : List Nat} {k : Nat} (h : k ∈ raise dims) : k = 1 ∨ k ∈ dims := by
  unfold raise at h
  split at h
  · simp only [List.mem_cons, List.not_mem_nil, or_false] at h ⊢
    tauto
  · exact .inr h

theorem entries_of_raise {dims dims' : List Nat} {a b c d : Nat} (hraised : dims' = raise dims)
    (h : dims' = [a, b, c, d]) :
    dims[0]? = some a ∧ dims[1]? = some b := by
  rw [← getElem?_raise dims Nat.two_pos, ← getElem?_raise dims Nat.one_lt_two, ← hraised, h]
  exact ⟨rfl, rfl⟩

/-- The operands of a convolution of images come from those of a composite, whose rank is three or
four. -/
structure Raised (g : Graph) (input weight output : TensorId)
    (params : ConvParams) (l : Lifted) (x w y x' w' y' : Tensor) : Prop where
  input : g.tensor? input = some x
  weight : g.tensor? weight = some w
  output : g.tensor? output = some y
  lays : Lays g l x' w' y'
  inputDims : x'.shape.dims = raise x.shape.dims
  weightDims : w'.shape.dims = raise w.shape.dims
  outputDims : y'.shape.dims = raise y.shape.dims
  types : x'.elementType = x.elementType ∧ y'.elementType = y.elementType
  ranks : w.rank = x.rank ∧ y.rank = x.rank
  params : x.rank = 4 ∧ l.params = params ∨ x.rank = 3 ∧ l.params = params.lifted

theorem LiftsTo.raised {input weight output : TensorId} {params : ConvParams} {l : Lifted}
    (h : LiftsTo g first input weight output params l) :
    ∃ x w y x' w' y', Raised g input weight output params l x w y x' w' y' := by
  cases h with
  | image hranked hvalid =>
    obtain ⟨x, w, y, hx, hw, hy, hxRank, hwRank, hyRank⟩ := hranked
    refine ⟨x, w, y, x, w, y, hx, hw, hy, ⟨hx, hw, hy, ⟨hxRank, hwRank, hyRank⟩, hvalid⟩, ?_,
      ?_, ?_, ⟨rfl, rfl⟩, ⟨hwRank.trans hxRank.symm, hyRank.trans hxRank.symm⟩, .inl ⟨hxRank, rfl⟩⟩
    · exact (raise_of_four hxRank).symm
    · exact (raise_of_four hwRank).symm
    · exact (raise_of_four hyRank).symm
  | line hranked hvalid hinput hweight houtput =>
    obtain ⟨x, w, y, hx, hw, hy, hxRank, hwRank, hyRank⟩ := hranked
    obtain ⟨a, b, c, hxDims⟩ := List.length_eq_three.mp hxRank
    obtain ⟨a', b', c', hwDims⟩ := List.length_eq_three.mp hwRank
    obtain ⟨a'', b'', c'', hyDims⟩ := List.length_eq_three.mp hyRank
    obtain ⟨w', hw', hwDims'⟩ := hweight.declared hw hwDims
    obtain ⟨_, _, hx₁, _, ⟨_, _, hx'⟩, _⟩ := hinput
    cases hx.symm.trans hx₁
    obtain ⟨_, _, hy₁, _, ⟨_, _, hy'⟩, _⟩ := houtput
    cases hy.symm.trans hy₁
    have hxDims' := insertAxis_line hxDims
    have hyDims' := insertAxis_line hyDims
    refine ⟨x, w, y, _, w', _, hx, hw, hy, ⟨hx', hw', hy', ⟨?_, ?_, ?_⟩, valid_lifted hvalid⟩, ?_,
      ?_, ?_, ⟨rfl, rfl⟩, ⟨hwRank.trans hxRank.symm, hyRank.trans hxRank.symm⟩, .inr ⟨hxRank, rfl⟩⟩
    · exact congrArg List.length hxDims'
    · exact congrArg List.length hwDims'
    · exact congrArg List.length hyDims'
    · rw [hxDims]
      exact hxDims'
    · rw [hwDims]
      exact hwDims'
    · rw [hyDims]
      exact hyDims'

namespace Raised

variable {input weight output : TensorId} {params : ConvParams} {l : Lifted} {x w y x' w' y' : Tensor}

theorem groups (h : Raised g input weight output params l x w y x' w' y') :
    l.params.groups = params.groups := by
  rcases h.params with ⟨_, hparams⟩ | ⟨_, hparams⟩
  · rw [hparams]
  · rw [hparams]
    rfl

theorem strides (h : Raised g input weight output params l x w y x' w' y') {P : Nat → Prop}
    (hone : P 1) :
    (∀ s ∈ l.params.stride, P s) ↔ ∀ s ∈ params.stride, P s := by
  rcases h.params with ⟨_, hparams⟩ | ⟨_, hparams⟩
  · rw [hparams]
  · rw [hparams]
    exact List.forall_mem_cons.trans (and_iff_right hone)

theorem dilations (h : Raised g input weight output params l x w y x' w' y') {P : Nat → Prop}
    (hone : P 1) :
    (∀ s ∈ l.params.dilation, P s) ↔ ∀ s ∈ params.dilation, P s := by
  rcases h.params with ⟨_, hparams⟩ | ⟨_, hparams⟩
  · rw [hparams]
  · rw [hparams]
    exact List.forall_mem_cons.trans (and_iff_right hone)

theorem positive (h : Raised g input weight output params l x w y x' w' y') :
    0 ∉ params.stride ∧ 0 ∉ params.dilation := by
  obtain ⟨_, hstride, hdilation⟩ := parameterObjection?_eq_none.mp h.lays.valid
  rcases h.params with ⟨_, hparams⟩ | ⟨_, hparams⟩
  · rw [hparams] at hstride hdilation
    exact ⟨hstride, hdilation⟩
  · rw [hparams] at hstride hdilation
    exact ⟨fun hzero => hstride (List.mem_cons_of_mem _ hzero),
      fun hzero => hdilation (List.mem_cons_of_mem _ hzero)⟩

theorem hasPadding (h : Raised g input weight output params l x w y x' w' y') :
    l.params.hasPadding = params.hasPadding := by
  rcases h.params with ⟨_, hparams⟩ | ⟨_, hparams⟩
  · rw [hparams]
  · rw [hparams]
    simp [ConvParams.hasPadding, ConvParams.lifted]

theorem padding (h : Raised g input weight output params l x w y x' w' y') {t t' : Tensor}
    (hrank : t.rank = x.rank) (hdims : t'.shape.dims = raise t.shape.dims) {P : Nat × Nat → Prop}
    (hunit : P (0, 1)) :
    (∀ p ∈ l.params.padding.zip (t'.shape.dims.drop 2), P p) ↔
    ∀ p ∈ params.padding.zip (t.shape.dims.drop 2), P p := by
  rcases h.params with ⟨hx, hparams⟩ | ⟨hx, hparams⟩
  · rw [hparams, hdims, raise_of_four (hrank.trans hx)]
  · obtain ⟨a, b, c, hline⟩ := List.length_eq_three.mp (hrank.trans hx)
    rw [hparams, hdims, hline]
    exact List.forall_mem_cons.trans (and_iff_right hunit)

end Raised

end Lift

end GraphLowering
