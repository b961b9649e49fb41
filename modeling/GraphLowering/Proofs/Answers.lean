import GraphLowering.Command.Sample
import GraphLowering.Proofs.Permutations
import Mathlib.Algebra.Group.Nat.Defs

/-!
# What a description is answered with

A description is refused, or there is no memory for its constants, or it has a sample graph.
`Command.Answers` says which of these happens. The sizes of the output are computed with 64-bit
numbers; for numbers below 2 ^ 31 none of the computations leaves their range
(`spatialSizes_answers`).
-/

namespace GraphLowering.Command

/-- A description is refused unless it meets a condition. If it does, there is a value with a
property, or else no memory, or numbers that are not small lead out of the range of the sizes. -/
def Answers (small : Prop) {α : Type} (m : Except SampleStop α) (met : Prop) (post : α → Prop) : Prop :=
  match m with
  | .ok a => met ∧ post a
  | .error (.refused _) => ¬ met
  | .error (.fault fault) => small → fault = .bufferSize

variable {small : Prop}

namespace Answers

variable {α β : Type} {m : Except SampleStop α} {f : α → Except SampleStop β}
  {met met' : Prop} {P P' : α → Prop} {Q : β → Prop}

theorem pure {a : α} (h : P a) : Answers small (.ok a) True P :=
  ⟨trivial, h⟩

theorem refused {complaint : Complaint} (h : ¬ met) :
    Answers small (.error (.refused complaint)) met P :=
  h

theorem mono (h : Answers small m met P) (hmet : met ↔ met') (hP : ∀ a, met → P a → P' a) :
    Answers small m met' P' := by
  unfold Answers at h ⊢
  split
  · exact ⟨hmet.mp h.1, hP _ h.1 h.2⟩
  · exact fun hmet' => h (hmet.mpr hmet')
  · exact h

theorem bind (hm : Answers small m met P) (hf : ∀ a, P a → Answers small (f a) met' Q) :
    Answers small (m >>= f) (met ∧ met') Q := by
  match m, hm with
  | .ok a, ⟨hmet, ha⟩ => exact (hf a ha).mono (and_iff_right hmet).symm fun _ _ hb => hb
  | .error (.refused _), hunmet => exact fun h => hunmet h.1
  | .error (.fault _), hfault => exact hfault

theorem andThen (hm : Answers small m True P) (hf : ∀ a, P a → Answers small (f a) met Q) :
    Answers small (m >>= f) met Q :=
  (hm.bind hf).mono (and_iff_right trivial) fun _ _ hb => hb

end Answers

theorem addSizes_answers {a b : Nat} (h : small → a + b ≤ maxSize) :
    Answers small (addSizes a b) True (· = a + b) := by
  unfold addSizes
  split
  · exact .pure rfl
  · next hlarge => exact fun hsmall => absurd (h hsmall) hlarge

theorem mulSizes_answers {a b : Nat} (h : small → a * b ≤ maxSize) :
    Answers small (mulSizes a b) True (· = a * b) := by
  unfold mulSizes
  split
  · exact .pure rfl
  · next hlarge => exact fun hsmall => absurd (h hsmall) hlarge

theorem newBuffer_answers (b : Buffer) :
    Answers small (newBuffer b) True fun b' => b' = b ∧ b.fits := by
  unfold newBuffer
  split
  · next hfits => exact .pure ⟨rfl, hfits⟩
  · exact fun _ => rfl

theorem copies_answers {α : Type} (width count : Nat) (x : α) :
    Answers small (copies width count x) True fun _ => True := by
  unfold copies
  split
  · exact .pure trivial
  · exact fun _ => rfl

/-! ## Options with a value for each axis -/

def valueOn (values : List Nat) (default axis : Nat) : Nat :=
  match values with
  | [] => default
  | [v] => v
  | values => values.getD axis default

/-- An option with no value, one value, or one for each spatial axis. -/
def CoversAxes (values : List Nat) (spatial : Nat) : Prop :=
  values.length = 0 ∨ values.length = 1 ∨ values.length = spatial

theorem getD_lt {values : List Nat} {default bound : Nat} (h : ∀ n ∈ values, n < bound)
    (hdefault : default < bound) (i : Nat) :
    values.getD i default < bound := by
  rw [List.getD_eq_getElem?_getD]
  cases hi : values[i]? with
  | none => exact hdefault
  | some n => exact h n (List.mem_of_getElem? hi)

theorem map_range_const (spatial value : Nat) :
    (List.range spatial).map (fun _ => value) = List.replicate spatial value := by
  rw [List.map_const', List.length_range]

theorem perSpatialAxis_answers (option : String) (values : List Nat) (spatial default : Nat) :
    Answers small (perSpatialAxis option values spatial default) (CoversAxes values spatial)
      (· = (List.range spatial).map (valueOn values default)) := by
  unfold perSpatialAxis
  match values with
  | [] => exact ⟨.inl rfl, (map_range_const spatial default).symm⟩
  | [v] => exact ⟨.inr (.inl rfl), (map_range_const spatial v).symm⟩
  | v :: v' :: rest =>
    by_cases hlength : (v :: v' :: rest).length = spatial
    · simp only [hlength]
      refine ⟨.inr (.inr hlength), ?_⟩
      rw [← hlength]
      exact (map_range_getD _ default).symm
    · simp only [hlength]
      rintro (h | h | h)
      · exact nomatch h
      · exact nomatch h
      · exact hlength h

/-! ## Sizes of outputs -/

namespace AxisParams

def extent (a : AxisParams) : Nat :=
  a.dilation * (a.kernel - 1) + 1

def padded (a : AxisParams) : Nat :=
  a.size + 2 * a.padding

def full (a : AxisParams) : Nat :=
  (a.size - 1) * a.stride + a.extent + a.outputPadding

def HasOutput (a : AxisParams) : Bool → Prop
  | false => a.stride ≠ 0 ∧ a.extent ≤ a.padded
  | true => 2 * a.padding < a.full

def result (a : AxisParams) : Bool → Nat
  | false => (a.padded - a.extent) / a.stride + 1
  | true => a.full - 2 * a.padding

/-- All numbers are below 2 ^ 31. -/
structure Small (a : AxisParams) : Prop where
  size : a.size < 2 ^ 31
  kernel : a.kernel < 2 ^ 31
  stride : a.stride < 2 ^ 31
  padding : a.padding < 2 ^ 31
  dilation : a.dilation < 2 ^ 31
  outputPadding : a.outputPadding < 2 ^ 31

variable {a : AxisParams}

theorem mul_lt_of_small {m n : Nat} (hm : m < 2 ^ 31) (hn : n < 2 ^ 31) : m * n < 2 ^ 62 :=
  calc m * n < 2 ^ 31 * 2 ^ 31 := Nat.mul_lt_mul'' hm hn
    _ = 2 ^ 62 := by decide

theorem Small.extent_le (h : a.Small) : a.extent ≤ 2 ^ 62 :=
  mul_lt_of_small h.dilation (Nat.lt_of_le_of_lt (Nat.sub_le _ 1) h.kernel)

theorem span_answers (h : small → a.Small) : Answers small a.span True (· = a.extent) := by
  have hextent (hsmall : small) : a.dilation * (a.kernel - 1) + 1 ≤ 2 ^ 62 := (h hsmall).extent_le
  refine Answers.andThen (mulSizes_answers fun hsmall => ?_) fun _ hproduct => ?_
  · have := hextent hsmall
    unfold maxSize
    omega
  · subst hproduct
    refine addSizes_answers fun hsmall => ?_
    have := hextent hsmall
    unfold maxSize
    omega

theorem outputSize?_answers (h : small → a.Small) :
    Answers small a.outputSize? True
      (· = if a.stride ≠ 0 ∧ a.extent ≤ a.padded then some (a.result false) else none) := by
  have hpadded (hsmall : small) : a.size + 2 * a.padding ≤ maxSize := by
    have hsize := (h hsmall).size
    have hpadding := (h hsmall).padding
    unfold maxSize
    omega
  refine Answers.andThen (span_answers h) fun span hspan => ?_
  refine Answers.andThen (mulSizes_answers fun hsmall =>
    Nat.le_trans (Nat.le_add_left _ _) (hpadded hsmall)) fun twice htwice => ?_
  subst hspan htwice
  refine Answers.andThen (addSizes_answers hpadded) fun padded hpadded => ?_
  subst hpadded
  refine Answers.pure ?_
  by_cases hfits : a.stride ≠ 0 ∧ a.extent ≤ a.padded
  · rw [if_pos hfits, if_neg]
    · rfl
    · rintro (hsmall | hzero)
      · exact Nat.not_lt.mpr hfits.2 hsmall
      · exact hfits.1 hzero
  · rw [if_neg hfits, if_pos]
    by_cases hzero : a.stride = 0
    · exact .inr hzero
    · exact .inl (Nat.not_le.mp fun hle => hfits ⟨hzero, hle⟩)

theorem transposedSize?_answers (h : small → a.Small) :
    Answers small a.transposedSize? True
      (· = if 2 * a.padding < a.full then some (a.result true) else none) := by
  have hfull (hsmall : small) : (a.size - 1) * a.stride + a.extent + a.outputPadding ≤ maxSize := by
    have hproduct :=
      mul_lt_of_small (Nat.lt_of_le_of_lt (Nat.sub_le _ 1) (h hsmall).size) (h hsmall).stride
    have hextent := (h hsmall).extent_le
    have houtput := (h hsmall).outputPadding
    unfold maxSize
    omega
  refine Answers.andThen (span_answers h) fun span hspan =>
    Answers.andThen (mulSizes_answers fun hsmall => ?_) fun product hproduct => ?_
  · have := hfull hsmall
    omega
  subst hspan hproduct
  refine Answers.andThen (addSizes_answers fun hsmall => ?_) fun sum hsum => ?_
  · have := hfull hsmall
    omega
  subst hsum
  refine Answers.andThen (addSizes_answers hfull) fun full hfull => ?_
  subst hfull
  refine Answers.andThen (mulSizes_answers fun hsmall => ?_) fun cut hcut => ?_
  · have hpadding := (h hsmall).padding
    unfold maxSize
    omega
  subst hcut
  refine Answers.pure ?_
  change (if a.full ≤ 2 * a.padding then none else some (a.full - 2 * a.padding)) = _
  by_cases hleft : 2 * a.padding < a.full
  · rw [if_pos hleft, if_neg (Nat.not_le.mpr hleft)]
    rfl
  · rw [if_neg hleft, if_pos (Nat.not_lt.mp hleft)]

end AxisParams

theorem spatialSizes_cons (transposed : Bool) (axis : Nat) (a : AxisParams) (rest : List AxisParams) :
    spatialSizes transposed axis (a :: rest) =
      (if transposed then a.transposedSize? else a.outputSize?) >>= fun size =>
      size.elim (.error (.refused (.noOutput axis a.size a.kernel))) fun size => do
        return size :: (← spatialSizes transposed (axis + 1) rest) := by
  cases transposed <;> exact bind_congr fun size => by cases size <;> rfl

theorem outputShape_eq (input weight : List Nat) (params : ConvParams) (transposed : Bool) :
    outputShape input weight params transposed =
      (if transposed then mulSizes (weight.getD 1 0) params.groups else .ok (weight.getD 0 0)) >>=
        fun channels => do
        return input.getD 0 0 :: channels ::
            (← spatialSizes transposed 0 (spatialAxes input weight params)) := by
  cases transposed <;> rfl

theorem spatialSizes_answers (transposed : Bool) (axes : List AxisParams)
    (h : small → ∀ a ∈ axes, a.Small) (axis : Nat) :
    Answers small (spatialSizes transposed axis axes) (∀ a ∈ axes, a.HasOutput transposed)
      (· = axes.map (·.result transposed)) := by
  induction axes generalizing axis with
  | nil => exact ⟨List.forall_mem_nil _, rfl⟩
  | cons a rest ih =>
    have ha (hsmall : small) : a.Small := h hsmall a List.mem_cons_self
    have hrest (hsmall : small) : ∀ a ∈ rest, a.Small := (List.forall_mem_cons.mp (h hsmall)).2
    have hsize : Answers small (if transposed then a.transposedSize? else a.outputSize?) True
        fun size =>
        a.HasOutput transposed ∧ size = some (a.result transposed) ∨
          ¬ a.HasOutput transposed ∧ size = none := by
      cases transposed with
      | false =>
        refine (AxisParams.outputSize?_answers ha).mono Iff.rfl fun size _ hsize => ?_
        by_cases hfits : a.stride ≠ 0 ∧ a.extent ≤ a.padded
        · exact .inl ⟨hfits, hsize.trans (if_pos hfits)⟩
        · exact .inr ⟨hfits, hsize.trans (if_neg hfits)⟩
      | true =>
        refine (AxisParams.transposedSize?_answers ha).mono Iff.rfl fun size _ hsize => ?_
        by_cases hleft : 2 * a.padding < a.full
        · exact .inl ⟨hleft, hsize.trans (if_pos hleft)⟩
        · exact .inr ⟨hleft, hsize.trans (if_neg hleft)⟩
    rw [spatialSizes_cons]
    refine Answers.andThen hsize ?_
    rintro _ (⟨hfits, rfl⟩ | ⟨hnone, rfl⟩)
    · refine (Answers.bind (ih hrest (axis + 1)) fun sizes hsizes => Answers.pure ?_).mono ?_
        fun _ _ hsizes => hsizes
      · subst hsizes
        rfl
      · rw [and_true, List.forall_mem_cons]
        exact (and_iff_right hfits).symm
    · exact .refused fun hall => hnone (hall a List.mem_cons_self)

end GraphLowering.Command
