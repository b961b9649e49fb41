import GraphLowering.Proofs.Meaning.Value
import GraphLowering.Proofs.Permutations
import GraphLowering.Proofs.Sizes

/-!
# Elements under another shape

Element counts stop at the largest size, and a buffer is given another shape if the counts agree.
What keeps this exact is that a buffer has fewer elements than the largest size
(`Shape.Holds.size_le`): a count that has stopped is never that of a buffer, and a count that has
not stopped is the product of the sizes, in whatever order they were multiplied. So a shape is taken
if and only if it holds the elements (`Buffer.reshaped?_eq_some_iff`). A unit axis is a special
case, and it leaves every element at its index.
-/

namespace GraphLowering

/-! ## Counting elements -/

namespace Shape

variable {s s' : Shape} {perm : List Nat} {n : Nat}

theorem elementCount_of_perm (h : s.dims.Perm s'.dims) : s.elementCount = s'.elementCount := by
  rw [elementCount_eq, elementCount_eq, h.prod_eq]

theorem elementCount_of_zero_mem (h : 0 ∈ s.dims) : s.elementCount = 0 := by
  rw [elementCount_eq, List.prod_eq_zero h, Nat.zero_min]

theorem perm_permuted (h : s.permuted? perm = some s') : s'.dims.Perm s.dims := by
  have hperm := permuted?_isSome_iff.mp (Option.isSome_of_eq_some h)
  rw [permuted?_eq_some hperm] at h
  cases h
  have hmap := (IsPermutation.iff_perm.mp hperm).map (s.dims.getD · 0)
  rwa [rank, map_range_getD] at hmap

/-- An array of `n` elements can have the shape: there is a place for each element, and the sizes
that are not zero do not multiply to more than memory can have. -/
def Holds (s : Shape) (n : Nat) : Prop :=
  s.dims.prod = n ∧ (s.dims.filter (· ≠ 0)).prod ≤ 2 ^ 63 - 1

instance (s : Shape) (n : Nat) : Decidable (s.Holds n) :=
  inferInstanceAs (Decidable (_ ∧ _))

theorem holds_iff : s.Holds n ↔ s.dims.prod = n ∧ s.addressable :=
  and_congr_right' addressable_iff.symm

namespace Holds

theorem size_le (h : s.Holds n) : n ≤ maxBufferSize :=
  h.1 ▸ prod_le_of_addressable (holds_iff.mp h).2

theorem elementCount_eq_iff (h : s.Holds n) : s'.elementCount = n ↔ s'.dims.prod = n := by
  have hsmall : n < maxSize := Nat.lt_of_le_of_lt h.size_le (by decide)
  rw [elementCount_eq]
  omega

theorem insertAxis (h : s.Holds n) (axis : Nat) : (s.insertAxis axis).Holds n := by
  rw [holds_iff] at h ⊢
  exact ⟨(s.prod_insertAxis axis).trans h.1, addressable_insertAxis.mpr h.2⟩

end Holds

end Shape

/-! ## Other shapes -/

namespace Buffer

variable {b r : Buffer} {s : Shape}

theorem reshaped?_eq_some_iff : b.reshaped? s = some r ↔ s.Holds b.size ∧ r = ⟨s, b.elements⟩ := by
  have htaken : s.elementCount = b.size ∧ s.addressable ↔ s.Holds b.size := by
    rw [Shape.holds_iff]
    exact and_congr_left fun haddressable => by rw [Shape.elementCount_of_addressable haddressable]
  unfold reshaped?
  rw [Option.ite_none_right_eq_some, htaken, Option.some.injEq, eq_comm (a := r)]

theorem reshaped?_of_holds (h : s.Holds b.size) : b.reshaped? s = some ⟨s, b.elements⟩ :=
  reshaped?_eq_some_iff.mpr ⟨h, rfl⟩

theorem reshaped?_isSome_iff : (b.reshaped? s).isSome ↔ s.Holds b.size := by
  rw [Option.isSome_iff_exists]
  constructor
  · rintro ⟨r, hr⟩
    exact (reshaped?_eq_some_iff.mp hr).1
  · intro h
    exact ⟨_, reshaped?_of_holds h⟩

end Buffer

/-! ## Places of elements -/

/-- A zero at the place of a new unit axis leads to the element that was at the index. -/
theorem offset_insertIdx {dims index : List Nat} {axis : Nat}
    (hlength : index.length = dims.length) (haxis : axis ≤ dims.length) :
    offset (dims.insertIdx axis 1) (index.insertIdx axis 0) = offset dims index := by
  induction axis generalizing dims index with
  | zero => rw [List.insertIdx_zero, List.insertIdx_zero, offset, Nat.zero_mul, Nat.zero_add]
  | succ axis ih =>
    cases dims with
    | nil => exact absurd haxis (Nat.not_succ_le_zero axis)
    | cons d dims =>
      cases index with
      | nil => exact absurd hlength (Nat.zero_ne_add_one _)
      | cons i index =>
        have haxis := Nat.le_of_succ_le_succ haxis
        have hprod : (dims.insertIdx axis 1).prod = dims.prod := by
          rw [(List.perm_insertIdx 1 dims haxis).prod_eq, List.prod_cons, Nat.one_mul]
        rw [List.insertIdx_succ_cons, List.insertIdx_succ_cons,
          offset, offset, hprod, ih (Nat.succ.inj hlength) haxis]

/-- The count of elements is the product of the sizes or the largest size, in whatever order the
sizes are and wherever a zero is, so that neither permuted axes nor a unit axis change it. A buffer
takes a shape if and only if the shape holds its elements, which stay in their order, and it takes
its own shape again. A constant takes a unit axis anywhere, and each of its elements is found again
at its index. -/
theorem Buffer.reshaping_exact (s : Shape) :
    s.elementCount = min s.dims.prod (2 ^ 64 - 1) ∧
      (∀ dims, dims.Perm s.dims → (Shape.mk dims).elementCount = s.elementCount) ∧
      (0 ∈ s.dims → s.elementCount = 0) ∧
      (∀ perm, ∀ s' ∈ s.permuted? perm, s'.elementCount = s.elementCount) ∧
      (∀ axis, (s.insertAxis axis).elementCount = s.elementCount) ∧
      ∀ b : Buffer, b.shape.Holds b.size →
        (s.elementCount = b.size ↔ s.dims.prod = b.size) ∧ ((b.reshaped? s).isSome ↔ s.Holds b.size) ∧
        (∀ r ∈ b.reshaped? s, r.shape = s ∧ r.elements = b.elements ∧ r.reshaped? b.shape = some b) ∧
        ∀ t name quantization axis, t = Tensor.constant name b quantization →
          ∃ r, t.data.bind (·.reshaped? (t.shape.insertAxis axis)) = some r ∧
            r.shape = t.shape.insertAxis axis ∧ r.elements = b.elements ∧ r.reshaped? t.shape = some b ∧
            ∀ index, InBounds t.shape.dims index →
              offset r.shape.dims (index.insertIdx (min axis t.rank) 0) =
                offset t.shape.dims index := by
  refine ⟨s.elementCount_eq, fun dims hdims => Shape.elementCount_of_perm hdims,
    Shape.elementCount_of_zero_mem, fun perm s' hs' => ?_, s.elementCount_insertAxis, fun b hb => ?_⟩
  · exact Shape.elementCount_of_perm (Shape.perm_permuted hs')
  have hback {s : Shape} {r : Buffer} (hr : b.reshaped? s = some r) :
      r.shape = s ∧ r.elements = b.elements ∧ r.reshaped? b.shape = some b := by
    obtain ⟨_, rfl⟩ := reshaped?_eq_some_iff.mp hr
    exact ⟨rfl, rfl, reshaped?_of_holds hb⟩
  refine ⟨hb.elementCount_eq_iff, reshaped?_isSome_iff, fun r hr => hback hr, ?_⟩
  rintro _ name quantization axis rfl
  have hlifted := reshaped?_of_holds (hb.insertAxis axis)
  obtain ⟨hshape, helements, hagain⟩ := hback hlifted
  refine ⟨_, hlifted, hshape, helements, hagain, fun index hindex => ?_⟩
  exact offset_insertIdx hindex.length_eq (Nat.min_le_right _ _)

/-- Six numbers in a row take a shape of two rows, and a unit axis after their only one. They do not
take a shape of which the count has stopped, although six is among its sizes. -/
theorem Buffer.reshaping_exact_six :
    (ofInt32s [1, 2, 3, 4, 5, 6]).shape.Holds 6 ∧
      ((ofInt32s [1, 2, 3, 4, 5, 6]).reshaped? ⟨[2, 3, 1]⟩).isSome ∧
      (Shape.mk [2 ^ 40, 2 ^ 40, 6]).elementCount = 2 ^ 64 - 1 ∧
      ¬ ((ofInt32s [1, 2, 3, 4, 5, 6]).reshaped? ⟨[2 ^ 40, 2 ^ 40, 6]⟩).isSome ∧
      ∃ r, (ofInt32s [1, 2, 3, 4, 5, 6]).reshaped? ⟨[6, 1]⟩ = some r ∧
        r.reshaped? ⟨[6]⟩ = some (ofInt32s [1, 2, 3, 4, 5, 6]) ∧
        offset r.shape.dims [4, 0] = 4 := by
  have hholds : (ofInt32s [1, 2, 3, 4, 5, 6]).shape.Holds 6 := by decide
  obtain ⟨_, _, _, _, _, hreshaping⟩ := reshaping_exact ⟨[2, 3, 1]⟩
  obtain ⟨_, htaken, _, hlifting⟩ := hreshaping _ hholds
  obtain ⟨hcount, _, _, _, _, hreshaping'⟩ := reshaping_exact ⟨[2 ^ 40, 2 ^ 40, 6]⟩
  obtain ⟨_, hrefused, _⟩ := hreshaping' _ hholds
  obtain ⟨r, hr, _, _, hback, hplaces⟩ := hlifting _ "six" none 1 rfl
  refine ⟨hholds, htaken.mpr (by decide), hcount.trans (by decide),
    fun h => absurd (hrefused.mp h) (by decide), r, hr, hback, ?_⟩
  exact hplaces [4] (.cons (by decide) .nil)

end GraphLowering
