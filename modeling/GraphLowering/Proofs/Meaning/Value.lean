import GraphLowering.Permutation
import GraphLowering.Primitive
import Mathlib.Algebra.BigOperators.Group.Finset.Basic
import Mathlib.Algebra.BigOperators.Group.List.Basic
import Mathlib.Algebra.Ring.Defs

/-!
# Values of tensors and what primitive operations make of them

A value has entries in a commutative ring, one for each index. Operations are partial: they are
defined for operands whose sizes fit together. Entries at indices out of bounds are of no account.

The operations are those to which convolutions and transposed convolutions are lowered:
transposition, padding with zeros, reshaping, slices, addition, and the kinds of convolution,
without padding of their own.
-/

namespace GraphLowering

universe u

def InBounds (dims index : List Nat) : Prop :=
  List.Forall₂ (· < ·) index dims

theorem InBounds.getD_lt {dims index : List Nat} (h : InBounds dims index) {axis size : Nat}
    (hsize : dims[axis]? = some size) :
    index.getD axis 0 < size := by
  induction h generalizing axis with
  | nil => cases hsize
  | cons hi _ ih =>
    cases axis with
    | zero =>
      cases hsize
      exact hi
    | succ axis => exact ih hsize

/-! ## Row-major order -/

/-- The number of entries before the one at an index. -/
def offset : List Nat → List Nat → Nat
  | _ :: dims, i :: index => i * dims.prod + offset dims index
  | _, _ => 0

/-- The index that a number of entries come before. -/
def indexAt : List Nat → Nat → List Nat
  | [], _ => []
  | _ :: dims, k => k / dims.prod :: indexAt dims (k % dims.prod)

theorem offset_lt {dims index : List Nat} (h : InBounds dims index) :
    offset dims index < dims.prod := by
  induction h with
  | nil => exact Nat.one_pos
  | @cons i d index dims hi _ ih =>
    rw [offset, List.prod_cons]
    calc i * dims.prod + offset dims index < i * dims.prod + dims.prod := Nat.add_lt_add_left ih _
      _ = (i + 1) * dims.prod := (Nat.succ_mul i _).symm
      _ ≤ d * dims.prod := Nat.mul_le_mul_right _ hi

theorem indexAt_offset {dims index : List Nat} (h : InBounds dims index) :
    indexAt dims (offset dims index) = index := by
  induction h with
  | nil => rfl
  | @cons i d index dims hi hrest ih =>
    have hlt : offset dims index < dims.prod := offset_lt hrest
    have hpos : 0 < dims.prod := Nat.zero_lt_of_lt hlt
    rw [offset, indexAt]
    congr 1
    · rw [Nat.mul_comm, Nat.mul_add_div hpos, Nat.div_eq_of_lt hlt, Nat.add_zero]
    · rw [Nat.mul_comm, Nat.mul_add_mod, Nat.mod_eq_of_lt hlt, ih]

theorem offset_indexAt {dims : List Nat} {k : Nat} (h : k < dims.prod) :
    offset dims (indexAt dims k) = k := by
  induction dims generalizing k with
  | nil =>
    rw [List.prod_nil] at h
    have hzero : k = 0 := by omega
    exact hzero.symm
  | cons d dims ih =>
    rw [List.prod_cons] at h
    have hpos : 0 < dims.prod := Nat.pos_of_ne_zero fun hzero => by simp [hzero] at h
    rw [indexAt, offset, ih (Nat.mod_lt _ hpos)]
    exact Nat.div_add_mod' k dims.prod

/-! ## Values -/

structure Value (R : Type u) where
  dims : List Nat
  entry : List Nat → R

namespace Value

variable {R : Type u}

def flat (v : Value R) (k : Nat) : R :=
  v.entry (indexAt v.dims k)

/-- Axis `i` of the result is axis `perm[i]` of the operand. -/
def transpose (perm : List Nat) (v : Value R) : Option (Value R) :=
  if IsPermutation perm v.dims.length then
    some ⟨perm.map (v.dims.getD · 0),
      fun index => v.entry ((List.range perm.length).map fun axis => index.getD (perm.idxOf axis) 0)⟩
  else
    none

def reshape (dims : List Nat) (v : Value R) : Option (Value R) :=
  if dims.prod = v.dims.prod then some ⟨dims, fun index => v.flat (offset dims index)⟩ else none

structure WindowIn (dims begin size : List Nat) : Prop where
  axes : begin.length = size.length
  ends : List.Forall₂ (· ≤ ·) (List.zipWith (· + ·) begin size) dims

instance (dims begin size : List Nat) : Decidable (WindowIn dims begin size) :=
  decidable_of_iff
    (begin.length = size.length ∧ List.Forall₂ (· ≤ ·) (List.zipWith (· + ·) begin size) dims)
    ⟨fun h => ⟨h.1, h.2⟩, fun h => ⟨h.axes, h.ends⟩⟩

def slice (begin size : List Nat) (v : Value R) : Option (Value R) :=
  if WindowIn v.dims begin size
    then some ⟨size, fun index => v.entry (List.zipWith (· + ·) index begin)⟩ else none

/-- The entry for an index of more axes, of which the last ones are those of the value. An axis of
size one is repeated. -/
def stretched (v : Value R) (index : List Nat) : R :=
  v.entry (List.zipWith (fun d i => if d = 1 then 0 else i) v.dims
    (index.drop (index.length - v.dims.length)))

theorem zipWith_repeated {dims index : List Nat} (h : InBounds dims index) :
    List.zipWith (fun d i => if d = 1 then 0 else i) dims index = index := by
  induction h with
  | nil => rfl
  | @cons i d _ _ hi _ ih =>
    rw [List.zipWith_cons_cons, ih]
    congr 1
    split <;> omega

theorem stretched_of_inBounds {v : Value R} {index : List Nat} (h : InBounds v.dims index) :
    v.stretched index = v.entry index := by
  have hlength : index.length = v.dims.length := h.length_eq
  unfold stretched
  rw [hlength, Nat.sub_self, List.drop_zero, zipWith_repeated h]

/-- The common sizes of axes that are listed from the last one on. -/
def commonDims : List Nat → List Nat → Option (List Nat)
  | [], dims => some dims
  | dims, [] => some dims
  | a :: as, b :: bs =>
    if a = b ∨ b = 1 then (commonDims as bs).map (a :: ·)
    else if a = 1 then (commonDims as bs).map (b :: ·)
    else none

section Ring

variable [CommRing R]

def add (activate : R → R) (x y : Value R) : Option (Value R) :=
  (commonDims x.dims.reverse y.dims.reverse).map fun dims =>
    ⟨dims.reverse, fun index => activate (x.stretched index + y.stretched index)⟩

def orZero (v : Value R) (index : List Int) : R :=
  if List.Forall₂ (fun (i : Int) (d : Nat) => 0 ≤ i ∧ i < d) index v.dims
    then v.entry (index.map Int.toNat) else 0

def pad (paddings : List (Nat × Nat)) (v : Value R) : Option (Value R) :=
  if paddings.length = v.dims.length then
    some ⟨List.zipWith (fun d p => p.1 + d + p.2) v.dims paddings,
      fun index => v.orZero (List.zipWith (fun (i : Nat) p => (i : Int) - p.1) index paddings)⟩
  else
    none

/-- How often a dilated kernel fits into an axis, moved by the stride. -/
def windows (size kernel stride dilation : Nat) : Int :=
  ((size : Int) - dilation * ((kernel : Int) - 1) - 1) / stride + 1

/-- The cross-correlation of channel-last data with a filter that has the output channel first. If
the filter is less deep than the data, channels are in groups. -/
def conv2d (stride dilation : PerAxis) (activate : R → R) (x filter bias : Value R) :
    Option (Value R) :=
  match x.dims, filter.dims with
  | [batch, height, width, channels], [outputs, kernelHeight, kernelWidth, depth] =>
    let rows := windows height kernelHeight stride.height dilation.height
    let columns := windows width kernelWidth stride.width dilation.width
    let groups := channels / depth
    if depth ∣ channels ∧ (groups ∣ outputs ∨ depth = 0) ∧ bias.dims.prod = outputs ∧
      0 ≤ rows ∧ 0 ≤ columns then
      some ⟨[batch, rows.toNat, columns.toNat, outputs], fun
        | [n, i, j, o] =>
          activate (∑ u ∈ Finset.range kernelHeight,
            ∑ v ∈ Finset.range kernelWidth, ∑ c ∈ Finset.range depth,
            x.entry [n, i * stride.height + u * dilation.height, j * stride.width + v * dilation.width,
              o / (outputs / groups) * depth + c] * filter.entry [o, u, v, c] + bias.flat o)
        | _ => 0⟩
    else
      none
  | _, _ => none

/-- The cross-correlation of each channel of channel-last data with filters of its own, as many as
the multiplier says. -/
def depthwiseConv2d (stride dilation : PerAxis) (multiplier : Nat) (activate : R → R)
    (x filter bias : Value R) :
    Option (Value R) :=
  match x.dims, filter.dims with
  | [batch, height, width, channels], [one, kernelHeight, kernelWidth, outputs] =>
    let rows := windows height kernelHeight stride.height dilation.height
    let columns := windows width kernelWidth stride.width dilation.width
    if one = 1 ∧ outputs = channels * multiplier ∧ bias.dims.prod = outputs ∧
      0 ≤ rows ∧ 0 ≤ columns then
      some ⟨[batch, rows.toNat, columns.toNat, outputs], fun
        | [n, i, j, o] =>
          activate (∑ u ∈ Finset.range kernelHeight, ∑ v ∈ Finset.range kernelWidth,
            x.entry [n, i * stride.height + u * dilation.height,
              j * stride.width + v * dilation.width, o / multiplier]
              * filter.entry [0, u, v, o] + bias.flat o)
        | _ => 0⟩
    else
      none
  | _, _ => none

/-- The products of the entries of channel-last data with those of a filter that has the output
channel first, each added to the entry that lies at the position of the datum, moved by the stride,
plus that in the kernel. The result is of given sizes. -/
def transposeConv (stride : PerAxis) (dims : List Nat) (x filter : Value R) : Option (Value R) :=
  match dims, filter.dims, x.dims with
  | [batch', _, _, outputs'], [outputs, kernelHeight, kernelWidth, depth],
      [batch, height, width, channels] =>
    if batch' = batch ∧ outputs' = outputs ∧ depth = channels then
      some ⟨dims, fun
        | [n, i, j, o] =>
          ∑ c ∈ Finset.range channels, ∑ a ∈ Finset.range height, ∑ b ∈ Finset.range width,
            ∑ u ∈ Finset.range kernelHeight, ∑ v ∈ Finset.range kernelWidth,
              if a * stride.height + u = i ∧ b * stride.width + v = j
                then x.entry [n, a, b, c] * filter.entry [o, u, v, c]
              else 0
        | _ => 0⟩
    else
      none
  | _, _, _ => none

end Ring

end Value

end GraphLowering
