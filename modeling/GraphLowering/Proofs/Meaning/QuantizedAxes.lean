import GraphLowering.Proofs.Permutations
import GraphLowering.Proofs.ShapeRules
import GraphLowering.Proofs.Success

/-!
# Quantization goes along with the elements

Some operators only move elements. An element is carried from an index of the data to an index of
the result if the two entries are equal whatever the entries of the data are (`Graph.Carries`). A
store that has a one at a single index tells where the entry of a result comes from
(`Graph.carries_iff`), which gives one lemma for each kind of operator.

A quantized axis follows the data if each element keeps its number along it
(`Quantization.Follows`). The lowerings of convolutions permute axes, insert and remove a unit axis,
pad and crop, and renumber the quantized axis each time. It follows the data in all of these steps
(`Graph.KeepsQuantization`), as long as the axes that are padded and cropped are not quantized.
-/

namespace GraphLowering

/-- The operations that move elements and leave them as they are. -/
def Primitive.rearranges : Primitive → Bool
  | .transpose | .reshape _ | .pad | .slice => true
  | _ => false

namespace Graph

/-- The element at one index of the data becomes that at another index of the result: whatever
numbers the elements are, these two are the same. -/
def Carries (g : Graph) (op : Operator) (i j : List Nat) : Prop :=
  ∀ store : Store Int, g.Typed store →
    ∀ x ∈ op.inputs.head?, ∀ v, op.result? g (fun _ => id) store = some v →
    v.entry j = (store x).entry i

end Graph

/-- Elements move between indices, and the quantization goes with them. There is none, or scales and
zero points are the same, and they are those of the whole tensors or of axes along which each
element keeps its number. -/
def Quantization.Follows (moves : List Nat → List Nat → Prop) (q r : Option Quantization) : Prop :=
  Option.Rel (fun a b => a.scales = b.scales ∧ a.zeroPoints = b.zeroPoints ∧
    Option.Rel (fun k l => ∀ i j, moves i j → ∃ number, i[k]? = some number ∧ j[l]? = some number)
      a.axis b.axis) q r

/-- The data and the result of an operator have the same quantization, and each element keeps its
scale and zero point. -/
def Graph.KeepsQuantization (g : Graph) (op : Operator) : Prop :=
  ∃ x y s t, op.inputs.head? = some x ∧ op.outputs = [y] ∧ g.tensor? x = some s ∧ g.tensor? y = some t ∧
    Quantization.Follows (fun i j => InBounds s.shape.dims i ∧
      InBounds t.shape.dims j ∧ g.Carries op i j) s.quantization t.quantization

variable {g : Graph} {first : Nat} {i j : List Nat}

/-! ## Where an element comes from -/

namespace Graph

def probe (g : Graph) (i : List Nat) : Store Int := fun id =>
  ⟨(g.dims? id).getD [], fun index => if index = i then 1 else 0⟩

theorem probe_typed (g : Graph) (i : List Nat) : g.Typed (g.probe i) := by
  intro id t ht
  unfold probe
  rw [dims?_of_tensor? ht rfl]
  rfl

/-- An element is carried from the one index from which the entry of the result is taken, unless
this entry is a zero that was put in. -/
theorem carries_iff {op : Operator} {x : TensorId} {index : List Nat} (inside : Prop)
    [Decidable inside] (hx : op.inputs.head? = some x)
    (hresult : ∀ store : Store Int, g.Typed store → ∃ v, op.result? g (fun _ => id) store = some v ∧
      v.entry j = if inside then (store x).entry index else 0) :
    g.Carries op i j ↔ inside ∧ index = i := by
  constructor
  · intro h
    obtain ⟨v, hv, hentry⟩ := hresult (g.probe i) (g.probe_typed i)
    have hone : v.entry j = 1 := by
      rw [h (g.probe i) (g.probe_typed i) x hx v hv]
      exact if_pos rfl
    rw [hone] at hentry
    by_cases hinside : inside
    · refine ⟨hinside, ?_⟩
      rw [if_pos hinside] at hentry
      by_contra hother
      exact Int.one_ne_zero (hentry.trans (if_neg hother))
    · rw [if_neg hinside] at hentry
      exact absurd hentry Int.one_ne_zero
  · rintro ⟨hinside, rfl⟩ store htyped x' hx' v hv
    obtain ⟨v', hv', hentry⟩ := hresult store htyped
    cases hx.symm.trans hx'
    cases hv.symm.trans hv'
    rw [hentry, if_pos hinside]

variable {x p y : TensorId} {dims dims' : List Nat}

theorem carries_transpose_iff {perm : List Nat} (hx : g.dims? x = some dims)
    (hp : g.sizes? p = some perm) (hperm : IsPermutation perm dims.length) :
    g.Carries ⟨.transpose, [x, p], [y]⟩ i j ↔
    (List.range perm.length).map (fun axis => j.getD (perm.idxOf axis) 0) = i := by
  rw [carries_iff True rfl, true_and]
  intro store htyped
  show ∃ v, (g.sizes? p).bind (fun perm => (store x).transpose perm) = some v ∧ _
  rw [hp, Option.bind_some, Value.transpose, htyped.dims_eq hx, if_pos hperm]
  exact ⟨_, rfl, rfl⟩

theorem carries_reshape_iff {newShape : List Int32} (hx : g.dims? x = some dims)
    (hp : g.sizes? p = some dims') (hstated : newShape.mapM ofInt32? = some dims')
    (hcount : dims'.prod = dims.prod) :
    g.Carries ⟨.reshape newShape, [x, p], [y]⟩ i j ↔ indexAt dims (offset dims' j) = i := by
  rw [carries_iff True rfl, true_and]
  intro store htyped
  show ∃ v, (g.sizes? p).bind (fun dims =>
    if newShape.mapM ofInt32? = some dims then (store x).reshape dims else none) = some v ∧ _
  rw [hp, Option.bind_some, if_pos hstated, Value.reshape, htyped.dims_eq hx, if_pos hcount]
  refine ⟨_, rfl, ?_⟩
  show (store x).entry (indexAt (store x).dims (offset dims' j)) = _
  rw [htyped.dims_eq hx]
  rfl

theorem Carries.reshape_place {newShape : List Int32}
    (h : g.Carries ⟨.reshape newShape, [x, p], [y]⟩ i j) (hx : g.dims? x = some dims)
    (hp : g.sizes? p = some dims') (hstated : newShape.mapM ofInt32? = some dims')
    (hcount : dims'.prod = dims.prod) (hj : InBounds dims' j) : offset dims i = offset dims' j := by
  rw [← (carries_reshape_iff hx hp hstated hcount).mp h, offset_indexAt]
  exact hcount ▸ offset_lt hj

theorem carries_pad_iff {paddings : List Nat} (hx : g.dims? x = some dims)
    (hp : g.sizes? p = some paddings) (hlength : (pairs paddings).length = dims.length) :
    g.Carries ⟨.pad, [x, p], [y]⟩ i j ↔
      let moved := List.zipWith (fun (k : Nat) p => (k : Int) - p.1) j (pairs paddings)
      List.Forall₂ (fun (k : Int) (d : Nat) => 0 ≤ k ∧ k < d) moved dims ∧ moved.map Int.toNat = i := by
  refine carries_iff _ rfl fun store htyped => ?_
  show ∃ v, (g.sizes? p).bind (fun paddings => (store x).pad (pairs paddings)) = some v ∧ _
  rw [hp, Option.bind_some, Value.pad, htyped.dims_eq hx, if_pos hlength]
  refine ⟨_, rfl, ?_⟩
  show (store x).orZero _ = _
  unfold Value.orZero
  rw [htyped.dims_eq hx]

theorem carries_slice_iff {q : TensorId} {begin size : List Nat} (hx : g.dims? x = some dims)
    (hp : g.sizes? p = some begin) (hq : g.sizes? q = some size)
    (hwindow : Value.WindowIn dims begin size) :
    g.Carries ⟨.slice, [x, p, q], [y]⟩ i j ↔ List.zipWith (· + ·) j begin = i := by
  rw [carries_iff True rfl, true_and]
  intro store htyped
  show ∃ v, (g.sizes? p).bind
    (fun begin => (g.sizes? q).bind fun size => (store x).slice begin size) = some v ∧ _
  rw [hp, hq, Option.bind_some, Option.bind_some, Value.slice, htyped.dims_eq hx, if_pos hwindow]
  exact ⟨_, rfl, rfl⟩

end Graph

/-! ## Renumbered axes -/

namespace Quantization

variable {moves : List Nat → List Nat → Prop} {q r : Option Quantization}

def renumbered (f : Nat → Nat) (q : Quantization) : Quantization :=
  { q with axis := q.axis.map f }

theorem Follows.of_renumbered {f : Nat → Nat}
    (h : ∀ a ∈ q, ∀ k ∈ a.axis, ∀ i j, moves i j →
      ∃ number, i[k]? = some number ∧ j[f k]? = some number) :
    Follows moves q (q.map (renumbered f)) := by
  cases q with
  | none => exact .none
  | some a =>
    refine .some ⟨rfl, rfl, ?_⟩
    show Option.Rel _ a.axis (a.axis.map f)
    cases haxis : a.axis with
    | none => exact .none
    | some k => exact .some (h a rfl k haxis)

theorem Follows.of_unmoved
    (h : ∀ a ∈ q, ∀ k ∈ a.axis, ∀ i j, moves i j →
      ∃ number, i[k]? = some number ∧ j[k]? = some number) :
    Follows moves q q := by
  have hsame : q.map (renumbered id) = q := by
    cases q with
    | none => rfl
    | some a => exact congrArg some (congrArg (Quantization.mk a.scales a.zeroPoints) Option.map_id')
  have hfollows : Follows moves q (q.map (renumbered id)) := .of_renumbered h
  rwa [hsame] at hfollows

theorem Follows.back (h : Follows moves q r) : Follows (fun i j => moves j i) r q := by
  cases h with
  | none => exact .none
  | @some a b hsame =>
    obtain ⟨hscales, hzeroPoints, haxis⟩ := hsame
    refine .some ⟨hscales.symm, hzeroPoints.symm, ?_⟩
    generalize a.axis = k, b.axis = l at haxis ⊢
    cases haxis with
    | none => exact .none
    | some hkeeps => exact .some fun i j hmoves => (hkeeps j i hmoves).imp fun _ => And.symm

end Quantization

def Tensor.AxisWithin (t : Tensor) (axes : Nat → Prop) : Prop :=
  ∀ q ∈ t.quantization, ∀ k ∈ q.axis, axes k

namespace Tensor.AxisWithin

variable {t r : Tensor} {axes axes' : Nat → Prop}

theorem mono (h : t.AxisWithin axes) (haxes : ∀ k, axes k → axes' k) : t.AxisWithin axes' :=
  fun q hq k hk => haxes k (h q hq k hk)

theorem renumbered {f : Nat → Nat} (h : t.AxisWithin axes)
    (hr : r.quantization = t.quantization.map (Quantization.renumbered f))
    (haxes : ∀ k, axes k → axes' (f k)) : r.AxisWithin axes' := by
  intro q hq k hk
  rw [Option.mem_def, hr] at hq
  obtain ⟨q', hq', rfl⟩ := Option.map_eq_some_iff.mp hq
  obtain ⟨k', hk', rfl⟩ := Option.map_eq_some_iff.mp hk
  exact haxes k' (h q' hq' k' hk')

end Tensor.AxisWithin

/-! ## Layouts -/

theorem Graph.Carries.transpose_axis {x p y : TensorId} {dims perm : List Nat}
    (h : g.Carries ⟨.transpose, [x, p], [y]⟩ i j) (hx : g.dims? x = some dims)
    (hp : g.sizes? p = some perm) (hperm : IsPermutation perm dims.length)
    (hj : j.length = dims.length) {axis : Nat} (haxis : axis < dims.length) :
    ∃ number, i[axis]? = some number ∧ j[perm.idxOf axis]? = some number := by
  have hplace : perm.idxOf axis < j.length := by
    rw [hj, ← hperm.1]
    exact List.idxOf_lt_length_of_mem (hperm.mem haxis)
  have haxis' : axis < perm.length := hperm.1 ▸ haxis
  refine ⟨j[perm.idxOf axis], ?_, List.getElem?_eq_getElem hplace⟩
  rw [← (Graph.carries_transpose_iff hx hp hperm).mp h, List.getElem?_map, List.getElem?_range haxis',
    Option.map_some, List.getD_eq_getElem?_getD, List.getElem?_eq_getElem hplace, Option.getD_some]

namespace Layout

variable {perm : List Nat} {source result input output : TensorId}
  {op : Operator} {t y : Tensor} {b : Bracket}

theorem Permuted.keepsQuantization (h : Permuted g first perm source result)
    (hmoves : g.Moves first .transpose (permutationBuffer perm) source result op)
    (hperm : (perm.map Int32.ofNat).mapM ofInt32? = some perm) (ht : g.tensor? source = some t)
    (haxis : t.AxisWithin (· < t.rank)) :
    g.KeepsQuantization op := by
  obtain ⟨hpermutes, r, hr, hrDims⟩ := h.declared ht
  obtain ⟨t', shape, ht', _, _, _, hresult⟩ := h
  cases ht.symm.trans ht'
  cases hr.symm.trans hresult
  obtain ⟨p, hp, rfl⟩ := hmoves
  refine ⟨source, result, t, _, rfl, rfl, ht, hresult, .of_renumbered ?_⟩
  rintro q hq k hk i j ⟨_, hj, hcarries⟩
  have hlength : j.length = t.shape.dims.length := by
    rw [hj.length_eq, hrDims, List.length_map, hpermutes.1]
  rw [hpermutes.getD_idxOf? (haxis q hq k hk)]
  exact hcarries.transpose_axis (Graph.dims?_of_tensor? ht rfl)
    (hp.sizes? hperm) hpermutes hlength (haxis q hq k hk)

/-- Channels last is the layout of the result before it leaves. Its quantized axis was found by the
permutation that leads there, and the transpose is by the inverse. -/
theorem Brackets.keepsQuantization (h : Brackets g first input output b)
    (hy : g.tensor? output = some y) (haxis : y.AxisWithin (· < y.rank)) :
    g.KeepsQuantization b.leave := by
  obtain ⟨hpermutes, r, hr, hrDims⟩ := h.output.declared hy
  obtain ⟨y', shape, hy', _, _, _, hinner⟩ := h.output
  cases hy.symm.trans hy'
  cases hr.symm.trans hinner
  have hrank : y.shape.dims.length = 4 := hpermutes.1.symm
  obtain ⟨p, hp, hleave⟩ := h.leave
  rw [hleave]
  refine ⟨b.output, output, _, y, rfl, rfl, hinner, hy, Quantization.Follows.back (.of_renumbered ?_)⟩
  rintro q hq k hk j i ⟨_, hj, hcarries⟩
  have hk : k < 4 := hrank ▸ haxis q hq k hk
  have hinverse : ∀ k < 4, (toChannelLast.idxOf? k).getD k < 4 ∧
      toChannelFirst.idxOf ((toChannelLast.idxOf? k).getD k) = k := by
    decide
  obtain ⟨number, hi, hj⟩ :=
    hcarries.transpose_axis (Graph.dims?_of_tensor? hr hrDims) (hp.sizes? (by decide))
    (show IsPermutation toChannelFirst 4 by decide) (hj.length_eq.trans hrank) (hinverse k hk).1
  rw [(hinverse k hk).2] at hj
  exact ⟨number, hj, hi⟩

end Layout

/-! ## A unit axis -/

/-- Indices within the sizes that come at the same place in row-major order. -/
def SamePlace (dims dims' i j : List Nat) : Prop :=
  InBounds dims i ∧ InBounds dims' j ∧ offset dims i = offset dims' j

namespace Lift

variable {source result input weight output : TensorId} {op : Operator}
  {ops : List Operator} {t x w y : Tensor} {params : ConvParams}
  {l : Lifted}

def raisedAxis (k : Nat) : Nat :=
  if k < axis then k else k + 1

theorem Quantized.eq {q r : Option Quantization} (h : Quantized q r) :
    r = q.map (Quantization.renumbered raisedAxis) := by
  cases h with
  | none => rfl
  | @some a b hinsert =>
    obtain ⟨scales, zeroPoints, quantizedAxis⟩ := a
    unfold Quantization.insertAxis? at hinsert
    cases quantizedAxis with
    | none =>
      cases hinsert
      rfl
    | some k =>
      show some b = some ⟨scales, zeroPoints, some (raisedAxis k)⟩
      unfold raisedAxis
      dsimp only at hinsert
      split at hinsert
      · next hbefore =>
        rw [if_pos hbefore, hinsert]
      · next hafter =>
        rw [if_neg hafter]
        split at hinsert
        · exact hinsert.symm
        · cases hinsert

theorem number_raisedAxis {shape : Shape} (hrank : shape.rank = 3)
    (h : SamePlace shape.dims (shape.insertAxis axis).dims i j) {k : Nat} (hk : k < shape.rank) :
    ∃ number, i[k]? = some number ∧ j[raisedAxis k]? = some number := by
  obtain ⟨hi, hj, hplace⟩ := h
  obtain ⟨a, b, c, hline⟩ := List.length_eq_three.mp hrank
  rw [insertAxis_line hline] at hj hplace
  rw [hline] at hi hplace
  match j, hj with
  | [n, m, u, v], .cons hn (.cons hm (.cons hu (.cons hv .nil))) =>
    obtain rfl : u = 0 := Nat.lt_one_iff.mp hu
    rw [offset_unit] at hplace
    obtain rfl : i = [n, m, v] := by
      rw [← indexAt_offset hi, hplace, indexAt_offset (inBounds_line hn hm hv)]
    rw [hrank] at hk
    match k, hk with
    | 0, _ => exact ⟨n, rfl, rfl⟩
    | 1, _ => exact ⟨m, rfl, rfl⟩
    | 2, _ => exact ⟨v, rfl, rfl⟩

theorem Expands.keepsQuantization (h : Expands g first source result op)
    (ht : g.tensor? source = some t) (hrank : t.rank = 3) (haxis : t.AxisWithin (· < t.rank)) :
    g.KeepsQuantization op := by
  obtain ⟨t', q, ht', hq, ⟨_, _, hresult⟩, ns, hns, p, hp, rfl⟩ := h
  cases ht.symm.trans ht'
  have hsizes : ns.mapM ofInt32? = some (t.shape.insertAxis axis).dims := mapM_ofInt32? hns
  refine ⟨source, result, t, _, rfl, rfl, ht, hresult, ?_⟩
  show Quantization.Follows _ t.quantization q
  rw [hq.eq]
  refine .of_renumbered ?_
  rintro r hr k hk i j ⟨hi, hj, hcarries⟩
  have hplace := hcarries.reshape_place (Graph.dims?_of_tensor? ht rfl)
    (hp.sizes? hsizes) hsizes (t.shape.prod_insertAxis axis) hj
  exact number_raisedAxis hrank ⟨hi, hj, hplace⟩ (haxis r hr k hk)

theorem Collapses.keepsQuantization (h : Collapses g first source result op)
    (ht : g.tensor? result = some t) (hrank : t.rank = 3) (haxis : t.AxisWithin (· < t.rank)) :
    g.KeepsQuantization op := by
  obtain ⟨t', q, ht', hq, ⟨_, _, hsource⟩, ns, hns, p, hp, rfl⟩ := h
  cases ht.symm.trans ht'
  have hsizes : ns.mapM ofInt32? = some t.shape.dims := mapM_ofInt32? hns
  refine ⟨source, result, _, t, rfl, rfl, hsource, ht, ?_⟩
  show Quantization.Follows _ q t.quantization
  rw [hq.eq]
  refine Quantization.Follows.back (.of_renumbered ?_)
  rintro r hr k hk i j ⟨hj, hi, hcarries⟩
  have hplace := hcarries.reshape_place (Graph.dims?_of_tensor? hsource rfl) (hp.sizes? hsizes) hsizes
    (t.shape.prod_insertAxis axis).symm hi
  exact number_raisedAxis hrank ⟨hi, hj, hplace.symm⟩ (haxis r hr k hk)

theorem ExpandsWeight.follows {data : Buffer} (h : ExpandsWeight g first weight ops result)
    (hw : g.tensor? weight = some w) (hdata : w.data = some data) (hrank : w.rank = 3)
    (haxis : w.AxisWithin (· < w.rank)) :
    ∃ copy, g.Drafted first result copy ∧ copy.shape = w.shape.insertAxis axis ∧
      copy.data = some ⟨w.shape.insertAxis axis, data.elements⟩ ∧
      Quantization.Follows (SamePlace w.shape.dims copy.shape.dims)
        w.quantization copy.quantization := by
  cases h with
  | @folded _ _ _ _ q _ hknown hconstant hreshaped hq hdrafted =>
    cases hw.symm.trans hknown
    cases hdata.symm.trans hconstant
    obtain rfl := Buffer.eq_of_reshaped? hreshaped
    refine ⟨_, hdrafted, rfl, rfl, ?_⟩
    show Quantization.Follows _ w.quantization q
    rw [hq.eq]
    exact .of_renumbered fun r hr k hk i j hplace => number_raisedAxis hrank hplace (haxis r hr k hk)
  | reshaped _ hcomputed =>
    refine absurd ?_ (hcomputed w hw)
    unfold Tensor.isConstant
    rw [hdata]
    rfl

/-- The quantized axes of the data and of the output, if there are any, are those of the batch or of
the channels. That of the weight is any of its axes. -/
structure OuterAxes (x w y : Tensor) : Prop where
  input : x.AxisWithin (· < 2)
  weight : w.AxisWithin (· < w.rank)
  output : y.AxisWithin (· < 2)

theorem LiftsTo.keepsQuantization (h : LiftsTo g first input weight output params l)
    (hx : g.tensor? input = some x) (hw : g.tensor? weight = some w)
    (hy : g.tensor? output = some y) (haxes : OuterAxes x w y) :
    ∀ op ∈ l.before ++ l.after, g.KeepsQuantization op := by
  cases h with
  | image _ _ => exact List.forall_mem_nil _
  | line hranked _ hinput hweight houtput =>
    obtain ⟨hxRank, hwRank, hyRank⟩ := hranked.ranks hx hw hy
    have hinputKeeps := hinput.keepsQuantization hx hxRank (haxes.input.mono fun k hk => by omega)
    have houtputKeeps := houtput.keepsQuantization hy hyRank (haxes.output.mono fun k hk => by omega)
    refine List.forall_mem_cons.mpr
      ⟨hinputKeeps, List.forall_mem_append.mpr ⟨?_, List.forall_mem_singleton.mpr houtputKeeps⟩⟩
    cases hweight with
    | folded _ _ _ _ _ => exact List.forall_mem_nil _
    | reshaped hexpands =>
      exact List.forall_mem_singleton.mpr (hexpands.keepsQuantization hw hwRank haxes.weight)

theorem Expands.quantization {r : Tensor} (h : Expands g first source result op)
    (ht : g.tensor? source = some t) (hr : g.tensor? result = some r) :
    r.quantization = t.quantization.map (Quantization.renumbered raisedAxis) := by
  obtain ⟨t', _, ht', hq, ⟨_, _, hresult⟩, _⟩ := h
  cases ht.symm.trans ht'
  cases hr.symm.trans hresult
  exact hq.eq

theorem ExpandsWeight.quantization {r : Tensor} (h : ExpandsWeight g first weight ops result)
    (hw : g.tensor? weight = some w) (hr : g.tensor? result = some r) :
    r.quantization = w.quantization.map (Quantization.renumbered raisedAxis) := by
  cases h with
  | folded hknown _ _ hq hdrafted =>
    cases hw.symm.trans hknown
    cases hr.symm.trans hdrafted.2
    exact hq.eq
  | reshaped hexpands => exact hexpands.quantization hw hr

theorem Collapses.quantization {r : Tensor} (h : Collapses g first source result op)
    (ht : g.tensor? result = some t) (hr : g.tensor? source = some r) :
    r.quantization = t.quantization.map (Quantization.renumbered raisedAxis) := by
  obtain ⟨t', _, ht', hq, ⟨_, _, hsource⟩, _⟩ := h
  cases ht.symm.trans ht'
  cases hr.symm.trans hsource
  exact hq.eq

theorem LiftsTo.outerAxes {x' w' y' : Tensor} (h : LiftsTo g first input weight output params l)
    (hx : g.tensor? input = some x) (hw : g.tensor? weight = some w)
    (hy : g.tensor? output = some y) (hlays : Lays g l x' w' y') (haxes : OuterAxes x w y) :
    OuterAxes x' w' y' := by
  have hfirst : ∀ k < 2, raisedAxis k < 2 := by
    decide
  have hall : ∀ k < 3, raisedAxis k < 4 := by
    decide
  cases h with
  | image _ _ =>
    cases hx.symm.trans hlays.input
    cases hw.symm.trans hlays.weight
    cases hy.symm.trans hlays.output
    exact haxes
  | line hranked _ hinput hweight houtput =>
    refine ⟨haxes.input.renumbered (hinput.quantization hx hlays.input) hfirst, ?_,
      haxes.output.renumbered (houtput.quantization hy hlays.output) hfirst⟩
    obtain ⟨_, hwRank, _⟩ := hranked.ranks hx hw hy
    have hweightAxis := haxes.weight
    rw [hwRank] at hweightAxis
    rw [hlays.ranks.2.1]
    exact hweightAxis.renumbered (hweight.quantization hw hlays.weight) hall

end Lift

/-! ## Convolution -/

def Layout.Outer (k : Nat) : Prop :=
  k = 0 ∨ k = 3

theorem Layout.Permuted.axisWithin {source result : TensorId} {t r : Tensor}
    (h : Permuted g first toChannelLast source result) (ht : g.tensor? source = some t)
    (hr : g.tensor? result = some r) (haxis : t.AxisWithin (· < 2)) : r.AxisWithin Outer := by
  obtain ⟨t', _, ht', _, _, _, hresult⟩ := h
  cases ht.symm.trans ht'
  cases hr.symm.trans hresult
  have houter : ∀ k < 2, Outer ((toChannelLast.idxOf? k).getD k) := by
    unfold Outer
    decide
  exact haxis.renumbered rfl houter

theorem Convolution.Pads.keepsQuantization {id data : TensorId} {params : ConvParams}
    {ops : List Operator} {t : Tensor} (h : Pads g first id params ops data)
    (ht : g.tensor? id = some t) (hrank : t.rank = 4) (haxis : t.AxisWithin Layout.Outer) :
    ∀ op ∈ ops, g.KeepsQuantization op := by
  cases h with
  | unpadded _ => exact List.forall_mem_nil _
  | @padded op result t' rows columns height width ph pw _ _ _ hph hpw hknown _ _ hresult hmoves _ =>
    cases ht.symm.trans hknown
    obtain ⟨_, _, hresult⟩ := hresult
    obtain ⟨p, hp, rfl⟩ := hmoves
    have hamounts : [0, 0, height, height, width, width, 0, 0].mapM toInt32? =
        some [0, 0, ph, ph, pw, pw, 0, 0] := by
      simp only [List.mapM_cons, List.mapM_nil, hph, hpw]
      rfl
    refine List.forall_mem_singleton.mpr ⟨id, data, t, _, rfl, rfl, ht, hresult, .of_unmoved ?_⟩
    rintro q hq k hk i j ⟨_, hj, hcarries⟩
    have hlength : j.length = 4 := by
      rw [hj.length_eq]
      show ((t.shape.dims.set _ _).set _ _).length = 4
      rw [List.length_set, List.length_set]
      exact hrank
    have hmoved := ((Graph.carries_pad_iff (Graph.dims?_of_tensor? ht rfl)
      (hp.sizes? (mapM_ofInt32? hamounts)) hrank.symm).mp hcarries).2
    obtain ⟨n, u, v, c, rfl⟩ := List.length_eq_four.mp hlength
    -- there is no padding along the first and the last axis
    obtain rfl : [n, ((u : Int) - height).toNat, ((v : Int) - width).toNat, c] = i := by
      rw [← hmoved]
      simp [pairs]
    rcases haxis q hq k hk with rfl | rfl
    · exact ⟨n, rfl, rfl⟩
    · exact ⟨c, rfl, rfl⟩

namespace Convolution.Plan

variable {n : Convolution} {p : Plan} {x w y : Tensor}

theorem Fits.keepsQuantization (h : p.Fits n g first) (hx : g.tensor? n.input = some x)
    (hw : g.tensor? n.weight = some w) (hy : g.tensor? n.output = some y)
    (haxes : Lift.OuterAxes x w y) :
    ∀ op ∈ p.chain n.activation, op.kind.rearranges → g.KeepsQuantization op := by
  obtain ⟨_, _, _, x', w', y', hraised⟩ := h.lifts.raised
  have haxes' := h.lifts.outerAxes hx hw hy hraised.lays haxes
  obtain ⟨hx'Rank, _, hy'Rank⟩ := hraised.lays.ranks
  obtain ⟨_, data, hdata, hdataDims⟩ := h.brackets.input.declared hraised.lays.input
  have hdataRank : data.rank = 4 := by
    show data.shape.dims.length = 4
    rw [hdataDims]
    rfl
  refine p.forall_mem_chain (fun op hop _ => h.lifts.keepsQuantization hx hw hy haxes op hop)
    (fun _ => ?_) (fun op hop _ => ?_) (fun _ => ?_) (fun hrearranges => ?_) (fun _ => ?_)
  · exact h.brackets.input.keepsQuantization h.brackets.enter
      (by decide) hraised.lays.input (haxes'.input.mono fun k hk => by omega)
  · exact h.pads.keepsQuantization hdata hdataRank
      (h.brackets.input.axisWithin hraised.lays.input hdata haxes'.input) op hop
  · refine h.permuted.keepsQuantization h.reorders ?_ hraised.lays.weight haxes'.weight
    unfold Survey.weightOrder
    split <;> decide
  · unfold Survey.kind at hrearranges
    split at hrearranges <;> cases hrearranges
  · exact h.brackets.keepsQuantization hraised.lays.output (haxes'.output.mono fun k hk => by omega)

end Convolution.Plan

/-! ## Transposed convolution -/

namespace TransposedConvolution

theorem Crops.keepsQuantization {out r : Tensor} {params : ConvParams} {c : Crop}
    {cropped : TensorId} (h : Crops g first out params c) (hr : g.tensor? cropped = some r)
    (hrDims : r.shape.dims = out.shape.dims) (hquantization : r.quantization = out.quantization)
    (hrank : out.rank = 4) (hpadding : params.padding.length = 2)
    (haxis : out.AxisWithin Layout.Outer) :
    g.KeepsQuantization ⟨.slice, [c.uncropped, c.begin, c.size], [cropped]⟩ := by
  obtain ⟨batch, height, width, channels, hout⟩ := List.length_eq_four.mp hrank
  obtain ⟨ph, pw, hpadding⟩ := List.length_eq_two.mp hpadding
  obtain ⟨hbegin, hsize⟩ := h.window hpadding
  have huncropped := h.uncropped.dims?
  rw [show (⟨out.elementType, c.fullShape⟩ : TensorType).shape.dims = _
    from h.fullShape_dims hout hpadding] at huncropped
  obtain ⟨_, _, hsource⟩ := h.uncropped
  refine ⟨c.uncropped, cropped, _, r, rfl, rfl, hsource, hr, ?_⟩
  rw [hquantization]
  refine .of_unmoved ?_
  rintro q hq k hk i j ⟨_, hj, hcarries⟩
  have hlength : j.length = 4 := by
    rw [hj.length_eq, hrDims]
    exact hrank
  have hwindow : Value.WindowIn [batch, height + ph * 2, width + pw * 2, channels]
      [0, ph, pw, 0] out.shape.dims := by
    rw [hout]
    exact Canvas.windowIn ⟨batch, 0, 0, 0, channels, 0, 0, height, width, ⟨1, 1⟩, ⟨ph, pw⟩⟩
  have hmoved := (Graph.carries_slice_iff huncropped hbegin hsize hwindow).mp hcarries
  obtain ⟨n, u, v, c, rfl⟩ := List.length_eq_four.mp hlength
  -- nothing is cut off along the first and the last axis
  obtain rfl : [n, u + ph, v + pw, c] = i := hmoved
  rcases haxis q hq k hk with rfl | rfl
  · exact ⟨n, rfl, rfl⟩
  · exact ⟨c, rfl, rfl⟩

theorem AddsBias.not_rearranges {channels : Nat} {output cropped : TensorId} {out : Tensor}
    {bias : Option TensorId} {ops : List Operator}
    (h : AddsBias g first channels output out bias ops cropped) : ∀ op ∈ ops, ¬ op.kind.rearranges := by
  cases h with
  | unbiased => exact List.forall_mem_nil _
  | biased _ _ _ => exact List.forall_mem_singleton.mpr Bool.false_ne_true

namespace Plan

variable {n : TransposedConvolution} {p : Plan} {x w y : Tensor}

theorem Fits.keepsQuantization (h : p.Fits n g first) (hx : g.tensor? n.input = some x)
    (hw : g.tensor? n.weight = some w) (hy : g.tensor? n.output = some y)
    (haxes : Lift.OuterAxes x w y) :
    ∀ op ∈ p.chain, op.kind.rearranges → g.KeepsQuantization op := by
  obtain ⟨_, _, _, x', w', y', hraised⟩ := h.lifts.raised
  have haxes' := h.lifts.outerAxes hx hw hy hraised.lays haxes
  obtain ⟨hx'Rank, _, hy'Rank⟩ := hraised.lays.ranks
  obtain ⟨_, out, hout, houtDims⟩ := h.brackets.output.declared hraised.lays.output
  cases h.out.symm.trans hout
  have houtRank : p.out.rank = 4 := by
    show p.out.shape.dims.length = 4
    rw [houtDims]
    rfl
  refine p.forall_mem_chain (fun op hop _ => h.lifts.keepsQuantization hx hw hy haxes op hop)
    (fun _ => ?_) (fun _ => ?_) (fun hrearranges => (nomatch hrearranges))
    (fun op hop _ => ?_) (fun op hop hrearranges => ?_) (fun _ => ?_)
  · exact h.brackets.input.keepsQuantization h.brackets.enter
      (by decide) hraised.lays.input (haxes'.input.mono fun k hk => by omega)
  · exact h.permuted.keepsQuantization h.reorders (by decide) hraised.lays.weight haxes'.weight
  · obtain ⟨c, hc, rfl⟩ := List.mem_map.mp hop
    obtain ⟨cropped, hcropped, hcroppedDims, hquantization⟩ := h.adds.declared h.out
    obtain ⟨⟨_, hpadding, _⟩, _⟩ := Lift.parameterObjection?_eq_none.mp hraised.lays.valid
    exact (h.crops c (Option.mem_toList.mp hc)).keepsQuantization hcropped hcroppedDims hquantization
      houtRank hpadding (h.brackets.output.axisWithin hraised.lays.output h.out haxes'.output)
  · exact absurd hrearranges (h.adds.not_rearranges op hop)
  · exact h.brackets.keepsQuantization hraised.lays.output (haxes'.output.mono fun k hk => by omega)

end Plan

end TransposedConvolution

/-! ## Lowered convolutions -/

inductive Composite.Convolves : Composite → TensorId → TensorId → TensorId → Prop
  | convolution (n : Convolution) : Convolves (.convolution n) n.input n.weight n.output
  | transposedConvolution (n : TransposedConvolution) :
    Convolves (.transposedConvolution n) n.input n.weight n.output

/-- A transpose of the chain reads a new constant with the elements of the weight in their order and
with a unit axis, and the quantization of the weight went along with them. -/
def Graph.CopiesWeight (g : Graph) (first : Nat) (w : Tensor) (data : Buffer)
    (chain : List Operator) : Prop :=
  ∃ op ∈ chain, ∃ id copy, op.kind = .transpose ∧ op.inputs.head? = some id ∧ g.Drafted first id copy ∧
    copy.shape = w.shape.insertAxis Lift.axis ∧
    copy.data = some ⟨w.shape.insertAxis Lift.axis, data.elements⟩ ∧
    Quantization.Follows (SamePlace w.shape.dims copy.shape.dims) w.quantization copy.quantization

theorem Lift.LiftsTo.copiesWeight {input weight output filter : TensorId} {params : ConvParams}
    {l : Lifted} {w : Tensor} {data : Buffer} {perm : List Nat} {op : Operator}
    {chain : List Operator} (h : LiftsTo g first input weight output params l)
    (hw : g.tensor? weight = some w) (hdata : w.data = some data) (hrank : w.rank = 3)
    (haxis : w.AxisWithin (· < w.rank))
    (hmoves : g.Moves first .transpose (Layout.permutationBuffer perm) l.weight filter op)
    (hop : op ∈ chain) :
    g.CopiesWeight first w data chain := by
  obtain ⟨p, _, rfl⟩ := hmoves
  cases h with
  | image hranked _ =>
    obtain ⟨_, _, _, _, hw', _, _, hfour, _⟩ := hranked
    cases hw.symm.trans hw'
    exact absurd (hrank.symm.trans hfour) (by decide)
  | line _ _ _ hweight _ =>
    obtain ⟨copy, hdrafted, hcopy⟩ := hweight.follows hw hdata hrank haxis
    exact ⟨_, hop, _, copy, rfl, rfl, hdrafted, hcopy⟩

theorem Composite.Drafts.keepsQuantization {op : Composite} {input weight output : TensorId}
    {x w y : Tensor} {chain : List Operator} (h : op.Drafts g first chain)
    (hconvolves : op.Convolves input weight output) (hx : g.tensor? input = some x)
    (hw : g.tensor? weight = some w) (hy : g.tensor? output = some y)
    (haxes : Lift.OuterAxes x w y) :
    (∀ op ∈ chain, op.kind.rearranges → g.KeepsQuantization op) ∧
    (w.rank = 3 → ∀ data ∈ w.data, g.CopiesWeight first w data chain) := by
  cases hconvolves with
  | convolution n =>
    obtain ⟨p, hfits, rfl⟩ := h
    refine ⟨hfits.keepsQuantization hx hw hy haxes, fun hrank data hdata => ?_⟩
    exact hfits.lifts.copiesWeight hw hdata hrank haxes.weight hfits.reorders
      (by simp [Convolution.Plan.chain])
  | transposedConvolution n =>
    obtain ⟨p, hfits, rfl⟩ := h
    refine ⟨hfits.keepsQuantization hx hw hy haxes, fun hrank data hdata => ?_⟩
    exact hfits.lifts.copiesWeight hw hdata hrank haxes.weight hfits.reorders
      (by simp [TransposedConvolution.Plan.chain])

namespace Edit

/-- A convolution of either kind that is lowered. The quantized axes of its input and output, if
there are any, are those of the batch or of the channels, and that of the weight is one of its axes.
In the graph after it, each operator that only moves elements takes the quantization of its data
along, and so did the copy of a constant weight of rank three that has a unit axis. -/
theorem quantization_goes_along {s s' : Session} {id : NodeId} {node : Node} {op : Composite}
    {options : Options} {result : Lowered} {input weight output : TensorId} {x w y : Tensor}
    (hnode : s.graph.node? id = some node) (hkind : node.kind = .composite op)
    (hconvolves : op.Convolves input weight output) (hx : s.graph.tensor? input = some x)
    (hw : s.graph.tensor? weight = some w) (hy : s.graph.tensor? output = some y)
    (haxes : Lift.OuterAxes x w y) (hrun : lowerNode id options s = .ok result s') :
    ∃ chain, List.Forall₂ (fun id op =>
      ∃ node, s'.graph.node? id = some node ∧ node.kind = .operator op) result.nodes chain ∧
      (∀ op ∈ chain, op.kind.rearranges → s'.graph.KeepsQuantization op) ∧
      (w.rank = 3 → ∀ data ∈ w.data, s'.graph.CopiesWeight s.graph.tensors.length w data chain) := by
  obtain ⟨o, t, _, houtlines, hgrows, hreplaces⟩ := lowerNode_ok hnode hkind hrun
  obtain ⟨hextend, _, hnodes⟩ := hreplaces.operators
  have hold : s.graph.tensors <+: s'.graph.tensors := hgrows.tensors_extend
  exact ⟨o.chain, hnodes,
    (houtlines.2 s'.graph hextend).keepsQuantization hconvolves (Graph.tensor?_of_extend hold hx)
    (Graph.tensor?_of_extend hold hw) (Graph.tensor?_of_extend hold hy) haxes⟩

/-- A convolution of a line with padding and with a constant weight. All quantized axes are those of
channels, which every change of the layout moves. -/
def quantizedLine : Convolution :=
  ⟨⟨0⟩, ⟨1⟩, none, ⟨2⟩, ⟨[1], [1], [1], [0], 1⟩, .none⟩

def quantizedLineTensors : List Tensor :=
  [.computed "x" ⟨.i8, ⟨[1, 2, 5]⟩⟩ (some (.perAxis [1, 2] [3, 4] 1)),
    .constant "w" ⟨⟨[2, 2, 3]⟩, .i8 (.uniform 12 1)⟩ (some (.perAxis [5, 6] [0, 0] 1)),
    .computed "y" ⟨.i8, ⟨[1, 2, 5]⟩⟩ (some (.perAxis [7, 8] [9, 0] 1))]

theorem quantization_goes_along_line :
    ∃ world result s chain, World.after (quantizedLineTensors.map .addTensor ++
      [.addComposite (.convolution quantizedLine)]) = some world ∧
      lowerNode ⟨0⟩ .default world.session = .ok result s ∧ chain.length = 7 ∧
      List.Forall₂ (fun id op => ∃ node, s.graph.node? id = some node ∧ node.kind = .operator op)
        result.nodes chain ∧
      (∀ op ∈ chain, op.kind.rearranges → s.graph.KeepsQuantization op) ∧
      s.graph.CopiesWeight 3 quantizedLineTensors[1] ⟨⟨[2, 2, 3]⟩, .i8 (.uniform 12 1)⟩ chain := by
  have hrun : ((World.after (quantizedLineTensors.map .addTensor ++
      [.addComposite (.convolution quantizedLine)])).bind fun world =>
      ((lowerNode ⟨0⟩ .default).success? world.session).map fun r =>
        (r.1.nodes.length, world.graph.tensors, (world.graph.node? ⟨0⟩).map (·.kind))) =
      some (7, quantizedLineTensors, some (.composite (.convolution quantizedLine))) := by
    decide +kernel
  obtain ⟨world, hworld, hlower⟩ := Option.bind_eq_some_iff.mp hrun
  obtain ⟨⟨result, s⟩, hsuccess, hfacts⟩ := Option.map_eq_some_iff.mp hlower
  obtain ⟨hlength, hrest⟩ := Prod.mk.inj hfacts
  obtain ⟨htensors, hcomposite⟩ := Prod.mk.inj hrest
  obtain ⟨node, hnode, hkind⟩ := Option.map_eq_some_iff.mp hcomposite
  have htensor (t : TensorId) : world.graph.tensor? t = quantizedLineTensors[t.index]? := by
    rw [← htensors]
    rfl
  have hok := success?_eq_some hsuccess
  have haxes : Lift.OuterAxes quantizedLineTensors[0] quantizedLineTensors[1]
      quantizedLineTensors[2] := by
    constructor <;> unfold Tensor.AxisWithin <;> decide
  obtain ⟨chain, hnodes, hkeeps, hcopies⟩ := quantization_goes_along hnode hkind
    (.convolution _) (htensor ⟨0⟩) (htensor ⟨1⟩) (htensor ⟨2⟩) haxes hok
  have hcopies := hcopies rfl _ rfl
  rw [htensors] at hcopies
  exact ⟨world, result, s, chain, hworld, hok, hnodes.length_eq.symm.trans hlength,
    hnodes, hkeeps, hcopies⟩

end Edit

end GraphLowering
