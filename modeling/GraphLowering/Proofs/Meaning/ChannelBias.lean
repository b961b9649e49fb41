import GraphLowering.Proofs.ChainShape
import GraphLowering.Proofs.ShapeRules

/-!
# The bias of a transposed convolution

The bias is added to channel-last images. A lowering accepts it for its number of elements, one or
as many as there are output channels, whatever its shape. The addition repeats axes of size one and
has the last axes correspond. So each channel gets its own element of the bias if all axes of the
bias but the last have size one, and only then (`Edit.lowered_bias_along_channels`).
-/

namespace GraphLowering

/-- The sizes of an operand of images that has elements along the last axis only. -/
structure AlongLastAxis (dims : List Nat) : Prop where
  rank : dims.length ≤ 4
  ones : ∀ d ∈ dims.dropLast, d = 1

theorem alongLastAxis_iff_reverse {dims : List Nat} :
    AlongLastAxis dims ↔ dims.length ≤ 4 ∧ ∀ d ∈ dims.reverse.tail, d = 1 := by
  rw [List.tail_reverse]
  simp only [List.mem_reverse]
  exact ⟨fun h => ⟨h.rank, h.ones⟩, fun h => ⟨h.1, h.2⟩⟩

namespace Value

universe u

/-! ## Repeated axes -/

theorem commonDims_eq_left_iff {as bs : List Nat} :
    commonDims as bs = some as ↔ List.Forall₂ (fun a b => a = b ∨ b = 1) (as.take bs.length) bs := by
  induction as generalizing bs with
  | nil => cases bs <;> simp [commonDims]
  | cons a as ih =>
    cases bs with
    | nil => simp [commonDims]
    | cons b bs =>
      rw [commonDims, List.length_cons, List.take_succ_cons, List.forall₂_cons, ← ih]
      by_cases hkept : a = b ∨ b = 1
      · simp [hkept]
      · obtain ⟨hne, hother⟩ := not_or.mp hkept
        rw [if_neg hkept]
        split <;> simp [hne, hother, Ne.symm hne]

/-- The index of an operand. Along axes of size one it does not move. -/
def repeated (dims index : List Nat) : List Nat :=
  List.zipWith (fun d i => if d = 1 then 0 else i) dims index

theorem stretched_eq {R : Type u} {v : Value R} {index : List Nat} (h : v.dims.length ≤ index.length) :
    v.stretched index = v.entry (repeated v.dims.reverse index.reverse).reverse := by
  have hdrop : (index.drop (index.length - v.dims.length)).length = v.dims.length := by
    rw [List.length_drop]
    omega
  have hcut : repeated v.dims.reverse index.reverse =
      repeated v.dims.reverse (index.drop (index.length - v.dims.length)).reverse := by
    unfold repeated
    rw [← List.take_reverse, List.zipWith_eq_zipWith_take_min,
      List.length_reverse, List.length_reverse, Nat.min_eq_left h,
      List.take_of_length_le (Nat.le_of_eq List.length_reverse)]
  rw [hcut]
  unfold stretched repeated
  rw [← List.reverse_zipWith hdrop.symm, List.reverse_reverse]

theorem repeated_of_ones {d o : Nat} {ones rest : List Nat} (hones : ∀ e ∈ ones, e = 1)
    (hlength : ones.length ≤ rest.length) :
    repeated (d :: ones) (o :: rest) = (if d = 1 then 0 else o) :: List.replicate ones.length 0 := by
  have hrest : repeated ones rest = List.replicate ones.length 0 := by
    induction ones generalizing rest with
    | nil => rfl
    | cons e ones ih =>
      obtain ⟨he, hones⟩ := List.forall_mem_cons.mp hones
      cases rest with
      | nil => cases hlength
      | cons i rest =>
        rw [he, List.length_cons, List.replicate_succ, ← ih hones (Nat.le_of_succ_le_succ hlength)]
        rfl
  rw [← hrest]
  rfl

theorem indexAt_replicate_append {d k : Nat} (hk : k < d) (n : Nat) :
    indexAt (List.replicate n 1 ++ [d]) k = List.replicate n 0 ++ [k] := by
  induction n with
  | zero => simp [indexAt]
  | succ n ih =>
    have hprod : (List.replicate n 1 ++ [d]).prod = d := by simp
    rw [List.replicate_succ, List.cons_append, indexAt, hprod,
      Nat.div_eq_of_lt hk, Nat.mod_eq_of_lt hk, ih]
    rfl

theorem inBounds_zeros {sizes : List Nat} (hpos : ∀ s ∈ sizes, 0 < s) :
    InBounds sizes (List.replicate sizes.length 0) := by
  induction sizes with
  | nil => exact .nil
  | cons s sizes ih =>
    obtain ⟨hs, hsizes⟩ := List.forall_mem_cons.mp hpos
    exact .cons hs (ih hsizes)

theorem ones_of_repeated_eq {sizes dims : List Nat} (hpos : ∀ s ∈ sizes, 0 < s)
    (hfits : List.Forall₂ (fun s d => s = d ∨ d = 1) (sizes.take dims.length) dims)
    (hsame : ∀ index, InBounds sizes index →
      repeated dims index = repeated dims (List.replicate sizes.length 0)) :
    ∀ d ∈ dims, d = 1 := by
  induction dims generalizing sizes with
  | nil => exact List.forall_mem_nil _
  | cons d dims ih =>
    cases sizes with
    | nil => cases hfits
    | cons s sizes =>
      obtain ⟨hs, hsizes⟩ := List.forall_mem_cons.mp hpos
      obtain ⟨hd, hdims⟩ := List.forall₂_cons.mp hfits
      have hone : d = 1 := by
        by_contra hne
        have hmoved : InBounds (s :: sizes) (1 :: List.replicate sizes.length 0) :=
          .cons (by omega) (inBounds_zeros hsizes)
        have hhead := (List.cons.inj (hsame _ hmoved)).1
        simp [hne] at hhead
      refine List.forall_mem_cons.mpr ⟨hone, ih hsizes hdims fun index hindex => ?_⟩
      exact (List.cons.inj (hsame (0 :: index) (.cons hs hindex))).2

/-! ## Adding an operand to images -/

section Add

variable {R : Type u} [CommRing R] {batch rows columns outputs : Nat} {x b v : Value R} {f : R → R}

theorem add_eq_some_iff (hdims : v.dims = x.dims) :
    x.add f b = some v ↔ commonDims x.dims.reverse b.dims.reverse = some x.dims.reverse ∧
      ∀ index, v.entry index = f (x.stretched index + b.stretched index) := by
  obtain ⟨dims, entry⟩ := v
  cases hdims
  unfold add
  rw [Option.map_eq_some_iff]
  constructor
  · rintro ⟨common, hcommon, heq⟩
    obtain ⟨hreverse, hentry⟩ := Value.mk.inj heq
    obtain rfl : common = x.dims.reverse := List.reverse_eq_iff.mp hreverse
    exact ⟨hcommon, fun index => (congrFun hentry index).symm⟩
  · rintro ⟨hcommon, hentry⟩
    obtain rfl : entry = fun index => f (x.stretched index + b.stretched index) := funext hentry
    exact ⟨_, hcommon, by rw [List.reverse_reverse]⟩

theorem eq_replicate_of_alongLastAxis {dims : List Nat} (h : AlongLastAxis dims) (hdims : dims ≠ []) :
    ∃ n d, n ≤ 3 ∧ dims = List.replicate n 1 ++ [d] ∧ dims.prod = d := by
  obtain ⟨ones, d, rfl⟩ := (List.eq_nil_or_concat' dims).resolve_left hdims
  obtain ⟨hrank, hones⟩ := h
  rw [List.dropLast_concat] at hones
  rw [List.length_append] at hrank
  obtain heq : ones = List.replicate ones.length 1 := List.eq_replicate_of_mem hones
  refine ⟨ones.length, d, Nat.le_of_succ_le_succ hrank, by rw [← heq], ?_⟩
  rw [heq]
  simp

theorem commonDims_of_alongLastAxis {dims : List Nat} (h : AlongLastAxis dims)
    (hcount : dims.prod = 1 ∨ dims.prod = outputs) :
    commonDims [outputs, columns, rows, batch] dims.reverse = some [outputs, columns, rows, batch] := by
  by_cases hdims : dims = []
  · rw [hdims]
    rfl
  · obtain ⟨n, d, hn, rfl, hprod⟩ := eq_replicate_of_alongLastAxis h hdims
    rw [hprod] at hcount
    have hrepeated : List.Forall₂ (fun a b => a = b ∨ b = 1)
        ([columns, rows, batch].take n) (List.replicate n 1) := by
      refine List.forall₂_iff_zip.mpr ⟨by simpa using hn, fun hmem => .inr ?_⟩
      exact List.eq_of_mem_replicate (List.of_mem_zip hmem).2
    rw [commonDims_eq_left_iff, List.reverse_append, List.reverse_replicate, List.reverse_singleton,
      List.singleton_append, List.length_cons, List.length_replicate, List.take_succ_cons]
    exact .cons (hcount.symm.imp_left Eq.symm) hrepeated

omit [CommRing R] in
theorem stretched_of_alongLastAxis {n i j o : Nat} (h : AlongLastAxis b.dims)
    (hcount : b.dims.prod = 1 ∨ b.dims.prod = outputs) (ho : o < outputs) :
    b.stretched [n, i, j, o] = b.flat (if b.dims.prod = 1 then 0 else o) := by
  rw [stretched_eq h.rank, flat]
  by_cases hdims : b.dims = []
  · rw [hdims]
    rfl
  · obtain ⟨m, d, hm, heq, hprod⟩ := eq_replicate_of_alongLastAxis h hdims
    rw [hprod] at hcount ⊢
    have hlt : (if d = 1 then 0 else o) < d := by
      split <;> omega
    have hmoved : repeated (d :: List.replicate m 1) [o, j, i, n] =
        (if d = 1 then 0 else o) :: List.replicate m 0 := by
      rw [repeated_of_ones (fun e he => List.eq_of_mem_replicate he) (by simpa using hm),
        List.length_replicate]
    rw [heq, indexAt_replicate_append hlt, List.reverse_append, List.reverse_replicate]
    show b.entry (repeated (d :: List.replicate m 1) [o, j, i, n]).reverse = _
    rw [hmoved, List.reverse_cons, List.reverse_replicate]

/-- If each channel of images gets its own element, whatever the elements are, then they are along
the last axis. -/
theorem alongLastAxis_of_add [Nontrivial R] {dims : List Nat}
    (hpos : ∀ s ∈ [outputs, columns, rows, batch], 0 < s)
    (h : ∀ entry : List Nat → R, ∃ x v : Value R, x.dims = [batch, rows, columns, outputs] ∧
      v.dims = x.dims ∧ x.add (fun r => r) ⟨dims, entry⟩ = some v ∧
      ∀ n i j o, InBounds x.dims [n, i, j, o] → v.entry [n, i, j, o] =
      x.entry [n, i, j, o] + (⟨dims, entry⟩ : Value R).flat (if dims.prod = 1 then 0 else o)) :
    AlongLastAxis dims := by
  have hcommon : commonDims [outputs, columns, rows, batch] dims.reverse =
      some [outputs, columns, rows, batch] := by
    obtain ⟨x, v, hx, hv, hadd, _⟩ := h 0
    have hcommon := ((add_eq_some_iff hv).mp hadd).1
    rw [hx] at hcommon
    exact hcommon
  have hfits := commonDims_eq_left_iff.mp hcommon
  have hrank : dims.length ≤ 4 := by
    have hlength := hfits.length_eq
    simp at hlength
    omega
  -- an element that differs from all others tells its index
  have hindex : ∀ index, InBounds [columns, rows, batch] index →
      repeated dims.reverse (0 :: index) = (indexAt dims 0).reverse := by
    intro index hbounds
    obtain ⟨j, i, n, rfl⟩ := List.length_eq_three.mp hbounds.length_eq
    obtain ⟨x, v, hx, hv, hadd, hentry⟩ := h fun index => if index = indexAt dims 0 then 1 else 0
    have hbounds : InBounds x.dims [n, i, j, 0] := by
      rcases hbounds with _ | ⟨hj, _ | ⟨hi, _ | ⟨hn, _⟩⟩⟩
      rw [hx]
      exact .cons hn (.cons hi (.cons hj (.cons (hpos outputs List.mem_cons_self) .nil)))
    have hsum := hentry _ _ _ _ hbounds
    rw [((add_eq_some_iff hv).mp hadd).2, stretched_of_inBounds hbounds,
      ite_self, stretched_eq hrank] at hsum
    have hone := add_left_cancel hsum
    by_contra hne
    rw [← List.reverse_eq_iff] at hne
    simp [flat, hne] at hone
  rw [alongLastAxis_iff_reverse]
  refine ⟨hrank, ?_⟩
  generalize dims.reverse = reversed at hfits hindex
  cases reversed with
  | nil => exact List.forall_mem_nil _
  | cons d rest =>
    obtain ⟨_, hpos⟩ := List.forall_mem_cons.mp hpos
    obtain ⟨_, hrest⟩ := List.forall₂_cons.mp hfits
    refine ones_of_repeated_eq hpos hrest fun index hbounds => ?_
    have hsame := (hindex index hbounds).trans (hindex _ (inBounds_zeros hpos)).symm
    exact (List.cons.inj hsame).2

end Add

end Value

/-! ## The addition of a graph -/

section Additions

universe u

variable {R : Type u} [CommRing R] {g : Graph} {activate : Activation → R → R}
  {store store' : Store R} {x bias y : TensorId}
  {batch rows columns outputs : Nat} {dims : List Nat}

theorem Operator.run_eq_some_iff {op : Operator} (houtputs : op.outputs = [y]) :
    op.run g activate store = some store' ↔
      ∃ v, op.result? g activate store = some v ∧ g.dims? y = some v.dims ∧
        store' = Function.update store y v := by
  unfold Operator.run
  simp only [houtputs, Option.bind_eq_some_iff]
  refine exists_congr fun v => and_congr_right fun _ => ?_
  rw [Option.ite_none_right_eq_some, Option.some.injEq, eq_comm (a := store')]
  rfl

/-- Whatever the values are, an addition to images can be run, and adds to each entry of a channel
the element of the bias for the channel, in row-major order, or the only element. -/
def Graph.AddsPerChannel (R : Type u) [CommRing R] (g : Graph) (x bias y : TensorId) : Prop :=
  ∀ activate : Activation → R → R, (∀ r, activate .none r = r) → ∀ store : Store R, g.Typed store →
    ∃ store', (⟨.add .none, [x, bias], [y]⟩ : Operator).run g activate store = some store' ∧
      ∀ n i j o, InBounds (store x).dims [n, i, j, o] →
        (store' y).entry [n, i, j, o] = (store x).entry [n, i, j, o] +
          Convolution.biasEntry store (some bias) o

theorem Graph.addsPerChannel_of_alongLastAxis
    (hx : g.dims? x = some [batch, rows, columns, outputs])
    (hy : g.dims? y = some [batch, rows, columns, outputs]) (hbias : g.dims? bias = some dims)
    (hcount : dims.prod = 1 ∨ dims.prod = outputs) (h : AlongLastAxis dims) :
    g.AddsPerChannel R x bias y := by
  intro activate hnone store htyped
  have hxDims := htyped.dims_eq hx
  obtain rfl := htyped.dims_eq hbias
  let v : Value R := ⟨(store x).dims,
    fun index => activate .none ((store x).stretched index + (store bias).stretched index)⟩
  have hadd : (store x).add (activate .none) (store bias) = some v := by
    have hdims : v.dims = (store x).dims := rfl
    refine (Value.add_eq_some_iff hdims).mpr ⟨?_, fun _ => rfl⟩
    rw [hxDims]
    exact Value.commonDims_of_alongLastAxis h hcount
  refine ⟨_, (Operator.run_eq_some_iff rfl).mpr ⟨v, hadd, hy.trans (congrArg some hxDims.symm), rfl⟩,
    fun n i j o hbounds => ?_⟩
  have ho : o < outputs := by
    rw [hxDims] at hbounds
    exact hbounds.getD_lt (show [batch, rows, columns, outputs][3]? = some outputs from rfl)
  rw [Function.update_self]
  show activate .none ((store x).stretched [n, i, j, o] + (store bias).stretched [n, i, j, o]) = _
  rw [hnone, Value.stretched_of_inBounds hbounds, Value.stretched_of_alongLastAxis h hcount ho]
  rfl

theorem Graph.alongLastAxis_of_addsPerChannel [Nontrivial R]
    (hx : g.dims? x = some [batch, rows, columns, outputs])
    (hy : g.dims? y = some [batch, rows, columns, outputs]) (hbias : g.dims? bias = some dims)
    (hpos : ∀ s ∈ [outputs, columns, rows, batch], 0 < s) (h : g.AddsPerChannel R x bias y) :
    AlongLastAxis dims := by
  refine Value.alongLastAxis_of_add (R := R) hpos fun entry => ?_
  have htyped : g.Typed fun t => (⟨(g.dims? t).getD [], entry⟩ : Value R) := by
    intro t tensor ht
    show (g.dims? t).getD [] = _
    rw [Graph.dims?_of_tensor? ht rfl, Option.getD_some]
  obtain ⟨store', hrun, hentry⟩ := h (fun _ r => r) (fun _ => rfl) _ htyped
  obtain ⟨v, hadd, hdims, rfl⟩ := (Operator.run_eq_some_iff rfl).mp hrun
  have hadd : (⟨(g.dims? x).getD [], entry⟩ : Value R).add (fun r => r)
      ⟨(g.dims? bias).getD [], entry⟩ = some v := hadd
  rw [Function.update_self] at hentry
  have hentry : ∀ n i j o, InBounds ((g.dims? x).getD []) [n, i, j, o] → v.entry [n, i, j, o] =
      entry [n, i, j, o] + (⟨(g.dims? bias).getD [], entry⟩ : Value R).flat
        (if ((g.dims? bias).getD []).prod = 1 then 0 else o) := hentry
  rw [hx, hbias] at hadd hentry
  exact ⟨_, v, rfl, Option.some.inj (hdims.symm.trans hy), hadd, hentry⟩

end Additions

/-! ## The addition of a chain -/

def Primitive.isAddition : Primitive → Bool
  | .add _ => true
  | _ => false

namespace TransposedConvolution.Plan

variable {g : Graph} {first : Nat} {n : TransposedConvolution}
  {p : Plan} {bias : TensorId} {w y : Tensor}

theorem Fits.addition_eq (h : p.Fits n g first) (hbias : n.bias = some bias) :
    p.addition = [⟨.add .none, [p.cropped, bias], [p.bracket.output]⟩] ∧
      ∃ b, g.tensor? bias = some b ∧
        (b.shape.elementCount = 1 ∨ b.shape.elementCount = p.outputChannels) := by
  have hadds := h.adds
  rw [hbias] at hadds
  generalize p.addition = addition, p.cropped = cropped at hadds ⊢
  cases hadds with
  | biased hknown hlength _ => exact ⟨rfl, _, hknown, hlength⟩

theorem Fits.mem_and_isAddition_iff (h : p.Fits n g first) (hbias : n.bias = some bias)
    (op : Operator) :
    op ∈ p.chain ∧ op.kind.isAddition ↔ op = ⟨.add .none, [p.cropped, bias], [p.bracket.output]⟩ := by
  obtain ⟨haddition, _⟩ := h.addition_eq hbias
  constructor
  · rintro ⟨hop, hadds⟩
    rcases h.mem_chain_cases hop with hlayout | rfl | hslice | hadded
    · obtain ⟨kind, _, _⟩ := op
      cases kind with
      | transpose | reshape => cases hadds
      | _ => cases hlayout
    · cases hadds
    · obtain ⟨c, _, rfl⟩ := List.mem_map.mp hslice
      cases hadds
    · rw [haddition] at hadded
      exact List.mem_singleton.mp hadded
  · rintro rfl
    refine ⟨?_, rfl⟩
    unfold chain
    rw [haddition]
    simp

theorem Fits.addition_dims (h : p.Fits n g first) (hw : g.tensor? n.weight = some w)
    (hy : g.tensor? n.output = some y) (hchannels : y.shape.dims[1]? = w.shape.dims[1]?) :
    ∃ batch rows columns, Lift.raise y.shape.dims = [batch, p.outputChannels, rows, columns] ∧
      g.dims? p.cropped = some [batch, rows, columns, p.outputChannels] ∧
      g.dims? p.bracket.output = some [batch, rows, columns, p.outputChannels] ∧
      p.outputChannels < 2 ^ 31 := by
  obtain ⟨x, _, _, x', _, y', hraised⟩ := h.lifts.raised
  cases hw.symm.trans hraised.weight
  cases hy.symm.trans hraised.output
  obtain ⟨batch, channels, rows, columns, hyDims⟩ := List.length_eq_four.mp hraised.lays.ranks.2.2
  obtain ⟨⟨_, hpadding, _⟩, _⟩ := Lift.parameterObjection?_eq_none.mp hraised.lays.valid
  obtain rfl : channels = p.outputChannels := by
    have hsame := (h.operandChannels hraised.input hw).2
    rw [← hchannels, ← Lift.getElem?_raise y.shape.dims Nat.one_lt_two, ← hraised.outputDims, hyDims]
      at hsame
    exact Option.some.inj hsame
  obtain ⟨out, hout, houtDims⟩ := h.brackets.declared_output hraised.lays.output hyDims
  cases h.out.symm.trans hout
  obtain ⟨cropped, hcropped, hcroppedDims⟩ := h.cropped_declared
  exact ⟨batch, rows, columns, hraised.outputDims.symm.trans hyDims,
    Graph.dims?_of_tensor? hcropped (hcroppedDims.trans houtDims),
    Graph.dims?_of_tensor? hout houtDims, (h.full_lt houtDims hpadding).2.1⟩

end TransposedConvolution.Plan

/-- The bias of a transposed convolution that is lowered has one element or as many as there are
output channels. It is added by one operator, to images with the channels last. If all axes of the
bias but the last have size one, each channel gets its own element, and the addition can be run. If
the output has elements, then not otherwise. -/
theorem Edit.lowered_bias_along_channels {R : Type} [CommRing R] [Nontrivial R]
    {calls : List Call} {world : World} {id : NodeId} {node : Node} {n : TransposedConvolution}
    {options : Options} {result : Lowered} {s : Session} {bias : TensorId} {w y : Tensor}
    (hcalls : World.after calls = some world) (hnode : world.graph.node? id = some node)
    (hkind : node.kind = .composite (.transposedConvolution n)) (hbias : n.bias = some bias)
    (hw : world.graph.tensor? n.weight = some w) (hy : world.graph.tensor? n.output = some y)
    (hchannels : y.shape.dims[1]? = w.shape.dims[1]?)
    (hlower : lowerNode id options world.session = .ok result s) :
    ∃ b batch rows columns outputs unbiased biased, world.graph.tensor? bias = some b ∧
      Lift.raise y.shape.dims = [batch, outputs, rows, columns] ∧
      (b.shape.dims.prod = 1 ∨ b.shape.dims.prod = outputs) ∧
      s.graph.dims? unbiased = some [batch, rows, columns, outputs] ∧
      s.graph.dims? biased = some [batch, rows, columns, outputs] ∧
      (∀ op, s.graph.Runs result.nodes op ∧ op.kind.isAddition ↔
        op = ⟨.add .none, [unbiased, bias], [biased]⟩) ∧
      (AlongLastAxis b.shape.dims → s.graph.AddsPerChannel R unbiased bias biased) ∧
      ((∀ d ∈ y.shape.dims, 0 < d) → s.graph.AddsPerChannel R unbiased bias biased →
        AlongLastAxis b.shape.dims) := by
  have hwf := (World.after_sound hcalls).wellFormed
  have hlowers := (lowerNode_run id options world.session).1 result s hlower
  obtain ⟨chain, ⟨p, hfits, rfl⟩, _, hnodes⟩ := hlowers.operators hnode hkind
  have hextend := hlowers.tensors_extend
  obtain ⟨b, hb⟩ := Option.isSome_iff_exists.mp <| hwf.operand_registered hnode hkind (t := bias)
    (List.mem_cons_of_mem _ (List.mem_cons_of_mem _ (Option.mem_toList.mpr hbias)))
  have hb' := Graph.tensor?_of_extend hextend hb
  have hbDims : s.graph.dims? bias = some b.shape.dims := Graph.dims?_of_tensor? hb' rfl
  obtain ⟨batch, rows, columns, hyDims, hcropped, hout, hsmall⟩ :=
    hfits.addition_dims (Graph.tensor?_of_extend hextend hw)
      (Graph.tensor?_of_extend hextend hy) hchannels
  have hcount : b.shape.dims.prod = 1 ∨ b.shape.dims.prod = p.outputChannels := by
    obtain ⟨_, _, hknown, hcount⟩ := hfits.addition_eq hbias
    cases hb'.symm.trans hknown
    rw [Shape.elementCount_eq] at hcount
    unfold maxSize at hcount
    omega
  refine ⟨b, batch, rows, columns, p.outputChannels, p.cropped,
    p.bracket.output, hb, hyDims, hcount, hcropped, hout,
    fun op => ?_, Graph.addsPerChannel_of_alongLastAxis hcropped hout hbDims hcount, fun hpos => ?_⟩
  · rw [Graph.runs_iff_mem hnodes]
    exact hfits.mem_and_isAddition_iff hbias op
  · refine Graph.alongLastAxis_of_addsPerChannel hcropped hout hbDims fun d hd => ?_
    have hraised : d ∈ Lift.raise y.shape.dims := by
      rw [hyDims]
      simp only [List.mem_cons, List.not_mem_nil, or_false] at hd ⊢
      tauto
    rcases Lift.mem_raise hraised with rfl | hd
    · exact Nat.one_pos
    · exact hpos d hd

/-- Two elements of a bias with one axis are for two channels. -/
theorem Edit.lowered_bias_along_channels_line :
    ∃ world result s unbiased biased,
      World.after (paddedByteLineTensors.map .addTensor ++
        [.addComposite (.transposedConvolution paddedByteLine)]) = some world ∧
      lowerNode ⟨0⟩ .default world.session = .ok result s ∧
      s.graph.Runs result.nodes ⟨.add .none, [unbiased, ⟨2⟩], [biased]⟩ ∧
      s.graph.AddsPerChannel ℤ unbiased ⟨2⟩ biased := by
  have hrun : ((World.after (paddedByteLineTensors.map .addTensor ++
      [.addComposite (.transposedConvolution paddedByteLine)])).bind fun world =>
      ((lowerNode ⟨0⟩ .default).success? world.session).map fun _ =>
        (world.graph.tensors, (world.graph.node? ⟨0⟩).map (·.kind))) =
      some (paddedByteLineTensors, some (.composite (.transposedConvolution paddedByteLine))) := by
    decide +kernel
  obtain ⟨world, hworld, hlower⟩ := Option.bind_eq_some_iff.mp hrun
  obtain ⟨⟨result, s⟩, hsuccess, hfacts⟩ := Option.map_eq_some_iff.mp hlower
  obtain ⟨htensors, hcomposite⟩ := Prod.mk.inj hfacts
  obtain ⟨node, hnode, hkind⟩ := Option.map_eq_some_iff.mp hcomposite
  have htensor (t : TensorId) : world.graph.tensor? t = paddedByteLineTensors[t.index]? := by
    rw [← htensors]
    rfl
  have hok := success?_eq_some hsuccess
  obtain ⟨b, _, _, _, _, unbiased, biased, hb, _, _, _, _, honly, hadds, _⟩ :=
    lowered_bias_along_channels (R := ℤ) hworld hnode hkind rfl (htensor ⟨1⟩) (htensor ⟨3⟩) rfl hok
  cases hb.symm.trans (htensor ⟨2⟩)
  exact ⟨world, result, s, unbiased, biased, hworld, hok, ((honly _).mpr rfl).1,
    hadds ⟨by decide, by decide⟩⟩

/-- A bias of two elements for two channels, laid out like the output. -/
def channelFirstBias : TransposedConvolution :=
  ⟨⟨0⟩, ⟨1⟩, some ⟨2⟩, ⟨3⟩, ⟨[1, 1], [0, 0], [1, 1], [0, 0], 1⟩⟩

def channelFirstBiasCalls : List Call :=
  [.addInput (.computed "x" ⟨.f32, ⟨[1, 1, 3, 3]⟩⟩ none),
    .addTensor (.computed "w" ⟨.f32, ⟨[1, 2, 1, 1]⟩⟩ none),
    .addTensor (.computed "b" ⟨.f32, ⟨[1, 2, 1, 1]⟩⟩ none),
    .addTensor (.computed "y" ⟨.f32, ⟨[1, 2, 3, 3]⟩⟩ none),
    .addComposite (.transposedConvolution channelFirstBias)]

/-- The lowering succeeds, but the two elements meet the three rows, and the addition cannot be
run. -/
theorem Edit.lowered_channelFirstBias :
    ∃ world result s unbiased biased, World.after channelFirstBiasCalls = some world ∧
      (world.graph.node? ⟨1⟩).map (·.kind) =
        some (.composite (.transposedConvolution channelFirstBias)) ∧
      world.graph.dims? channelFirstBias.output = some [1, 2, 3, 3] ∧
      world.graph.dims? channelFirstBias.weight = some [1, 2, 1, 1] ∧
      lowerNode ⟨1⟩ .default world.session = .ok result s ∧
      s.graph.Runs result.nodes ⟨.add .none, [unbiased, ⟨2⟩], [biased]⟩ ∧
      s.graph.dims? unbiased = some [1, 3, 3, 2] ∧
      ∀ (activate : Activation → ℤ → ℤ) (store : Store ℤ), s.graph.Typed store →
        (⟨.add .none, [unbiased, ⟨2⟩], [biased]⟩ : Operator).run s.graph activate store = none := by
  have hrun : ((World.after channelFirstBiasCalls).bind fun world =>
      ((lowerNode ⟨1⟩ .default).success? world.session).map fun lowered =>
        ((world.graph.node? ⟨1⟩).map (·.kind),
          lowered.1.nodes[3]?.bind fun id => (lowered.2.graph.node? id).map (·.kind),
          [world.graph.dims? ⟨3⟩, world.graph.dims? ⟨1⟩, lowered.2.graph.dims? ⟨11⟩,
            lowered.2.graph.dims? ⟨2⟩])) =
      some (some (.composite (.transposedConvolution channelFirstBias)),
        some (.operator ⟨.add .none, [⟨11⟩, ⟨2⟩], [⟨7⟩]⟩),
        [some [1, 2, 3, 3], some [1, 2, 1, 1], some [1, 3, 3, 2], some [1, 2, 1, 1]]) := by
    decide +kernel
  obtain ⟨world, hworld, hlower⟩ := Option.bind_eq_some_iff.mp hrun
  obtain ⟨⟨result, s⟩, hsuccess, hfacts⟩ := Option.map_eq_some_iff.mp hlower
  simp only [Prod.mk.injEq, List.cons.injEq] at hfacts
  obtain ⟨hcomposite, hoperator, hy, hw, hunbiased, hbias, _⟩ := hfacts
  obtain ⟨id, hid, hoperator⟩ := Option.bind_eq_some_iff.mp hoperator
  obtain ⟨node, hnode, hkind⟩ := Option.map_eq_some_iff.mp hoperator
  refine ⟨world, result, s, ⟨11⟩, ⟨7⟩, hworld, hcomposite, hy, hw, success?_eq_some hsuccess,
    ⟨id, List.mem_of_getElem? hid, node, hnode, hkind⟩, hunbiased, fun activate store htyped => ?_⟩
  have hnone : (store ⟨11⟩).add (activate .none) (store ⟨2⟩) = none := by
    unfold Value.add
    rw [htyped.dims_eq hunbiased, htyped.dims_eq hbias]
    rfl
  exact Option.bind_eq_none_iff.mpr fun v hv => absurd (hv.symm.trans hnone) (Option.some_ne_none v)

end GraphLowering
