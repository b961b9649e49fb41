import GraphLowering.Proofs.Meaning.Correlation
import GraphLowering.Proofs.Meaning.Execution
import GraphLowering.Proofs.Sizes

/-!
# Running the operators around a convolution of images

The operands of a convolution along a line get a unit axis, and the result loses it. What operators
compute from the operands with two spatial axes, the whole chain computes from the given operands
(`Lift.LiftsTo.run`), if it makes no difference to the computation whether values are lines or
images of height one (`Lift.Raisable`).
-/

namespace GraphLowering

universe u

variable {R : Type u} [CommRing R] {g : Graph} {first : Nat}
  {activate : Activation → R → R} {store : Store R}

namespace Layout.Permuted

variable {perm : List Nat} {source result : TensorId} {op : Operator}

theorem run (h : Layout.Permuted g first perm source result) (activate : Activation → R → R)
    (store : Store R)
    (hmoves : g.Moves first .transpose (Layout.permutationBuffer perm) source result op)
    (hperm : (perm.map Int32.ofNat).mapM ofInt32? = some perm) {t : Tensor}
    (ht : g.tensor? source = some t) (hdims : (store source).dims = t.shape.dims) :
    ∃ v, op.run g activate store = some (Function.update store result v) ∧
      v.dims = perm.map ((store source).dims.getD · 0) ∧
      ∀ index, v.entry index =
        (store source).entry
          ((List.range perm.length).map fun axis => index.getD (perm.idxOf axis) 0) := by
  obtain ⟨hpermutation, r, hr, hrdims⟩ := h.declared ht
  rw [← hdims] at hpermutation hrdims
  exact ⟨_, hmoves.transposes activate store hperm (if_pos hpermutation) hr hrdims, rfl, fun _ => rfl⟩

end Layout.Permuted

/-! ## Between the layouts -/

namespace Layout.Brackets

variable {input output : TensorId} {b : Bracket} {t : Tensor} {batch channels height width : Nat}

theorem run_enter (h : Brackets g first input output b) (activate : Activation → R → R)
    (store : Store R) (ht : g.tensor? input = some t) (hdims : (store input).dims = t.shape.dims)
    (himage : t.shape.dims = [batch, channels, height, width]) :
    (∃ r, g.tensor? b.input = some r ∧ r.shape.dims = [batch, height, width, channels]) ∧ ∃ v,
      b.enter.run g activate store = some (Function.update store b.input v) ∧
      v.dims = [batch, height, width, channels] ∧
      ∀ n i j c, v.entry [n, i, j, c] = (store input).entry [n, c, i, j] := by
  obtain ⟨v, hrun, hvDims, hentry⟩ := h.input.run activate store h.enter (by decide) ht hdims
  rw [hdims, himage] at hvDims
  exact ⟨h.declared_input ht himage, v, hrun, hvDims, fun n i j c => hentry [n, i, j, c]⟩

theorem run_leave (h : Brackets g first input output b) (activate : Activation → R → R)
    (store : Store R) (ht : g.tensor? output = some t)
    (himage : t.shape.dims = [batch, channels, height, width])
    (hdims : (store b.output).dims = [batch, height, width, channels]) :
    ∃ v, b.leave.run g activate store = some (Function.update store output v) ∧
      v.dims = [batch, channels, height, width] ∧
      ∀ n c i j, v.entry [n, c, i, j] = (store b.output).entry [n, i, j, c] := by
  have hback : (store b.output).transpose toChannelFirst = some ⟨[batch, channels, height, width],
      fun index => (store b.output).entry
        ((List.range 4).map fun axis => index.getD (toChannelFirst.idxOf axis) 0)⟩ := by
    unfold Value.transpose
    rw [hdims]
    rfl
  exact ⟨_, h.leave.transposes activate store (by decide) hback ht himage, rfl, fun n c i j => rfl⟩

end Layout.Brackets

/-! ## A unit axis -/

namespace Lift

variable {source result : TensorId} {op : Operator} {t : Tensor} {a b c : Nat}

theorem Expands.run (h : Expands g first source result op) (activate : Activation → R → R)
    (store : Store R) (ht : g.tensor? source = some t) (hline : t.shape.dims = [a, b, c])
    (hdims : (store source).dims = t.shape.dims) :
    ∃ raised, op.run g activate store = some (Function.update store result raised) ∧
      Raises (store source) raised a b c := by
  obtain ⟨r, hresult, hinserted⟩ := h.declared ht hline
  obtain ⟨t', _, ht', _, _, hreshapes⟩ := h
  rw [ht] at ht'
  cases ht'
  obtain ⟨raised, hraised, hraises⟩ := exists_raised (hdims.trans hline)
  refine ⟨raised, Graph.run_reshape hreshapes activate store ?_ hresult
    (hinserted.trans hraises.raisedDims.symm), hraises⟩
  rw [insertAxis_line hline]
  exact hraised

theorem ExpandsWeight.run {weight : TensorId} {ops : List Operator}
    (h : ExpandsWeight g first weight ops result) (activate : Activation → R → R)
    (reading : Reading R) (entries : TensorId → List Nat → R) (store : Store R)
    (ht : g.tensor? weight = some t) (hline : t.shape.dims = [a, b, c])
    (hweight : store weight = g.store reading entries weight)
    (hconstants : ∀ id data, g.Operand first id data → store id = g.store reading entries id) :
    ∃ store', g.runChain activate ops store = some store' ∧
      Raises (g.store reading entries weight) (store' result) a b c := by
  cases h with
  | folded hknown hconstant hreshaped _ hdrafted =>
    rw [ht] at hknown
    cases hknown
    obtain rfl := Buffer.eq_of_reshaped? hreshaped
    refine ⟨store, rfl, ?_⟩
    rw [hconstants _ _ ⟨_, _, hdrafted⟩, Graph.store_constant ht hconstant]
    rw [Graph.store_constant hdrafted.2 rfl]
    refine ⟨hline, insertAxis_line hline, fun i j k _ _ _ => ?_⟩
    unfold Reading.constant
    simp only [Tensor.constant, insertAxis_line hline, hline, offset_unit]
  | reshaped hexpands =>
    have hdims : (store weight).dims = t.shape.dims := by
      rw [hweight]
      exact Graph.store_dims ht
    obtain ⟨raised, hrun, hraises⟩ := hexpands.run activate store ht hline hdims
    refine ⟨_, (Graph.runChain_cons hrun).trans (Graph.runChain_nil _), ?_⟩
    rw [Function.update_self, ← hweight]
    exact hraises

theorem run_before {source' weight input : TensorId} {ops : List Operator} {t' : Tensor}
    {a' b' c' : Nat} (hinput : Expands g first source input op)
    (hweight : ExpandsWeight g first source' ops weight) (activate : Activation → R → R)
    (reading : Reading R) (entries : TensorId → List Nat → R) (hold : source'.index < first)
    (hnodup : ((op :: ops).flatMap (·.outputs)).Nodup) (ht : g.tensor? source = some t)
    (hline : t.shape.dims = [a, b, c]) (ht' : g.tensor? source' = some t')
    (hline' : t'.shape.dims = [a', b', c']) :
    ∃ store, g.runChain activate (op :: ops) (g.store reading entries) = some store ∧
      Raises (g.store reading entries source) (store input) a b c ∧
      Raises (g.store reading entries source') (store weight) a' b' c' := by
  obtain ⟨houtputs, hdrafted⟩ := hinput.writes
  obtain ⟨raised, hrun, hraises⟩ :=
    hinput.run activate (g.store reading entries) ht hline (Graph.store_dims ht)
  obtain ⟨store, hrun', hraises'⟩ := hweight.run activate reading entries
    (Function.update (g.store reading entries) input raised) ht' hline'
    (Function.update_of_ne (hdrafted.ne (.inl hold)) _ _)
    fun id data hoperand => Function.update_of_ne (hdrafted.ne (.inr hoperand.constant)) _ _
  have hkept : store input = raised := by
    rw [List.flatMap_cons, houtputs, List.singleton_append, List.nodup_cons] at hnodup
    exact (Graph.runChain_frame hrun' hnodup.1).trans (Function.update_self ..)
  rw [← hkept] at hraises
  exact ⟨store, (Graph.runChain_cons hrun).trans hrun', hraises, hraises'⟩

theorem Collapses.run (h : Collapses g first source result op) (activate : Activation → R → R)
    (store : Store R) (ht : g.tensor? result = some t) (hline : t.shape.dims = [a, b, c])
    (hdims : (store source).dims = [a, b, 1, c]) :
    ∃ v, op.run g activate store = some (Function.update store result v) ∧
      Raises v (store source) a b c := by
  obtain ⟨t', _, ht', _, _, hreshapes⟩ := h
  rw [ht] at ht'
  cases ht'
  obtain ⟨v, hv, hraises⟩ := exists_raising hdims
  refine ⟨v, Graph.run_reshape hreshapes activate store ?_ ht ?_, hraises⟩
  · rw [hline]
    exact hv
  · exact hline.trans hraises.dims.symm

/-! ## Lines and images -/

/-- A computation on sized operands that does the same on lines as on images of height one. -/
structure Raisable (sized : ConvParams → List Nat → List Nat → List Nat → Prop)
    (compute : ConvParams → Value R → Value R → List Nat → R) : Prop where
  sizes : ∀ {params a b c a' b' c' a'' b'' c''}, sized params [a, b, c] [a', b', c'] [a'', b'', c''] →
    sized params.lifted [a, b, 1, c] [a', b', 1, c'] [a'', b'', 1, c'']
  entries : ∀ {params a b c a' b' c' a'' b'' c'' x x' w w'}, Raises x x' a b c → Raises w w' a' b' c' →
    sized params [a, b, c] [a', b', c'] [a'', b'', c''] → ∀ n o j, n < a'' → o < b'' →
    compute params.lifted x' w' [n, o, 0, j] = compute params x w [n, o, j]

section Lines

variable {input weight output : TensorId} {params : ConvParams} {l : Lifted} {tx tw ty : Tensor}
  {sized : ConvParams → List Nat → List Nat → List Nat → Prop}
  {compute : ConvParams → Value R → Value R → List Nat → R}

omit [CommRing R] in
theorem LiftsTo.lays (h : LiftsTo g first input weight output params l)
    (hx : g.tensor? input = some tx) (hw : g.tensor? weight = some tw)
    (hy : g.tensor? output = some ty) (hraisable : Raisable sized compute)
    (hsized : sized params tx.shape.dims tw.shape.dims ty.shape.dims) :
    ∃ x w out, Lays g l x w out ∧ sized l.params x.shape.dims w.shape.dims out.shape.dims := by
  cases h with
  | image hranked hvalid => exact ⟨tx, tw, ty, ⟨hx, hw, hy, hranked.ranks hx hw hy, hvalid⟩, hsized⟩
  | line hranked hvalid hinput hweight houtput =>
    obtain ⟨hxRank, hwRank, hyRank⟩ := hranked.ranks hx hw hy
    obtain ⟨a, b, c, hxDims⟩ := List.length_eq_three.mp hxRank
    obtain ⟨a', b', c', hwDims⟩ := List.length_eq_three.mp hwRank
    obtain ⟨a'', b'', c'', hyDims⟩ := List.length_eq_three.mp hyRank
    obtain ⟨x, hx', hxDims'⟩ := hinput.declared hx hxDims
    obtain ⟨w, hw', hwDims'⟩ := hweight.declared hw hwDims
    obtain ⟨out, hout, houtDims⟩ := houtput.declared hy hyDims
    rw [hxDims, hwDims, hyDims] at hsized
    refine ⟨x, w, out, ⟨hx', hw', hout, ?_, valid_lifted hvalid⟩, ?_⟩
    · exact ⟨congrArg List.length hxDims', congrArg List.length hwDims', congrArg List.length houtDims⟩
    · rw [hxDims', hwDims', houtDims]
      exact hraisable.sizes hsized

/-- From the operands of a composite to its output, by way of operators that compute images. -/
theorem LiftsTo.run (h : LiftsTo g first input weight output params l)
    (activate : Activation → R → R) (reading : Reading R) (entries : TensorId → List Nat → R)
    (hx : g.tensor? input = some tx) (hw : g.tensor? weight = some tw)
    (hy : g.tensor? output = some ty) (hold : weight.index < first)
    (hnodup : (l.before.flatMap (·.outputs)).Nodup) (hraisable : Raisable sized compute)
    (hsized : sized params tx.shape.dims tw.shape.dims ty.shape.dims) {out : Tensor}
    (hout : g.tensor? l.output = some out) {core : List Operator}
    (hcore : ∀ store, g.runChain activate l.before (g.store reading entries) = some store →
      ∃ store', g.runChain activate core store = some store' ∧
      (store' l.output).dims = out.shape.dims ∧ ∀ index, InBounds out.shape.dims index →
      (store' l.output).entry index = compute l.params (store l.input) (store l.weight) index) :
    ∃ final,
      g.runChain activate (l.before ++ (core ++ l.after)) (g.store reading entries) = some final ∧
      (final output).dims = ty.shape.dims ∧
      ∀ index, InBounds ty.shape.dims index → (final output).entry index =
        compute params (g.store reading entries input) (g.store reading entries weight) index := by
  cases h with
  | image hranked hvalid =>
    cases hy.symm.trans hout
    obtain ⟨final, hrun, hdims, hentry⟩ := hcore (g.store reading entries) rfl
    exact ⟨final, Graph.runChain_append (Graph.runChain_nil _)
      (Graph.runChain_append hrun (Graph.runChain_nil _)), hdims, hentry⟩
  | line hranked hvalid hinput hweight houtput =>
    obtain ⟨hxRank, hwRank, hyRank⟩ := hranked.ranks hx hw hy
    obtain ⟨a, b, c, hxDims⟩ := List.length_eq_three.mp hxRank
    obtain ⟨a', b', c', hwDims⟩ := List.length_eq_three.mp hwRank
    obtain ⟨a'', b'', c'', hyDims⟩ := List.length_eq_three.mp hyRank
    rw [hxDims, hwDims, hyDims] at hsized
    -- the operands get a unit axis, and images are computed
    obtain ⟨store, hbefore, hraises, hraisesWeight⟩ :=
      run_before hinput hweight activate reading entries hold hnodup hx hxDims hw hwDims
    obtain ⟨store', hrun, hdims, hentry⟩ := hcore store hbefore
    -- the output loses the unit axis
    obtain ⟨out', hout', houtDims⟩ := houtput.declared hy hyDims
    cases hout'.symm.trans hout
    obtain ⟨v, hcollapse, hraisesOutput⟩ := houtput.run activate store' hy hyDims (hdims.trans houtDims)
    refine ⟨Function.update store' output v, ?_, ?_, ?_⟩
    · exact Graph.runChain_append hbefore
        (Graph.runChain_append hrun ((Graph.runChain_cons hcollapse).trans (Graph.runChain_nil _)))
    · rw [Function.update_self, hyDims]
      exact hraisesOutput.dims
    · intro index hindex
      rw [hyDims] at hindex
      rcases hindex with _ | ⟨hn, _ | ⟨ho, _ | ⟨hj, _ | _⟩⟩⟩
      rw [Function.update_self, ← hraisesOutput.entry _ _ _ hn ho hj,
        ← hraisable.entries hraises hraisesWeight hsized _ _ _ hn ho]
      refine hentry _ ?_
      rw [houtDims]
      exact .cons hn (.cons ho (.cons Nat.one_pos (.cons hj .nil)))

end Lines

end Lift

theorem perAxis_eq {a b : PerAxis} {entries : List Nat} (hentries : entries = [b.height, b.width])
    (h : entries[0]? = some a.height ∧ entries[1]? = some a.width) : a = b := by
  subst hentries
  obtain ⟨hheight, hwidth⟩ := h
  cases a
  cases b
  cases hheight
  cases hwidth
  rfl

end GraphLowering
