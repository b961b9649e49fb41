import GraphLowering.Proofs.Boundary
import GraphLowering.Proofs.Independence
import GraphLowering.Proofs.Matching
import GraphLowering.Proofs.WholeGraph

/-!
# The order of lowerings does not matter

Two composites of a graph that calls have led to can be replaced one after the other in both orders
or in none, and the results match (`Edit.lowerBoth_comm`).

Each of them can be replaced after the other one if it can be replaced alone and they share no name,
and that is a matter of both. The two results have the same new tensors in two blocks, which have
changed places.
-/

namespace GraphLowering

/-! ## Two blocks of tensors in either order -/

/-- The number of a tensor when the two blocks of tensors after the first ones change places. -/
def TensorId.swapBlocks (first left right : List Tensor) (t : TensorId) : TensorId :=
  if t.index < first.length then t
  else if t.index < first.length + left.length then ⟨t.index + right.length⟩
  else ⟨t.index - left.length⟩

section Blocks

variable {first left right : List Tensor} {t : TensorId}

theorem TensorId.index_swapBlocks : (t.swapBlocks first left right).index =
    if t.index < first.length then t.index
    else if t.index < first.length + left.length then t.index + right.length
    else t.index - left.length := by
  unfold swapBlocks
  split
  · rfl
  · split <;> rfl

theorem TensorId.index_move : (t.move first left).index =
    if t.index < first.length then t.index else t.index + left.length := by
  unfold move
  split <;> rfl

theorem TensorId.swapBlocks_swapBlocks (h : t.index < (first ++ (left ++ right)).length) :
    (t.swapBlocks first left right).index < (first ++ (right ++ left)).length ∧
      (t.swapBlocks first left right).swapBlocks first right left = t := by
  simp only [List.length_append] at h ⊢
  rw [← TensorId.index_inj]
  simp only [index_swapBlocks]
  constructor
  · split_ifs <;> omega
  · split_ifs <;> omega

theorem getElem?_swapBlocks (h : t.index < (first ++ (left ++ right)).length) :
    (first ++ (right ++ left))[(t.swapBlocks first left right).index]? =
      (first ++ (left ++ right))[t.index]? := by
  simp only [List.length_append] at h
  rw [TensorId.index_swapBlocks]
  split
  · next hfirst => rw [List.getElem?_append_left hfirst, List.getElem?_append_left hfirst]
  · next hfirst =>
    have hge : first.length ≤ t.index := Nat.le_of_not_lt hfirst
    rw [List.getElem?_append_right hge]
    split
    · next hleft =>
      rw [List.getElem?_append_right (by omega), List.getElem?_append_right (by omega),
        List.getElem?_append_left (by omega)]
      congr 1
      omega
    · next hright =>
      rw [List.getElem?_append_right (by omega), List.getElem?_append_left (by omega),
        List.getElem?_append_right (by omega)]
      congr 1
      omega

/-- The tensors of the left block move as if the right block had come before them. -/
theorem TensorId.move_eq_swapBlocks (h : t.index < (first ++ left).length) :
    t.move first right = t.swapBlocks first left right := by
  rw [List.length_append] at h
  rw [← TensorId.index_inj, index_swapBlocks, index_move, if_pos h]

theorem TensorId.swapBlocks_move : (t.move first left).swapBlocks first left right = t := by
  rw [← TensorId.index_inj, index_swapBlocks, index_move]
  split_ifs <;> omega

end Blocks

/-! ## Either order -/

namespace Operator

theorem rename_congr {f f' : TensorId → TensorId} {op : Operator}
    (h : ∀ t ∈ op.inputs ++ op.outputs, f t = f' t) :
    op.rename f = op.rename f' := by
  unfold rename
  rw [List.map_congr_left fun t ht => h t (List.mem_append_left _ ht),
    List.map_congr_left fun t ht => h t (List.mem_append_right _ ht)]

theorem rename_rename {f f' : TensorId → TensorId} {op : Operator} :
    (op.rename f).rename f' = op.rename fun t => f' (f t) := by
  simp [rename]

end Operator

namespace Graph

variable {g g' : Graph} {options : Options} {id : NodeId} {op : Composite}
  {events : List Event} {o : Outline}
  {left right : List Tensor}

theorem LoweredBy.rename_swapBlocks (h : g.LoweredBy options id op events o left g') :
    Swap.rename (TensorId.swapBlocks g.tensors left right) ⟨id, op.output, o.chain⟩ =
      ⟨id, op.output, (o.rename (TensorId.move g.tensors right)).chain⟩ := by
  obtain ⟨t, _, htensors, hcoherent⟩ := h.outline
  refine congrArg (Swap.mk id op.output)
    (List.map_congr_left fun op' hop => Operator.rename_congr fun u hu => ?_)
  obtain ⟨x, hx⟩ := Option.isSome_iff_exists.mp (hcoherent.registered op' hop u hu)
  have hlt := tensor?_lt hx
  rw [htensors, h.tensors] at hlt
  exact (TensorId.move_eq_swapBlocks hlt).symm

theorem Swap.rename_swapBlocks_move {first : List Tensor} {output : TensorId} :
    Swap.rename (TensorId.swapBlocks first left right)
      ⟨id, output, (o.rename (TensorId.move first left)).chain⟩ =
      ⟨id, output, o.chain⟩ := by
  refine congrArg (Swap.mk id output) ?_
  show (o.chain.map _).map _ = _
  rw [List.map_map]
  conv_rhs => rw [← List.map_id' o.chain]
  refine List.map_congr_left fun op' _ => ?_
  rw [Function.comp_apply, Operator.rename_rename]
  exact Operator.rename_eq_self fun u _ => TensorId.swapBlocks_move

theorem LoweredBy.alike {g₁ g₁' g₂ g₂' : Graph} {a b : NodeId} {opA opB : Composite}
    {events₁ events₁' : List Event} {oA oB : Outline}
    (hA : g.LoweredBy options a opA events oA left g₁) (hwf : g.WellFormed)
    (hB' : g₁.LoweredBy options b opB events₁ (oB.rename (TensorId.move g.tensors left)) right g₂)
    (hB : g.LoweredBy options b opB events oB right g₁')
    (hA' : g₁'.LoweredBy options a opA events₁' (oA.rename (TensorId.move g.tensors right)) left g₂')
    (ha : a.index < g.nextNode) (hb : b.index < g.nextNode) :
    g.Alike ([⟨a, opA.output, oA.chain⟩] ++
      [⟨b, opB.output, (oB.rename (TensorId.move g.tensors left)).chain⟩])
      ([⟨b, opB.output, oB.chain⟩] ++
        [⟨a, opA.output, (oA.rename (TensorId.move g.tensors right)).chain⟩]) g₂ g₂'
      (TensorId.swapBlocks g.tensors left right) (TensorId.swapBlocks g.tensors right left) := by
  have htensors : g₂.tensors = g.tensors ++ (left ++ right) := by
    rw [hB'.tensors, hA.tensors, List.append_assoc]
  have htensors' : g₂'.tensors = g.tensors ++ (right ++ left) := by
    rw [hA'.tensors, hB.tensors, List.append_assoc]
  exact
    { rewired := hA.rewired.trans hwf hB'.rewired hb
      rewired' := hB.rewired.trans hwf hA'.rewired ha
      forth := by
        rw [htensors, htensors']
        exact fun _ => TensorId.swapBlocks_swapBlocks
      back := by
        rw [htensors, htensors']
        exact fun _ => TensorId.swapBlocks_swapBlocks
      sameTensor := by
        intro t ht
        rw [htensors] at ht
        show g₂'.tensors[_]? = g₂.tensors[_]?
        rw [htensors, htensors']
        exact getElem?_swapBlocks ht
      fixed := fun _ ht => if_pos ht
      composites := by
        intro n
        simp [or_comm]
      chains := by
        simp [hA.rename_swapBlocks, Swap.rename_swapBlocks_move]
      chains' := by
        simp [hB.rename_swapBlocks, Swap.rename_swapBlocks_move] }

end Graph

namespace Edit

variable {s s₁ s₂ : Session} {a b : NodeId} {nodeA nodeB : Node}
  {opA opB : Composite} {options : Options}

/-- If one composite is replaced after another one, they can change places, and the results are
alike. -/
theorem lowerNode_exchange (hwf : s.graph.WellFormed) (hflows : s.graph.Flows) (hne : a ≠ b)
    (ha : s.graph.node? a = some nodeA) (hkindA : nodeA.kind = .composite opA)
    (hb : s.graph.node? b = some nodeB) (hkindB : nodeB.kind = .composite opB)
    {resultA resultB : Lowered} (hrunA : lowerNode a options s = .ok resultA s₁)
    (hrunB : lowerNode b options s₁ = .ok resultB s₂) :
    ∃ resultB' s₁' resultA' s₂',
      lowerNode b options s = .ok resultB' s₁' ∧ lowerNode a options s₁' = .ok resultA' s₂' ∧
      ∃ swaps swaps' f f', s.graph.Alike swaps swaps' s₂.graph s₂'.graph f f' := by
  have hlt : ∀ {n : NodeId} {node : Node}, s.graph.node? n = some node → n.index < s.graph.nextNode :=
    fun h => (hwf.stored _ _ h).2
  obtain ⟨oA, addedA, hA⟩ := lowerNode_loweredBy hwf hflows ha hkindA hrunA
  have hb₁ := hA.node?_kept hwf hne.symm hb
  obtain ⟨oB', addedB, hB'⟩ :=
    lowerNode_loweredBy hA.rewired.wellFormed hA.rewired.flows hb₁ hkindB hrunB
  obtain ⟨oB, resultB', s₁', hrunB', hB, rfl, hfree⟩ :=
    lowerNode_before hwf hflows hb hkindB hA.rewired.wellFormed hA.tensors hB'
  have ha₁ := hB.node?_kept hwf hne ha
  have hfree' : ∀ x ∈ addedA, ¬ Taken addedB x := by
    intro x hx htaken
    obtain ⟨y, hy, hname⟩ := List.mem_map.mp htaken
    exact hfree y hy (List.mem_map.mpr ⟨x, hx, hname.symm⟩)
  obtain ⟨resultA', s₂', hrunA', hA'⟩ :=
    lowerNode_after hwf ha hkindA hB.rewired.wellFormed hB.rewired.flows ha₁ hB.tensors hA hfree'
  exact ⟨resultB', s₁', resultA', s₂', hrunB', hrunA', _, _,
    _, _, hA.alike hwf hB' hB hA' (hlt ha) (hlt hb)⟩

def lowerBoth (a b : NodeId) (options : Options) : Edit (Lowered × Lowered) := do
  let first ← lowerNode a options
  let second ← lowerNode b options
  return (first, second)

theorem lowerBoth_eq_ok {result : Lowered × Lowered} : lowerBoth a b options s = .ok result s₂ ↔
    ∃ s₁, lowerNode a options s = .ok result.1 s₁ ∧ lowerNode b options s₁ = .ok result.2 s₂ := by
  unfold lowerBoth
  constructor
  · intro h
    obtain ⟨first, s₁, hfirst, hrest⟩ := run_bind_eq_ok.mp h
    obtain ⟨second, s₂, hsecond, hreturn⟩ := run_bind_eq_ok.mp hrest
    cases hreturn
    exact ⟨s₁, hfirst, hsecond⟩
  · rintro ⟨s₁, hfirst, hsecond⟩
    rw [run_bind_ok hfirst, run_bind_ok hsecond]
    rfl

/-- Two composites can be replaced in one order if they can be replaced in the other order. The
results are then the same but for the numbers of what is new. -/
theorem lowerBoth_comm {calls : List Call} {w : World} (hcalls : World.after calls = some w)
    (hconnect : ∀ call ∈ calls, ¬ call.isConnect) (hne : a ≠ b) (ha : w.graph.isComposite a)
    (hb : w.graph.isComposite b) (options : Options) :
    ((∃ result s, lowerBoth a b options w.session = .ok result s) ↔
      ∃ result s, lowerBoth b a options w.session = .ok result s) ∧
    ∀ result s result' s', lowerBoth a b options w.session = .ok result s →
      lowerBoth b a options w.session = .ok result' s' →
      ∃ tensor node, s.graph.Matches s'.graph tensor node ∧
        (∀ t : TensorId, t.index < w.graph.tensors.length → tensor t = t) ∧
        ∀ n : NodeId, n.index < w.graph.nextNode → node n = n := by
  have hsound := World.after_sound hcalls
  have hwf := hsound.wellFormed
  have hflows := hsound.flows hconnect
  obtain ⟨nodeA, opA, hnodeA, hkindA⟩ := Graph.isComposite_iff.mp ha
  obtain ⟨nodeB, opB, hnodeB, hkindB⟩ := Graph.isComposite_iff.mp hb
  refine ⟨⟨?_, ?_⟩, ?_⟩
  · rintro ⟨result, s, hrun⟩
    obtain ⟨s₁, hrunA, hrunB⟩ := lowerBoth_eq_ok.mp hrun
    obtain ⟨_, _, _, _, hrunB', hrunA', _⟩ :=
      lowerNode_exchange hwf hflows hne hnodeA hkindA hnodeB hkindB hrunA hrunB
    exact ⟨(_, _), _, lowerBoth_eq_ok.mpr ⟨_, hrunB', hrunA'⟩⟩
  · rintro ⟨result, s, hrun⟩
    obtain ⟨s₁, hrunB, hrunA⟩ := lowerBoth_eq_ok.mp hrun
    obtain ⟨_, _, _, _, hrunA', hrunB', _⟩ :=
      lowerNode_exchange hwf hflows hne.symm hnodeB hkindB hnodeA hkindA hrunB hrunA
    exact ⟨(_, _), _, lowerBoth_eq_ok.mpr ⟨_, hrunA', hrunB'⟩⟩
  · intro result s result' s' hrun hrun'
    obtain ⟨s₁, hrunA, hrunB⟩ := lowerBoth_eq_ok.mp hrun
    obtain ⟨s₁', hrunB', hrunA'⟩ := lowerBoth_eq_ok.mp hrun'
    obtain ⟨_, _, _, _, hexchangedB, hexchangedA, swaps, swaps', f, f', halike⟩ :=
      lowerNode_exchange hwf hflows hne hnodeA hkindA hnodeB hkindB hrunA hrunB
    rw [hrunB'] at hexchangedB
    cases hexchangedB
    rw [hrunA'] at hexchangedA
    cases hexchangedA
    refine ⟨f, _, halike.matching hwf hflows (World.after_bounded hcalls),
      halike.fixed, fun n => Graph.Alike.counterpart_old⟩

/-- Two convolutions one after the other. The second one's tensors come first if it is replaced
first. -/
theorem lowerBoth_comm_convolutions :
    ∃ w r s r' s' tensor node,
        World.after (convolutionCalls .f32 ++ [.addTensor (.computed "z" ⟨.f32, ⟨[1, 1, 2, 2]⟩⟩ none),
        .addComposite (.convolution ⟨⟨2⟩, ⟨1⟩, none, ⟨3⟩, .unit 2, .none⟩)]) = some w ∧
      lowerBoth ⟨2⟩ ⟨3⟩ .default w.session = .ok r s ∧
      lowerBoth ⟨3⟩ ⟨2⟩ .default w.session = .ok r' s' ∧
      s.graph.tensors ≠ s'.graph.tensors ∧ s.graph.Matches s'.graph tensor node := by
  have hrun :
      ((World.after (convolutionCalls .f32 ++ [.addTensor (.computed "z" ⟨.f32, ⟨[1, 1, 2, 2]⟩⟩ none),
      .addComposite (.convolution ⟨⟨2⟩, ⟨1⟩, none, ⟨3⟩, .unit 2, .none⟩)])).bind fun w =>
      ((lowerBoth ⟨2⟩ ⟨3⟩ .default).success? w.session).bind fun first =>
      ((lowerBoth ⟨3⟩ ⟨2⟩ .default).success? w.session).map fun second =>
        (w.graph.isComposite ⟨2⟩, w.graph.isComposite ⟨3⟩,
          decide (first.2.graph.tensors = second.2.graph.tensors))) =
      some (true, true, false) := by
    decide +kernel
  obtain ⟨w, hw, hlower⟩ := Option.bind_eq_some_iff.mp hrun
  obtain ⟨⟨r, s⟩, hfirst, hlower'⟩ := Option.bind_eq_some_iff.mp hlower
  obtain ⟨⟨r', s'⟩, hsecond, hall⟩ := Option.map_eq_some_iff.mp hlower'
  simp only [Prod.mk.injEq, decide_eq_false_iff_not] at hall
  obtain ⟨htwo, hthree, htensors⟩ := hall
  have hok := success?_eq_some hfirst
  have hok' := success?_eq_some hsecond
  obtain ⟨tensor, node, hmatches, _⟩ :=
    (lowerBoth_comm hw (by decide) (by decide) htwo hthree .default).2 r s r' s' hok hok'
  exact ⟨w, r, s, r', s', tensor, node, hw, hok, hok', htensors, hmatches⟩

end Edit

end GraphLowering
