import GraphLowering.Proofs.Order
import Mathlib.Data.Set.Card

/-!
# The topological order is the first of all

A graph can have many topological orders. The sweep finds the smallest one, where orders are
compared by the numbers of their nodes from the front on (`Graph.Ordered.lex_of_split`). At the
first place where another order differs, its node is one that could be taken there, and the sweep
has taken the smallest of these.

If there is no order, the sweep has taken the nodes that come after no cycle, and no others
(`Sweep.Tracks.mem_taken_iff`). A list of nodes in order is closed under what feeds its nodes. So
with one node of a cycle it has them all, and the first of them in the list comes after the one that
feeds it.
-/

namespace GraphLowering

variable {g : Graph}

namespace Graph

variable {order other : List NodeId} {m n : NodeId}

/-! ## Cycles -/

theorem Forward.of_append {before after : List NodeId} (h : g.Forward (before ++ after)) :
    g.Forward before := by
  intro first n rest heq
  refine h first n (rest ++ after) ?_
  rw [heq, List.append_assoc, List.cons_append]

theorem Forward.mem_of_reaches (h : g.Forward order)
    (hreaches : Relation.ReflTransGen g.Feeds m n) (hn : n ∈ order) :
    m ∈ order := by
  induction hreaches using Relation.ReflTransGen.head_induction_on with
  | refl => exact hn
  | head hfeeds _ ih => exact h.closed hfeeds ih

theorem Forward.not_afterCycle (h : g.Forward order) (hn : n ∈ order) : ¬ g.AfterCycle n := by
  rintro ⟨m, hcycle, hreaches⟩
  obtain ⟨before, after, rfl, hfirst⟩ := List.eq_append_cons_of_mem (h.mem_of_reaches hreaches hn)
  -- the node that feeds `m` on the cycle comes before it, and so does all that leads there
  obtain ⟨last, hback, hfeeds⟩ := Relation.TransGen.tail'_iff.mp hcycle
  exact hfirst (h.of_append.mem_of_reaches hback (h before m after rfl last hfeeds))

theorem Ordered.acyclic (h : g.Ordered order)
    (hends : ∀ e ∈ g.edges, g.isLive e.source ∧ g.isLive e.target) : g.Acyclic := by
  intro n hcycle
  obtain ⟨_, _, t, he⟩ := Relation.TransGen.tail'_iff.mp hcycle
  exact h.forward.not_afterCycle ((h.mem n).mpr (hends _ he).2) ⟨n, hcycle, .refl⟩

/-! ## The smallest order -/

theorem Ordered.fresh (h : g.Ordered order) {before after : List NodeId}
    (heq : order = before ++ n :: after) : n ∉ before := by
  have hnodup := h.nodup
  rw [heq] at hnodup
  exact fun hn => (List.nodup_append.mp hnodup).2.2 n hn n List.mem_cons_self rfl

theorem Ordered.lex_of_split (h : g.Ordered order) (hgreedy : g.Greedy order)
    (hother : g.Ordered other) (before : List NodeId) {left right : List NodeId}
    (hleft : order = before ++ left) (hright : other = before ++ right) :
    left = right ∨ left.Lex (fun a b => a.index < b.index) right := by
  induction left generalizing before right with
  | nil =>
    cases right with
    | nil => exact .inl rfl
    | cons _ _ => exact .inr .nil
  | cons n rest ih =>
    cases right with
    | nil =>
      -- the other order is at its end, but a node is missing there
      have hn : n ∈ order := hleft ▸ List.mem_append_right before List.mem_cons_self
      have hmem : n ∈ other := (hother.mem n).mpr ((h.mem n).mp hn)
      rw [hright, List.append_nil] at hmem
      exact absurd hmem (h.fresh hleft)
    | cons m rest' =>
      have hm : m ∈ other := hright ▸ List.mem_append_right before List.mem_cons_self
      have hle : n.index ≤ m.index :=
        hgreedy before n rest hleft m ((hother.mem m).mp hm)
          (hother.fresh hright) (hother.forward before m rest' hright)
      rcases Nat.lt_or_eq_of_le hle with hlt | heq
      · exact .inr (.rel hlt)
      · obtain rfl := NodeId.index_inj.mp heq
        have hrest := ih (before ++ [n]) (by simpa using hleft) (by simpa using hright)
        exact hrest.imp (congrArg (n :: ·)) .cons

end Graph

namespace Sweep.Tracks

variable {s : Sweep}

/-- A sweep that has come to its end has taken the nodes that are after no cycle. -/
theorem mem_taken_iff (h : s.Tracks g []) (hends : ∀ e ∈ g.edges, g.isLive e.source ∧ g.isLive e.target)
    (hready : s.ready = []) {n : NodeId} : n ∈ s.taken ↔ g.isLive n ∧ ¬ g.AfterCycle n :=
  ⟨fun hn => ⟨h.live n hn, h.forward.not_afterCycle hn⟩,
    fun ⟨hn, hcycle⟩ => Graph.mem_taken_of_not_afterCycle hends h hready hn hcycle⟩

theorem length_taken (h : s.Tracks g [])
    (hends : ∀ e ∈ g.edges, g.isLive e.source ∧ g.isLive e.target) (hready : s.ready = []) :
    s.taken.length = { n | g.isLive n ∧ ¬ g.AfterCycle n }.ncard := by
  have htaken : { n | g.isLive n ∧ ¬ g.AfterCycle n } = (s.taken.toFinset : Set NodeId) := by
    ext n
    rw [Finset.mem_coe, List.mem_toFinset, h.mem_taken_iff hends hready]
    rfl
  rw [htaken, Set.ncard_coe_finset, List.toFinset_card_of_nodup h.nodup]

end Sweep.Tracks

namespace Graph

/-- There is a topological order if and only if there is no cycle. The order that is found is the
smallest of all. Otherwise the error tells how many nodes are after no cycle; the count of the edges
to a node never falls below zero. -/
theorem topologicalOrder_canonical (g : Graph)
    (hends : ∀ e ∈ g.edges, g.isLive e.source ∧ g.isLive e.target) :
    ((∃ order, g.topologicalOrder = .ok order) ↔ g.Acyclic) ∧
    (∀ order, g.topologicalOrder = .ok order →
      g.Ordered order ∧ ∀ other, g.Ordered other →
        order = other ∨ order.Lex (fun a b => a.index < b.index) other) ∧
    ∀ stop, g.topologicalOrder = .error stop →
      stop = .rejected (.graph (.cycle { n | g.isLive n ∧ ¬ g.AfterCycle n }.ncard g.nodes.size)) := by
  refine ⟨⟨?_, fun hacyclic => hacyclic.exists_order hends⟩,
    fun order horder => ?_, fun stop hstop => ?_⟩
  · rintro ⟨order, horder⟩
    exact (ordered_of_topologicalOrder hends horder).acyclic hends
  · have hordered := ordered_of_topologicalOrder hends horder
    obtain ⟨s, htracks, _, hsweep⟩ := topologicalOrder_eq hends
    rw [hsweep] at horder
    split at horder
    · cases horder
      exact ⟨hordered, fun other hother => hordered.lex_of_split htracks.greedy hother [] rfl rfl⟩
    · cases horder
  · obtain ⟨s, htracks, hready, hsweep⟩ := topologicalOrder_eq hends
    rw [hsweep] at hstop
    split at hstop
    · cases hstop
    · cases hstop
      rw [htracks.length_taken hends hready]

/-- Six nodes. Two edges lead from the fifth to the second, one leads from there to the third, and
there may be more. -/
def sixNodes (more : List Edge) : Graph :=
  { (List.range 6).foldl (fun (g : Graph) i => g.pushNode "" (.input ⟨i⟩) false) Graph.empty with
    edges := [⟨⟨4⟩, ⟨1⟩, ⟨0⟩⟩, ⟨⟨4⟩, ⟨1⟩, ⟨1⟩⟩, ⟨⟨1⟩, ⟨2⟩, ⟨2⟩⟩] ++ more }

/-- If an edge leads from the third node to itself and one to the fourth, these two are after a
cycle and the other four are not. -/
theorem topologicalOrder_canonical_six :
    (∀ other, (sixNodes []).Ordered other → [⟨0⟩, ⟨3⟩, ⟨4⟩, ⟨1⟩, ⟨2⟩, ⟨5⟩] = other ∨
      List.Lex (fun a b => a.index < b.index) [⟨0⟩, ⟨3⟩, ⟨4⟩, ⟨1⟩, ⟨2⟩, ⟨5⟩] other) ∧
    { n | (sixNodes [⟨⟨2⟩, ⟨2⟩, ⟨3⟩⟩, ⟨⟨2⟩, ⟨3⟩, ⟨4⟩⟩]).isLive n ∧
      ¬ (sixNodes [⟨⟨2⟩, ⟨2⟩, ⟨3⟩⟩, ⟨⟨2⟩, ⟨3⟩, ⟨4⟩⟩]).AfterCycle n }.ncard = 4 := by
  have horder : (sixNodes []).topologicalOrder = .ok [⟨0⟩, ⟨3⟩, ⟨4⟩, ⟨1⟩, ⟨2⟩, ⟨5⟩] := rfl
  have hstop : (sixNodes [⟨⟨2⟩, ⟨2⟩, ⟨3⟩⟩, ⟨⟨2⟩, ⟨3⟩, ⟨4⟩⟩]).topologicalOrder =
      .error (.rejected (.graph (.cycle 4 6))) := rfl
  refine ⟨((topologicalOrder_canonical _ (by decide)).2.1 _ horder).2, ?_⟩
  have hcycle := (topologicalOrder_canonical _ (by decide)).2.2 _ hstop
  simp only [Stop.rejected.injEq, LowerError.graph.injEq, GraphError.cycle.injEq] at hcycle
  exact hcycle.1.symm

end Graph

end GraphLowering
