import GraphLowering.Proofs.Calls

/-!
# Model inputs and outputs are registered

The lists of model inputs and outputs grow only by tensors that have just been accepted, and tensors
are never removed. So they name registered tensors after any calls (`World.after_bounded`).
-/

namespace GraphLowering

namespace Graph

def Bounded (g : Graph) : Prop :=
  ∀ t ∈ g.inputs ++ g.outputs, t.index < g.tensors.length

variable {g g' : Graph} {id : NodeId}

theorem Bounded.of_boundary (h : g.Bounded) (hboundary : g'.inputs = g.inputs ∧ g'.outputs = g.outputs)
    (hlength : g.tensors.length ≤ g'.tensors.length) : g'.Bounded := by
  intro t ht
  rw [hboundary.1, hboundary.2] at ht
  exact Nat.lt_of_lt_of_le (h t ht) hlength

theorem Refuses.bounded (h : g.Refuses id g') (hg : g.Bounded) : g'.Bounded := by
  rcases h with rfl | ⟨node, tried, _, hgrows, rfl⟩
  · exact hg
  · refine hg.of_boundary ?_ (Nat.le_of_eq ?_)
    · rw [putBack_eq]
      exact hgrows.boundary
    · exact congrArg List.length (tensors_rolledBack hgrows).symm

instance : Allows fun g g' => g.Bounded → g'.Bounded where
  refl _ h := h
  trans _ _ _ h h' hg := h' (h hg)
  adding h hg := hg.of_boundary h.boundary h.length_le
  connecting _ _ _ h :=
    h.of_boundary ⟨addEdge_inputs _ _, addEdge_outputs _ _⟩ (Nat.le_of_eq (by rw [addEdge_tensors]))
  detaching _ _ h := h
  listingInput htensor h t ht := by
    obtain ⟨tensor, htensor⟩ := Option.isSome_iff_exists.mp htensor
    simp only [List.mem_append, List.mem_singleton] at ht
    rcases ht with (ht | rfl) | ht
    · exact h t (List.mem_append_left _ ht)
    · exact tensor?_lt htensor
    · exact h t (List.mem_append_right _ ht)
  listingOutput htensor h t ht := by
    obtain ⟨tensor, htensor⟩ := Option.isSome_iff_exists.mp htensor
    simp only [List.mem_append, List.mem_singleton] at ht
    rcases ht with ht | ht | rfl
    · exact h t (List.mem_append_left _ ht)
    · exact h t (List.mem_append_right _ ht)
    · exact tensor?_lt htensor
  refusing h := h.bounded

end Graph

theorem World.after_bounded {calls : List Call} {w : World} (h : World.after calls = some w) :
    w.graph.Bounded :=
  World.after_induction Graph.Bounded (fun _ ht => nomatch ht) h

end GraphLowering
