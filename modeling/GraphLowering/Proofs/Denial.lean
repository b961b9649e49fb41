import GraphLowering.Proofs.Acceptance
import GraphLowering.Proofs.WholeGraph

/-!
# Denying convolutions in groups

Convolutions in groups that are not depthwise are lowered with a warning, unless such are denied;
then they are refused for the reason that the warning gives. Nothing else depends on that option.
`Denies` compares two computations from one state, of which the second one denies: they do the same
and there are no warnings, or the second one is refused with the text of the first warning that the
first one returns. There is one rule for putting computations together (`Denies.bind`), by which the
comparison goes from the draft of a convolution up to the lowering of a whole graph.

Which composites are warned about can be told from the tensors of the graph before anything is
lowered (`Graph.warning?`).
-/

namespace GraphLowering

/-! ## Two computations from one state -/

section Comparing

variable {σ α β : Type}

abbrev groupedRefusal (owner : String) (groups : Nat) : Stop :=
  .rejected (.precondition Convolution.lowering (.groupedConvolution owner groups))

abbrev groupedWarning (owner : String) (groups : Nat) : Diagnostic :=
  ⟨(Objection.groupedConvolution owner groups).message⟩

/-- The second computation does what the first one does, which returns no warnings. Or the second
one refuses a convolution in groups, of which the first one warns before anything else, if it
returns. -/
def Denies (warnings : α → List Diagnostic) (m m' : EStateM Stop σ α) (s : σ) : Prop :=
  (m' s = m s ∧ ∀ a t, m s = .ok a t → warnings a = []) ∨
    ∃ owner groups u, m' s = .error (groupedRefusal owner groups) u ∧
      ∀ a t, m s = .ok a t → ∃ rest, warnings a = groupedWarning owner groups :: rest

namespace Denies

variable {m m' : EStateM Stop σ α} {f f' : α → EStateM Stop σ β}
  {s t : σ} {p : α → List Diagnostic} {r : β → List Diagnostic}

theorem same (h : ∀ a t, m s = .ok a t → p a = []) : Denies p m m s :=
  .inl ⟨rfl, h⟩

theorem bind (q : α → β → List Diagnostic) (hm : Denies p m m' s)
    (hf : ∀ a t, m s = .ok a t → Denies (q a) (f a) (f' a) t)
    (hr : ∀ a t b u, m s = .ok a t → f a t = .ok b u → r b = p a ++ q a b) :
    Denies r (m >>= f) (m' >>= f') s := by
  have hok : ∀ {b u}, (m >>= f) s = .ok b u →
      ∃ a t, m s = .ok a t ∧ f a t = .ok b u ∧ r b = p a ++ q a b := by
    intro b u hrun
    obtain ⟨a, t, hfirst, hrest⟩ := run_bind_eq_ok.mp hrun
    exact ⟨a, t, hfirst, hrest, hr a t b u hfirst hrest⟩
  rcases hm with ⟨hsame, hnone⟩ | ⟨owner, groups, u, hdenied, hwarned⟩
  · cases hfirst : m s with
    | error e t =>
      refine .inl ⟨(run_bind_error (hsame.trans hfirst)).trans (run_bind_error hfirst).symm,
        fun b u hrun => ?_⟩
      rw [run_bind_error hfirst] at hrun
      cases hrun
    | ok a t =>
      have hrun : (m >>= f) s = f a t := run_bind_ok hfirst
      have hrun' : (m' >>= f') s = f' a t := run_bind_ok (hsame.trans hfirst)
      have hjoin : ∀ {b u}, f a t = .ok b u → r b = q a b := by
        intro b u hrest
        rw [hr a t b u hfirst hrest, hnone a t hfirst, List.nil_append]
      unfold Denies
      rw [hrun, hrun']
      rcases hf a t hfirst with ⟨hsame', hnone'⟩ | ⟨owner, groups, u, hdenied, hwarned⟩
      · exact .inl ⟨hsame', fun b u hrest => (hjoin hrest).trans (hnone' b u hrest)⟩
      · refine .inr ⟨owner, groups, u, hdenied, fun b u hrest => ?_⟩
        rw [hjoin hrest]
        exact hwarned b u hrest
  · refine .inr ⟨owner, groups, u, run_bind_error hdenied, fun b v hrun => ?_⟩
    obtain ⟨a, t, hfirst, _, hjoin⟩ := hok hrun
    obtain ⟨rest, hrest⟩ := hwarned a t hfirst
    exact ⟨rest ++ q a b, by rw [hjoin, hrest, List.cons_append]⟩

theorem after (hf : ∀ a t, m s = .ok a t → Denies r (f a) (f' a) t) : Denies r (m >>= f) (m >>= f') s :=
  .bind (p := fun _ => []) (fun _ => r) (.same fun _ _ _ => rfl) hf fun _ _ _ _ _ _ => rfl

theorem andThen (hm : Denies p m m' s) (hr : ∀ a t b u, f a t = .ok b u → r b = p a) :
    Denies r (m >>= f) (m' >>= f) s :=
  .bind (fun _ _ => []) hm (fun _ _ _ => .same fun _ _ _ => rfl) fun a t b u _ hrest => by
    rw [hr a t b u hrest, List.append_nil]

theorem ite {c : Prop} [Decidable c] {x x' y y' : EStateM Stop σ α} (hx : c → Denies p x x' s)
    (hy : ¬ c → Denies p y y' s) :
    Denies p (if c then x else y) (if c then x' else y') s := by
  split
  · next hc => exact hx hc
  · next hc => exact hy hc

theorem ok_iff (h : Denies p m m' s) {a : α} : m' s = .ok a t ↔ m s = .ok a t ∧ p a = [] := by
  rcases h with ⟨hsame, hnone⟩ | ⟨owner, groups, u, hdenied, hwarned⟩
  · rw [hsame]
    exact ⟨fun hrun => ⟨hrun, hnone a t hrun⟩, And.left⟩
  · constructor
    · intro hrun
      rw [hdenied] at hrun
      cases hrun
    · rintro ⟨hrun, hnil⟩
      obtain ⟨rest, hrest⟩ := hwarned a t hrun
      rw [hnil] at hrest
      cases hrest

theorem refused (h : Denies p m m' s) {a : α} (hrun : m s = .ok a t) {warning : Diagnostic}
    {rest : List Diagnostic} (hwarnings : p a = warning :: rest) :
    ∃ owner groups u, m' s = .error (groupedRefusal owner groups) u ∧
      warning = groupedWarning owner groups := by
  rcases h with ⟨_, hnone⟩ | ⟨owner, groups, u, hdenied, hwarned⟩
  · rw [hnone a t hrun] at hwarnings
    cases hwarnings
  · obtain ⟨rest', hrest'⟩ := hwarned a t hrun
    rw [hwarnings] at hrest'
    cases hrest'
    exact ⟨owner, groups, u, hdenied, rfl⟩

end Denies

end Comparing

/-! ## The draft of a convolution -/

namespace Convolution

variable {d d' : Drafting} {n : Convolution} {verified : Bool}

theorem warnings_denies (depthwise : Bool) (inputChannels groupWidth groups : Nat) :
    Denies id (warnings ⟨false, verified⟩ depthwise inputChannels groupWidth groups)
      (warnings ⟨true, verified⟩ depthwise inputChannels groupWidth groups) d := by
  unfold warnings
  refine .ite (fun _ => .inr ⟨d.owner, groups, d, rfl, ?_⟩) fun _ => .same ?_
  · rintro _ _ ⟨⟩
    exact ⟨[], rfl⟩
  · rintro _ _ ⟨⟩
    rfl

theorem draft_denies (n : Convolution) :
    Denies Prod.snd (n.draft ⟨false, verified⟩) (n.draft ⟨true, verified⟩) d := by
  unfold draft
  refine .after fun q d₁ _ => (warnings_denies _ _ _ _).andThen fun diagnostics d₂ r d₃ h => ?_
  obtain ⟨chain, d₄, _, h⟩ := run_bind_eq_ok.mp h
  cases h
  rfl

end Convolution

theorem Draft.run_denies {α : Type} {m m' : Draft α} {warnings : α → List Diagnostic}
    {owner : String} {s : Session} (h : Denies warnings m m' ⟨s, owner, 0, 0⟩) :
    Denies warnings (run owner m) (run owner m') s := by
  have hok : ∀ {a t}, run owner m s = .ok a t → ∃ d, m ⟨s, owner, 0, 0⟩ = .ok a d := by
    intro a t hrun
    unfold run at hrun
    split at hrun
    · next hm =>
      cases hrun
      exact ⟨_, hm⟩
    · cases hrun
  rcases h with ⟨hsame, hnone⟩ | ⟨name, groups, u, hdenied, hwarned⟩
  · refine .inl ⟨by unfold run; rw [hsame], fun a t hrun => ?_⟩
    obtain ⟨d, hm⟩ := hok hrun
    exact hnone a d hm
  · refine .inr ⟨name, groups, u.session, by unfold run; rw [hdenied], fun a t hrun => ?_⟩
    obtain ⟨d, hm⟩ := hok hrun
    exact hwarned a d hm

/-! ## Lowering -/

theorem run_bind_congr {ε σ α β : Type} {m m' : EStateM ε σ α} {f : α → EStateM ε σ β} {s : σ}
    (h : m s = m' s) :
    (m >>= f) s = (m' >>= f) s := by
  cases hrun : m' s with
  | ok a t => rw [run_bind_ok (h.trans hrun), run_bind_ok hrun]
  | error e t => rw [run_bind_error (h.trans hrun), run_bind_error hrun]

theorem Outline.place_warnings {o : Outline} {d : Detachment} {s s' : Session} {result : Lowered}
    (h : o.place d s = .ok result s') :
    result.diagnostics = o.diagnostics := by
  unfold place at h
  obtain ⟨nodes, s₁, _, h⟩ := run_bind_eq_ok.mp h
  split at h
  · obtain ⟨_, s₂, _, h⟩ := run_bind_eq_ok.mp h
    cases h
    rfl
  · cases h
    rfl

section Lowering

variable {s s' : Session} {options : Options} {verified : Bool}

theorem Convolution.outline_denies (n : Convolution) :
    Denies Outline.diagnostics (n.outline ⟨false, verified⟩) (n.outline ⟨true, verified⟩) s := by
  unfold outline
  refine .ite (fun _ => .after fun _ _ h => absurd h Edit.reject_ne_ok) fun _ =>
    .after fun g s₁ _ => .after fun output s₂ _ => ?_
  refine (Draft.run_denies n.draft_denies).andThen fun r t o u h => ?_
  cases h
  rfl

theorem TransposedConvolution.outline_warnings {n : TransposedConvolution} {o : Outline}
    (h : n.outline options s = .ok o s') :
    o.diagnostics = [] := by
  have hends : Ends (Edit.Along Graph.Registers) (n.outline options) s fun o _ =>
      o.diagnostics = [] := by
    unfold outline
    refine .ite (fun _ => reject_bind_ends _) fun _ => .ite (fun _ => reject_bind_ends _) fun _ => ?_
    refine Ends.read rfl (Ends.andThen (liftGraph_ends _) fun output _ => ?_)
    exact (Draft.run_ends (n.draft_ends (Nat.le_refl _))).bind fun _ _ _ _ => Ends.pure rfl
  exact (hends.of_ok h).2

theorem BatchNorm.outline_warnings {n : BatchNorm} {o : Outline} (h : n.outline s = .ok o s') :
    o.diagnostics = [] := by
  have hends : Ends (Edit.Along Graph.Registers) n.outline s fun o _ => o.diagnostics = [] := by
    unfold outline
    refine Ends.read rfl
      (Ends.andThen (liftGraph_ends _) fun x _ => .ite (fun _ => reject_bind_ends _) fun _ => ?_)
    refine Ends.andThen (entry_ends _ _) fun channels _ =>
      Ends.andThen (channelValues_ends _ _) fun weight _ => ?_
    refine Ends.andThen (channelValues_ends _ _) fun bias _ =>
      Ends.andThen (channelValues_ends _ _) fun mean _ => ?_
    refine Ends.andThen (channelValues_ends _ _) fun variance _ =>
      .ite (fun _ => reject_bind_ends _) fun _ => ?_
    refine Ends.read rfl
      (Ends.andThen (liftGraph_ends _) fun y _ => .ite (fun _ => reject_bind_ends _) fun _ => ?_)
    refine Ends.andThen (channelBuffer_ends _ _ _) fun scale _ =>
      Ends.andThen (channelBuffer_ends _ _ _) fun shift _ => ?_
    exact (Draft.run_ends (n.draft_ends x scale shift (Nat.le_refl _))).bind fun _ _ _ _ =>
      Ends.pure rfl
  exact (hends.of_ok h).2

theorem Composite.outline_denies (op : Composite) :
    Denies Outline.diagnostics (op.outline ⟨false, verified⟩) (op.outline ⟨true, verified⟩) s := by
  cases op with
  | batchNorm n => exact .same fun _ _ h => BatchNorm.outline_warnings h
  | convolution n => exact n.outline_denies
  | transposedConvolution n => exact .same fun _ _ h => TransposedConvolution.outline_warnings h

theorem Composite.lower_denies (op : Composite) (d : Detachment) :
    Denies Lowered.diagnostics (op.lower d ⟨false, verified⟩) (op.lower d ⟨true, verified⟩) s := by
  rw [op.lower_eq, op.lower_eq]
  exact op.outline_denies.andThen fun _ _ _ _ h => Outline.place_warnings h

namespace Edit

theorem lower_of_lowerNode {id : NodeId} {node : Node} {op : Composite} {result : Lowered}
    (hnode : s.graph.node? id = some node) (hkind : node.kind = .composite op)
    (h : lowerNode id options s = .ok result s') :
    ∃ s₁, op.lower (s.graph.detachment id node) options ⟨s.graph.eraseNode id, s.events⟩ =
      .ok result s₁ := by
  obtain ⟨o, t, s₁, houtline, hplace, _⟩ := lowerNode_place hnode hkind h
  exact ⟨s₁, by rw [op.lower_eq, run_bind_ok houtline, hplace]⟩

theorem lowerNode_denies (id : NodeId) :
    Denies Lowered.diagnostics (lowerNode id ⟨false, verified⟩) (lowerNode id ⟨true, verified⟩) s := by
  by_cases hother : ∀ node op, s.graph.node? id = some node → node.kind ≠ .composite op
  · unfold lowerNode
    refine .after fun g t h => ?_
    cases h
    cases hnode : s.graph.node? id with
    | none => exact .same fun _ _ h => absurd h reject_ne_ok
    | some node =>
      cases hkind : node.kind with
      | composite op => exact absurd hkind (hother node op hnode)
      | input _ | constant _ | output _ | operator _ =>
        simp only [hkind]
        exact .same fun _ _ h => absurd h reject_ne_ok
  · push Not at hother
    obtain ⟨node, op, hnode, hkind⟩ := hother
    have hlower : Denies Lowered.diagnostics (op.lower (s.graph.detachment id node) ⟨false, verified⟩)
        (op.lower (s.graph.detachment id node) ⟨true, verified⟩) ⟨s.graph.eraseNode id, s.events⟩ :=
          op.lower_denies _
    rcases hlower with ⟨hsame, hnone⟩ | ⟨owner, groups, u, hdenied, hwarned⟩
    · refine .inl ⟨?_, fun result t h => ?_⟩
      · rw [lowerNode_composite hnode hkind, lowerNode_composite hnode hkind]
        exact run_bind_congr (by rw [attempt, attempt, hsame])
      · obtain ⟨s₁, hrun⟩ := lower_of_lowerNode hnode hkind h
        exact hnone result s₁ hrun
    · have hends := op.lower_ends (s := ⟨s.graph.eraseNode id, s.events⟩)
        (d := s.graph.detachment id node) ⟨true, verified⟩
        (Nat.le_refl _)
      have hgrows : Graph.Grows _ (s.graph.eraseNode id) u.graph := hends.of_error hdenied
      obtain ⟨events, hrun⟩ := lower_of_rejected hdenied hgrows.length_le
      refine .inr ⟨owner, groups, _, (lowerNode_composite hnode hkind).trans hrun, fun result t h => ?_⟩
      obtain ⟨s₁, hrun⟩ := lower_of_lowerNode hnode hkind h
      exact hwarned result s₁ hrun

theorem mapM_lowerNode_denies (ids : List NodeId) :
    Denies (List.flatMap Lowered.diagnostics) (ids.mapM (lowerNode · ⟨false, verified⟩))
      (ids.mapM (lowerNode · ⟨true, verified⟩)) s := by
  induction ids generalizing s with
  | nil =>
    rw [List.mapM_nil, List.mapM_nil]
    refine .same fun results t h => ?_
    cases h
    rfl
  | cons id rest ih =>
    rw [List.mapM_cons, List.mapM_cons]
    refine .bind (fun result results => (results.drop 1).flatMap Lowered.diagnostics)
      (lowerNode_denies id) (fun result t _ => ?_) ?_
    · refine ih.andThen fun results t all u h => ?_
      cases h
      rfl
    · intro result t all u _ h
      obtain ⟨results, v, _, h⟩ := run_bind_eq_ok.mp h
      cases h
      rfl

/-- The loop adds up what lowering one by one returns. -/
theorem foldlM_add_eq (options : Options) (ids : List NodeId) (r : Report) :
    (ids.foldlM (fun report id => do return report.add (← lowerNode id options)) r : Edit Report) =
      ids.mapM (lowerNode · options) >>= fun results => pure (results.foldl Report.add r) := by
  induction ids generalizing r with
  | nil => rfl
  | cons id rest ih =>
    rw [List.foldlM_cons, List.mapM_cons]
    simp only [bind_assoc, pure_bind, ih, List.foldl_cons]

theorem lowerGraph_denies :
    Denies Report.diagnostics (lowerGraph ⟨false, verified⟩) (lowerGraph ⟨true, verified⟩) s := by
  unfold lowerGraph
  refine .after fun g t h => ?_
  cases h
  cases s.graph.composites with
  | error stop => exact .same fun _ _ h => nomatch h
  | ok ids =>
    simp only [foldlM_add_eq]
    refine (mapM_lowerNode_denies ids).andThen fun results t report u h => ?_
    cases h
    rw [Report.foldl_add]
    rfl

end Edit

end Lowering

/-! ## Which composites are warned about -/

namespace Convolution

/-- Whether a convolution of an input with a weight is in groups and not depthwise. -/
def isGrouped (n : Convolution) (x w : Tensor) : Bool :=
  x.shape.dims[1]? ≠ w.shape.dims[1]? ∧
    ¬ (w.shape.dims[1]? = some 1 ∧ w.shape.dims[0]? = some n.params.groups)

def warning? (n : Convolution) (g : Graph) : Option Diagnostic := do
  let x ← g.tensor? n.input
  let w ← g.tensor? n.weight
  let y ← g.tensor? n.output
  if n.isGrouped x w then some (groupedWarning y.name n.params.groups) else none

end Convolution

def Composite.warning? (op : Composite) (g : Graph) : Option Diagnostic :=
  match op with
  | .convolution n => n.warning? g
  | .batchNorm _ | .transposedConvolution _ => none

def Graph.warning? (g : Graph) (id : NodeId) : Option Diagnostic :=
  match (g.node? id).map Node.kind with
  | some (.composite op) => op.warning? g
  | _ => none

theorem Graph.warning?_composite {g : Graph} {id : NodeId} {node : Node} {op : Composite}
    (hnode : g.node? id = some node) (hkind : node.kind = .composite op) :
    g.warning? id = op.warning? g := by
  unfold warning?
  rw [hnode, Option.map_some, hkind]

namespace Convolution

open Drafting

variable {d d' : Drafting} {n : Convolution} {options : Options} {x w : Tensor}

theorem owner_of_survey {q : Survey} (h : n.survey d = .ok q d') : d'.owner = d.owner := by
  have hready : Ready False (fun _ => True) d.owner [] d := ⟨rfl, .inl trivial, False.elim⟩
  have hsafe :=
    n.survey_safe .default hready (fun _ _ _ _ => .inl trivial) (fun _ _ _ _ => trivial) False.elim
  exact (hsafe.of_ok h).1.owner

theorem Survey.Holds.isGrouped_iff {g : Graph} {first : Nat} {q : Survey} (h : q.Holds n g first)
    (hchannels : q.inputChannels = q.groupWidth * q.lifted.params.groups)
    (hx : g.tensor? n.input = some x) (hw : g.tensor? n.weight = some w) :
    n.isGrouped x w ↔ ¬ q.depthwise ∧ q.inputChannels ≠ q.groupWidth := by
  obtain ⟨hinput, houtput, hwidth, hgroups⟩ := h.operandChannels hx hw
  simp only [isGrouped, Survey.depthwise, hinput, houtput, hwidth,
    hgroups, hchannels, Option.some.injEq, decide_eq_true_eq, ne_eq]
  exact and_comm

theorem warnings_exact (options : Options) (depthwise : Bool) (inputChannels groupWidth groups : Nat) :
    Ends Registered (warnings options depthwise inputChannels groupWidth groups) d fun diagnostics _ =>
      diagnostics = if ¬ depthwise ∧ inputChannels ≠ groupWidth
        then [groupedWarning d.owner groups] else [] := by
  unfold warnings
  refine .ite (fun hgrouped => ?_) fun hsingle => Ends.pure (if_neg hsingle).symm
  rw [if_pos hgrouped]
  unfold grouped
  exact Ends.read rfl
    (.ite (fun _ => reject_ends _) fun _ => (Draft.note_ends _).bind fun _ _ _ _ => Ends.pure rfl)

theorem draft_warnings {r : List Operator × List Diagnostic}
    (hx : d.session.graph.tensor? n.input = some x)
    (hw : d.session.graph.tensor? n.weight = some w) (h : n.draft options d = .ok r d') :
    r.2 = if n.isGrouped x w then [groupedWarning d.owner n.params.groups] else [] := by
  unfold draft at h
  obtain ⟨q, d₁, hsurvey, h⟩ := run_bind_eq_ok.mp h
  obtain ⟨diagnostics, d₂, hwarnings, h⟩ := run_bind_eq_ok.mp h
  obtain ⟨chain, d₃, _, h⟩ := run_bind_eq_ok.mp h
  cases h
  obtain ⟨hregistered, hq⟩ := (n.survey_ends (Nat.le_refl _)).of_ok hsurvey
  obtain ⟨hholds, hchannels⟩ := hq _ (Before.refl d₁)
  have hx₁ := Registered.tensor? hregistered hx
  have hw₁ := Registered.tensor? hregistered hw
  obtain ⟨_, _, _, hgroups⟩ := hholds.operandChannels hx₁ hw₁
  simp only [hholds.isGrouped_iff hchannels hx₁ hw₁]
  rw [((warnings_exact _ _ _ _ _).of_ok hwarnings).2, owner_of_survey hsurvey, hgroups]

theorem outline_warnings {s t : Session} {o : Outline} (hx : s.graph.tensor? n.input = some x)
    (hw : s.graph.tensor? n.weight = some w) (h : n.outline options s = .ok o t) :
    o.diagnostics = (n.warning? s.graph).toList := by
  unfold outline at h
  split at h
  · obtain ⟨_, _, hreject, _⟩ := run_bind_eq_ok.mp h
    exact absurd hreject Edit.reject_ne_ok
  · obtain ⟨g, s₁, hg, h⟩ := run_bind_eq_ok.mp h
    cases hg
    obtain ⟨y, s₂, hy, h⟩ := run_bind_eq_ok.mp h
    obtain ⟨rfl, houtput⟩ := (liftGraph_ends _).of_ok hy
    obtain ⟨r, s₃, hrun, h⟩ := run_bind_eq_ok.mp h
    cases h
    unfold Draft.run at hrun
    split at hrun
    · next hdraft =>
      cases hrun
      have hwarning : n.warning? s.graph = if n.isGrouped x w
          then some (groupedWarning y.name n.params.groups) else none := by
        rw [warning?, hx, hw, Graph.tensor_eq_ok.mp houtput]
        rfl
      rw [hwarning, apply_ite Option.toList, Option.toList_some,
        Option.toList_none, ← draft_warnings hx hw hdraft]
    · cases hrun

end Convolution

/-- The warnings about a composite can be told from the graph. -/
theorem Composite.outline_warnings {op : Composite} {options : Options} {s t : Session} {o : Outline}
    (hregistered : ∀ id ∈ op.inputs, (s.graph.tensor? id).isSome) (h : op.outline options s = .ok o t) :
    o.diagnostics = (op.warning? s.graph).toList := by
  cases op with
  | batchNorm n => exact BatchNorm.outline_warnings h
  | convolution n =>
    obtain ⟨x, hx⟩ := Option.isSome_iff_exists.mp (hregistered n.input List.mem_cons_self)
    obtain ⟨w, hw⟩ :=
      Option.isSome_iff_exists.mp (hregistered n.weight (List.mem_cons_of_mem _ List.mem_cons_self))
    exact Convolution.outline_warnings hx hw h
  | transposedConvolution n => exact TransposedConvolution.outline_warnings h

theorem Composite.warning?_extend {op : Composite} {g g' : Graph}
    (hextend : g.tensors <+: g'.tensors)
    (hregistered : ∀ id ∈ op.inputs ++ [op.output], (g.tensor? id).isSome) :
    op.warning? g' = op.warning? g := by
  have hkeep : ∀ id ∈ op.inputs ++ [op.output], g'.tensor? id = g.tensor? id := by
    intro id hid
    obtain ⟨t, ht⟩ := Option.isSome_iff_exists.mp (hregistered id hid)
    rw [ht]
    exact Graph.tensor?_of_extend hextend ht
  cases op with
  | batchNorm n => rfl
  | transposedConvolution n => rfl
  | convolution n =>
    have hx := hkeep n.input (by simp [inputs])
    have hw := hkeep n.weight (by simp [inputs])
    have hy := hkeep n.output (by simp [output])
    simp only [warning?, Convolution.warning?, hx, hw, hy]

namespace Graph

variable {g g' : Graph} {id n : NodeId} {ids : List NodeId}

/-- What is said about a composite does not change when another one is lowered. -/
theorem Lowers.warning?_of_ne (h : g.Lowers id ids g') (hwf : g.WellFormed)
    (hcomposite : g.isComposite n) (hne : n ≠ id) :
    g'.warning? n = g.warning? n := by
  obtain ⟨node, op, hnode, hkind⟩ := isComposite_iff.mp hcomposite
  rw [warning?_composite hnode hkind, warning?_composite (h.node?_of_ne hwf hnode hne) hkind]
  refine Composite.warning?_extend h.tensors_extend fun t ht => hwf.registered n node hnode t ?_
  rw [hkind]
  exact ht

end Graph

namespace Edit

variable {s s' : Session} {options : Options} {id : NodeId} {ids : List NodeId}

theorem lowerNode_warnings {result : Lowered} (hwf : s.graph.WellFormed)
    (h : lowerNode id options s = .ok result s') :
    result.diagnostics = (s.graph.warning? id).toList := by
  obtain ⟨node, op, hnode, hkind, _⟩ := (lowerNode_run id options s).1 result s' h
  obtain ⟨o, t, s₁, houtline, hplace, _⟩ := lowerNode_place hnode hkind h
  have hregistered : ∀ t ∈ op.inputs, ((s.graph.eraseNode id).tensor? t).isSome :=
    fun t ht => hwf.operand_registered hnode hkind ht
  have hwarnings : o.diagnostics = (op.warning? (s.graph.eraseNode id)).toList :=
    Composite.outline_warnings (s := ⟨s.graph.eraseNode id, s.events⟩) hregistered houtline
  rw [Outline.place_warnings hplace, hwarnings, Graph.warning?_composite hnode hkind]
  rfl

/-- Lowering one by one warns of what could be told from the graph at the start. -/
theorem mapM_lowerNode_warnings {results : List Lowered} (hwf : s.graph.WellFormed)
    (hnodup : ids.Nodup) (hcomposites : ∀ n ∈ ids, s.graph.isComposite n)
    (h : ids.mapM (lowerNode · options) s = .ok results s') :
    results.flatMap (·.diagnostics) = ids.filterMap s.graph.warning? := by
  induction ids generalizing s results with
  | nil =>
    cases h
    rfl
  | cons id rest ih =>
    rw [List.mapM_cons, run_bind_eq_ok] at h
    obtain ⟨result, s₁, hhead, h⟩ := h
    obtain ⟨others, s₂, hrest, h⟩ := run_bind_eq_ok.mp h
    cases h
    have hlowers := (lowerNode_run id options s).1 result s₁ hhead
    obtain ⟨hid, hnodup⟩ := List.nodup_cons.mp hnodup
    have hkeep : ∀ n ∈ rest, s₁.graph.warning? n = s.graph.warning? n ∧ s₁.graph.isComposite n := by
      intro n hn
      have hne : n ≠ id := fun heq => hid (heq ▸ hn)
      have hcomposite := hcomposites n (List.mem_cons_of_mem id hn)
      obtain ⟨node, op, hnode, hkind⟩ := Graph.isComposite_iff.mp hcomposite
      exact ⟨hlowers.warning?_of_ne hwf hcomposite hne,
        Graph.isComposite_iff.mpr ⟨node, op, hlowers.node?_of_ne hwf hnode hne, hkind⟩⟩
    rw [List.flatMap_cons, ih (hlowers.wellFormed hwf) hnodup (fun n hn => (hkeep n hn).2) hrest,
      lowerNode_warnings hwf hhead, List.filterMap_congr fun n hn => (hkeep n hn).1]
    cases hwarning : s.graph.warning? id with
    | none => rw [List.filterMap_cons_none hwarning]; rfl
    | some warning => rw [List.filterMap_cons_some hwarning]; rfl

/-- Denying convolutions in groups turns the warnings into refusals and changes nothing else. A
graph is lowered by both settings in the same way if there are no warnings. If there are some, the
text of the first one is the reason for which lowering the graph is refused. There is one warning
for each convolution in groups that is not depthwise. -/
theorem lowerGraph_denying {calls : List Call} {w : World} (hcalls : World.after calls = some w)
    (verified : Bool) :
    (∀ report s, lowerGraph ⟨true, verified⟩ w.session = .ok report s ↔
      lowerGraph ⟨false, verified⟩ w.session = .ok report s ∧ report.diagnostics = []) ∧
    ∀ report s, lowerGraph ⟨false, verified⟩ w.session = .ok report s →
      (∀ warning rest, report.diagnostics = warning :: rest → ∃ objection s',
        lowerGraph ⟨true, verified⟩ w.session =
          .error (.rejected (.precondition "GENERIC_CONV" objection)) s' ∧
          objection.message = warning.message) ∧
      ∃ order, w.graph.topologicalOrder = .ok order ∧
        report.diagnostics = (order.filter w.graph.isComposite).filterMap w.graph.warning? := by
  have hwf := (World.after_sound hcalls).wellFormed
  refine ⟨fun report s => lowerGraph_denies.ok_iff,
    fun report s hrun => ⟨fun warning rest hwarnings => ?_, ?_⟩⟩
  · obtain ⟨owner, groups, u, hdenied, rfl⟩ := lowerGraph_denies.refused hrun hwarnings
    exact ⟨_, u, hdenied, rfl⟩
  · cases horder : w.graph.topologicalOrder with
    | error stop =>
      rw [lowerGraph_of_no_order horder] at hrun
      cases hrun
    | ok order =>
      obtain ⟨_, _, ⟨results, hresults, _, hdiagnostics⟩, _, _⟩ := loweredAll hwf horder hrun
      refine ⟨order, rfl, ?_⟩
      rw [hdiagnostics]
      have hnodup :=
        (Graph.ordered_of_topologicalOrder hwf.ends horder).nodup.filter w.graph.isComposite
      exact mapM_lowerNode_warnings hwf hnodup (fun n hn => (List.mem_filter.mp hn).2) hresults

/-- Calls that build a depthwise convolution and, after it, one in two groups. -/
def groupedCalls : List Call :=
  [.addInput (.computed "x" ⟨.f32, ⟨[1, 4, 2, 2]⟩⟩ none),
    .addInput (.computed "v" ⟨.f32, ⟨[4, 1, 1, 1]⟩⟩ none),
    .addInput (.computed "w" ⟨.f32, ⟨[4, 2, 1, 1]⟩⟩ none),
    .addTensor (.computed "y" ⟨.f32, ⟨[1, 4, 2, 2]⟩⟩ none),
    .addTensor (.computed "z" ⟨.f32, ⟨[1, 4, 2, 2]⟩⟩ none),
    .addComposite (.convolution ⟨⟨0⟩, ⟨1⟩, none, ⟨3⟩, { ConvParams.unit 2 with groups := 4 }, .none⟩),
    .addComposite (.convolution ⟨⟨3⟩, ⟨2⟩, none, ⟨4⟩, { ConvParams.unit 2 with groups := 2 }, .none⟩),
      .markOutput ⟨4⟩]

/-- Only the second convolution is warned about or refused. -/
theorem lowerGraph_denying_second_convolution :
    ∃ w report s objection s',
      World.after groupedCalls = some w ∧ lowerGraph ⟨false, true⟩ w.session = .ok report s ∧
      report.lowered = 2 ∧ report.diagnostics = [groupedWarning "z" 2] ∧
      lowerGraph ⟨true, true⟩ w.session =
        .error (.rejected (.precondition "GENERIC_CONV" objection)) s' ∧
      objection.message = (groupedWarning "z" 2).message := by
  have hrun : ((World.after groupedCalls).bind fun w =>
      ((lowerGraph ⟨false, true⟩).success? w.session).map fun r =>
      (r.1.lowered, r.1.diagnostics)) = some (2, [groupedWarning "z" 2]) := by
    decide +kernel
  obtain ⟨w, hw, hlower⟩ := Option.bind_eq_some_iff.mp hrun
  obtain ⟨⟨report, s⟩, hsuccess, hfacts⟩ := Option.map_eq_some_iff.mp hlower
  obtain ⟨hlowered, hdiagnostics⟩ := Prod.mk.inj hfacts
  have hok := success?_eq_some hsuccess
  obtain ⟨objection, s', hdenied, hmessage⟩ :=
    ((lowerGraph_denying hw true).2 report s hok).1 _ _ hdiagnostics
  exact ⟨w, report, s, objection, s', hw, hok, hlowered, hdiagnostics, hdenied, hmessage⟩

end Edit

end GraphLowering
