import GraphLowering.Graph.Order
import GraphLowering.Proofs.WellFormed
import Mathlib.Order.WellFoundedSet

/-!
# A graph without cycles has a topological order

A sweep takes nodes one by one. `Sweep.Tracks` says what it knows: the degree of a node is the
number of edges that lead to it from nodes that are not taken, and the nodes that are ready are
those that are left and have degree zero. While the edges of the node just taken are gone through,
those that are still to come count as well.

When nothing is ready, every node that is left has a predecessor that is left. Without cycles there
is then none left (`Graph.mem_taken_of_not_afterCycle`), so the order is complete.
-/

namespace GraphLowering

namespace Graph

def Feeds (g : Graph) (a b : NodeId) : Prop :=
  ∃ t, ⟨a, b, t⟩ ∈ g.edges

def Acyclic (g : Graph) : Prop :=
  ∀ n, ¬ Relation.TransGen g.Feeds n n

/-- Every node of the list comes after those that feed it. -/
def Forward (g : Graph) (order : List NodeId) : Prop :=
  ∀ before n after, order = before ++ n :: after → ∀ m, g.Feeds m n → m ∈ before

/-- Every node of the list is the smallest of those that are left and come after all that feed
them. -/
def Greedy (g : Graph) (order : List NodeId) : Prop :=
  ∀ before n after, order = before ++ n :: after →
    ∀ m, g.isLive m → m ∉ before → (∀ source, g.Feeds source m → source ∈ before) → n.index ≤ m.index

/-- The node is on a cycle, or a cycle leads to it. -/
def AfterCycle (g : Graph) (n : NodeId) : Prop :=
  ∃ m, Relation.TransGen g.Feeds m m ∧ Relation.ReflTransGen g.Feeds m n

/-- All nodes of the graph once each, in the direction of the edges. -/
structure Ordered (g : Graph) (order : List NodeId) : Prop where
  nodup : order.Nodup
  mem : ∀ n, n ∈ order ↔ g.isLive n
  forward : g.Forward order

/-- The number of edges that lead to a node from nodes that are not taken. -/
def pending (g : Graph) (taken : List NodeId) (n : NodeId) : Nat :=
  g.edges.countP fun e => e.target = n ∧ e.source ∉ taken

theorem mem_successors {g : Graph} {id n : NodeId} : n ∈ g.successors id ↔ g.Feeds id n := by
  unfold successors Feeds
  simp only [List.mem_map, List.mem_filter, beq_iff_eq]
  constructor
  · rintro ⟨⟨source, target, t⟩, ⟨he, rfl⟩, rfl⟩
    exact ⟨t, he⟩
  · rintro ⟨t, he⟩
    exact ⟨_, ⟨he, rfl⟩, rfl⟩

theorem Forward.closed {g : Graph} {order : List NodeId} (h : g.Forward order) {m n : NodeId}
    (hfeeds : g.Feeds m n) (hn : n ∈ order) : m ∈ order := by
  obtain ⟨before, after, rfl⟩ := List.append_of_mem hn
  exact List.mem_append_left _ (h before n after rfl m hfeeds)

theorem split_concat {order before after : List NodeId} {id n : NodeId}
    (h : order ++ [id] = before ++ n :: after) :
    before = order ∧ n = id ∨ ∃ rest, order = before ++ n :: rest := by
  rcases List.eq_nil_or_concat after with rfl | ⟨rest, last, rfl⟩
  · obtain ⟨rfl, hlast⟩ := List.append_inj' h rfl
    exact .inl ⟨rfl, (List.head_eq_of_cons_eq hlast).symm⟩
  · rw [List.concat_eq_append, ← List.cons_append, ← List.append_assoc] at h
    exact .inr ⟨rest, List.append_inj_left' h rfl⟩

theorem Forward.concat {g : Graph} {order : List NodeId} (h : g.Forward order) {id : NodeId}
    (hid : ∀ m, g.Feeds m id → m ∈ order) : g.Forward (order ++ [id]) := by
  intro before n after heq
  rcases split_concat heq with ⟨rfl, rfl⟩ | ⟨rest, hrest⟩
  · exact hid
  · exact h before n rest hrest

theorem Greedy.concat {g : Graph} {order : List NodeId} (h : g.Greedy order) {id : NodeId}
    (hid : ∀ m, g.isLive m → m ∉ order → (∀ source, g.Feeds source m → source ∈ order) →
      id.index ≤ m.index) :
    g.Greedy (order ++ [id]) := by
  intro before n after heq
  rcases split_concat heq with ⟨rfl, rfl⟩ | ⟨rest, hrest⟩
  · exact hid
  · exact h before n rest hrest

theorem pending_eq_zero {g : Graph} {taken : List NodeId} {n : NodeId} :
    g.pending taken n = 0 ↔ ∀ m, g.Feeds m n → m ∈ taken := by
  unfold pending Feeds
  rw [List.countP_eq_zero]
  constructor
  · rintro h m ⟨t, he⟩
    by_contra hm
    exact h _ he (decide_eq_true ⟨rfl, hm⟩)
  · rintro h ⟨source, target, t⟩ he hcounted
    obtain ⟨rfl, hsource⟩ := of_decide_eq_true hcounted
    exact hsource (h source ⟨t, he⟩)

theorem pending_append {g : Graph} {taken : List NodeId} {id : NodeId} (hid : id ∉ taken) (n : NodeId) :
    g.pending taken n = g.pending (taken ++ [id]) n + (g.successors id).count n := by
  unfold pending successors
  induction g.edges with
  | nil => rfl
  | cons e rest ih =>
    rw [List.countP_cons, List.countP_cons, List.filter_cons, ih]
    by_cases hsource : e.source = id
    · by_cases htarget : e.target = n
      · simp [hsource, htarget, hid]
        omega
      · simp [hsource, htarget, List.count_cons_of_ne htarget]
    · by_cases htarget : e.target = n
      · simp [hsource, htarget]
        omega
      · simp [hsource, htarget]

end Graph

namespace Sweep

/-- What a sweep knows while the nodes in `remaining` are still to be released once each. -/
structure Tracks (g : Graph) (remaining : List NodeId) (s : Sweep) : Prop where
  degree : ∀ n : NodeId,
    s.degree.get? n.index = if g.isLive n then some (g.pending s.taken n + remaining.count n) else none
  ready : ∀ n, n ∈ s.ready ↔ g.isLive n ∧ n ∉ s.taken ∧ g.pending s.taken n + remaining.count n = 0
  ascending : s.ready.Pairwise fun a b => a.index < b.index
  nodup : s.taken.Nodup
  live : ∀ n ∈ s.taken, g.isLive n
  forward : g.Forward s.taken
  greedy : g.Greedy s.taken

/-! ## The start -/

section Start

variable {g : Graph}

theorem get?_isolated (ids : List Nat) (table : Table Nat) (k : Nat) :
    (ids.foldl (fun table id => table.insert id 0) table).get? k = if k ∈ ids
      then some 0 else table.get? k := by
  induction ids generalizing table with
  | nil => simp
  | cons id rest ih =>
    rw [List.foldl_cons, ih, Table.get?_insert]
    by_cases hrest : k ∈ rest
    · simp [hrest]
    · simp [hrest]

theorem get?_counted (edges : List Edge) (table : Table Nat)
    (h : ∀ e ∈ edges, table.contains e.target.index) (k : Nat) :
    (edges.foldl (fun table e => table.insert e.target.index ((table.get? e.target.index).getD 0 + 1))
      table).get? k =
      (table.get? k).map (· + edges.countP fun e => e.target.index = k) := by
  induction edges generalizing table with
  | nil => cases hk : table.get? k <;> simp [hk]
  | cons e rest ih =>
    rw [List.foldl_cons, ih, Table.get?_insert, List.countP_cons]
    · by_cases hk : k = e.target.index
      · obtain ⟨d, hd⟩ := Option.isSome_iff_exists.mp (h e List.mem_cons_self)
        simp [hk, hd]
        omega
      · have hk' : ¬ e.target.index = k := fun h => hk h.symm
        simp [hk, hk']
    · intro e' he'
      have hcontains := h e' (List.mem_cons_of_mem _ he')
      unfold Table.contains at hcontains ⊢
      rw [Table.get?_insert]
      split
      · rfl
      · exact hcontains

theorem get?_degrees (hends : ∀ e ∈ g.edges, g.isLive e.source ∧ g.isLive e.target) (n : NodeId) :
    (degrees g).get? n.index = if g.isLive n then some (g.pending [] n) else none := by
  unfold degrees
  rw [get?_counted]
  · rw [get?_isolated, Table.get?_empty]
    have hcount : (g.edges.countP fun e => e.target.index = n.index) = g.pending [] n := by
      refine List.countP_congr fun e _ => ?_
      rw [decide_eq_true_iff, decide_eq_true_iff]
      constructor
      · intro hindex
        exact ⟨NodeId.index_inj.mp hindex, List.not_mem_nil⟩
      · rintro ⟨rfl, _⟩
        rfl
    rw [hcount]
    by_cases hlive : g.isLive n
    · rw [if_pos (Table.mem_keys.mpr hlive), if_pos hlive, Option.map_some, Nat.zero_add]
    · rw [if_neg fun h => hlive (Table.mem_keys.mp h), if_neg hlive, Option.map_none]
  · intro e he
    unfold Table.contains
    rw [get?_isolated, if_pos (Table.mem_keys.mpr (hends e he).2)]
    rfl

theorem tracks_start (hends : ∀ e ∈ g.edges, g.isLive e.source ∧ g.isLive e.target) :
    (start g).Tracks g [] where
  degree n := by
    rw [List.count_nil, Nat.add_zero]
    exact get?_degrees hends n
  ready n := by
    have hentry : n ∈ (start g).ready ↔ (n.index, 0) ∈ (degrees g).entries := by
      unfold start
      simp only [List.mem_map, List.mem_filter, beq_iff_eq]
      constructor
      · rintro ⟨⟨k, d⟩, ⟨hmem, rfl⟩, rfl⟩
        exact hmem
      · intro hmem
        exact ⟨(n.index, 0), ⟨hmem, rfl⟩, rfl⟩
    rw [hentry, Table.mem_entries, get?_degrees hends, List.count_nil, Nat.add_zero]
    by_cases hlive : g.isLive n
    · rw [if_pos hlive, Option.some_inj]
      exact ⟨fun h => ⟨hlive, List.not_mem_nil, h⟩, fun h => h.2.2⟩
    · rw [if_neg hlive]
      exact ⟨(nomatch ·), fun h => absurd h.1 hlive⟩
  ascending := by
    unfold start
    rw [List.pairwise_map]
    exact (degrees g).ascending.filter _
  nodup := List.nodup_nil
  live _ h := nomatch h
  forward before n after heq := absurd (List.append_eq_nil_iff.mp heq.symm).2 (List.cons_ne_nil n after)
  greedy before n after heq := absurd (List.append_eq_nil_iff.mp heq.symm).2 (List.cons_ne_nil n after)

end Start

/-! ## One node after the other -/

theorem mem_insertReady {id n : NodeId} {ready : List NodeId} :
    n ∈ insertReady id ready ↔ n = id ∨ n ∈ ready := by
  induction ready with
  | nil => simp [insertReady]
  | cons head rest ih =>
    unfold insertReady
    split
    · exact List.mem_cons
    · split
      · next heq => simp [heq]
      · rw [List.mem_cons, ih, List.mem_cons]
        tauto

theorem pairwise_insertReady (id : NodeId) {ready : List NodeId}
    (h : ready.Pairwise fun a b => a.index < b.index) :
    (insertReady id ready).Pairwise fun a b => a.index < b.index := by
  induction ready with
  | nil => exact List.pairwise_singleton _ _
  | cons head rest ih =>
    obtain ⟨hhead, hrest⟩ := List.pairwise_cons.mp h
    unfold insertReady
    split
    · next hlt =>
      refine List.pairwise_cons.mpr ⟨fun n hn => ?_, h⟩
      rcases List.mem_cons.mp hn with rfl | hn
      · exact hlt
      · exact Nat.lt_trans hlt (hhead n hn)
    · split
      · exact h
      · next hle hne =>
        refine List.pairwise_cons.mpr ⟨fun n hn => ?_, ih hrest⟩
        rcases mem_insertReady.mp hn with rfl | hn
        · have hindex : n.index ≠ head.index := fun heq => hne (NodeId.index_inj.mp heq)
          omega
        · exact hhead n hn

namespace Tracks

variable {g : Graph} {s : Sweep}

/-- A node that is not taken is released: its degree does not fall below zero. -/
theorem release {target : NodeId} {rest : List NodeId} (h : s.Tracks g (target :: rest))
    (hlive : g.isLive target) (htaken : target ∉ s.taken) :
    ∃ s', s.release target = .ok s' ∧ s'.taken = s.taken ∧ s'.Tracks g rest := by
  have hdegree : s.degree.get? target.index =
      some (g.pending s.taken target + rest.count target + 1) := by
    rw [h.degree, if_pos hlive, List.count_cons_self]
    rfl
  have hready : ∀ n, n ≠ target →
      (n ∈ s.ready ↔ g.isLive n ∧ n ∉ s.taken ∧ g.pending s.taken n + rest.count n = 0) := by
    intro n hn
    rw [h.ready, List.count_cons_of_ne (Ne.symm hn)]
  have hnot : target ∉ s.ready := by
    rw [h.ready, List.count_cons_self]
    omega
  unfold Sweep.release
  rw [hdegree]
  refine ⟨_, rfl, rfl, ?_⟩
  exact
    { degree := by
        intro n
        rw [Table.get?_insert]
        by_cases hn : n = target
        · rw [if_pos (congrArg NodeId.index hn), hn, if_pos hlive]
        · rw [if_neg fun hindex => hn (NodeId.index_inj.mp hindex),
            h.degree, List.count_cons_of_ne (Ne.symm hn)]
      ready := by
        intro n
        by_cases hn : n = target
        · subst hn
          split
          · next hzero =>
            exact ⟨fun _ => ⟨hlive, htaken, hzero⟩, fun _ => mem_insertReady.mpr (.inl rfl)⟩
          · next hzero =>
            exact ⟨fun hmem => absurd hmem hnot, fun hall => absurd hall.2.2 hzero⟩
        · split
          · rw [mem_insertReady, or_iff_right hn, hready n hn]
          · exact hready n hn
      ascending := by
        split
        · exact pairwise_insertReady target h.ascending
        · exact h.ascending
      nodup := h.nodup
      live := h.live
      forward := h.forward
      greedy := h.greedy }

theorem foldlM_release {targets : List NodeId} (h : s.Tracks g targets)
    (htargets : ∀ n ∈ targets, g.isLive n ∧ n ∉ s.taken) :
    ∃ s', targets.foldlM Sweep.release s = .ok s' ∧ s'.taken = s.taken ∧ s'.Tracks g [] := by
  induction targets generalizing s with
  | nil => exact ⟨s, rfl, rfl, h⟩
  | cons target rest ih =>
    obtain ⟨hlive, htaken⟩ := htargets target List.mem_cons_self
    obtain ⟨s₁, hs₁, hsame, hs₁tracks⟩ := h.release hlive htaken
    obtain ⟨s₂, hs₂, hsame₂, hs₂tracks⟩ := ih hs₁tracks fun n hn => by
      rw [hsame]
      exact htargets n (List.mem_cons_of_mem _ hn)
    refine ⟨s₂, ?_, hsame₂.trans hsame, hs₂tracks⟩
    rw [List.foldlM_cons, hs₁]
    exact hs₂

theorem mem_ready (h : s.Tracks g []) {n : NodeId} :
    n ∈ s.ready ↔ g.isLive n ∧ n ∉ s.taken ∧ ∀ m, g.Feeds m n → m ∈ s.taken := by
  rw [h.ready, List.count_nil, Nat.add_zero, Graph.pending_eq_zero]

theorem left_of_feeds (h : s.Tracks g []) {id n : NodeId} (hid : id ∈ s.ready) (hfeeds : g.Feeds id n) :
    n ∉ s.taken ++ [id] := by
  obtain ⟨_, htaken, hfed⟩ := h.mem_ready.mp hid
  intro hn
  rcases List.mem_append.mp hn with hn | hn
  · exact htaken (h.forward.closed hfeeds hn)
  · rw [List.mem_singleton] at hn
    exact htaken (hfed id (hn ▸ hfeeds))

/-- The next node is taken, and what it feeds is to be released. -/
theorem take {id : NodeId} {rest : List NodeId} (h : s.Tracks g []) (hready : s.ready = id :: rest) :
    ({ s with ready := rest, taken := s.taken ++ [id] } : Sweep).Tracks g (g.successors id) := by
  obtain ⟨hlive, htaken, hfed⟩ := h.mem_ready.mp (hready ▸ List.mem_cons_self)
  have hascending := h.ascending
  rw [hready, List.pairwise_cons] at hascending
  have hrest : id ∉ rest := fun hmem => Nat.lt_irrefl _ (hascending.1 id hmem)
  have hpending :
      ∀ n, g.pending s.taken n = g.pending (s.taken ++ [id]) n + (g.successors id).count n :=
    Graph.pending_append htaken
  exact
    { degree := by
        intro n
        rw [← hpending, ← Nat.add_zero (g.pending s.taken n)]
        exact h.degree n
      ready := by
        intro n
        have hn := h.ready n
        rw [hready, List.mem_cons, List.count_nil, Nat.add_zero, hpending] at hn
        rw [List.mem_append, List.mem_singleton]
        by_cases hnid : n = id
        · exact ⟨fun hmem => absurd (hnid ▸ hmem) hrest, fun hall => absurd (.inr hnid) hall.2.1⟩
        · rw [or_iff_left hnid]
          rwa [or_iff_right hnid] at hn
      ascending := hascending.2
      nodup := h.nodup.append (List.nodup_singleton _) fun n hn hn' =>
        htaken (List.mem_singleton.mp hn' ▸ hn)
      live := by
        intro n hn
        rcases List.mem_append.mp hn with hn | hn
        · exact h.live n hn
        · rw [List.mem_singleton.mp hn]
          exact hlive
      forward := h.forward.concat hfed
      greedy := by
        refine h.greedy.concat fun m hm hleft hfed => ?_
        have hmem : m ∈ id :: rest := hready ▸ h.mem_ready.mpr ⟨hm, hleft, hfed⟩
        rcases List.mem_cons.mp hmem with rfl | hmem
        · exact Nat.le_refl _
        · exact Nat.le_of_lt (hascending.1 m hmem) }

theorem subperm_taken (h : s.Tracks g []) : (s.taken.map (·.index)).Subperm g.nodes.keys := by
  have hnodup : (s.taken.map (·.index)).Nodup := h.nodup.map fun _ _ => NodeId.index_inj.mp
  refine hnodup.subperm fun k hk => ?_
  obtain ⟨n, hn, rfl⟩ := List.mem_map.mp hk
  exact Table.mem_keys.mpr (h.live n hn)

theorem length_taken_iff (h : s.Tracks g []) :
    s.taken.length = g.nodes.size ↔ ∀ n, g.isLive n → n ∈ s.taken := by
  have hsub := h.subperm_taken
  have hlength : (s.taken.map (·.index)).length = s.taken.length := List.length_map _
  rw [← Table.length_keys, ← hlength]
  constructor
  · intro hlength n hn
    have hperm := hsub.perm_of_length_le (Nat.le_of_eq hlength.symm)
    obtain ⟨m, hm, hindex⟩ := List.mem_map.mp (hperm.mem_iff.mpr (Table.mem_keys.mpr hn))
    rw [← NodeId.index_inj.mp hindex]
    exact hm
  · intro hall
    refine Nat.le_antisymm hsub.length_le ?_
    refine ((Table.nodup_keys _).subperm fun k hk => ?_).length_le
    exact List.mem_map.mpr ⟨⟨k⟩, hall ⟨k⟩ (Table.mem_keys.mp hk), rfl⟩

theorem run (hends : ∀ e ∈ g.edges, g.isLive e.source ∧ g.isLive e.target) {fuel : Nat}
    (h : s.Tracks g []) (hfuel : fuel + s.taken.length = g.nodes.size) :
    ∃ s' : Sweep, Sweep.run g fuel s = .ok s'.taken ∧ s'.Tracks g [] ∧ s'.ready = [] := by
  induction fuel generalizing s with
  | zero =>
    -- each round has taken a node, so all are taken and none is ready
    refine ⟨s, rfl, h, List.eq_nil_iff_forall_not_mem.mpr fun n hn => ?_⟩
    obtain ⟨hlive, htaken, _⟩ := h.mem_ready.mp hn
    exact htaken (h.length_taken_iff.mp (by omega) n hlive)
  | succ fuel ih =>
    unfold Sweep.run
    split
    · next hready => exact ⟨s, rfl, h, hready⟩
    · next id rest hready =>
      have hid : id ∈ s.ready := hready ▸ List.mem_cons_self
      have htargets : ∀ n ∈ g.successors id, g.isLive n ∧ n ∉ s.taken ++ [id] := by
        intro n hn
        obtain ⟨t, he⟩ := Graph.mem_successors.mp hn
        exact ⟨(hends _ he).2, h.left_of_feeds hid ⟨t, he⟩⟩
      obtain ⟨s₁, hs₁, hsame, hs₁tracks⟩ := (h.take hready).foldlM_release htargets
      rw [hs₁]
      refine ih hs₁tracks ?_
      rw [hsame, List.length_append, List.length_singleton]
      omega

end Tracks

end Sweep

namespace Graph

variable {g : Graph}

/-- When nothing is ready, what is left comes after a cycle: of the nodes before it that are left
each has another one before it. -/
theorem mem_taken_of_not_afterCycle (hends : ∀ e ∈ g.edges, g.isLive e.source ∧ g.isLive e.target)
    {s : Sweep} (h : s.Tracks g []) (hready : s.ready = []) {n : NodeId} (hn : g.isLive n)
    (hcycle : ¬ g.AfterCycle n) : n ∈ s.taken := by
  by_contra hleft
  let earlier : Set NodeId := { m | g.isLive m ∧ m ∉ s.taken ∧ Relation.ReflTransGen g.Feeds m n }
  have hfinite : earlier.Finite := by
    refine (g.nodeIds.finite_toSet).subset fun m hm => ?_
    exact List.mem_map.mpr ⟨m.index, Table.mem_keys.mpr hm.1, rfl⟩
  have : Finite earlier := hfinite
  let leads : earlier → earlier → Prop := fun a b => Relation.TransGen g.Feeds a b
  have : IsTrans earlier leads := ⟨fun _ _ _ => .trans⟩
  have : Std.Irrefl leads := ⟨fun a ha => hcycle ⟨a, ha, a.2.2.2⟩⟩
  -- one of them that is after no other one
  obtain ⟨⟨m, hlive, htaken, hreaches⟩, _, hmin⟩ :=
    (Finite.wellFounded_of_trans_of_irrefl leads).has_min Set.univ ⟨⟨n, hn, hleft, .refl⟩, trivial⟩
  have hfed : ∀ source, g.Feeds source m → source ∈ s.taken := by
    rintro source ⟨t, he⟩
    by_contra hsource
    exact hmin ⟨source, (hends _ he).1, hsource, .head ⟨t, he⟩ hreaches⟩ trivial (.single ⟨t, he⟩)
  have hmem : m ∈ s.ready := h.mem_ready.mpr ⟨hlive, htaken, hfed⟩
  rw [hready] at hmem
  cases hmem

theorem Acyclic.not_afterCycle (hacyclic : g.Acyclic) (n : NodeId) : ¬ g.AfterCycle n :=
  fun ⟨m, hcycle, _⟩ => hacyclic m hcycle

theorem topologicalOrder_eq (hends : ∀ e ∈ g.edges, g.isLive e.source ∧ g.isLive e.target) :
    ∃ s : Sweep, s.Tracks g [] ∧ s.ready = [] ∧
      g.topologicalOrder = if s.taken.length = g.nodes.size then .ok s.taken
        else .error (.rejected (.graph (.cycle s.taken.length g.nodes.size))) := by
  have hstart := Sweep.tracks_start hends
  have hsize : (Sweep.start g).degree.size + (Sweep.start g).taken.length = g.nodes.size := by
    refine Table.size_eq fun k => ?_
    unfold Table.contains
    rw [hstart.degree ⟨k⟩]
    unfold isLive Table.contains
    split
    · next hk => exact ⟨fun _ => hk, fun _ => rfl⟩
    · next hk => exact ⟨(nomatch ·), fun h => absurd h hk⟩
  obtain ⟨s, hrun, htracks, hready⟩ := hstart.run (s := Sweep.start g) hends hsize
  refine ⟨s, htracks, hready, ?_⟩
  unfold topologicalOrder
  simp only [hrun]
  rfl

theorem Acyclic.exists_order (hacyclic : g.Acyclic)
    (hends : ∀ e ∈ g.edges, g.isLive e.source ∧ g.isLive e.target) :
    ∃ order, g.topologicalOrder = .ok order := by
  obtain ⟨s, htracks, hready, horder⟩ := topologicalOrder_eq hends
  have hlength : s.taken.length = g.nodes.size := htracks.length_taken_iff.mpr fun n hn =>
    mem_taken_of_not_afterCycle hends htracks hready hn (hacyclic.not_afterCycle n)
  exact ⟨s.taken, horder.trans (if_pos hlength)⟩

theorem ordered_of_topologicalOrder (hends : ∀ e ∈ g.edges, g.isLive e.source ∧ g.isLive e.target)
    {order : List NodeId} (h : g.topologicalOrder = .ok order) : g.Ordered order := by
  obtain ⟨s, htracks, _, horder⟩ := topologicalOrder_eq hends
  rw [horder] at h
  split at h
  · next hlength =>
    cases h
    exact ⟨htracks.nodup,
      fun n => ⟨htracks.live n, htracks.length_taken_iff.mp hlength n⟩, htracks.forward⟩
  · cases h

theorem cycle_of_topologicalOrder (hends : ∀ e ∈ g.edges, g.isLive e.source ∧ g.isLive e.target)
    {stop : Stop} (h : g.topologicalOrder = .error stop) :
    ∃ visited total, stop = .rejected (.graph (.cycle visited total)) := by
  obtain ⟨s, _, _, horder⟩ := topologicalOrder_eq hends
  rw [horder] at h
  split at h
  · cases h
  · cases h
    exact ⟨_, _, rfl⟩

end Graph

end GraphLowering
