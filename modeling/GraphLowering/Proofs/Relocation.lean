import GraphLowering.Proofs.Drafts

/-!
# Drafts do not depend on tensors they do not name

A draft that is run on a graph with more tensors looks up the same tensors and registers the same
ones. They only get larger numbers, and a name that is new in the smaller graph may be taken in the
larger one. Nothing else can go otherwise.

`Relocates c m m' f` says so about two computations. Wherever `m` ends with a value `a`, `m'` ends
with `f a` when it is started in a state with more tensors, unless `m` has registered a name that is
taken there; and where `m` stops, or that name is taken, `m'` stops. As with `Ends` there is one
rule for each way to put computations together.
-/

namespace GraphLowering

variable {σ α β γ δ : Type}

def Stops (m : EStateM Stop σ α) (s : σ) : Prop :=
  ∃ e t, m s = .error e t

theorem Stops.bind {m : EStateM Stop σ α} {s : σ} (h : Stops m s) (f : α → EStateM Stop σ β) :
    Stops (m >>= f) s := by
  obtain ⟨e, t, hrun⟩ := h
  exact ⟨e, t, run_bind_error hrun⟩

theorem reject_stops (error : LowerError) (s : σ) : Stops (reject error : EStateM Stop σ α) s := by
  unfold reject
  split
  · exact ⟨_, s, rfl⟩
  · exact ⟨_, s, rfl⟩

theorem faulty_stops (fault : Fault) (s : σ) : Stops (faulty fault : EStateM Stop σ α) s :=
  ⟨_, s, rfl⟩

/-- A computation that does not look at the state: it has one value, or it stops. -/
def Uniform (m : EStateM Stop σ α) : Prop :=
  (∃ a, ∀ s, m s = .ok a s) ∨ ∀ s, Stops m s

namespace Uniform

theorem pure (a : α) : Uniform (Pure.pure a : EStateM Stop σ α) :=
  .inl ⟨a, fun _ => rfl⟩

theorem bind {m : EStateM Stop σ α} {f : α → EStateM Stop σ β} (hm : Uniform m)
    (hf : ∀ a, Uniform (f a)) :
    Uniform (m >>= f) := by
  rcases hm with ⟨a, hm⟩ | hm
  · rcases hf a with ⟨b, hf⟩ | hf
    · exact .inl ⟨b, fun s => (run_bind_ok (hm s)).trans (hf s)⟩
    · refine .inr fun s => ?_
      obtain ⟨e, t, hrun⟩ := hf s
      exact ⟨e, t, (run_bind_ok (hm s)).trans hrun⟩
  · exact .inr fun s => (hm s).bind f

theorem ite {c : Prop} [Decidable c] {x y : EStateM Stop σ α} (hx : Uniform x) (hy : Uniform y) :
    Uniform (if c then x else y) := by
  split
  · exact hx
  · exact hy

theorem reject (error : LowerError) : Uniform (GraphLowering.reject error : EStateM Stop σ α) :=
  .inr (reject_stops error)

theorem faulty (fault : Fault) : Uniform (GraphLowering.faulty fault : EStateM Stop σ α) :=
  .inr (faulty_stops fault)

theorem orFault (fault : Fault) (a : Option α) :
    Uniform (GraphLowering.orFault fault a : EStateM Stop σ α) := by
  cases a with
  | none => exact .faulty fault
  | some a => exact .pure a

theorem orReject (error : LowerError) (a : Option α) :
    Uniform (GraphLowering.orReject error a : EStateM Stop σ α) := by
  cases a with
  | none => exact .reject error
  | some a => exact .pure a

theorem entry (xs : List α) (i : Nat) : Uniform (GraphLowering.entry xs i : EStateM Stop σ α) :=
  .orFault _ _

theorem allocate (b : Buffer) : Uniform (GraphLowering.allocate b : EStateM Stop σ Buffer) :=
  .ite (.pure b) (.faulty _)

end Uniform

/-! ## Two states -/

/-- How the states of two computations are compared. -/
structure Comparison (σ : Type) where
  /-- The second state has more tensors, and otherwise the same. -/
  mirrors : σ → σ → Prop
  /-- A computation may lead from the one state to the other. -/
  grows : σ → σ → Prop
  /-- No name was registered that the second computation finds taken. -/
  avoids : σ → Prop
  refl : ∀ s, grows s s
  trans : ∀ {s t u}, grows s t → grows t u → grows s u
  antitone : ∀ {s t}, grows s t → avoids t → avoids s
  avoids_of_mirrors : ∀ {s t}, mirrors s t → avoids s

/-- The second computation does what the first one does, with results that are translated by `f`, or
it stops. -/
def Relocates (c : Comparison σ) (m : EStateM Stop σ α) (m' : EStateM Stop σ β) (f : α → β) : Prop :=
  ∀ s, match m s with
    | .ok a t => c.grows s t ∧ ∀ s', c.mirrors s s' →
        (c.avoids t → ∃ t', m' s' = .ok (f a) t' ∧ c.mirrors t t') ∧ (¬ c.avoids t → Stops m' s')
    | .error _ _ => ∀ s', c.mirrors s s' → Stops m' s'

namespace Relocates

variable {c : Comparison σ} {m : EStateM Stop σ α} {m' : EStateM Stop σ β} {f : α → β} {g : γ → δ}

/-! ### Reading off -/

theorem of_ok (h : Relocates c m m' f) {s t s' : σ} {a : α} (hrun : m s = .ok a t)
    (hs : c.mirrors s s') (ht : c.avoids t) :
    ∃ t', m' s' = .ok (f a) t' ∧ c.mirrors t t' := by
  have hs₀ := h s
  rw [hrun] at hs₀
  exact (hs₀.2 s' hs).1 ht

theorem of_relocated (h : Relocates c m m' f) {s s' t' : σ} {b : β} (hrun : m' s' = .ok b t')
    (hs : c.mirrors s s') :
    ∃ a t, m s = .ok a t ∧ b = f a ∧ c.mirrors t t' := by
  have hs₀ := h s
  cases hm : m s with
  | ok a t =>
    rw [hm] at hs₀
    by_cases ht : c.avoids t
    · obtain ⟨t₁, hrun', ht'⟩ := (hs₀.2 s' hs).1 ht
      rw [hrun] at hrun'
      cases hrun'
      exact ⟨a, t, rfl, rfl, ht'⟩
    · obtain ⟨e, t₁, hstop⟩ := (hs₀.2 s' hs).2 ht
      rw [hrun] at hstop
      cases hstop
  | error e t =>
    rw [hm] at hs₀
    obtain ⟨e, t₁, hstop⟩ := hs₀ s' hs
    rw [hrun] at hstop
    cases hstop

/-! ### Putting computations together -/

theorem pure (a : α) : Relocates c (Pure.pure a) (Pure.pure (f a)) f :=
  fun s => ⟨c.refl s, fun s' hs => ⟨fun _ => ⟨s', rfl, hs⟩, fun h => absurd (c.avoids_of_mirrors hs) h⟩⟩

theorem pure_of_eq {a : α} {b : β} (h : b = f a) : Relocates c (Pure.pure a) (Pure.pure b) f := by
  rw [h]
  exact .pure a

theorem bind {k : α → EStateM Stop σ γ} {k' : β → EStateM Stop σ δ} (hm : Relocates c m m' f)
    (hk : ∀ a, Relocates c (k a) (k' (f a)) g) : Relocates c (m >>= k) (m' >>= k') g := by
  intro s
  have hs₀ := hm s
  cases hrun : m s with
  | error e t =>
    rw [hrun] at hs₀
    rw [run_bind_error hrun]
    exact fun s' hs => (hs₀ s' hs).bind k'
  | ok a t =>
    rw [hrun] at hs₀
    rw [run_bind_ok hrun]
    obtain ⟨hgrows, hm'⟩ := hs₀
    have ht₀ := hk a t
    cases hnext : k a t with
    | error e u =>
      rw [hnext] at ht₀
      intro s' hs
      by_cases ht : c.avoids t
      · obtain ⟨t', hrun', ht'⟩ := (hm' s' hs).1 ht
        obtain ⟨e', u', hstop⟩ := ht₀ t' ht'
        exact ⟨e', u', (run_bind_ok hrun').trans hstop⟩
      · exact ((hm' s' hs).2 ht).bind k'
    | ok b u =>
      rw [hnext] at ht₀
      obtain ⟨hgrows', hk'⟩ := ht₀
      refine ⟨c.trans hgrows hgrows', fun s' hs => ⟨fun hu => ?_, fun hu => ?_⟩⟩
      · obtain ⟨t', hrun', ht'⟩ := (hm' s' hs).1 (c.antitone hgrows' hu)
        obtain ⟨u', hnext', hu'⟩ := (hk' t' ht').1 hu
        exact ⟨u', (run_bind_ok hrun').trans hnext', hu'⟩
      · by_cases ht : c.avoids t
        · obtain ⟨t', hrun', ht'⟩ := (hm' s' hs).1 ht
          obtain ⟨e', u', hstop⟩ := (hk' t' ht').2 hu
          exact ⟨e', u', (run_bind_ok hrun').trans hstop⟩
        · exact ((hm' s' hs).2 ht).bind k'

theorem stop (h : ∀ s, Stops m s) (h' : ∀ s, Stops m' s) : Relocates c m m' f := by
  intro s
  obtain ⟨e, t, hrun⟩ := h s
  rw [hrun]
  exact fun s' _ => h' s'

theorem reject (error error' : LowerError) :
    Relocates c (GraphLowering.reject error) (GraphLowering.reject error') f :=
  .stop (reject_stops error) (reject_stops error')

theorem reject_bind (error error' : LowerError) (k : γ → EStateM Stop σ α) (k' : δ → EStateM Stop σ β) :
    Relocates c (GraphLowering.reject error >>= k) (GraphLowering.reject error' >>= k') f :=
  .stop (fun s => (reject_stops error s).bind k) fun s => (reject_stops error' s).bind k'

theorem ite {p : Prop} [Decidable p] {x : EStateM Stop σ α} {x' : EStateM Stop σ β}
    (hm : p → Relocates c m m' f) (hx : ¬ p → Relocates c x x' f) :
    Relocates c (if p then m else x) (if p then m' else x') f := by
  split
  · next h => exact hm h
  · next h => exact hx h

theorem of_uniform {m : EStateM Stop σ α} (h : Uniform m) : Relocates c m m id := by
  rcases h with ⟨a, h⟩ | h
  · intro s
    rw [h s]
    exact ⟨c.refl s,
      fun s' hs => ⟨fun _ => ⟨s', h s', hs⟩, fun havoids => absurd (c.avoids_of_mirrors hs) havoids⟩⟩
  · exact .stop h h

theorem andThen {m : EStateM Stop σ α} {k : α → EStateM Stop σ γ} {k' : α → EStateM Stop σ δ}
    (hm : Uniform m) (hk : ∀ a, Relocates c (k a) (k' a) g) : Relocates c (m >>= k) (m >>= k') g :=
  (of_uniform hm).bind hk

end Relocates

/-! ## Graphs with more tensors -/

/-- The number that a tensor has when additional tensors come before it. Those of the base keep
their numbers. -/
def TensorId.move (base extra : List Tensor) (t : TensorId) : TensorId :=
  if t.index < base.length then t else ⟨t.index + extra.length⟩

theorem TensorId.move_of_lt {base extra : List Tensor} {t : TensorId} (h : t.index < base.length) :
    t.move base extra = t :=
  if_pos h

theorem TensorId.move_injective (base extra : List Tensor) :
    Function.Injective (TensorId.move base extra) := by
  intro t u h
  unfold move at h
  apply TensorId.index_inj.mp
  split at h <;> split at h <;> simp only [← TensorId.index_inj] at h <;> omega

def Graph.Named (g : Graph) : Prop :=
  ∀ name, (g.tensorNamed? name).isSome ↔ ∃ t ∈ g.tensors, t.name = name

theorem Graph.WellFormed.named {g : Graph} (h : g.WellFormed) : g.Named := by
  intro name
  constructor
  · intro hsome
    obtain ⟨id, hid⟩ := Option.isSome_iff_exists.mp hsome
    obtain ⟨t, ht, hname⟩ := (h.indexed name id).mp hid
    exact ⟨t, List.mem_of_getElem? ht, hname⟩
  · rintro ⟨t, ht, hname⟩
    obtain ⟨i, hi⟩ := List.mem_iff_getElem?.mp ht
    exact Option.isSome_iff_exists.mpr ⟨⟨i⟩, (h.indexed name ⟨i⟩).mpr ⟨t, hi, hname⟩⟩

theorem Graph.Named.pushTensor {g : Graph} (h : g.Named) (t : Tensor) : (g.pushTensor t).Named := by
  intro name
  rw [tensorNamed?_pushTensor]
  simp only [Graph.pushTensor, List.mem_append, List.mem_singleton,
    or_and_right, exists_or, exists_eq_left, ← h name]
  by_cases hname : name = t.name
  · simp [hname]
  · simp [hname, Ne.symm hname]

section Sessions

variable (base extra : List Tensor)

def Taken (t : Tensor) : Prop :=
  t.name ∈ extra.map (·.name)

/-- Graphs that have some tensors in common, of which the second one has additional tensors before
the new ones. -/
structure Mirrored (g g' : Graph) (new : List Tensor) : Prop where
  tensors : g.tensors = base ++ new
  tensors' : g'.tensors = base ++ (extra ++ new)
  named : g.Named
  named' : g'.Named
  avoids : ∀ t ∈ new, ¬ Taken extra t

variable {base extra} in
theorem Mirrored.tensor? {g g' : Graph} {new : List Tensor} (h : Mirrored base extra g g' new)
    (t : TensorId) :
    g'.tensor? (t.move base extra) = g.tensor? t := by
  unfold Graph.tensor? TensorId.move
  rw [h.tensors, h.tensors']
  split
  · next hlt => rw [List.getElem?_append_left hlt, List.getElem?_append_left hlt]
  · next hge =>
    have hge' : base.length ≤ t.index := Nat.le_of_not_lt hge
    rw [List.getElem?_append_right hge', List.getElem?_append_right
      (Nat.le_trans hge' (Nat.le_add_right _ _)), List.getElem?_append_right (by omega)]
    congr 1
    omega

def Comparison.sessions : Comparison Session where
  mirrors s s' := ∃ new, Mirrored base extra s.graph s'.graph new
  grows s t := s.graph.tensors <+: t.graph.tensors
  avoids s := ∀ t ∈ s.graph.tensors.drop base.length, ¬ Taken extra t
  refl s := List.prefix_refl _
  trans h h' := h.trans h'
  antitone := by
    rintro s t ⟨later, h⟩ havoids x hx
    refine havoids x ?_
    rw [← h, List.drop_append]
    exact List.mem_append_left _ hx
  avoids_of_mirrors := by
    rintro s t ⟨new, h⟩ x hx
    rw [h.tensors, List.drop_left] at hx
    exact h.avoids x hx

def Comparison.draftings : Comparison Drafting where
  mirrors d d' := (sessions base extra).mirrors d.session d'.session ∧
    d'.owner = d.owner ∧ d'.operands = d.operands ∧
    d'.intermediates = d.intermediates
  grows d e := (sessions base extra).grows d.session e.session
  avoids d := (sessions base extra).avoids d.session
  refl d := (sessions base extra).refl d.session
  trans h h' := (sessions base extra).trans h h'
  antitone h havoids := (sessions base extra).antitone h havoids
  avoids_of_mirrors h := (sessions base extra).avoids_of_mirrors h.1

end Sessions

variable {base extra : List Tensor}

open Comparison (sessions draftings)

/-! ### Single tensors -/

theorem Edit.tensor_relocates (t : TensorId) :
    Relocates (sessions base extra) (do liftGraph ((← Edit.graph).tensor t) : Edit Tensor)
      (do liftGraph ((← Edit.graph).tensor (t.move base extra))) id := by
  have hrun (s : Session) (u : TensorId) : (do liftGraph ((← Edit.graph).tensor u) : Edit Tensor) s =
      (liftGraph (s.graph.tensor u) : Edit Tensor) s := rfl
  have hfound {s : Session} {u : TensorId} {x : Tensor} (h : s.graph.tensor? u = some x) :
      (liftGraph (s.graph.tensor u) : Edit Tensor) s = .ok x s := by
    rw [Graph.tensor_eq_ok.mpr h]
    rfl
  have hmissing {s : Session} {u : TensorId} (h : s.graph.tensor? u = none) :
      Stops (liftGraph (s.graph.tensor u) : Edit Tensor) s := by
    unfold Graph.tensor
    rw [h]
    exact reject_stops _ s
  intro s
  rw [hrun]
  cases hknown : s.graph.tensor? t with
  | some x =>
    rw [hfound hknown]
    refine ⟨List.prefix_refl _,
      fun s' hs => ⟨fun _ => ⟨s', ?_, hs⟩, fun h => absurd (Comparison.avoids_of_mirrors _ hs) h⟩⟩
    obtain ⟨new, hmirrored⟩ := hs
    rw [hrun]
    exact hfound ((hmirrored.tensor? t).trans hknown)
  | none =>
    obtain ⟨e, u, hstop⟩ := hmissing hknown
    rw [hstop]
    rintro s' ⟨new, hmirrored⟩
    exact hmissing ((hmirrored.tensor? t).trans hknown)

theorem Edit.note_relocates (event event' : Event) :
    Relocates (sessions base extra) (note event) (note event') id := by
  intro s
  refine ⟨List.prefix_refl _,
    fun s' hs => ⟨fun _ => ⟨_, rfl, hs⟩, fun h => absurd (Comparison.avoids_of_mirrors _ hs) h⟩⟩

theorem Mirrored.isSome_tensorNamed? {g g' : Graph} {new : List Tensor}
    (h : Mirrored base extra g g' new) (t : Tensor) :
    (g'.tensorNamed? t.name).isSome ↔ (g.tensorNamed? t.name).isSome ∨ Taken extra t := by
  unfold Taken
  rw [h.named, h.named', h.tensors, h.tensors', List.mem_map]
  simp only [List.mem_append, or_and_right, exists_or]
  rw [or_assoc, or_comm (a := ∃ x ∈ extra, _)]

theorem Mirrored.pushTensor {g g' : Graph} {new : List Tensor} (h : Mirrored base extra g g' new)
    {t : Tensor} (hfree : ¬ Taken extra t) :
    Mirrored base extra (g.pushTensor t) (g'.pushTensor t) (new ++ [t]) := by
  refine ⟨?_, ?_, h.named.pushTensor t, h.named'.pushTensor t, ?_⟩
  · simp [Graph.pushTensor, h.tensors]
  · simp [Graph.pushTensor, h.tensors']
  · intro x hx
    rcases List.mem_append.mp hx with hx | hx
    · exact h.avoids x hx
    · rw [List.mem_singleton.mp hx]
      exact hfree

theorem Mirrored.move_next {g g' : Graph} {new : List Tensor} (h : Mirrored base extra g g' new) :
    TensorId.move base extra ⟨g.tensors.length⟩ = ⟨g'.tensors.length⟩ := by
  rw [← TensorId.index_inj, h.tensors, h.tensors']
  unfold TensorId.move
  rw [if_neg (by simp)]
  simp only [List.length_append]
  omega

theorem Edit.addTensor_fresh {s : Session} {t : Tensor} (h : ¬ (s.graph.tensorNamed? t.name).isSome) :
    addTensor t s = .ok ⟨s.graph.tensors.length⟩ ⟨s.graph.pushTensor t, s.events⟩ := by
  show (if (s.graph.tensorNamed? t.name).isSome then reject _ else _ : Edit TensorId) s = _
  rw [if_neg h]
  rfl

theorem Edit.addTensor_taken {s : Session} {t : Tensor} (h : (s.graph.tensorNamed? t.name).isSome) :
    Stops (addTensor t) s := by
  show Stops (if (s.graph.tensorNamed? t.name).isSome then reject _ else _ : Edit TensorId) s
  rw [if_pos h]
  exact reject_stops _ s

theorem Edit.addTensor_relocates (t : Tensor) :
    Relocates (sessions base extra) (addTensor t) (addTensor t) (TensorId.move base extra) := by
  intro s
  by_cases hname : (s.graph.tensorNamed? t.name).isSome
  · obtain ⟨e, u, hstop⟩ := addTensor_taken hname
    rw [hstop]
    rintro s' ⟨new, h⟩
    exact addTensor_taken ((h.isSome_tensorNamed? t).mpr (.inl hname))
  · rw [addTensor_fresh hname]
    refine ⟨List.prefix_append _ _, ?_⟩
    rintro s' ⟨new, h⟩
    constructor
    · intro havoids
      have hfree : ¬ Taken extra t := by
        refine havoids t ?_
        show t ∈ (s.graph.tensors ++ [t]).drop base.length
        rw [h.tensors, List.append_assoc, List.drop_left]
        simp
      have hname' : ¬ (s'.graph.tensorNamed? t.name).isSome := by
        rw [h.isSome_tensorNamed? t, not_or]
        exact ⟨hname, hfree⟩
      rw [h.move_next]
      exact ⟨_, addTensor_fresh hname', new ++ [t], h.pushTensor hfree⟩
    · intro hclash
      -- only the new name can be one that is taken
      refine addTensor_taken ((h.isSome_tensorNamed? t).mpr (.inr ?_))
      by_contra hfree
      have hmirrors : (sessions base extra).mirrors ⟨s.graph.pushTensor t, s.events⟩
          ⟨s'.graph.pushTensor t, s'.events⟩ :=
        ⟨new ++ [t], h.pushTensor hfree⟩
      exact hclash (Comparison.avoids_of_mirrors _ hmirrors)

/-! ### Computations of a draft -/

namespace Draft

theorem lift_relocates {m : Edit α} {m' : Edit β} {f : α → β}
    (h : Relocates (sessions base extra) m m' f) :
    Relocates (draftings base extra) (lift m) (lift m') f := by
  have hok {δ : Type} {n : Edit δ} {d : Drafting} {a : δ} {s : Session} (hrun : n d.session = .ok a s) :
      lift n d = .ok a { d with session := s } := by
    unfold lift
    rw [hrun]
  have herror {δ : Type} {n : Edit δ} {d : Drafting} (hstops : Stops n d.session) :
      Stops (lift n) d := by
    obtain ⟨e, s, hrun⟩ := hstops
    refine ⟨e, { d with session := s }, ?_⟩
    unfold lift
    rw [hrun]
  intro d
  have hd₀ := h d.session
  cases hrun : m d.session with
  | ok a t =>
    rw [hrun] at hd₀
    rw [hok hrun]
    refine ⟨hd₀.1,
      fun d' hd => ⟨fun havoids => ?_, fun hclash => herror ((hd₀.2 d'.session hd.1).2 hclash)⟩⟩
    obtain ⟨t', hrun', ht'⟩ := (hd₀.2 d'.session hd.1).1 havoids
    exact ⟨_, hok hrun', ht', hd.2⟩
  | error e t =>
    rw [hrun] at hd₀
    obtain ⟨_, _, hstop⟩ := herror ⟨e, t, hrun⟩
    rw [hstop]
    exact fun d' hd => herror (hd₀ d'.session hd.1)

theorem run_relocates {m : Draft α} {m' : Draft β} {f : α → β} (owner : String)
    (h : Relocates (draftings base extra) m m' f) :
    Relocates (sessions base extra) (run owner m) (run owner m') f := by
  have hok {δ : Type} {n : Draft δ} {s : Session} {a : δ} {d : Drafting}
      (hrun : n ⟨s, owner, 0, 0⟩ = .ok a d) :
      run owner n s = .ok a d.session := by
    unfold run
    rw [hrun]
  have herror {δ : Type} {n : Draft δ} {s : Session} (hstops : Stops n ⟨s, owner, 0, 0⟩) :
      Stops (run owner n) s := by
    obtain ⟨e, d, hrun⟩ := hstops
    refine ⟨e, d.session, ?_⟩
    unfold run
    rw [hrun]
  intro s
  have hs₀ := h ⟨s, owner, 0, 0⟩
  cases hrun : m ⟨s, owner, 0, 0⟩ with
  | ok a t =>
    rw [hrun] at hs₀
    rw [hok hrun]
    refine ⟨hs₀.1, fun s' hs => ⟨fun havoids => ?_, fun hclash =>
      herror ((hs₀.2 ⟨s', owner, 0, 0⟩ ⟨hs, rfl, rfl, rfl⟩).2 hclash)⟩⟩
    obtain ⟨t', hrun', ht'⟩ := (hs₀.2 ⟨s', owner, 0, 0⟩ ⟨hs, rfl, rfl, rfl⟩).1 havoids
    exact ⟨_, hok hrun', ht'.1⟩
  | error e t =>
    rw [hrun] at hs₀
    obtain ⟨_, _, hstop⟩ := herror ⟨e, t, hrun⟩
    rw [hstop]
    exact fun s' hs => herror (hs₀ ⟨s', owner, 0, 0⟩ ⟨hs, rfl, rfl, rfl⟩)

theorem tensor_relocates (t : TensorId) :
    Relocates (draftings base extra) (tensor t) (tensor (t.move base extra)) id :=
  lift_relocates (Edit.tensor_relocates t)

theorem note_relocates (event event' : Event) :
    Relocates (draftings base extra) (note event) (note event') id :=
  lift_relocates (Edit.note_relocates event event')

theorem owner_relocates : Relocates (draftings base extra) owner owner id := by
  intro d
  refine ⟨List.prefix_refl _,
    fun d' hd => ⟨fun _ => ⟨d', ?_, hd⟩, fun h => absurd (Comparison.avoids_of_mirrors _ hd) h⟩⟩
  show EStateM.Result.ok d'.owner d' = _
  rw [hd.2.1]
  rfl

theorem namedOperand_relocates (name : String) (data : Buffer) (quantization : Option Quantization) :
    Relocates (draftings base extra) (namedOperand name data quantization)
      (namedOperand name data quantization)
      (TensorId.move base extra) :=
  lift_relocates (Edit.addTensor_relocates _)

theorem namedIntermediate_relocates (name : String) (type : TensorType)
    (quantization : Option Quantization) :
    Relocates (draftings base extra) (namedIntermediate name type quantization)
      (namedIntermediate name type quantization)
      (TensorId.move base extra) :=
  lift_relocates (Edit.addTensor_relocates _)

theorem count_relocates (count : Drafting → Drafting) (name : Drafting → String)
    {k : Draft TensorId} {m : String → Draft TensorId} (hk : ∀ d, k d = m (name d) (count d))
    (hcount : ∀ d, (count d).session = d.session)
    (hmirrors : ∀ d d', (draftings base extra).mirrors d d' →
      (draftings base extra).mirrors (count d) (count d') ∧ name d' = name d)
    (hm : ∀ name, Relocates (draftings base extra) (m name) (m name) (TensorId.move base extra)) :
    Relocates (draftings base extra) k k (TensorId.move base extra) := by
  intro d
  have hd₀ := hm (name d) (count d)
  rw [hk d]
  cases hrun : m (name d) (count d) with
  | ok a t =>
    rw [hrun] at hd₀
    refine ⟨?_, fun d' hd => ?_⟩
    · show d.session.graph.tensors <+: _
      rw [← hcount d]
      exact hd₀.1
    · obtain ⟨hd', hname⟩ := hmirrors d d' hd
      have hnext := hd₀.2 (count d') hd'
      unfold Stops at hnext ⊢
      rw [hk d', hname]
      exact hnext
  | error e t =>
    rw [hrun] at hd₀
    intro d' hd
    obtain ⟨hd', hname⟩ := hmirrors d d' hd
    have hnext := hd₀ (count d') hd'
    unfold Stops at hnext ⊢
    rw [hk d', hname]
    exact hnext

theorem operand_relocates (data : Buffer) (quantization : Option Quantization) :
    Relocates (draftings base extra) (operand data quantization) (operand data quantization)
      (TensorId.move base extra) := by
  refine count_relocates (fun d => { d with operands := d.operands + 1 })
    (fun d => generatedName d.owner "attr" d.operands) (fun _ => rfl) (fun _ => rfl) ?_ fun name =>
    namedOperand_relocates name data quantization
  rintro d d' ⟨hsession, howner, hoperands, hintermediates⟩
  exact ⟨⟨hsession, howner, congrArg (· + 1) hoperands, hintermediates⟩, by rw [howner, hoperands]⟩

theorem intermediate_relocates (type : TensorType) (quantization : Option Quantization) :
    Relocates (draftings base extra) (intermediate type quantization) (intermediate type quantization)
      (TensorId.move base extra) := by
  refine count_relocates (fun d => { d with intermediates := d.intermediates + 1 })
    (fun d => generatedName d.owner "transform" d.intermediates) (fun _ => rfl) (fun _ => rfl) ?_
    fun name => namedIntermediate_relocates name type quantization
  rintro d d' ⟨hsession, howner, hoperands, hintermediates⟩
  exact ⟨⟨hsession, howner, hoperands, congrArg (· + 1) hintermediates⟩, by rw [howner, hintermediates]⟩

theorem int32Operand_relocates (values : List Int32) :
    Relocates (draftings base extra) (int32Operand values) (int32Operand values)
      (TensorId.move base extra) :=
  operand_relocates _ _

end Draft

end GraphLowering
