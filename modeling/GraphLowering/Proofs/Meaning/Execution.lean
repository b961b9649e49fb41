import GraphLowering.Proofs.Meaning.Value
import GraphLowering.Proofs.Replacement
import GraphLowering.Proofs.Supply

/-!
# Running the operators of a graph

A store has a value for each tensor. An operator reads the values of its operands and puts a value
into its result, if the sizes are those that the graph declares for the result. Permutations,
paddings and shapes are no ring elements: they are read from the buffers of their operands.
-/

namespace GraphLowering

universe u

/-- The ring elements that the elements of buffers stand for. -/
structure Reading (R : Type u) [CommRing R] where
  float : Float32 → R
  int32 : Int32 → R
  int64 : Int64 → R
  int8 : Int8 → R
  uint8 : UInt8 → R
  float_zero : float 0 = 0
  int32_zero : int32 0 = 0

/-- The value of every tensor. -/
abbrev Store (R : Type u) := TensorId → Value R

namespace Reading

variable {R : Type u} [CommRing R]

def elements (reading : Reading R) : Elements → List R
  | .f32 values => values.toList.map reading.float
  | .i32 values => values.toList.map reading.int32
  | .i64 values => values.toList.map reading.int64
  | .i8 values => values.toList.map reading.int8
  | .u8 values => values.toList.map reading.uint8

def constant (reading : Reading R) (dims : List Nat) (elements : Elements) : Value R :=
  ⟨dims, fun index => (reading.elements elements).getD (offset dims index) 0⟩

theorem constant_flat (reading : Reading R) {dims : List Nat} (elements : Elements) {k : Nat}
    (h : k < dims.prod) :
    (reading.constant dims elements).flat k = (reading.elements elements).getD k 0 := by
  show (reading.elements elements).getD (offset dims (indexAt dims k)) 0 = _
  rw [offset_indexAt h]

theorem getD_repeatFirst? (reading : Reading R) {elements copies : Elements} {n k : Nat}
    (h : elements.repeatFirst? n = some copies) (hk : k < n) :
    (reading.elements copies).getD k 0 = (reading.elements elements).getD 0 0 := by
  have hrepeated {α : Type} (f : α → R) {values : Values α} {x : α} (hx : values.head? = some x) :
      (((Values.uniform n x).toList).map f).getD k 0 = (values.toList.map f).getD 0 0 := by
    rw [← Values.head?_toList, List.head?_eq_getElem?] at hx
    rw [List.getD_eq_getElem?_getD, List.getD_eq_getElem?_getD,
      List.getElem?_map, List.getElem?_map, hx, Values.toList, List.getElem?_replicate_of_lt hk]
  cases elements with
  | f32 values | i32 values | i64 values | i8 values | u8 values =>
    obtain ⟨x, hx, rfl⟩ := Option.map_eq_some_iff.mp h
    exact hrepeated _ hx

theorem getD_zeros (reading : Reading R) {elements : Elements} {n k : Nat}
    (h : elements = .f32 (.uniform n 0) ∨ elements = .i32 (.uniform n 0)) (hk : k < n) :
    (reading.elements elements).getD k 0 = 0 := by
  rcases h with rfl | rfl
  · show ((List.replicate n (0 : Float32)).map reading.float).getD k 0 = 0
    rw [List.map_replicate, reading.float_zero, List.getD_eq_getElem?_getD,
      List.getElem?_replicate_of_lt hk, Option.getD_some]
  · show ((List.replicate n (0 : Int32)).map reading.int32).getD k 0 = 0
    rw [List.map_replicate, reading.int32_zero, List.getD_eq_getElem?_getD,
      List.getElem?_replicate_of_lt hk, Option.getD_some]

end Reading

/-- A number that an operand holds, if it is not negative. -/
def ofInt32? (x : Int32) : Option Nat :=
  if 0 ≤ x.toInt then some x.toInt.toNat else none

def pairs : List Nat → List (Nat × Nat)
  | a :: b :: rest => (a, b) :: pairs rest
  | _ => []

theorem ofInt32?_of_toInt32? {n : Nat} {x : Int32} (h : toInt32? n = some x) : ofInt32? x = some n := by
  unfold toInt32? maxInt32 at h
  split at h
  · next hle =>
    cases h
    have hint : (Int32.ofNat n).toInt = n := Int32.toInt_ofNat_of_lt (by omega)
    unfold ofInt32?
    rw [hint, if_pos (Int.natCast_nonneg n), Int.toNat_natCast]
  · cases h

theorem mapM_ofInt32? {sizes : List Nat} {xs : List Int32} (h : sizes.mapM toInt32? = some xs) :
    xs.mapM ofInt32? = some sizes := by
  induction sizes generalizing xs with
  | nil =>
    cases h
    rfl
  | cons n rest ih =>
    rw [List.mapM_cons] at h
    obtain ⟨x, hx, h⟩ := Option.bind_eq_some_iff.mp h
    obtain ⟨ys, hys, h⟩ := Option.bind_eq_some_iff.mp h
    cases h
    rw [List.mapM_cons, ofInt32?_of_toInt32? hx, ih hys]
    rfl

theorem le_of_toInt32? {n : Nat} {x : Int32} (h : toInt32? n = some x) : n ≤ maxInt32 := by
  unfold toInt32? at h
  split at h
  · assumption
  · cases h

theorem le_of_mapM_toInt32? {sizes : List Nat} {xs : List Int32} (h : sizes.mapM toInt32? = some xs) :
    ∀ n ∈ sizes, n ≤ maxInt32 := by
  induction sizes generalizing xs with
  | nil => simp
  | cons n rest ih =>
    rw [List.mapM_cons] at h
    obtain ⟨x, hx, h⟩ := Option.bind_eq_some_iff.mp h
    obtain ⟨ys, hys, _⟩ := Option.bind_eq_some_iff.mp h
    exact List.forall_mem_cons.mpr ⟨le_of_toInt32? hx, ih hys⟩

namespace Graph

variable {R : Type u} [CommRing R]

/-- The store before anything is run. Tensors with a buffer have its contents, others any entries,
of the declared sizes. -/
def store (g : Graph) (reading : Reading R) (entries : TensorId → List Nat → R) : Store R := fun id =>
  match g.tensor? id with
  | none => ⟨[], entries id⟩
  | some t =>
    match t.data with
    | none => ⟨t.shape.dims, entries id⟩
    | some data => reading.constant t.shape.dims data.elements

theorem store_constant {g : Graph} {reading : Reading R} {entries : TensorId → List Nat → R}
    {id : TensorId} {t : Tensor} {data : Buffer} (ht : g.tensor? id = some t)
    (hdata : t.data = some data) :
    g.store reading entries id = reading.constant t.shape.dims data.elements := by
  unfold store
  simp only [ht, hdata]

theorem store_dims {g : Graph} {reading : Reading R} {entries : TensorId → List Nat → R}
    {id : TensorId} {t : Tensor} (ht : g.tensor? id = some t) :
    (g.store reading entries id).dims = t.shape.dims := by
  unfold store
  simp only [ht]
  cases t.data with
  | none => rfl
  | some data => rfl

def Typed (g : Graph) (store : Store R) : Prop :=
  ∀ id t, g.tensor? id = some t → (store id).dims = t.shape.dims

theorem store_typed (g : Graph) (reading : Reading R) (entries : TensorId → List Nat → R) :
    g.Typed (g.store reading entries) :=
  fun _ _ ht => store_dims ht

def sizes? (g : Graph) (id : TensorId) : Option (List Nat) :=
  (g.tensor? id).bind fun t =>
    t.data.bind fun data => data.int32s?.bind fun values => values.toList.mapM ofInt32?

end Graph

namespace Operator

variable {R : Type u} [CommRing R]

def result? (op : Operator) (g : Graph) (activate : Activation → R → R) (store : Store R) :
    Option (Value R) :=
  match op.kind, op.inputs with
  | .transpose, [x, perm] => (g.sizes? perm).bind fun perm => (store x).transpose perm
  | .pad, [x, paddings] => (g.sizes? paddings).bind fun paddings => (store x).pad (pairs paddings)
  | .reshape newShape, [x, shape] =>
    (g.sizes? shape).bind fun dims =>
      if newShape.mapM ofInt32? = some dims then (store x).reshape dims else none
  | .conv2d ⟨.valid, stride⟩ dilation activation, [x, filter, bias] =>
    (store x).conv2d stride dilation (activate activation) (store filter) (store bias)
  | .depthwiseConv2d ⟨.valid, stride⟩ dilation multiplier activation, [x, filter, bias] =>
    (store x).depthwiseConv2d stride dilation multiplier (activate activation)
      (store filter) (store bias)
  | .transposeConv ⟨.valid, stride⟩, [shape, filter, x] =>
    (g.sizes? shape).bind fun dims => (store x).transposeConv stride dims (store filter)
  | .slice, [x, begin, size] =>
    (g.sizes? begin).bind fun begin => (g.sizes? size).bind fun size => (store x).slice begin size
  | .add activation, [x, y] => (store x).add (activate activation) (store y)
  | _, _ => none

/-- Puts the value into the result, which has to be of the declared sizes. -/
def run (op : Operator) (g : Graph) (activate : Activation → R → R) (store : Store R) :
    Option (Store R) :=
  match op.outputs with
  | [y] => (op.result? g activate store).bind fun v =>
    if (g.tensor? y).map (·.shape.dims) = some v.dims then some (Function.update store y v) else none
  | _ => none

end Operator

namespace Graph

variable {R : Type u} [CommRing R] {g : Graph} {activate : Activation → R → R} {store store' : Store R}

/-- Takes a step for the operator of each of some nodes, one after the other. -/
def stepNodes {σ : Type u} (g : Graph) (step : Operator → σ → Option σ) (ids : List NodeId)
    (state : σ) : Option σ :=
  ids.foldlM (fun state id => (g.node? id).bind fun node =>
    match node.kind with
    | .operator op => step op state
    | _ => none) state

def runChain (g : Graph) (activate : Activation → R → R) (chain : List Operator) (store : Store R) :
    Option (Store R) :=
  chain.foldlM (fun store op => op.run g activate store) store

def runNodes (g : Graph) (activate : Activation → R → R) (ids : List NodeId) (store : Store R) :
    Option (Store R) :=
  g.stepNodes (fun op store => op.run g activate store) ids store

/-! ## Steps -/

theorem stepNodes_eq_foldlM {σ : Type u} {step : Operator → σ → Option σ} {ids : List NodeId}
    {chain : List Operator}
    (h : List.Forall₂ (fun id op => ∃ node, g.node? id = some node ∧ node.kind = .operator op)
      ids chain)
    (state : σ) :
    g.stepNodes step ids state = chain.foldlM (fun state op => step op state) state := by
  induction h generalizing state with
  | nil => rfl
  | cons hnode _ ih =>
    obtain ⟨node, hnode, hkind⟩ := hnode
    unfold stepNodes at ih ⊢
    rw [List.foldlM_cons, List.foldlM_cons, hnode, Option.bind_some, hkind]
    exact congrArg _ (funext ih)

theorem runNodes_eq_runChain {ids : List NodeId} {chain : List Operator}
    (h : List.Forall₂ (fun id op => ∃ node, g.node? id = some node ∧ node.kind = .operator op)
      ids chain) :
    g.runNodes activate ids store = g.runChain activate chain store :=
  stepNodes_eq_foldlM h store

theorem runChain_nil (store : Store R) : g.runChain activate [] store = some store :=
  rfl

theorem runChain_append {before after : List Operator} {store₁ store₂ : Store R}
    (hbefore : g.runChain activate before store = some store₁)
    (hafter : g.runChain activate after store₁ = some store₂) :
    g.runChain activate (before ++ after) store = some store₂ := by
  unfold runChain at hbefore hafter ⊢
  rw [List.foldlM_append, hbefore]
  exact hafter

theorem runChain_cons {op : Operator} {chain : List Operator}
    (h : op.run g activate store = some store') :
    g.runChain activate (op :: chain) store = g.runChain activate chain store' := by
  unfold runChain
  rw [List.foldlM_cons, h]
  rfl

theorem run_frame {op : Operator} {t : TensorId} (h : op.run g activate store = some store')
    (ht : t ∉ op.outputs) :
    store' t = store t := by
  unfold Operator.run at h
  split at h
  · next y hy =>
    obtain ⟨v, _, h⟩ := Option.bind_eq_some_iff.mp h
    split at h
    · cases h
      rw [hy, List.mem_singleton] at ht
      exact Function.update_of_ne ht _ _
    · cases h
  · cases h

theorem runChain_frame {chain : List Operator} {t : TensorId}
    (h : g.runChain activate chain store = some store') (ht : t ∉ chain.flatMap (·.outputs)) :
    store' t = store t := by
  induction chain generalizing store with
  | nil =>
    cases h
    rfl
  | cons op rest ih =>
    rw [List.flatMap_cons, List.mem_append, not_or] at ht
    unfold runChain at h
    rw [List.foldlM_cons] at h
    obtain ⟨store₁, hop, hrest⟩ := Option.bind_eq_some_iff.mp h
    rw [ih hrest ht.2, run_frame hop ht.1]

theorem run_typed {op : Operator} (h : op.run g activate store = some store')
    (htyped : g.Typed store) : g.Typed store' := by
  intro id t ht
  unfold Operator.run at h
  split at h
  · next y hy =>
    obtain ⟨v, _, h⟩ := Option.bind_eq_some_iff.mp h
    split at h
    · next hdims =>
      cases h
      by_cases hid : id = y
      · subst hid
        rw [ht, Option.map_some] at hdims
        rw [Function.update_self]
        exact (Option.some.inj hdims).symm
      · rw [Function.update_of_ne hid]
        exact htyped id t ht
    · cases h
  · cases h

theorem runChain_typed {chain : List Operator} (h : g.runChain activate chain store = some store')
    (htyped : g.Typed store) :
    g.Typed store' := by
  induction chain generalizing store with
  | nil =>
    cases h
    exact htyped
  | cons op rest ih =>
    unfold runChain at h
    rw [List.foldlM_cons] at h
    obtain ⟨store₁, hop, hrest⟩ := Option.bind_eq_some_iff.mp h
    exact ih hrest (run_typed hop htyped)

theorem run_of_result {op : Operator} {y : TensorId} {t : Tensor} {v : Value R}
    (houtputs : op.outputs = [y]) (hresult : op.result? g activate store = some v)
    (hy : g.tensor? y = some t) (hdims : t.shape.dims = v.dims) :
    op.run g activate store = some (Function.update store y v) := by
  unfold Operator.run
  simp only [houtputs, hresult, Option.bind_some, hy, Option.map_some, hdims, if_true]

/-! ## Operators that a constant tells how to move entries -/

section Moves

variable {first : Nat} {op : Operator} {source result : TensorId} {t : Tensor} {v : Value R}

theorem Operand.sizes? {id : TensorId} {dims sizes : List Nat} {xs : List Int32}
    (h : g.Operand first id ⟨⟨dims⟩, .i32 (.listed xs)⟩) (hxs : xs.mapM ofInt32? = some sizes) :
    g.sizes? id = some sizes := by
  obtain ⟨name, quantization, _, ht⟩ := h
  unfold Graph.sizes?
  rw [ht]
  exact hxs

theorem Moves.transposes {perm : List Nat}
    (h : g.Moves first .transpose (Layout.permutationBuffer perm) source result op)
    (activate : Activation → R → R) (store : Store R)
    (hperm : (perm.map Int32.ofNat).mapM ofInt32? = some perm)
    (hv : (store source).transpose perm = some v) (ht : g.tensor? result = some t)
    (hdims : t.shape.dims = v.dims) :
    op.run g activate store = some (Function.update store result v) := by
  obtain ⟨p, hp, rfl⟩ := h
  refine run_of_result rfl ?_ ht hdims
  show (g.sizes? p).bind (fun perm => (store source).transpose perm) = some v
  rw [hp.sizes? hperm]
  exact hv

theorem Moves.pads {dims sizes : List Nat} {xs : List Int32}
    (h : g.Moves first .pad ⟨⟨dims⟩, .i32 (.listed xs)⟩ source result op)
    (activate : Activation → R → R) (store : Store R) (hxs : xs.mapM ofInt32? = some sizes)
    (hv : (store source).pad (pairs sizes) = some v) (ht : g.tensor? result = some t)
    (hdims : t.shape.dims = v.dims) :
    op.run g activate store = some (Function.update store result v) := by
  obtain ⟨p, hp, rfl⟩ := h
  refine run_of_result rfl ?_ ht hdims
  show (g.sizes? p).bind (fun paddings => (store source).pad (pairs paddings)) = some v
  rw [hp.sizes? hxs]
  exact hv

theorem run_reshape {shape : Shape} (h : Lift.Reshapes g first shape source result op)
    (activate : Activation → R → R) (store : Store R)
    (hv : (store source).reshape shape.dims = some v) (ht : g.tensor? result = some t)
    (hdims : t.shape.dims = v.dims) :
    op.run g activate store = some (Function.update store result v) := by
  obtain ⟨xs, hxs, p, hp, rfl⟩ := h
  have hsizes := mapM_ofInt32? hxs
  refine run_of_result rfl ?_ ht hdims
  show (g.sizes? p).bind
    (fun dims => if xs.mapM ofInt32? = some dims then (store source).reshape dims else none) = some v
  rw [hp.sizes? hsizes, Option.bind_some, if_pos hsizes]
  exact hv

theorem Operand.vector {id : TensorId} {elements : Elements}
    (h : g.Operand first id (.vector elements)) (reading : Reading R)
    (entries : TensorId → List Nat → R) :
    (g.store reading entries id).dims.prod = elements.size ∧
      ∀ k < elements.size,
        (g.store reading entries id).flat k = (reading.elements elements).getD k 0 := by
  obtain ⟨name, quantization, _, ht⟩ := h
  rw [store_constant ht rfl]
  have hprod : [elements.size].prod = elements.size := List.prod_singleton
  refine ⟨hprod, fun k hk => ?_⟩
  have hlt : k < [elements.size].prod := by
    rw [hprod]
    exact hk
  exact reading.constant_flat elements hlt

end Moves

/-! ## The chain that took the place of a composite -/

theorem WellFormed.nodup_outputs {ids : List NodeId} {chain : List Operator} (hwf : g.WellFormed)
    (hnodes : List.Forall₂ (fun id op => ∃ node, g.node? id = some node ∧ node.kind = .operator op)
      ids chain)
    (hids : ids.Pairwise fun a b => a.index < b.index)
    (hsingle : ∀ op ∈ chain, op.outputs.length = 1) :
    (chain.flatMap (·.outputs)).Nodup := by
  have hclaimed : ∀ {id : NodeId} {op : Operator} {t : TensorId}, t ∈ op.outputs →
      (∃ node, g.node? id = some node ∧ node.kind = .operator op) →
      g.producers.get? t.index = some id := by
    rintro id op t ht ⟨node, hnode, hkind⟩
    refine hwf.claimed id node hnode t ?_
    rw [hkind]
    exact ht
  induction hnodes with
  | nil => exact List.nodup_nil
  | @cons id op ids chain hnode hrest ih =>
    obtain ⟨hfirst, hids⟩ := List.pairwise_cons.mp hids
    rw [List.flatMap_cons]
    obtain ⟨y, hy⟩ := List.length_eq_one_iff.mp (hsingle op List.mem_cons_self)
    rw [hy, List.singleton_append, List.nodup_cons]
    refine ⟨fun hmem => ?_, ih hids fun op hop => hsingle op (List.mem_cons_of_mem _ hop)⟩
    -- a tensor that a later operator also produces would be recorded for both nodes
    obtain ⟨op', hop', ht⟩ := List.mem_flatMap.mp hmem
    obtain ⟨i, hi, rfl⟩ := List.mem_iff_getElem.mp hop'
    have hlength := hrest.length_eq
    have hlater := (List.forall₂_iff_get.mp hrest).2 i (by omega) hi
    have hsame := hclaimed ht hlater
    rw [hclaimed (hy ▸ List.mem_singleton_self y) hnode] at hsame
    have hlt := hfirst _ (List.get_mem ids ⟨i, by omega⟩)
    rw [← Option.some.inj hsame] at hlt
    exact Nat.lt_irrefl _ hlt

theorem Replaces.operators {g' : Graph} {d : Detachment} {chain : List Operator}
    {ids : List NodeId} (h : g.Replaces d chain ids g') :
    g.tensors <+: g'.tensors ∧ ids.Pairwise (fun a b => a.index < b.index) ∧
      List.Forall₂ (fun id op => ∃ node, g'.node? id = some node ∧ node.kind = .operator op)
        ids chain := by
  obtain ⟨emitted, hemits, hlinked, _⟩ := h
  refine ⟨hemits.grown.tensors_extend.trans hlinked.grows.tensors_extend,
    hemits.ascending.1, hemits.nodes.imp ?_⟩
  rintro id op ⟨name, hnode, _⟩
  exact ⟨_, (hlinked.node? id).trans hnode, rfl⟩

theorem Lowers.operators {g' : Graph} {id : NodeId} {ids : List NodeId} {node : Node}
    {op : Composite} (h : g.Lowers id ids g') (hnode : g.node? id = some node)
    (hkind : node.kind = .composite op) :
    ∃ chain, op.Drafts g' g.tensors.length chain ∧ ids.Pairwise (fun a b => a.index < b.index) ∧
      List.Forall₂ (fun id op => ∃ node, g'.node? id = some node ∧ node.kind = .operator op)
        ids chain := by
  obtain ⟨node', op', hnode', hkind', _, draft, chain, _, hdrafts, hreplaces⟩ := h
  rw [hnode] at hnode'
  cases hnode'
  rw [hkind] at hkind'
  cases hkind'
  obtain ⟨hextends, hids, hnodes⟩ := hreplaces.operators
  exact ⟨chain, hdrafts g' hextends, hids, hnodes⟩

theorem Lowers.nodup_outputs {g' : Graph} {id : NodeId} {ids ids' : List NodeId}
    {chain : List Operator} (h : g.Lowers id ids g') (hwf : g.WellFormed)
    (hnodes : List.Forall₂ (fun id op => ∃ node, g'.node? id = some node ∧ node.kind = .operator op)
      ids' chain)
    (hids : ids'.Pairwise fun a b => a.index < b.index)
    (hsingle : ∀ op ∈ chain, op.outputs.length = 1) :
    (chain.flatMap (·.outputs)).Nodup := by
  obtain ⟨_, _, _, _, hgrows, _⟩ := h
  exact (hgrows.wellFormed (hwf.eraseNode id)).nodup_outputs hnodes hids hsingle

theorem Lowers.chain {g' : Graph} {id : NodeId} {ids : List NodeId} {node : Node} {op : Composite}
    (h : g.Lowers id ids g') (hwf : g.WellFormed) (hnode : g.node? id = some node)
    (hkind : node.kind = .composite op) :
    ∃ chain, op.Drafts g' g.tensors.length chain ∧ (chain.flatMap (·.outputs)).Nodup ∧
      g.tensors <+: g'.tensors ∧
      ∀ (activate : Activation → R → R) (store : Store R),
        g'.runNodes activate ids store = g'.runChain activate chain store := by
  obtain ⟨chain, hdrafts, hids, hnodes⟩ := h.operators hnode hkind
  exact ⟨chain, hdrafts, h.nodup_outputs hwf hnodes hids hdrafts.supplied.single, h.tensors_extend,
    fun _ _ => runNodes_eq_runChain hnodes⟩

end Graph

end GraphLowering
