import GraphLowering.Proofs.Refusals

/-!
# Names that a draft gives

A draft is asked for tensors one after the other. A request leaves the name of its tensor to the
draft, which has a number for each role, or gives a name. If the name is taken the request is
refused, and the next one goes on from there.

All kinds of request do the same (`Request.draft_eq`), so one lemma says what a request does to a
draft (`Drafting.ask_follows`), and the facts about many requests are inductions over their replies
(`Replies`): how far the numbers are, and which names are registered. A number is used up whatever
comes of its request. So the roles of the requests alone tell which names the draft gives
(`Replies.name?_of_numbered`), and only a request that gives the very name can take one of them
(`Replies.fails_iff`).
-/

namespace GraphLowering

/-! ## Requests -/

inductive Naming where
  /-- The draft does, by the next number of a role. -/
  | numbered (role : String)
  /-- The request does. -/
  | given (name : String)
deriving DecidableEq

inductive Request where
  | operand (data : Buffer) (quantization : Option Quantization)
  | int32Operand (values : List Int32)
  | intermediate (type : TensorType) (quantization : Option Quantization)
  | namedOperand (name : String) (data : Buffer) (quantization : Option Quantization)
  | namedIntermediate (name : String) (type : TensorType) (quantization : Option Quantization)

namespace Request

def draft : Request → Draft TensorId
  | operand data quantization => Draft.operand data quantization
  | int32Operand values => Draft.int32Operand values
  | intermediate type quantization => Draft.intermediate type quantization
  | namedOperand name data quantization => Draft.namedOperand name data quantization
  | namedIntermediate name type quantization => Draft.namedIntermediate name type quantization

def naming : Request → Naming
  | operand .. | int32Operand .. => .numbered "attr"
  | intermediate .. => .numbered "transform"
  | namedOperand name .. | namedIntermediate name .. => .given name

def tensor (name : String) : Request → Tensor
  | operand data quantization | namedOperand _ data quantization => .constant name data quantization
  | int32Operand values => .constant name (.ofInt32s values) none
  | intermediate type quantization | namedIntermediate _ type quantization =>
    .computed name type quantization

theorem name_tensor (request : Request) (name : String) : (request.tensor name).name = name := by
  cases request <;> rfl

theorem role_mem {request : Request} {role : String} (h : request.naming = .numbered role) :
    role ∈ roles := by
  cases request with
  | operand | int32Operand | intermediate =>
    cases h
    decide
  | namedOperand | namedIntermediate => cases h

end Request

/-- A request and what came of it: the number of a tensor, or why there is none. -/
structure Reply where
  request : Request
  answer : Except Stop TensorId

/-- The name that a reply is about: that of the registered tensor, or the one that was taken. -/
def Reply.name? (g : Graph) (reply : Reply) : Option String :=
  match reply.answer with
  | .ok id => (g.tensor? id).map (·.name)
  | .error (.rejected (.graph (.duplicateTensor name))) => some name
  | .error _ => none

namespace Drafting

def ask (d : Drafting) (request : Request) : Reply × Drafting :=
  match request.draft d with
  | .ok id d' => (⟨request, .ok id⟩, d')
  | .error stop d' => (⟨request, .error stop⟩, d')

/-- Makes requests one after the other, whatever comes of them. -/
def askAll : Drafting → List Request → List Reply × Drafting
  | d, [] => ([], d)
  | d, request :: rest =>
    let first := d.ask request
    let later := askAll first.2 rest
    (first.1 :: later.1, later.2)

/-! ## What a request does -/

def nextName (d : Drafting) : Naming → String
  | .numbered role => generatedName d.owner role (d.count role)
  | .given name => name

/-- The draft in which a number has been used up, if it names a tensor. -/
def used (d : Drafting) : Naming → Drafting
  | .numbered role =>
    if role = "attr" then { d with operands := d.operands + 1 }
      else { d with intermediates := d.intermediates + 1 }
  | .given _ => d

end Drafting

/-- All kinds of request use up a number and register a tensor. -/
theorem Request.draft_eq (request : Request) (d : Drafting) :
    request.draft d = Draft.lift (Edit.addTensor (request.tensor (d.nextName request.naming)))
      (d.used request.naming) := by
  cases request <;> rfl

theorem Request.count_used (request : Request) (d : Drafting) {role : String} (hrole : role ∈ roles) :
    (d.used request.naming).count role = d.count role + if request.naming = .numbered role
      then 1 else 0 := by
  simp only [roles, List.mem_cons, List.not_mem_nil, or_false] at hrole
  rcases hrole with rfl | rfl <;> cases request <;> rfl

theorem Edit.addTensor_run (t : Tensor) (s : Session) :
    addTensor t s =
      if (s.graph.tensorNamed? t.name).isSome
        then .error (.rejected (.graph (.duplicateTensor t.name))) s
      else .ok ⟨s.graph.tensors.length⟩ { s with graph := s.graph.pushTensor t } := by
  by_cases htaken : (s.graph.tensorNamed? t.name).isSome
  · rw [if_pos htaken]
    exact (run_bind_ok rfl).trans (congrFun (if_pos htaken) s)
  · rw [if_neg htaken]
    exact (run_bind_ok rfl).trans (congrFun (if_neg htaken) s)

/-- A tensor was to be registered under a name. The name was taken, and the graph is as before, or
it was free, and the graph has a tensor more. -/
def Graph.Responds (g : Graph) (name : String) (answer : Except Stop TensorId) (g' : Graph) : Prop :=
  ((g.tensorNamed? name).isSome ∧ answer = .error (.rejected (.graph (.duplicateTensor name))) ∧
    g' = g) ∨
    (g.tensorNamed? name = none ∧ answer = .ok ⟨g.tensors.length⟩ ∧
      ∃ t, t.name = name ∧ g' = g.pushTensor t)

structure Reply.Follows (d : Drafting) (reply : Reply) (d' : Drafting) : Prop where
  owner : d'.owner = d.owner
  count : ∀ role ∈ roles, d'.count role = d.count role + if reply.request.naming = .numbered role
    then 1 else 0
  outcome : d.session.graph.Responds (d.nextName reply.request.naming) reply.answer d'.session.graph

theorem Drafting.ask_follows (d : Drafting) (request : Request) :
    (d.ask request).1.request = request ∧ (d.ask request).1.Follows d (d.ask request).2 := by
  have hused : (d.used request.naming).session = d.session ∧
      (d.used request.naming).owner = d.owner := by
    cases request <;> exact ⟨rfl, rfl⟩
  unfold ask
  rw [request.draft_eq]
  unfold Draft.lift
  rw [hused.1, Edit.addTensor_run, Request.name_tensor]
  by_cases htaken : (d.session.graph.tensorNamed? (d.nextName request.naming)).isSome
  · rw [if_pos htaken]
    exact ⟨rfl, hused.2, fun role hrole => request.count_used d hrole, .inl ⟨htaken, rfl, rfl⟩⟩
  · rw [if_neg htaken]
    refine ⟨rfl, hused.2,
      fun role hrole => request.count_used d hrole, .inr ⟨?_, rfl, _, request.name_tensor _, rfl⟩⟩
    exact Option.not_isSome_iff_eq_none.mp htaken

namespace Reply.Follows

variable {d d' : Drafting} {reply : Reply} {g : Graph}

theorem before (h : reply.Follows d d') (hg : d'.Before g) : d.Before g := by
  unfold Drafting.Before at hg ⊢
  rcases h.outcome with ⟨_, _, hsame⟩ | ⟨_, _, t, _, hpushed⟩
  · rwa [hsame] at hg
  · rw [hpushed] at hg
    exact (List.prefix_append _ _).trans hg

theorem name? (h : reply.Follows d d') (hg : d'.Before g) :
    reply.name? g = some (d.nextName reply.request.naming) := by
  unfold Reply.name?
  rcases h.outcome with ⟨_, hanswer, _⟩ | ⟨_, hanswer, t, hname, hpushed⟩
  · rw [hanswer]
  · have ht : d'.session.graph.tensor? ⟨d.session.graph.tensors.length⟩ = some t := by
      rw [hpushed, Graph.tensor?_pushTensor, if_pos rfl]
    rw [hanswer]
    show (g.tensor? _).map _ = _
    rw [hg.tensor? ht, Option.map_some, hname]

theorem fails_iff (h : reply.Follows d d') :
    (∃ stop, reply.answer = .error stop) ↔
    (d.session.graph.tensorNamed? (d.nextName reply.request.naming)).isSome := by
  rcases h.outcome with ⟨htaken, hanswer, _⟩ | ⟨hfree, hanswer, _⟩
  · exact iff_of_true ⟨_, hanswer⟩ htaken
  · rw [hanswer, hfree]
    exact iff_of_false (by rintro ⟨_, ⟨⟩⟩) Bool.false_ne_true

theorem registered_iff (h : reply.Follows d d') (name : String) :
    (d'.session.graph.tensorNamed? name).isSome ↔
      (d.session.graph.tensorNamed? name).isSome ∨ (∃ id, reply.answer = .ok id) ∧
      name = d.nextName reply.request.naming := by
  rcases h.outcome with ⟨_, hanswer, hsame⟩ | ⟨_, hanswer, t, hname, hpushed⟩
  · rw [hsame, hanswer]
    exact (or_iff_left (by rintro ⟨⟨_, ⟨⟩⟩, _⟩)).symm
  · rw [hpushed, Graph.tensorNamed?_pushTensor, hname, hanswer]
    by_cases hsame : name = d.nextName reply.request.naming
    · rw [if_pos hsame]
      exact iff_of_true rfl (.inr ⟨⟨_, rfl⟩, hsame⟩)
    · rw [if_neg hsame]
      exact (or_iff_left fun hother => hsame hother.2).symm

end Reply.Follows

/-! ## Requests one after the other -/

inductive Replies : Drafting → List Reply → Drafting → Prop
  | nil {d : Drafting} : Replies d [] d
  | cons {d d₁ d' : Drafting} {reply : Reply} {replies : List Reply}
      (first : reply.Follows d d₁) (later : Replies d₁ replies d') :
      Replies d (reply :: replies) d'

theorem Drafting.askAll_replies (d : Drafting) (requests : List Request) :
    (d.askAll requests).1.map (·.request) = requests ∧
    Replies d (d.askAll requests).1 (d.askAll requests).2 := by
  induction requests generalizing d with
  | nil => exact ⟨rfl, .nil⟩
  | cons request rest ih =>
    obtain ⟨hrequest, hfollows⟩ := d.ask_follows request
    obtain ⟨hrequests, hfollow⟩ := ih (d.ask request).2
    exact ⟨List.cons_eq_cons.mpr ⟨hrequest, hrequests⟩, .cons hfollows hfollow⟩

namespace Replies

variable {d d' : Drafting} {reply : Reply} {replies earlier later : List Reply}
  {g : Graph} {role name : String}

theorem split (h : Replies d (earlier ++ reply :: later) d') :
    ∃ d₁ d₂, Replies d earlier d₁ ∧ reply.Follows d₁ d₂ ∧ Replies d₂ later d' := by
  induction earlier generalizing d with
  | nil =>
    obtain _ | ⟨hfirst, hrest⟩ := h
    exact ⟨d, _, .nil, hfirst, hrest⟩
  | cons other earlier ih =>
    obtain _ | ⟨hfirst, hrest⟩ := h
    obtain ⟨d₁, d₂, hearlier, hreply, hlater⟩ := ih hrest
    exact ⟨d₁, d₂, .cons hfirst hearlier, hreply, hlater⟩

theorem owner (h : Replies d replies d') : d'.owner = d.owner := by
  induction h with
  | nil => rfl
  | cons hfirst _ ih => exact ih.trans hfirst.owner

theorem before (h : Replies d replies d') (hg : d'.Before g) : d.Before g := by
  induction h with
  | nil => exact hg
  | cons hfirst _ ih => exact hfirst.before (ih hg)

/-- Each request that leaves the name to the draft uses up a number of its role, whatever comes of
it. -/
theorem count (h : Replies d replies d') (hrole : role ∈ roles) :
    d'.count role = d.count role + replies.countP (·.request.naming = .numbered role) := by
  induction h with
  | nil => rfl
  | cons hfirst _ ih =>
    simp only [ih, hfirst.count role hrole, List.countP_cons, decide_eq_true_eq]
    omega

theorem registered_iff (h : Replies d replies d') (hg : d'.Before g) (name : String) :
    (d'.session.graph.tensorNamed? name).isSome ↔
      (d.session.graph.tensorNamed? name).isSome ∨
      ∃ reply ∈ replies, (∃ id, reply.answer = .ok id) ∧ reply.name? g = some name := by
  induction h with
  | nil => simp
  | cons hfirst hrest ih =>
    rw [ih hg, hfirst.registered_iff, List.exists_mem_cons_iff,
      hfirst.name? (hrest.before hg), Option.some.injEq, or_assoc, eq_comm (a := name)]

theorem name?_of_numbered (h : Replies d (earlier ++ reply :: later) d') (hg : d'.Before g)
    (hnumbered : reply.request.naming = .numbered role) :
    reply.name? g = some (generatedName d.owner role
      (d.count role + earlier.countP (·.request.naming = .numbered role))) := by
  obtain ⟨d₁, d₂, hearlier, hreply, hlater⟩ := h.split
  rw [hreply.name? (hlater.before hg), hnumbered, Drafting.nextName,
    hearlier.owner, hearlier.count (Request.role_mem hnumbered)]

theorem name?_of_given (h : Replies d (earlier ++ reply :: later) d') (hg : d'.Before g)
    (hgiven : reply.request.naming = .given name) :
    reply.name? g = some name := by
  obtain ⟨d₁, d₂, _, hreply, hlater⟩ := h.split
  rw [hreply.name? (hlater.before hg), hgiven, Drafting.nextName]

/-- No number is used twice, and numbers of different roles make different names. -/
theorem distinct (h : Replies d replies d') (hg : d'.Before g) :
    replies.Pairwise fun x y =>
      ∀ role role', x.request.naming = .numbered role → y.request.naming = .numbered role' →
      x.name? g ≠ y.name? g := by
  induction h with
  | nil => exact .nil
  | @cons d d₁ d' first replies hfirst hrest ih =>
    refine .cons (fun other hother role role' hrole hrole' hsame => ?_) (ih hg)
    obtain ⟨earlier, later, rfl⟩ := List.append_of_mem hother
    rw [hfirst.name? (hrest.before hg), hrest.name?_of_numbered hg hrole',
      hrole, Option.some.injEq, hfirst.owner] at hsame
    have hmem := Request.role_mem hrole
    -- of one role, the number of the first request is used up when the other one is made
    obtain ⟨rfl, hnumber⟩ :=
      generatedName_inj (underscore_not_mem_role hmem)
        (underscore_not_mem_role (Request.role_mem hrole')) hsame
    rw [hfirst.count role hmem, if_pos hrole] at hnumber
    omega

/-- The name that a draft gives is taken only by what was there before the draft, and by a request
that gives this name. -/
theorem fails_iff (h : Replies d (earlier ++ reply :: later) d') (hg : d'.Before g)
    (hnumbered : reply.request.naming = .numbered role) (hname : reply.name? g = some name) :
    (∃ stop, reply.answer = .error stop) ↔ (d.session.graph.tensorNamed? name).isSome ∨
      ∃ other ∈ earlier, other.request.naming = .given name ∧ ∃ id, other.answer = .ok id := by
  have hdistinct := (List.pairwise_append.mp (h.distinct hg)).2.2
  obtain ⟨d₁, d₂, hearlier, hreply, hlater⟩ := h.split
  have hg₁ : d₁.Before g := hreply.before (hlater.before hg)
  obtain rfl : d₁.nextName reply.request.naming = name :=
    Option.some.inj ((hreply.name? (hlater.before hg)).symm.trans hname)
  rw [hreply.fails_iff, hearlier.registered_iff hg₁]
  refine or_congr_right (exists_congr fun other => and_congr_right fun hother => ?_)
  rw [and_comm]
  refine and_congr_left fun _ => ?_
  obtain ⟨earlier₁, earlier₂, rfl⟩ := List.append_of_mem hother
  cases hnaming : other.request.naming with
  | numbered role' =>
    -- a request that leaves the name to the draft gets another one
    refine iff_of_false (fun hsame => ?_) Naming.noConfusion
    exact hdistinct other hother reply List.mem_cons_self role' role hnaming hnumbered
      (hsame.trans hname.symm)
  | given name' => rw [hearlier.name?_of_given hg₁ hnaming, Option.some.injEq, Naming.given.injEq]

end Replies

/-- The names that a draft gives to tensors are all different, and none of them is a name that the
lifting of a convolution gives. The number in such a name is that of the earlier requests of its
role, whatever other requests there are and whatever comes of them. So such a request fails if and
only if its name was registered before the draft, or by a request that gave this name. -/
theorem Drafting.generated_names {s : Session} {owner : String} {requests : List Request}
    {replies : List Reply} {d : Drafting}
    (h : (Drafting.mk s owner 0 0).askAll requests = (replies, d)) :
    replies.map (·.request) = requests ∧
      (replies.Pairwise fun x y =>
        ∀ role role', x.request.naming = .numbered role → y.request.naming = .numbered role' →
        x.name? d.session.graph ≠ y.name? d.session.graph) ∧
      ∀ earlier x later role, replies = earlier ++ x :: later → x.request.naming = .numbered role →
        ∃ name, x.name? d.session.graph = some name ∧
          name = generatedName owner role (earlier.countP (·.request.naming = .numbered role)) ∧
          (∀ tensor, name ≠ owner ++ "_" ++ tensor ++ "_4d_input") ∧ name ≠ owner ++ "_4d_output" ∧
          ((∃ stop, x.answer = .error stop) ↔ (s.graph.tensorNamed? name).isSome ∨
            ∃ y ∈ earlier, y.request.naming = .given name ∧ ∃ id, y.answer = .ok id) := by
  obtain ⟨hrequests, hfollow⟩ := (Drafting.mk s owner 0 0).askAll_replies requests
  rw [h] at hrequests hfollow
  have hg := Before.refl d
  have hzero (role : String) : (Drafting.mk s owner 0 0).count role = 0 := ite_self 0
  refine ⟨hrequests, hfollow.distinct hg, ?_⟩
  rintro earlier x later role rfl hrole
  have hname := hfollow.name?_of_numbered hg hrole
  rw [hzero, Nat.zero_add] at hname
  have hmem := Request.role_mem hrole
  exact ⟨_, hname, rfl, fun tensor => Lift.explicit_operandName owner tensor role hmem _,
    Lift.explicit_outputName owner role hmem _, hfollow.fails_iff hg hrole hname⟩

/-- Five requests in a draft whose owner has a name like those that are given. The second one gives
a name that the draft comes to. -/
def fiveRequests : List Request :=
  [.int32Operand [1], .namedIntermediate "y_attr_transform" ⟨.f32, ⟨[1]⟩⟩ none,
    .intermediate ⟨.f32, ⟨[1]⟩⟩ none,
    .operand (.ofFloats []) none, .intermediate ⟨.f32, ⟨[1]⟩⟩ none]

/-- A draft in which the second name of an operand has been registered before. -/
def crowdedDraft : Drafting :=
  ⟨⟨Graph.empty.pushTensor (.computed "y_attr_attr_1" ⟨.f32, ⟨[1]⟩⟩ none), []⟩, "y_attr", 0, 0⟩

/-- The third request comes too late for its name, and the fourth one finds its name registered. The
fifth one has the next number after the third one, although that one failed. -/
theorem Drafting.generated_names_crowded :
    ∃ replies d a b c x y, crowdedDraft.askAll fiveRequests = (replies, d) ∧ replies = [a, b, c, x, y] ∧
      (c.name? d.session.graph = some "y_attr_transform" ∧ ∃ stop, c.answer = .error stop) ∧
      (x.name? d.session.graph = some "y_attr_attr_1" ∧ ∃ stop, x.answer = .error stop) ∧
      y.name? d.session.graph = some "y_attr_transform_1" ∧ ¬ ∃ stop, y.answer = .error stop := by
  have hsecond : ((crowdedDraft.askAll fiveRequests).1[1]?.bind (·.answer.toOption)).isSome := by
    decide +kernel
  obtain ⟨replies, d, hrun⟩ : ∃ replies d, crowdedDraft.askAll fiveRequests = (replies, d) :=
    ⟨_, _, rfl⟩
  rw [hrun] at hsecond
  obtain ⟨hrequests, _, hnames⟩ := generated_names hrun
  obtain ⟨⟨_, a⟩, _, rfl, rfl, h₁⟩ := List.map_eq_cons_iff.mp hrequests
  obtain ⟨⟨_, b⟩, _, rfl, rfl, h₂⟩ := List.map_eq_cons_iff.mp h₁
  obtain ⟨⟨_, c⟩, _, rfl, rfl, h₃⟩ := List.map_eq_cons_iff.mp h₂
  obtain ⟨⟨_, x⟩, _, rfl, rfl, h₄⟩ := List.map_eq_cons_iff.mp h₃
  obtain ⟨⟨_, y⟩, _, rfl, rfl, h₅⟩ := List.map_eq_cons_iff.mp h₄
  obtain rfl := List.map_eq_nil_iff.mp h₅
  obtain ⟨_, hcName, hcText, _, _, hcFails⟩ := hnames [_, _] _ _ "transform" rfl rfl
  obtain ⟨_, hxName, hxText, _, _, hxFails⟩ := hnames [_, _, _] _ _ "attr" rfl rfl
  obtain ⟨_, hyName, hyText, _, _, hyFails⟩ := hnames [_, _, _, _] _ _ "transform" rfl rfl
  obtain rfl :=
    hcText.trans (show generatedName "y_attr" "transform" 0 = "y_attr_transform" by decide +kernel)
  obtain rfl := hxText.trans (show generatedName "y_attr" "attr" 1 = "y_attr_attr_1" by decide +kernel)
  obtain rfl :=
    hyText.trans (show generatedName "y_attr" "transform" 1 = "y_attr_transform_1" by decide +kernel)
  refine ⟨_, d, _, _, _, _, _, hrun, rfl, ⟨hcName, hcFails.mpr (.inr ?_)⟩,
    ⟨hxName, hxFails.mpr (.inl (by decide +kernel))⟩, hyName, ?_⟩
  · cases b with
    | ok id => exact ⟨_, List.mem_cons_of_mem _ List.mem_cons_self, rfl, id, rfl⟩
    | error stop => cases hsecond
  · rw [hyFails, not_or]
    refine ⟨by decide +kernel, ?_⟩
    simp [Request.naming]

end GraphLowering
