import GraphLowering.Lowering.Lift
import Mathlib.Data.List.TakeWhile

/-!
# Names of drafted tensors

All names that a draft gives begin with the name of the owner and an underscore. Numbered names of
different roles or numbers differ, also if the owner itself ends like one, and none of them is a
name that the lifting of a convolution gives.
-/

namespace GraphLowering

def numberSuffix : Nat → List Char
  | 0 => []
  | n + 1 => '_' :: (n + 1).repr.toList

theorem toList_repr (n : Nat) : n.repr.toList = Nat.toDigits 10 n := by
  rw [Nat.repr_eq_ofList_toDigits, String.toList_ofList]

theorem numberSuffix_inj {m n : Nat} (h : numberSuffix m = numberSuffix n) : m = n := by
  match m, n with
  | 0, 0 => rfl
  | 0, n + 1 => cases h
  | m + 1, 0 => cases h
  | m + 1, n + 1 =>
    have hdigits := (List.cons.inj h).2
    rw [toList_repr, toList_repr] at hdigits
    have hnumbers := congrArg (fun digits => Nat.ofDigitChars 10 digits 0) hdigits
    simpa [Nat.ofDigitChars_toDigits] using hnumbers

theorem toList_generatedName (owner role : String) (n : Nat) :
    (generatedName owner role n).toList = owner.toList ++ '_' :: (role.toList ++ numberSuffix n) := by
  cases n with
  | zero => simp [generatedName, numberSuffix]
  | succ n => simp [generatedName, numberSuffix]

/-- A role ends where the first underscore stands. -/
theorem takeWhile_numbered {role : List Char} (h : '_' ∉ role) (n : Nat) :
    (role ++ numberSuffix n).takeWhile (· ≠ '_') = role := by
  have hrole : ∀ c ∈ role, decide (c ≠ '_') = true := by
    intro c hc
    rw [decide_eq_true_eq]
    rintro rfl
    exact h hc
  rw [List.takeWhile_append_of_pos hrole]
  cases n with
  | zero => simp [numberSuffix]
  | succ n => simp [numberSuffix]

theorem generatedName_inj {owner role role' : String} {m n : Nat} (hrole : '_' ∉ role.toList)
    (hrole' : '_' ∉ role'.toList) (h : generatedName owner role m = generatedName owner role' n) :
    role = role' ∧ m = n := by
  have hlists := congrArg String.toList h
  rw [toList_generatedName, toList_generatedName] at hlists
  have htails := (List.cons.inj (List.append_cancel_left hlists)).2
  have hroles := congrArg (List.takeWhile (· ≠ '_')) htails
  rw [takeWhile_numbered hrole, takeWhile_numbered hrole'] at hroles
  rw [hroles] at htails
  exact ⟨String.toList_injective hroles, numberSuffix_inj (List.append_cancel_left htails)⟩

theorem getLast?_generatedName {owner role : String} {n : Nat} {c : Char}
    (h : (generatedName owner role n).toList.getLast? = some c) :
    ('_' :: role.toList).getLast? = some c ∨ c.isDigit := by
  rw [toList_generatedName, List.getLast?_append] at h
  cases n with
  | zero =>
    left
    simpa [numberSuffix, List.getLast?_cons] using h
  | succ n =>
    right
    have hlast : (Nat.toDigits 10 (n + 1)).getLast? = some c := by
      rw [List.getLast?_eq_some_getLast Nat.toDigits_ne_nil]
      simpa [numberSuffix, toList_repr, List.getLast?_cons, List.getLast?_append,
        List.getLast?_eq_some_getLast (Nat.toDigits_ne_nil (n := n + 1) (b := 10))] using h
    exact Nat.isDigit_of_mem_toDigits (by decide) (by decide) (List.mem_of_getLast? hlast)

def roles : List String := ["attr", "transform"]

theorem underscore_not_mem_role {role : String} (h : role ∈ roles) : '_' ∉ role.toList := by
  have hroles : ∀ role ∈ roles, '_' ∉ role.toList := by decide
  exact hroles role h

/-- A name that no numbered name of the owner is. -/
def Explicit (owner name : String) : Prop :=
  ∀ role ∈ roles, ∀ n, generatedName owner role n ≠ name

theorem Explicit.of_getLast? {owner name : String} (h : name.toList.getLast? = some 't') :
    Explicit owner name := by
  rintro role hrole n rfl
  have hlast := getLast?_generatedName h
  have hroles : ∀ role ∈ roles, ¬ (('_' :: role.toList).getLast? = some 't' ∨ 't'.isDigit) := by decide
  exact hroles role hrole hlast

namespace Lift

theorem explicit_operandName (owner tensor : String) : Explicit owner (operandName owner tensor) := by
  apply Explicit.of_getLast?
  simp only [operandName, String.toList_append, List.getLast?_append]
  rfl

theorem explicit_outputName (owner : String) : Explicit owner (outputName owner) := by
  apply Explicit.of_getLast?
  simp only [outputName, String.toList_append, List.getLast?_append]
  rfl

end Lift

/-! ## Owners -/

/-- The name begins with that of an owner and an underscore. -/
def Owned (owner name : String) : Prop :=
  ∃ rest, name = owner ++ "_" ++ rest

theorem Owned.begins {owner name : String} (h : Owned owner name) :
    (owner ++ "_").toList <+: name.toList := by
  obtain ⟨rest, rfl⟩ := h
  exact ⟨rest.toList, String.toList_append.symm⟩

theorem owned_generatedName (owner role : String) (n : Nat) :
    Owned owner (generatedName owner role n) := by
  cases n with
  | zero => exact ⟨role, rfl⟩
  | succ n => exact ⟨role ++ "_" ++ (n + 1).repr, by simp only [generatedName, String.append_assoc]⟩

theorem not_owned {owner name : String} (h : ¬ (owner ++ "_").toList <+: name.toList) :
    ¬ Owned owner name :=
  fun howned => h howned.begins

theorem Lift.owned_operandName (owner tensor : String) : Owned owner (operandName owner tensor) :=
  ⟨tensor ++ "_4d_input", by simp only [operandName, String.append_assoc]⟩

theorem Lift.owned_outputName (owner : String) : Owned owner (outputName owner) := by
  refine ⟨"4d_output", ?_⟩
  rw [String.append_assoc]
  rfl

/-! ## The names of lifted operands -/

namespace Lift

def raisedNames (owner input weight : String) : List String :=
  [operandName owner input, operandName owner weight, outputName owner]

theorem owned_raisedNames (owner input weight : String) :
    ∀ name ∈ raisedNames owner input weight, Owned owner name ∧ Explicit owner name := by
  unfold raisedNames
  simp only [List.forall_mem_cons]
  exact ⟨⟨owned_operandName _ _, explicit_operandName _ _⟩,
    ⟨owned_operandName _ _, explicit_operandName _ _⟩, ⟨owned_outputName _, explicit_outputName _⟩,
    List.forall_mem_nil _⟩

theorem operandName_inj {owner a b : String} (h : operandName owner a = operandName owner b) :
    a = b := by
  have hlists := congrArg String.toList h
  simp only [operandName, String.toList_append] at hlists
  exact String.toList_injective (List.append_cancel_left (List.append_cancel_right hlists))

theorem operandName_ne_outputName (owner a : String) : operandName owner a ≠ outputName owner := by
  intro h
  have hlists := congrArg String.toList h
  have hinput : (operandName owner a).toList = (owner ++ "_" ++ a ++ "_4d_").toList ++
      "input".toList := by
    simp [operandName]
  have houtput : (outputName owner).toList = (owner ++ "_4d_o").toList ++ "utput".toList := by
    simp [outputName]
  rw [hinput, houtput] at hlists
  exact absurd (List.append_inj_right' hlists rfl) (by decide)

theorem nodup_raisedNames (owner : String) {input weight : String} (h : input ≠ weight) :
    (raisedNames owner input weight).Nodup := by
  unfold raisedNames
  simp only [List.nodup_cons, List.mem_cons, List.not_mem_nil,
    or_false, not_or, not_false_eq_true, List.nodup_nil, and_true]
  exact ⟨⟨fun hsame => h (operandName_inj hsame), operandName_ne_outputName _ _⟩,
    operandName_ne_outputName _ _⟩

end Lift

end GraphLowering
