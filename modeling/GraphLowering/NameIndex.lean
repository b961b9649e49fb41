import GraphLowering.Tensor

/-!
# Index of names

A finite map from the names of tensors to their numbers. `NameIndex.find?_insert` and
`NameIndex.find?_erase` say what the operations do to the values.
-/

namespace GraphLowering

/-- The numbers of the tensors that have a name. -/
structure NameIndex where
  entries : List (String × TensorId)
deriving DecidableEq

namespace NameIndex

def empty : NameIndex :=
  ⟨[]⟩

def numberIn? (name : String) : List (String × TensorId) → Option TensorId
  | [] => none
  | (n, id) :: rest => if name = n then some id else numberIn? name rest

def find? (index : NameIndex) (name : String) : Option TensorId :=
  numberIn? name index.entries

def erase (index : NameIndex) (name : String) : NameIndex :=
  ⟨index.entries.filter (·.1 != name)⟩

def insert (index : NameIndex) (name : String) (id : TensorId) : NameIndex :=
  ⟨(name, id) :: (index.erase name).entries⟩

/-! ## The values of an index -/

@[simp] theorem find?_empty (name : String) : empty.find? name = none :=
  rfl

theorem find?_erase (index : NameIndex) (name n : String) :
    (index.erase name).find? n = if n = name then none else index.find? n := by
  obtain ⟨entries⟩ := index
  show numberIn? n (entries.filter (·.1 != name)) = if n = name then none else numberIn? n entries
  induction entries with
  | nil => simp [numberIn?]
  | cons head rest ih =>
    obtain ⟨k, id⟩ := head
    by_cases hk : k = name
    · subst hk
      rw [List.filter_cons_of_neg (by simp), ih]
      by_cases hn : n = k <;> simp [numberIn?, hn]
    · by_cases hn : n = k
      · subst hn
        simp [numberIn?, hk]
      · simp [numberIn?, hk, hn, ih]

theorem find?_insert (index : NameIndex) (name n : String) (id : TensorId) :
    (index.insert name id).find? n = if n = name then some id else index.find? n := by
  show (if n = name then some id else (index.erase name).find? n) = _
  rw [find?_erase]
  by_cases hn : n = name <;> simp [hn]

end NameIndex

end GraphLowering
