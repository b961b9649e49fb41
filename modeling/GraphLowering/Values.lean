/-!
# Sequences of values

The values of a constant in their order. A constant that has the same value everywhere keeps it once
with the count, so that its length costs nothing. `Values.toList` is what a sequence stands for; the
operations agree with those of lists.
-/

namespace GraphLowering

inductive Values (α : Type) where
  | listed (values : List α)
  /-- The same value at every position. -/
  | uniform (count : Nat) (value : α)
deriving DecidableEq

namespace Values

variable {α : Type}

def toList : Values α → List α
  | listed values => values
  | uniform count value => List.replicate count value

def size : Values α → Nat
  | listed values => values.length
  | uniform count _ => count

def head? : Values α → Option α
  | listed values => values.head?
  | uniform count value => if count = 0 then none else some value

@[simp] theorem length_toList (v : Values α) : v.toList.length = v.size := by
  cases v with
  | listed values => rfl
  | uniform count value => exact List.length_replicate

@[simp] theorem head?_toList (v : Values α) : v.toList.head? = v.head? := by
  cases v with
  | listed values => rfl
  | uniform count value => cases count <;> rfl

end Values

end GraphLowering
