/-!
# Permutations of axes

A permutation of the axes `0, …, rank - 1` is the list of the axes in their new order: the new axis
`i` is the old axis `perm[i]`.
-/

namespace GraphLowering

/-- Whether a list names axes that are not marked in a table yet, each of them once. An axis is
marked when it is met. -/
def namesUnseen (rank : Nat) : List Nat → List Bool → Bool
  | [], _ => true
  | p :: rest, seen =>
    if p ≥ rank ∨ seen.getD p false = true then false else namesUnseen rank rest (seen.set p true)

/-- Whether a list has one entry for each axis and meets no axis twice. -/
def isPermutation (perm : List Nat) (rank : Nat) : Bool :=
  if perm.length ≠ rank then false else namesUnseen rank perm (List.replicate rank false)

/-- The list names each of `0, …, rank - 1` exactly once. -/
def IsPermutation (perm : List Nat) (rank : Nat) : Prop :=
  perm.length = rank ∧ (∀ p ∈ perm, p < rank) ∧ perm.Nodup

instance (perm : List Nat) (rank : Nat) : Decidable (IsPermutation perm rank) :=
  inferInstanceAs (Decidable (_ ∧ _ ∧ _))

/-- The list that has `i` at position `perm[i]`, or `none` if an entry of `perm` is no position of
the list. Of two entries that name one position the later counts, and a position that no entry names
holds `0`. -/
def inversePermutation? (perm : List Nat) : Option (List Nat) :=
  if perm.all (· < perm.length) then
    some (perm.zipIdx.foldl (fun inverse (p, i) => inverse.set p i) (List.replicate perm.length 0))
  else
    none

end GraphLowering
