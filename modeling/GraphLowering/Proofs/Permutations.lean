import GraphLowering.Quantization
import Mathlib.Data.List.GetD
import Mathlib.Data.List.Nodup
import Mathlib.Data.List.Perm.Subperm

/-!
# The algebra of permuted axes

A list is accepted by a loop that marks the axes it meets in a table and stops at the first that is
marked already. As the table holds the axes met so far, the loop accepts what names each axis once
(`isPermutation_iff`), and as many different axes as there are leave none out
(`IsPermutation.iff_perm`).

A shape is permuted by looking up the old axis of each new one, and a quantized axis by searching
for its new place. Both are actions of the permutations: to permute twice is to permute by the
composition (`Shape.permuted?_bind_permuted?`, `Quantization.permuted_permuted`), and the axes in
their order change nothing. So all that has to be known of an inverse is that it composes to the
axes in their order.

The inverse is written into a table, entry by entry. The table holds the places of the axes that
have been seen (`getElem?_foldl_set`), which in the end are all of them (`IsPermutation.inverse`).
-/

namespace GraphLowering

variable {perm other : List Nat} {rank axis i : Nat}

theorem map_range_getD (values : List Nat) (default : Nat) :
    (List.range values.length).map (values.getD · default) = values := by
  refine List.ext_getElem (by rw [List.length_map, List.length_range]) fun i hi hi' => ?_
  rw [List.getElem_map, List.getElem_range, List.getD_eq_getElem _ _ hi']

/-! ## The acceptance loop -/

theorem getD_set_true_eq_false {seen : List Bool} {p q : Nat} (hp : p < seen.length) :
    (seen.set p true).getD q false = false ↔ q ≠ p ∧ seen.getD q false = false := by
  simp only [List.getD_eq_getElem?_getD]
  by_cases hsame : p = q
  · subst hsame
    simp [List.getElem?_set_self hp]
  · rw [List.getElem?_set_ne hsame]
    simp [Ne.symm hsame]

/-- From any table, the loop runs to its end over axes that are not marked and differ from each
other. -/
theorem namesUnseen_iff {seen : List Bool} (hlength : seen.length = rank) :
    namesUnseen rank perm seen = true ↔
    (∀ p ∈ perm, p < rank ∧ seen.getD p false = false) ∧ perm.Nodup := by
  induction perm generalizing seen with
  | nil => simp [namesUnseen]
  | cons p rest ih =>
    unfold namesUnseen
    rw [List.forall_mem_cons, List.nodup_cons]
    by_cases hnew : p < rank ∧ seen.getD p false = false
    · have hgoes : ¬ (p ≥ rank ∨ seen.getD p false = true) := by
        rintro (hp | hp)
        · exact Nat.not_lt.mpr hp hnew.1
        · exact Bool.false_ne_true (hnew.2.symm.trans hp)
      -- the mark of `p` keeps the rest of the loop from meeting it again
      have hmarked (q : Nat) := getD_set_true_eq_false (q := q) (hlength.symm ▸ hnew.1)
      rw [if_neg hgoes, ih (by rw [List.length_set, hlength])]
      simp only [hmarked]
      constructor
      · rintro ⟨hrest, hnodup⟩
        exact ⟨⟨hnew, fun q hq => ⟨(hrest q hq).1, (hrest q hq).2.2⟩⟩,
          fun hp => (hrest p hp).2.1 rfl, hnodup⟩
      · rintro ⟨⟨_, hrest⟩, hp, hnodup⟩
        exact ⟨fun q hq => ⟨(hrest q hq).1, fun hsame => hp (hsame ▸ hq), (hrest q hq).2⟩, hnodup⟩
    · have hstops : p ≥ rank ∨ seen.getD p false = true := by
        by_contra hgoes
        exact hnew ⟨Nat.not_le.mp (mt .inl hgoes), Bool.eq_false_iff.mpr (mt .inr hgoes)⟩
      rw [if_pos hstops]
      exact iff_of_false Bool.false_ne_true fun hall => hnew hall.1.1

theorem isPermutation_iff : isPermutation perm rank = true ↔ IsPermutation perm rank := by
  unfold isPermutation IsPermutation
  by_cases hlength : perm.length = rank
  · rw [if_neg (not_not_intro hlength), namesUnseen_iff List.length_replicate]
    simp only [List.getD_eq_getElem?_getD, List.getElem?_getD_replicate_default_eq,
      and_true, hlength, true_and]
  · rw [if_pos hlength]
    exact iff_of_false Bool.false_ne_true fun h => hlength h.1

namespace IsPermutation

/-! ## Places of axes -/

theorem iff_perm : IsPermutation perm rank ↔ perm.Perm (List.range rank) := by
  constructor
  · rintro ⟨hlength, hrange, hnodup⟩
    have hsubset : perm ⊆ List.range rank := fun k hk => List.mem_range.mpr (hrange k hk)
    -- as many different axes as there are cannot leave one out
    exact (hnodup.subperm hsubset).perm_of_length_le (Nat.le_of_eq (by rw [List.length_range, hlength]))
  · intro hperm
    refine ⟨by rw [hperm.length_eq, List.length_range],
      fun k hk => ?_, hperm.nodup_iff.mpr List.nodup_range⟩
    exact List.mem_range.mp (hperm.mem_iff.mp hk)

theorem mem_iff (h : IsPermutation perm rank) : axis ∈ perm ↔ axis < rank :=
  (iff_perm.mp h).mem_iff.trans List.mem_range

theorem mem (h : IsPermutation perm rank) (haxis : axis < rank) : axis ∈ perm :=
  h.mem_iff.mpr haxis

theorem idxOf_lt (h : IsPermutation perm rank) (haxis : axis < rank) : perm.idxOf axis < rank :=
  h.1 ▸ List.idxOf_lt_length_of_mem (h.mem haxis)

theorem getD_lt (h : IsPermutation perm rank) (hi : i < rank) : perm.getD i 0 < rank := by
  have hlength : i < perm.length := h.1.symm ▸ hi
  rw [List.getD_eq_getElem _ _ hlength]
  exact h.2.1 _ (List.getElem_mem hlength)

theorem getD_idxOf (h : IsPermutation perm rank) (haxis : axis < rank) :
    perm.getD (perm.idxOf axis) 0 = axis := by
  have hplace := List.idxOf_lt_length_of_mem (h.mem haxis)
  rw [List.getD_eq_getElem _ _ hplace]
  exact List.getElem_idxOf hplace

theorem idxOf_getD (h : IsPermutation perm rank) (hi : i < rank) : perm.idxOf (perm.getD i 0) = i := by
  have hlength : i < perm.length := h.1.symm ▸ hi
  rw [List.getD_eq_getElem _ _ hlength]
  exact h.2.2.idxOf_getElem i hlength

theorem idxOf_eq_iff (h : IsPermutation perm rank) (haxis : axis < rank) (hi : i < rank) :
    perm.idxOf axis = i ↔ perm.getD i 0 = axis := by
  constructor
  · rintro rfl
    exact h.getD_idxOf haxis
  · rintro rfl
    exact h.idxOf_getD hi

theorem getD_idxOf? (h : IsPermutation perm rank) (haxis : axis < rank) :
    (perm.idxOf? axis).getD axis = perm.idxOf axis := by
  rw [List.idxOf_eq_getD_idxOf?]
  cases hplace : perm.idxOf? axis with
  | none => exact absurd (h.mem haxis) (List.idxOf?_eq_none_iff.mp hplace)
  | some place => rfl

theorem getD_idxOf?_of_le (h : IsPermutation perm rank) (haxis : rank ≤ axis) :
    (perm.idxOf? axis).getD axis = axis := by
  have hnone : perm.idxOf? axis = none :=
    List.idxOf?_eq_none_iff.mpr fun hmem => Nat.not_lt.mpr haxis (h.mem_iff.mp hmem)
  rw [hnone, Option.getD_none]

end IsPermutation

/-! ## Composition -/

/-- The permutation that leads where first one and then another permutation lead. -/
def composePermutations (first second : List Nat) : List Nat :=
  second.map (first.getD · 0)

namespace IsPermutation

theorem identity (rank : Nat) : IsPermutation (List.range rank) rank :=
  iff_perm.mpr (List.Perm.refl _)

theorem length_compose (hother : IsPermutation other rank) :
    (composePermutations perm other).length = rank := by
  rw [composePermutations, List.length_map, hother.1]

theorem getD_compose (hother : IsPermutation other rank) (hi : i < rank) :
    (composePermutations perm other).getD i 0 = perm.getD (other.getD i 0) 0 := by
  have hlength : i < other.length := hother.1.symm ▸ hi
  rw [composePermutations, List.getD_eq_getElem _ _ (by rwa [List.length_map]),
    List.getElem_map, List.getD_eq_getElem other _ hlength]

/-- Compositions are permutations: an axis is found where the second permutation has the place that
it has in the first. -/
theorem compose (h : IsPermutation perm rank) (hother : IsPermutation other rank) :
    IsPermutation (composePermutations perm other) rank := by
  refine ⟨length_compose hother, fun k hk => ?_, hother.2.2.map_on fun a ha b hb hab => ?_⟩
  · obtain ⟨i, hi, rfl⟩ := List.mem_map.mp hk
    exact h.getD_lt (hother.2.1 i hi)
  · rw [← h.idxOf_getD (hother.2.1 a ha), hab, h.idxOf_getD (hother.2.1 b hb)]

theorem idxOf_compose (h : IsPermutation perm rank) (hother : IsPermutation other rank)
    (haxis : axis < rank) :
    (composePermutations perm other).idxOf axis = other.idxOf (perm.idxOf axis) := by
  have hplace := h.idxOf_lt haxis
  rw [(h.compose hother).idxOf_eq_iff haxis (hother.idxOf_lt hplace),
    getD_compose hother (hother.idxOf_lt hplace), hother.getD_idxOf hplace, h.getD_idxOf haxis]

end IsPermutation

/-! ## The inverse -/

/-- Of a table into which the places of different axes are written, counted from some number on, an
entry is the place of its axis if that was among them, and otherwise what it was before. -/
theorem getElem?_foldl_set {axes : List Nat} (hnodup : axes.Nodup) (start : Nat)
    (table : List Nat) (axis : Nat) :
    ((axes.zipIdx start).foldl (fun table entry => table.set entry.1 entry.2) table)[axis]? =
      if axis ∈ axes ∧ axis < table.length then some (axes.idxOf axis + start) else table[axis]? := by
  induction axes generalizing start table with
  | nil => simp
  | cons first rest ih =>
    obtain ⟨hfirst, hrest⟩ := List.nodup_cons.mp hnodup
    rw [List.zipIdx_cons, List.foldl_cons, ih hrest, List.length_set]
    by_cases hsame : axis = first
    · subst hsame
      -- no later entry writes at this place again
      rw [if_neg fun hmem => hfirst hmem.1, List.getElem?_set_self', List.idxOf_cons_self]
      by_cases hlt : axis < table.length
      · simp [hlt]
      · simp [hlt]
    · have hne : first ≠ axis := Ne.symm hsame
      rw [List.getElem?_set_ne hne, List.idxOf_cons_ne _ hne]
      simp only [List.mem_cons, hsame, false_or, Nat.succ_add_eq_add_succ]

theorem IsPermutation.inverse (h : IsPermutation perm rank) :
    inversePermutation? perm = some ((List.range rank).map perm.idxOf) := by
  unfold inversePermutation?
  rw [if_pos (List.all_eq_true.mpr fun p hp => decide_eq_true (h.1.symm ▸ h.2.1 p hp)), h.1]
  refine congrArg some (List.ext_getElem? fun axis => ?_)
  refine (getElem?_foldl_set h.2.2 0 (List.replicate rank 0) axis).trans ?_
  rw [List.length_replicate, List.getElem?_map]
  by_cases haxis : axis < rank
  · rw [if_pos ⟨h.mem haxis, haxis⟩, List.getElem?_range haxis, Option.map_some, Nat.add_zero]
  · have hrange : (List.range rank)[axis]? = none :=
      List.getElem?_eq_none (by rw [List.length_range]; omega)
    rw [if_neg fun hmem => haxis hmem.2, hrange,
      List.getElem?_eq_none (by rw [List.length_replicate]; omega), Option.map_none]

namespace IsPermutation

theorem getD_inverse (haxis : axis < rank) :
    ((List.range rank).map perm.idxOf).getD axis 0 = perm.idxOf axis := by
  rw [List.getD_eq_getElem?_getD, List.getElem?_map, List.getElem?_range haxis,
    Option.map_some, Option.getD_some]

theorem inverse_isPermutation (h : IsPermutation perm rank) :
    IsPermutation ((List.range rank).map perm.idxOf) rank := by
  refine ⟨by rw [List.length_map, List.length_range],
    fun k hk => ?_, List.nodup_range.map_on fun a ha b hb hab => ?_⟩
  · obtain ⟨axis, haxis, rfl⟩ := List.mem_map.mp hk
    exact h.idxOf_lt (List.mem_range.mp haxis)
  · rw [← h.getD_idxOf (List.mem_range.mp ha), hab, h.getD_idxOf (List.mem_range.mp hb)]

theorem compose_inverse (h : IsPermutation perm rank) :
    composePermutations perm ((List.range rank).map perm.idxOf) = List.range rank := by
  rw [composePermutations, List.map_map]
  refine (List.map_congr_left fun axis haxis => ?_).trans (List.map_id _)
  exact h.getD_idxOf (List.mem_range.mp haxis)

theorem inverse_inverse (h : IsPermutation perm rank) :
    inversePermutation? ((List.range rank).map perm.idxOf) = some perm := by
  have hentries : (List.range rank).map (perm.getD · 0) = perm := h.1 ▸ map_range_getD perm 0
  rw [h.inverse_isPermutation.inverse]
  refine congrArg some (.trans (List.map_congr_left fun i hi => ?_) hentries)
  have hi := List.mem_range.mp hi
  rw [h.inverse_isPermutation.idxOf_eq_iff hi (h.getD_lt hi),
    getD_inverse (h.getD_lt hi), h.idxOf_getD hi]

end IsPermutation

/-! ## Shapes -/

namespace Shape

variable {s : Shape}

theorem permuted?_eq_some (h : IsPermutation perm s.rank) :
    s.permuted? perm = some ⟨perm.map (s.dims.getD · 0)⟩ :=
  if_pos (isPermutation_iff.mpr h)

theorem permuted?_isSome_iff : (s.permuted? perm).isSome ↔ IsPermutation perm s.rank := by
  rw [← isPermutation_iff]
  unfold permuted?
  split
  · exact iff_of_true rfl ‹_›
  · exact iff_of_false Bool.false_ne_true ‹_›

theorem permuted?_identity : s.permuted? (List.range s.rank) = some s := by
  rw [permuted?_eq_some (.identity _)]
  exact congrArg (some ∘ Shape.mk) (map_range_getD s.dims 0)

theorem permuted?_bind_permuted? (h : IsPermutation perm s.rank) (hother : IsPermutation other s.rank) :
    (s.permuted? perm).bind (·.permuted? other) = s.permuted? (composePermutations perm other) := by
  have hrank : (⟨perm.map (s.dims.getD · 0)⟩ : Shape).rank = s.rank := by
    rw [rank, List.length_map, h.1]
  rw [permuted?_eq_some h, Option.bind_some, permuted?_eq_some (hrank.symm ▸ hother),
    permuted?_eq_some (h.compose hother), composePermutations, List.map_map]
  refine congrArg (some ∘ Shape.mk) (List.map_congr_left fun i hi => ?_)
  have hlength : i < perm.length := h.1.symm ▸ hother.2.1 i hi
  rw [List.getD_eq_getElem _ _ (by rwa [List.length_map]), List.getElem_map,
    Function.comp_apply, List.getD_eq_getElem perm _ hlength]

theorem dim?_permuted {s' : Shape} (h : s.permuted? perm = some s') (haxis : axis < s.rank) :
    s'.dim? (perm.idxOf axis) = s.dim? axis := by
  have hperm := permuted?_isSome_iff.mp (Option.isSome_of_eq_some h)
  have hplace := List.idxOf_lt_length_of_mem (hperm.mem haxis)
  rw [permuted?_eq_some hperm] at h
  cases h
  rw [dim?, dim?, List.getElem?_map, List.getElem?_eq_getElem hplace, Option.map_some,
    List.getElem_idxOf hplace, List.getD_eq_getElem _ _ haxis, List.getElem?_eq_getElem haxis]

end Shape

/-! ## Quantization -/

namespace Quantization

variable (q : Quantization)

theorem permuted_identity (rank : Nat) : q.permuted (List.range rank) = q := by
  have hstays (axis : Nat) : ((List.range rank).idxOf? axis).getD axis = axis := by
    by_cases haxis : axis < rank
    · rw [(IsPermutation.identity rank).getD_idxOf? haxis,
        (IsPermutation.identity rank).idxOf_eq_iff haxis haxis,
        List.getD_eq_getElem _ _ (by rwa [List.length_range]), List.getElem_range]
    · exact (IsPermutation.identity rank).getD_idxOf?_of_le (Nat.not_lt.mp haxis)
  unfold permuted
  simp only [hstays, Option.map_id']

theorem permuted_permuted (h : IsPermutation perm rank) (hother : IsPermutation other rank) :
    (q.permuted perm).permuted other = q.permuted (composePermutations perm other) := by
  unfold permuted
  simp only [Option.map_map, Function.comp_def]
  refine congrArg (Quantization.mk _ _) (Option.map_congr fun axis _ => ?_)
  by_cases haxis : axis < rank
  · rw [h.getD_idxOf? haxis, hother.getD_idxOf? (h.idxOf_lt haxis),
      (h.compose hother).getD_idxOf? haxis, h.idxOf_compose hother haxis]
  · have haxis := Nat.not_lt.mp haxis
    rw [h.getD_idxOf?_of_le haxis, hother.getD_idxOf?_of_le haxis,
      (h.compose hother).getD_idxOf?_of_le haxis]

end Quantization

/-- The axes of a shape can be permuted by what the loop accepts, which are their rearrangements and
nothing else. A permutation has an inverse, whose inverse it is, and which undoes it on shapes and
quantization parameters. Permuting both twice is permuting them by the composition. The size along
the quantized axis stays the same. -/
theorem permutations_act_on_axes (s : Shape) (q : Quantization) (perm : List Nat) :
    ((s.permuted? perm).isSome ↔ isPermutation perm s.rank) ∧
      (isPermutation perm s.rank ↔ perm.Perm (List.range s.rank)) ∧
      (isPermutation perm s.rank →
        (∃ inverse, inversePermutation? perm = some inverse ∧ isPermutation inverse s.rank ∧
          inversePermutation? inverse = some perm ∧
          (s.permuted? perm).bind (·.permuted? inverse) = some s ∧
            (q.permuted perm).permuted inverse = q) ∧
        (∀ other, isPermutation other s.rank → isPermutation (other.map (perm.getD · 0)) s.rank ∧
          (s.permuted? perm).bind (·.permuted? other) = s.permuted? (other.map (perm.getD · 0)) ∧
          (q.permuted perm).permuted other = q.permuted (other.map (perm.getD · 0))) ∧
        ∀ axis ∈ q.axis, axis < s.rank → ∃ place ∈ (q.permuted perm).axis, ∃ size,
          s.dim? axis = some size ∧ (s.permuted? perm).bind (·.dim? place) = some size) := by
  simp only [isPermutation_iff]
  refine ⟨Shape.permuted?_isSome_iff, IsPermutation.iff_perm,
    fun h => ⟨?_, fun other hother => ?_, fun axis haxis hlt => ?_⟩⟩
  · refine ⟨_, h.inverse, h.inverse_isPermutation, h.inverse_inverse, ?_, ?_⟩
    · rw [Shape.permuted?_bind_permuted? h h.inverse_isPermutation,
        h.compose_inverse, Shape.permuted?_identity]
    · rw [q.permuted_permuted h h.inverse_isPermutation, h.compose_inverse, q.permuted_identity]
  · exact ⟨h.compose hother, Shape.permuted?_bind_permuted? h hother, q.permuted_permuted h hother⟩
  · have hplace : (q.permuted perm).axis = some (perm.idxOf axis) := by
      unfold Quantization.permuted
      rw [haxis, Option.map_some, h.getD_idxOf? hlt]
    have hdim : s.dim? axis = some s.dims[axis] := List.getElem?_eq_getElem hlt
    refine ⟨_, hplace, _, hdim, ?_⟩
    rw [Shape.permuted?_eq_some h, Option.bind_some,
      Shape.dim?_permuted (Shape.permuted?_eq_some h) hlt, hdim]

/-- An image goes into the channel-last layout and out of it, or its axes are permuted once more
there. The parameters go along with its five channels. A list that meets an axis twice permutes
nothing. -/
theorem permutations_act_on_axes_of_image :
    isPermutation [0, 2, 3, 1] 4 ∧ isPermutation [1, 2, 3, 0] 4 ∧
      ((⟨[1, 5, 7, 9]⟩ : Shape).permuted? [0, 2, 3, 1]).bind (·.permuted? [0, 3, 1, 2]) =
        some ⟨[1, 5, 7, 9]⟩ ∧
      ((⟨[1, 5, 7, 9]⟩ : Shape).permuted? [0, 2, 3, 1]).bind (·.permuted? [1, 2, 3, 0]) =
        some ⟨[7, 9, 5, 1]⟩ ∧
      ((Quantization.perAxis [] [] 1).permuted [0, 2, 3, 1]).permuted [1, 2, 3, 0] = .perAxis [] [] 2 ∧
      ((⟨[1, 5, 7, 9]⟩ : Shape).permuted? [0, 2, 3, 1]).bind (·.dim? 3) = some 5 ∧
      ¬ ((⟨[1, 5, 7, 9]⟩ : Shape).permuted? [0, 2, 3, 2]).isSome := by
  have hlast : isPermutation [0, 2, 3, 1] 4 := by decide
  have hrotated : isPermutation [1, 2, 3, 0] 4 := by decide
  have hrepeated : ¬ isPermutation [0, 2, 3, 2] 4 := by decide
  obtain ⟨_, _, hlaws⟩ := permutations_act_on_axes ⟨[1, 5, 7, 9]⟩ (.perAxis [] [] 1) [0, 2, 3, 1]
  obtain ⟨⟨inverse, hinverse, _, _, hundone, _⟩, hcompose, haxis⟩ := hlaws hlast
  obtain rfl : inverse = [0, 3, 1, 2] := Option.some.inj (hinverse.symm.trans rfl)
  obtain ⟨_, hshape, hquantization⟩ := hcompose _ hrotated
  obtain ⟨place, hplace, size, hsize, hmoved⟩ := haxis 1 rfl (by decide)
  cases hplace
  cases hsize
  have hrefused :=
    mt (permutations_act_on_axes ⟨[1, 5, 7, 9]⟩ (.perAxis [] [] 1) [0, 2, 3, 2]).1.mp hrepeated
  exact ⟨hlast, hrotated, hundone, hshape.trans rfl, hquantization.trans rfl, hmoved, hrefused⟩

end GraphLowering
