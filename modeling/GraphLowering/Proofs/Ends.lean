import GraphLowering.Edit
import Mathlib.Logic.Relation

/-!
# How a computation ends

A computation on a state ends with a value or stops, and what it did before it stops stays done.
`Ends R m s post` speaks about both ends at once: started in `s`, the computation `m` leads along
the relation `R` wherever it ends, and if it ends with a value, the value and the last state satisfy
`post`.

For a preorder `R` there is one rule for each way to put computations together (`Ends.pure`,
`Ends.bind`, `Ends.ite`), so that every function of the library needs one lemma: what it returns.
That it never leaves `R` comes with it. A computation that only looks at the state ends along
equality, and what it found out holds when the next one starts (`Ends.andThen`).
-/

namespace GraphLowering

variable {ε σ α β : Type}

/-- Wherever `m` ends when it is started in `s`, it has gone along `R`; a value it returns satisfies
`post`. -/
def Ends (R : σ → σ → Prop) (m : EStateM ε σ α) (s : σ) (post : α → σ → Prop) : Prop :=
  match m s with
  | .ok a s' => R s s' ∧ post a s'
  | .error _ s' => R s s'

namespace Ends

variable {R : σ → σ → Prop} {m : EStateM ε σ α} {f : α → EStateM ε σ β} {s s' : σ}
  {P Q : α → σ → Prop} {post : β → σ → Prop}

/-! ## Reading off -/

theorem of_ok (h : Ends R m s P) {a : α} (hrun : m s = .ok a s') : R s s' ∧ P a s' := by
  rw [Ends, hrun] at h
  exact h

theorem of_error (h : Ends R m s P) {e : ε} (hrun : m s = .error e s') : R s s' := by
  rw [Ends, hrun] at h
  exact h

theorem intro (hok : ∀ a s', m s = .ok a s' → R s s' ∧ P a s')
    (herror : ∀ e s', m s = .error e s' → R s s') : Ends R m s P := by
  unfold Ends
  split
  · next a s' hrun => exact hok a s' hrun
  · next e s' hrun => exact herror e s' hrun

theorem mono (h : Ends R m s P) (hPQ : ∀ a s', R s s' → P a s' → Q a s') : Ends R m s Q :=
  intro (fun a s' hrun => ⟨(h.of_ok hrun).1, hPQ a s' (h.of_ok hrun).1 (h.of_ok hrun).2⟩)
    (fun _ _ hrun => h.of_error hrun)

theorem along {R' : σ → σ → Prop} (h : Ends R m s P) (hR : ∀ s', R s s' → R' s s') : Ends R' m s P :=
  intro (fun _ s' hrun => ⟨hR s' (h.of_ok hrun).1, (h.of_ok hrun).2⟩)
    (fun _ s' hrun => hR s' (h.of_error hrun))

/-! ## Putting computations together -/

theorem pure [Std.Refl R] {a : α} (h : P a s) : Ends R (Pure.pure a : EStateM ε σ α) s P :=
  ⟨Std.Refl.refl s, h⟩

/-- The rest of a computation may look back at where it started. -/
theorem bind_from (hm : Ends R m s P)
    (hf : ∀ a s', R s s' → P a s' → Ends (fun _ => R s) (f a) s' post) : Ends R (m >>= f) s post := by
  have hbind : (m >>= f) s = match m s with
      | .ok a s' => f a s'
      | .error e s' => .error e s' := rfl
  unfold Ends
  rw [hbind]
  cases hrun : m s with
  | ok a s' =>
    obtain ⟨hR, hP⟩ := hm.of_ok hrun
    exact hf a s' hR hP
  | error e s' => exact hm.of_error hrun

theorem bind [IsTrans σ R] (hm : Ends R m s P)
    (hf : ∀ a s', R s s' → P a s' → Ends R (f a) s' post) : Ends R (m >>= f) s post :=
  hm.bind_from fun a s' hR hP => (hf a s' hR hP).along fun t hrest => IsTrans.trans s s' t hR hrest

theorem ite {c : Prop} [Decidable c] {x y : EStateM ε σ α} (hx : c → Ends R x s P)
    (hy : ¬ c → Ends R y s P) :
    Ends R (if c then x else y) s P := by
  split
  · next hc => exact hx hc
  · next hc => exact hy hc

theorem andThen [Std.Refl R] (hm : Ends Eq m s P) (hf : ∀ a, P a s → Ends R (f a) s post) :
    Ends R (m >>= f) s post := by
  have hbind : (m >>= f) s = match m s with
      | .ok a s' => f a s'
      | .error e s' => .error e s' := rfl
  unfold Ends
  rw [hbind]
  cases hrun : m s with
  | ok a s' =>
    obtain ⟨rfl, hP⟩ := hm.of_ok hrun
    exact hf a hP
  | error e s' =>
    obtain rfl := hm.of_error hrun
    exact Std.Refl.refl s

theorem read {a : α} (hrun : m s = .ok a s) (hf : Ends R (f a) s post) : Ends R (m >>= f) s post := by
  have hbind : (m >>= f) s = match m s with
      | .ok a s' => f a s'
      | .error e s' => .error e s' := rfl
  unfold Ends
  rw [hbind, hrun]
  exact hf

theorem throw [Std.Refl R] (e : ε) : Ends R (MonadExcept.throw e : EStateM ε σ α) s P :=
  Std.Refl.refl s

end Ends

theorem run_bind_ok {m : EStateM ε σ α} {f : α → EStateM ε σ β} {s s' : σ} {a : α}
    (h : m s = .ok a s') :
    (m >>= f) s = f a s' := by
  show (match m s with
    | .ok a s' => f a s'
    | .error e s' => .error e s') = _
  rw [h]

theorem run_bind_error {m : EStateM ε σ α} {f : α → EStateM ε σ β} {s s' : σ} {e : ε}
    (h : m s = .error e s') :
    (m >>= f) s = .error e s' := by
  show (match m s with
    | .ok a s' => f a s'
    | .error e s' => .error e s') = _
  rw [h]

theorem run_bind_eq_ok {m : EStateM ε σ α} {f : α → EStateM ε σ β} {s s'' : σ} {b : β} :
    (m >>= f) s = .ok b s'' ↔ ∃ a s', m s = .ok a s' ∧ f a s' = .ok b s'' := by
  constructor
  · intro h
    cases hm : m s with
    | ok a s' => exact ⟨a, s', rfl, (run_bind_ok hm).symm.trans h⟩
    | error e s' =>
      rw [run_bind_error hm] at h
      cases h
  · rintro ⟨a, s', hm, hf⟩
    exact (run_bind_ok hm).trans hf

/-! ## Stopping -/

section Stopping

variable {s : σ}

theorem faulty_ends {R : σ → σ → Prop} [Std.Refl R] {P : α → σ → Prop} (fault : Fault) :
    Ends R (faulty fault : EStateM Stop σ α) s P :=
  Std.Refl.refl s

theorem reject_ends {R : σ → σ → Prop} [Std.Refl R] {P : α → σ → Prop} (error : LowerError) :
    Ends R (reject error : EStateM Stop σ α) s P := by
  unfold reject
  exact .ite (fun _ => Ends.throw _) (fun _ => faulty_ends _)

theorem reject_bind_ends {R : σ → σ → Prop} [Std.Refl R] {f : α → EStateM Stop σ β}
    {P : β → σ → Prop} (error : LowerError) :
    Ends R (reject error >>= f) s P :=
  Ends.andThen (P := fun _ _ => False) (reject_ends error) fun _ h => h.elim

theorem orFault_ends (fault : Fault) (a : Option α) :
    Ends Eq (orFault fault a : EStateM Stop σ α) s fun x _ => a = some x := by
  cases a with
  | none => exact faulty_ends fault
  | some x => exact Ends.pure rfl

theorem orReject_ends (error : LowerError) (a : Option α) :
    Ends Eq (orReject error a : EStateM Stop σ α) s fun x _ => a = some x := by
  cases a with
  | none => exact reject_ends error
  | some x => exact Ends.pure rfl

theorem liftGraph_ends (a : Except GraphError α) :
    Ends Eq (liftGraph a : EStateM Stop σ α) s fun x _ => a = .ok x := by
  cases a with
  | error e => exact reject_ends _
  | ok x => exact Ends.pure rfl

theorem entry_ends (xs : List α) (i : Nat) :
    Ends Eq (entry xs i : EStateM Stop σ α) s fun x _ => xs[i]? = some x :=
  orFault_ends _ _

theorem allocate_ends (b : Buffer) :
    Ends Eq (allocate b : EStateM Stop σ Buffer) s fun x _ => x = b ∧ b.fits := by
  unfold allocate
  exact .ite (fun hfits => Ends.pure ⟨rfl, hfits⟩) (fun _ => faulty_ends _)

end Stopping

end GraphLowering
