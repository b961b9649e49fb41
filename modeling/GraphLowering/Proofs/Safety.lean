import GraphLowering.Proofs.Ends

/-!
# Why a computation stops

`Ends` says what a computation has done when it ends. `Safe accepted faults m s post` says why it
stops. It ends in a fault only if the fault is one of `faults`, and it is rejected only if it is not
to be `accepted`; a value it returns satisfies `post`.

Both are parameters, so that one lemma for each function of the library answers two questions. With
an unreachable `accepted` it says in which faults the function can end. With a condition for
`accepted` that excludes the reasons of all rejections it says that the function does not reject.
-/

namespace GraphLowering

variable {σ α β : Type}

/-- The error is about the node or the graph, and not about a chain that does not hang together. -/
def LowerError.isRefusal : LowerError → Bool
  | .inconsistent .. => false
  | _ => true

/-- A computation that stops only for one of `faults` or with a rejection, and with a rejection only
if it is not to be `accepted`. -/
def Safe (accepted : Prop) (faults : Fault → Prop) (m : EStateM Stop σ α) (s : σ)
    (post : α → σ → Prop) : Prop :=
  match m s with
  | .ok a s' => post a s'
  | .error (.rejected e) _ => ¬ accepted ∧ e.printable ∧ e.isRefusal
  | .error (.fault f) _ => faults f

namespace Safe

variable {accepted : Prop} {faults : Fault → Prop} {m : EStateM Stop σ α}
  {f : α → EStateM Stop σ β} {s s' : σ}
  {P Q : α → σ → Prop} {post : β → σ → Prop}

/-! ## Reading off -/

theorem of_ok (h : Safe accepted faults m s P) {a : α} (hrun : m s = .ok a s') : P a s' := by
  rw [Safe, hrun] at h
  exact h

theorem of_rejected (h : Safe accepted faults m s P) {e : LowerError}
    (hrun : m s = .error (.rejected e) s') :
    ¬ accepted ∧ e.printable ∧ e.isRefusal := by
  rw [Safe, hrun] at h
  exact h

theorem of_fault (h : Safe accepted faults m s P) {fault : Fault}
    (hrun : m s = .error (.fault fault) s') : faults fault := by
  rw [Safe, hrun] at h
  exact h

theorem intro (hok : ∀ a s', m s = .ok a s' → P a s')
    (hrejected : ∀ e s', m s = .error (.rejected e) s' → ¬ accepted ∧ e.printable ∧ e.isRefusal)
    (hfault : ∀ fault s', m s = .error (.fault fault) s' → faults fault) :
    Safe accepted faults m s P := by
  unfold Safe
  split
  · next a s' hrun => exact hok a s' hrun
  · next e s' hrun => exact hrejected e s' hrun
  · next fault s' hrun => exact hfault fault s' hrun

theorem run (h : Safe accepted faults m s P) (haccepted : accepted)
    (hfaults : ∀ fault, ¬ faults fault) :
    ∃ a s', m s = .ok a s' ∧ P a s' := by
  cases hrun : m s with
  | ok a s' => exact ⟨a, s', rfl, h.of_ok hrun⟩
  | error stop s' =>
    cases stop with
    | rejected e => exact absurd haccepted (h.of_rejected hrun).1
    | fault fault => exact absurd (h.of_fault hrun) (hfaults fault)

theorem mono (h : Safe accepted faults m s P) (hPQ : ∀ a s', P a s' → Q a s') :
    Safe accepted faults m s Q :=
  intro (fun a s' hrun => hPQ a s' (h.of_ok hrun)) (fun _ _ hrun => h.of_rejected hrun)
    (fun _ _ hrun => h.of_fault hrun)

theorem with_run (h : Safe accepted faults m s P) :
    Safe accepted faults m s fun a s' => m s = .ok a s' ∧ P a s' :=
  intro (fun _ _ hrun => ⟨hrun, h.of_ok hrun⟩) (fun _ _ hrun => h.of_rejected hrun)
    (fun _ _ hrun => h.of_fault hrun)

/-! ## Putting computations together -/

theorem pure {a : α} (h : P a s) : Safe accepted faults (Pure.pure a : EStateM Stop σ α) s P :=
  h

/-- What the first computation returns is known from what it does and from why it does not stop. -/
theorem bind_ends {R : σ → σ → Prop} (hends : Ends R m s P) (hm : Safe accepted faults m s Q)
    (hf : ∀ a s', R s s' → P a s' → Q a s' → Safe accepted faults (f a) s' post) :
    Safe accepted faults (m >>= f) s post := by
  cases hrun : m s with
  | ok a s' =>
    obtain ⟨hR, hP⟩ := hends.of_ok hrun
    have hrest := hf a s' hR hP (hm.of_ok hrun)
    unfold Safe at hrest ⊢
    rw [run_bind_ok hrun]
    exact hrest
  | error stop s' =>
    unfold Safe
    rw [run_bind_error hrun]
    cases stop with
    | rejected e => exact hm.of_rejected hrun
    | fault fault => exact hm.of_fault hrun

theorem bind (hm : Safe accepted faults m s P)
    (hf : ∀ a s', P a s' → Safe accepted faults (f a) s' post) :
    Safe accepted faults (m >>= f) s post := by
  have hends : Ends (fun _ _ => True) m s fun _ _ => True :=
    Ends.intro (fun _ _ _ => ⟨trivial, trivial⟩) fun _ _ _ => trivial
  exact bind_ends hends hm fun a s' _ _ hP => hf a s' hP

theorem andThen (hends : Ends Eq m s P) (hm : Safe accepted faults m s Q)
    (hf : ∀ a, P a s → Q a s → Safe accepted faults (f a) s post) :
    Safe accepted faults (m >>= f) s post := by
  refine bind_ends hends hm ?_
  rintro a _ rfl hP hQ
  exact hf a hP hQ

theorem step {a : α} (hrun : m s = .ok a s') (hf : Safe accepted faults (f a) s' post) :
    Safe accepted faults (m >>= f) s post := by
  unfold Safe at hf ⊢
  rw [run_bind_ok hrun]
  exact hf

theorem ite {c : Prop} [Decidable c] {x y : EStateM Stop σ α} (hx : c → Safe accepted faults x s P)
    (hy : ¬ c → Safe accepted faults y s P) : Safe accepted faults (if c then x else y) s P := by
  split
  · next hc => exact hx hc
  · next hc => exact hy hc

end Safe

/-! ## Stopping -/

section Stopping

variable {accepted : Prop} {faults : Fault → Prop} {s : σ} {P : α → σ → Prop}

theorem faulty_safe {fault : Fault} (h : faults fault) :
    Safe accepted faults (faulty fault : EStateM Stop σ α) s P :=
  h

theorem reject_safe {error : LowerError} (haccepted : ¬ accepted) (hrefusal : error.isRefusal)
    (hprintable : faults .elementTypeText ∨ error.printable) :
    Safe accepted faults (reject error : EStateM Stop σ α) s P := by
  unfold reject
  refine .ite (fun hprints => ⟨haccepted, hprints, hrefusal⟩) fun hnot => ?_
  exact faulty_safe (hprintable.resolve_right hnot)

theorem reject_bind_safe {error : LowerError} {f : α → EStateM Stop σ β} {post : β → σ → Prop}
    (haccepted : ¬ accepted) (hrefusal : error.isRefusal)
    (hprintable : faults .elementTypeText ∨ error.printable) :
    Safe accepted faults (reject error >>= f) s post :=
  Safe.bind (P := fun _ _ => False) (reject_safe haccepted hrefusal hprintable) fun _ _ h => h.elim

theorem orFault_safe {fault : Fault} {a : Option α} (h : a = none → faults fault) :
    Safe accepted faults (orFault fault a : EStateM Stop σ α) s fun _ _ => True := by
  cases a with
  | none => exact faulty_safe (h rfl)
  | some x => exact Safe.pure trivial

theorem orReject_safe {error : LowerError} {a : Option α} (h : accepted → a.isSome)
    (hrefusal : error.isRefusal) (hprintable : faults .elementTypeText ∨ error.printable) :
    Safe accepted faults (orReject error a : EStateM Stop σ α) s fun _ _ => True := by
  cases a with
  | none => exact reject_safe (fun haccepted => nomatch h haccepted) hrefusal hprintable
  | some x => exact Safe.pure trivial

theorem entry_safe {xs : List α} {i : Nat} (h : i < xs.length) :
    Safe accepted faults (entry xs i : EStateM Stop σ α) s fun _ _ => True := by
  refine orFault_safe fun hnone => ?_
  rw [List.getElem?_eq_none_iff] at hnone
  omega

theorem entry_ok {xs : List α} {i : Nat} {x : α} (h : xs[i]? = some x) :
    (entry xs i : EStateM Stop σ α) s = .ok x s := by
  rw [entry, h]
  rfl

theorem allocate_safe {b : Buffer} (h : ¬ b.fits → faults .bufferSize) :
    Safe accepted faults (allocate b : EStateM Stop σ Buffer) s fun _ _ => True := by
  unfold allocate
  exact .ite (fun _ => Safe.pure trivial) fun hnot => faulty_safe (h hnot)

theorem liftGraph_safe {a : Except GraphError α} (h : accepted → ∃ x, a = .ok x)
    (hprintable : ∀ e, a = .error e → faults .elementTypeText ∨ (LowerError.graph e).printable) :
    Safe accepted faults (liftGraph a : EStateM Stop σ α) s fun _ _ => True := by
  cases a with
  | error e =>
    refine reject_safe (fun haccepted => ?_) rfl (hprintable e rfl)
    obtain ⟨x, hx⟩ := h haccepted
    cases hx
  | ok x => exact Safe.pure trivial

end Stopping

end GraphLowering
