import RiscvHart.Machine.Exec
import Mathlib.Order.Defs.Unbundled

/-!
# Reasoning about computations on a state

A computation that fails still ends in a state, so what it leaves alone is said of the state that
it ends in, however it ends. `Keeps` says this, and it goes through sequences of computations.
-/

namespace RiscvHart

theorem Except.map_eq_ok_iff {ε α β : Type} {f : α → β} {x : Except ε α} {b : β} :
    x.map f = .ok b ↔ ∃ a, x = .ok a ∧ f a = b := by
  cases x <;> simp [Except.map]

theorem Except.exists_map_eq_ok_iff {ε α β : Type} {f : α → β} {x : Except ε α} :
    (∃ b, x.map f = .ok b) ↔ ∃ a, x = .ok a := by
  cases x <;> simp [Except.map]

theorem Except.bind_eq_ok_iff {ε α β : Type} {f : α → Except ε β} {x : Except ε α} {b : β} :
    x >>= f = .ok b ↔ ∃ a, x = .ok a ∧ f a = .ok b := by
  cases x <;> simp [Bind.bind, Except.bind]

theorem Except.ok_bind {ε α β : Type} (a : α) (f : α → Except ε β) : (.ok a >>= f) = f a := rfl

namespace Exec

variable {σ τ α β γ δ : Type}

/-- A property of computations that goes through sequences. -/
structure Modular (P : (α : Type) → Exec σ α → Prop) : Prop where
  pure : ∀ {α : Type} (a : α), P α (Pure.pure a)
  bind : ∀ {α β : Type} {x : Exec σ α} {f : α → Exec σ β}, P α x → (∀ a, P β (f a)) → P β (x >>= f)

def Keeps (view : σ → γ) (x : Exec σ α) : Prop := ∀ s, view (x s).2 = view s

variable {view : σ → γ} {x : Exec σ α}

theorem bind_apply (x : Exec σ α) (f : α → Exec σ β) (s : σ) :
    (x >>= f) s =
      match x s with
      | (.ok a, s') => f a s'
      | (.error e, s') => (.error e, s') := rfl

theorem map_apply (f : α → β) (x : Exec σ α) (s : σ) : (f <$> x) s = ((x s).1.map f, (x s).2) := by
  show (x >>= fun a => Pure.pure (f a)) s = _
  rw [bind_apply]
  cases x s with
  | mk result t => cases result <;> rfl

theorem bind_assoc (x : Exec σ α) (f : α → Exec σ β) (g : β → Exec σ δ) :
    (x >>= f) >>= g = x >>= fun a => f a >>= g := by
  funext s
  simp only [bind_apply]
  cases x s with
  | mk result t => cases result <;> rfl

theorem get_bind_apply (f : σ → Exec σ β) (s : σ) : (Exec.get >>= f) s = f s s := rfl

theorem modify_bind_apply (g : σ → σ) (f : Unit → Exec σ β) (s : σ) :
    (Exec.modify g >>= f) s = f () (g s) := rfl

theorem checkedAdd_bind_apply {a b : Word} (f : Word → Exec σ β) (s : σ)
    (h : a.toNat + b.toNat < addressLimit) : (Exec.checkedAdd a b >>= f) s = f (a + b) s := by
  rw [bind_apply, checkedAdd, if_pos h]
  rfl

theorem checkedAdd_bind_of_too_large {a b : Word} (f : Word → Exec σ β) (s : σ)
    (h : addressLimit ≤ a.toNat + b.toNat) :
    (Exec.checkedAdd a b >>= f) s = (.error (.crash .sumTooLarge), s) := by
  rw [bind_apply, checkedAdd, if_neg (Nat.not_lt.mpr h)]
  rfl

theorem checkedSub_bind_apply {a b : Word} (f : Word → Exec σ β) (s : σ)
    (h : b.toNat ≤ a.toNat) : (Exec.checkedSub a b >>= f) s = f (a - b) s := by
  rw [bind_apply, checkedSub, if_pos h]
  rfl

theorem attempt_eq_ok_iff {f : σ → Except MemoryError (α × σ)} {s s' : σ} {a : α} :
    attempt f s = (.ok a, s') ↔ f s = .ok (a, s') := by
  unfold attempt
  cases h : f s with
  | error e => simp
  | ok result => simp [Prod.ext_iff]

theorem attempt_eq_error {f : σ → Except MemoryError (α × σ)} {s s' : σ} {e : Failure Fault}
    (h : attempt f s = (.error e, s')) : s' = s := by
  unfold attempt at h
  split at h
  · cases h
  · cases h
    rfl

theorem checkedAdd_eq_ok {a b c : Word} {s s' : σ} (h : checkedAdd a b s = (.ok c, s')) :
    c = a + b ∧ s' = s ∧ a.toNat + b.toNat < addressLimit := by
  unfold checkedAdd at h
  split at h
  · next hroom =>
    cases h
    exact ⟨rfl, rfl, hroom⟩
  · cases h

theorem keeps_pure (a : α) : Keeps view (Pure.pure a : Exec σ α) := fun _ => rfl

theorem Keeps.bind {f : α → Exec σ β} (hx : Keeps view x) (hf : ∀ a, Keeps view (f a)) :
    Keeps view (x >>= f) := by
  intro s
  rw [bind_apply]
  cases h : x s with
  | mk result s' =>
    have hs' : view s' = view s := by
      rw [← hx s, h]
    cases result with
    | ok a => exact (hf a s').trans hs'
    | error e => exact hs'

theorem keeps_get : Keeps view (Exec.get : Exec σ σ) := fun _ => rfl

theorem keeps_modify {f : σ → σ} (hf : ∀ s, view (f s) = view s) : Keeps view (Exec.modify f) := hf

theorem keeps_fail (e : Failure Fault) : Keeps view (Exec.fail e : Exec σ α) := fun _ => rfl

theorem keeps_attempt {f : σ → Except MemoryError (α × σ)}
    (hf : ∀ s a s', f s = .ok (a, s') → view s' = view s) : Keeps view (Exec.attempt f) := by
  intro s
  unfold attempt
  split
  · next a s' h => exact hf s a s' h
  · rfl

theorem keeps_checkedAdd (a b : Word) : Keeps view (Exec.checkedAdd a b : Exec σ Word) := by
  intro s
  unfold checkedAdd
  split <;> rfl

theorem keeps_checkedSub (a b : Word) : Keeps view (Exec.checkedSub a b : Exec σ Word) := by
  intro s
  unfold checkedSub
  split <;> rfl

theorem bind_eq_ok {f : α → Exec σ β} {s s' : σ} {b : β} (h : (x >>= f) s = (.ok b, s')) :
    ∃ a t, x s = (.ok a, t) ∧ f a t = (.ok b, s') := by
  rw [bind_apply] at h
  cases hx : x s with
  | mk result t =>
    rw [hx] at h
    cases result with
    | ok a => exact ⟨a, t, rfl, h⟩
    | error e => cases h

/-- If a sequence fails and its second part cannot fail so, its first part has failed. -/
theorem error_of_bind {f : α → Exec σ β} {s : σ} {e : Failure Fault}
    (h : ((x >>= f) s).1 = .error e) (hf : ∀ a t, (f a t).1 ≠ .error e) : (x s).1 = .error e := by
  rw [bind_apply] at h
  cases hrun : x s with
  | mk result t =>
    rw [hrun] at h
    cases result with
    | ok a => exact absurd h (hf a t)
    | error e' => exact congrArg Except.error (Except.error.inj h)

/-- A computation on a part of a state keeps what is kept of that part. -/
theorem Keeps.on {part : τ → σ} {put : τ → σ → τ} {wide : τ → δ} (hx : Keeps view x)
    (hput : ∀ t s, view s = view (part t) → wide (put t s) = wide t) :
    Keeps wide (Exec.on part put x) :=
  fun t => hput t _ (hx (part t))

/-- A computation leaves a view of the state alone, and fails in certain ways only. -/
structure Contained (view : σ → γ) (E : Failure Fault → Prop) (x : Exec σ α) : Prop where
  keeps : Keeps view x
  fails : ∀ s e, (x s).1 = .error e → E e

variable {E : Failure Fault → Prop}

theorem contained_pure (a : α) : Contained view E (Pure.pure a : Exec σ α) :=
  ⟨keeps_pure a, fun _ _ h => by cases h⟩

theorem Contained.bind {f : α → Exec σ β} (hx : Contained view E x)
    (hf : ∀ a, Contained view E (f a)) : Contained view E (x >>= f) := by
  refine ⟨hx.keeps.bind fun a => (hf a).keeps, fun s e h => ?_⟩
  rw [bind_apply] at h
  cases hrun : x s with
  | mk result t =>
    rw [hrun] at h
    cases result with
    | ok a => exact (hf a).fails t e h
    | error e' =>
      obtain rfl : e' = e := Except.error.inj h
      exact hx.fails s e' (by rw [hrun])

theorem contained_get : Contained view E (Exec.get : Exec σ σ) :=
  ⟨keeps_get, fun _ _ h => by cases h⟩

theorem contained_modify {f : σ → σ} (hf : ∀ s, view (f s) = view s) :
    Contained view E (Exec.modify f) :=
  ⟨keeps_modify hf, fun _ _ h => by cases h⟩

theorem contained_fail {e : Failure Fault} (he : E e) : Contained view E (Exec.fail e : Exec σ α) :=
  ⟨keeps_fail e, fun _ _ h => by cases h; exact he⟩

def Preserves (P : σ → Prop) (x : Exec σ α) : Prop := ∀ s, P s → P (x s).2

variable {P : σ → Prop}

theorem preserves_pure (a : α) : Preserves P (Pure.pure a : Exec σ α) := fun _ h => h

theorem Preserves.bind {f : α → Exec σ β} (hx : Preserves P x) (hf : ∀ a, Preserves P (f a)) :
    Preserves P (x >>= f) := by
  intro s hs
  have hmid := hx s hs
  rw [bind_apply]
  cases h : x s with
  | mk result t =>
    rw [h] at hmid
    cases result with
    | ok a => exact hf a t hmid
    | error e => exact hmid

/-- However it ends, a computation ends in a state related to the one it started in. -/
def Advances (R : σ → σ → Prop) (x : Exec σ α) : Prop := ∀ s, R s (x s).2

instance (view : σ → γ) : IsPreorder σ fun s s' => view s' = view s where
  refl _ := rfl
  trans _ _ _ h h' := h'.trans h

section

variable {R : σ → σ → Prop} [IsPreorder σ R]

/-- What leaves the whole state alone gets no further. -/
theorem Keeps.advances (hx : Keeps id x) : Advances R x := by
  intro s
  have hsame : (x s).2 = s := hx s
  rw [hsame]
  exact refl_of R s

theorem advances_pure (a : α) : Advances R (Pure.pure a : Exec σ α) := fun s => refl_of R s

theorem Advances.bind {f : α → Exec σ β} (hx : Advances R x) (hf : ∀ a, Advances R (f a)) :
    Advances R (x >>= f) := by
  intro s
  have hfirst := hx s
  rw [bind_apply]
  cases h : x s with
  | mk result t =>
    rw [h] at hfirst
    cases result with
    | ok a => exact trans_of R hfirst (hf a t)
    | error e => exact hfirst

theorem Advances.map {f : α → β} (hx : Advances R x) : Advances R (f <$> x) :=
  hx.bind fun a => advances_pure (f a)

theorem advances_attempt {f : σ → Except MemoryError (α × σ)}
    (hf : ∀ s a s', f s = .ok (a, s') → R s s') : Advances R (attempt f) := by
  intro s
  unfold attempt
  split
  · next a s' h => exact hf s a s' h
  · exact refl_of R s

end

/-- It does not matter to a computation whether the state is changed before it or after it. -/
def Commutes (put : σ → σ) (x : Exec σ α) : Prop := ∀ s, x (put s) = ((x s).1, put (x s).2)

section

variable {put : σ → σ}

theorem commutes_pure (a : α) : Commutes put (Pure.pure a : Exec σ α) := fun _ => rfl

theorem commutes_fail (e : Failure Fault) : Commutes put (fail e : Exec σ α) := fun _ => rfl

theorem Commutes.bind {f : α → Exec σ β} (hx : Commutes put x) (hf : ∀ a, Commutes put (f a)) :
    Commutes put (x >>= f) := by
  intro s
  rw [bind_apply, bind_apply, hx s]
  cases x s with
  | mk result t =>
    cases result with
    | ok a => exact hf a t
    | error e => rfl

theorem Commutes.map {f : α → β} (hx : Commutes put x) : Commutes put (f <$> x) :=
  hx.bind fun a => commutes_pure (f a)

/-- Looking at the state does no harm if what is seen of it is not changed. -/
theorem commutes_get_bind {f : σ → Exec σ β} (hseen : ∀ s, f (put s) = f s)
    (hf : ∀ s, Commutes put (f s)) : Commutes put (get >>= f) := by
  intro s
  rw [get_bind_apply, get_bind_apply, hseen]
  exact hf s s

theorem commutes_attempt {f : σ → Except MemoryError (α × σ)}
    (hf : ∀ s, f (put s) = (f s).map fun r => (r.1, put r.2)) : Commutes put (attempt f) := by
  intro s
  unfold attempt
  rw [hf s]
  cases f s <;> rfl

theorem commutes_checkedAdd (a b : Word) : Commutes put (checkedAdd a b : Exec σ Word) := by
  intro s
  unfold checkedAdd
  split <;> rfl

theorem commutes_checkedSub (a b : Word) : Commutes put (checkedSub a b : Exec σ Word) := by
  intro s
  unfold checkedSub
  split <;> rfl

end

/-- Started in a state as `P` says, a computation gives a value and a state as `Q` says, or fails
in a state as `E` says. -/
def Meets (P : σ → Prop) (x : Exec σ α) (Q : α → σ → Prop) (E : Failure Fault → σ → Prop) : Prop :=
  ∀ s, P s → (∃ a s', x s = (.ok a, s') ∧ Q a s') ∨ ∃ e s', x s = (.error e, s') ∧ E e s'

namespace Meets

variable {Q : α → σ → Prop} {R : β → σ → Prop} {F F' : Failure Fault → σ → Prop}

theorem bind {f : α → Exec σ β} (hx : Meets P x Q F) (hf : ∀ a, Meets (Q a) (f a) R F) :
    Meets P (x >>= f) R F := by
  intro s hs
  rcases hx s hs with ⟨a, t, hrun, ha⟩ | ⟨e, t, hrun, he⟩
  · rw [bind_ok hrun]
    exact hf a t ha
  · exact Or.inr ⟨e, t, bind_error hrun, he⟩

theorem pure {a : α} (h : ∀ s, P s → Q a s) : Meets P (Pure.pure a : Exec σ α) Q F :=
  fun s hs => Or.inl ⟨a, s, rfl, h s hs⟩

theorem weaken_error (hx : Meets P x Q F) (himp : ∀ e s, F e s → F' e s) : Meets P x Q F' := by
  intro s hs
  rcases hx s hs with hok | ⟨e, t, hrun, he⟩
  · exact Or.inl hok
  · exact Or.inr ⟨e, t, hrun, himp e t he⟩

/-- What is meant by it is true before the start may be used. -/
theorem of_assumption {A : Prop} (h : A → Meets P x Q F) : Meets (fun s => A ∧ P s) x Q F :=
  fun s hs => h hs.1 s hs.2

theorem of_eq_ok {a : α} {s s' : σ} (hx : Meets P x Q F) (hs : P s) (h : x s = (.ok a, s')) :
    Q a s' := by
  rcases hx s hs with ⟨b, t, hrun, hb⟩ | ⟨e, t, hrun, -⟩
  · rw [h] at hrun
    cases hrun
    exact hb
  · rw [h] at hrun
    cases hrun

end Meets

end Exec

end RiscvHart
