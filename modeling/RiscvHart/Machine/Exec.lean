import RiscvHart.Machine.Fault

/-!
# Computations on a state

A computation takes a state to a state and ends with a value or a failure. A failure keeps the
state that was reached: what was done before it is not taken back.
-/

namespace RiscvHart

/-- A computation on states of type `σ` with values of type `α`. -/
def Exec (σ α : Type) : Type := σ → Except (Failure Fault) α × σ

namespace Exec

variable {σ τ α β : Type}

def pure (a : α) : Exec σ α := fun s => (.ok a, s)

def bind (x : Exec σ α) (f : α → Exec σ β) : Exec σ β := fun s =>
  match x s with
  | (.ok a, s') => f a s'
  | (.error e, s') => (.error e, s')

instance : Monad (Exec σ) where
  pure := Exec.pure
  bind := Exec.bind

def get : Exec σ σ := fun s => (.ok s, s)

def modify (f : σ → σ) : Exec σ Unit := fun s => (.ok (), f s)

def fail (e : Failure Fault) : Exec σ α := fun s => (.error e, s)

def fault (f : Fault) : Exec σ α := fail (.error f)

def crash (c : Crash) : Exec σ α := fail (.crash c)

/-- Does what can only succeed or leave the state alone with an error of memory, which becomes a
fault. -/
def attempt (f : σ → Except MemoryError (α × σ)) : Exec σ α := fun s =>
  match f s with
  | .ok (a, s') => (.ok a, s')
  | .error e => (.error (.error (.ofMemory e)), s)

/-- Does what leaves a state behind even if it ends with an error of memory. -/
def inPlace (f : σ → Except MemoryError α × σ) : Exec σ α := fun s =>
  match f s with
  | (.ok a, s') => (.ok a, s')
  | (.error e, s') => (.error (.error (.ofMemory e)), s')

/-- Runs a computation on a part of a larger state. -/
def on (part : τ → σ) (put : τ → σ → τ) (x : Exec σ α) : Exec τ α := fun t =>
  let (result, s) := x (part t)
  (result, put t s)

/-- Adds two words whose sum has to be a word. -/
def checkedAdd (a b : Word) : Exec σ Word :=
  if a.toNat + b.toNat < addressLimit then Exec.pure (a + b) else crash .sumTooLarge

/-- Takes from a word one that may not be larger. -/
def checkedSub (a b : Word) : Exec σ Word :=
  if b.toNat ≤ a.toNat then Exec.pure (a - b) else crash .differenceNegative

theorem bind_ok {x : Exec σ α} {f : α → Exec σ β} {s s' : σ} {a : α} (h : x s = (.ok a, s')) :
    (x >>= f) s = f a s' := by
  show bind x f s = _
  simp only [bind, h]

theorem bind_error {x : Exec σ α} {f : α → Exec σ β} {s s' : σ} {e : Failure Fault}
    (h : x s = (.error e, s')) : (x >>= f) s = (.error e, s') := by
  show bind x f s = _
  simp only [bind, h]

end Exec

end RiscvHart
