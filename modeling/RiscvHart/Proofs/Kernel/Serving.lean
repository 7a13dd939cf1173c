import RiscvHart.Kernel.Calls
import RiscvHart.Proofs.Machine.Flags

/-!
# What the calls that map no memory are made up of

These calls look at the platform, ask the host, write bytes where memory is mapped, draw random
bytes, and fail. Whatever holds of this and goes through sequences holds of each of the calls.
-/

namespace RiscvHart

namespace Syscall

def MapsMemory (c : Syscall) : Prop := c = .brk ∨ c = .mmap ∨ c = .munmap

def Exits (c : Syscall) : Prop := c = .exit ∨ c = .exitGroup

def adding : List Syscall := [writev, openat, clockGettime]

def passedOn : List Syscall := [close, lseek, getpid, getppid, getuid, geteuid, getgid, getegid]

end Syscall

namespace Platform

open Exec

variable {σ : Type}

def withFlags (f : Flags) (s : Platform σ) : Platform σ :=
  { s with machine := s.machine.withFlags f }

/-- A property of computations on a platform that holds of what calls are made up of, with
failures of some kinds. No call sees the flags of the machine. -/
structure Serves (P : (α : Type) → Exec (Platform σ) α → Prop) (E : Failure Fault → Prop) : Prop
    extends Modular P where
  look : ∀ {α : Type} (f : Platform σ → Exec (Platform σ) α), (∀ g s, f (s.withFlags g) = f s) →
    (∀ s, P α (f s)) → P α (get >>= f)
  consult : ∀ {α : Type} (f : Host σ → σ → α × σ), P α (consult f)
  tryFill : ∀ addr bs, P _ (tryFill addr bs)
  setRandom : ∀ g, P _ (modify fun s => { s with kernel := { s.kernel with random := g } })
  fail : ∀ {α : Type} (e : Failure Fault), E e → P α (fail e)

/-- A path is cut off by the end of a region, or by the end of the addresses. -/
theorem pathFrom_crash {m : Memory} {pos left : Nat} {c : Crash}
    (h : pathFrom m pos left = .error (.crash c)) : c = .sumTooLarge := by
  induction left generalizing pos with
  | zero => cases h
  | succ left ih =>
    unfold pathFrom at h
    split at h
    · cases h
      rfl
    split at h
    · cases h
    split at h
    · cases h
    · cases hrest : pathFrom m (pos + 1) left with
      | ok path =>
        rw [hrest] at h
        cases h
      | error e =>
        rw [hrest] at h
        cases h
        exact ih hrest

section

variable {P : (α : Type) → Exec (Platform σ) α → Prop} {E : Failure Fault → Prop}
  (h : Serves P E) (a : Arguments)
include h

theorem Serves.map {α β : Type} {f : α → β} {x : Exec (Platform σ) α} (hx : P α x) :
    P β (f <$> x) :=
  h.bind hx fun a => h.pure (f a)

theorem Serves.askHost (f : Host σ → σ → Reply σ) : P _ (askHost f) := h.consult _

theorem Serves.checkedAdd (hsum : E (.crash .sumTooLarge)) (x y : Word) : P _ (checkedAdd x y) := by
  unfold Exec.checkedAdd
  split
  · exact h.pure _
  · exact h.fail _ hsum

theorem Serves.readCall : P _ (readCall a) := by
  refine h.look _ (fun _ _ => rfl) fun s => ?_
  dsimp only
  split
  · exact h.bind (h.consult _) fun _ => h.bind (h.tryFill _ _) fun _ => h.pure _
  · exact h.pure _

theorem Serves.writeCall : P _ (writeCall a) := by
  refine h.look _ (fun _ _ => rfl) fun s => ?_
  split
  · exact h.askHost _
  · exact h.pure _

theorem Serves.writeEntries (hsum : E (.crash .sumTooLarge)) (fd : BitVec 32) (left : Nat) :
    ∀ entry total, P _ (writeEntries fd entry total left) := by
  induction left with
  | zero => exact fun _ _ => h.pure _
  | succ left ih =>
    intro entry total
    unfold Platform.writeEntries
    refine h.look _ (fun _ _ => rfl) fun s => ?_
    dsimp only
    -- One branch for each way to end before the next entry.
    split
    · exact h.fail _ hsum
    split
    · exact h.pure _
    split
    · exact h.fail _ hsum
    split
    · exact h.pure _
    split
    · exact h.pure _
    refine h.bind (h.askHost _) fun result => ?_
    split
    · exact h.pure _
    split
    · exact h.fail _ hsum
    split
    · exact h.pure _
    · exact ih _ _

theorem Serves.openatCall (hsum : E (.crash .sumTooLarge)) : P _ (openatCall a) := by
  refine h.look _ (fun _ _ => rfl) fun s => ?_
  split
  · exact h.pure _
  · next c hpath =>
    obtain rfl := pathFrom_crash hpath
    exact h.fail _ hsum
  · exact h.askHost _

theorem Serves.fstatCall : P _ (fstatCall a) := by
  unfold Platform.fstatCall
  split
  · exact h.pure _
  · exact h.bind (h.tryFill _ _) fun _ => h.pure _

theorem Serves.unameCall : P _ (unameCall a) := h.bind (h.tryFill _ _) fun _ => h.pure _

theorem Serves.clockGettimeCall (hsum : E (.crash .sumTooLarge)) : P _ (clockGettimeCall a) := by
  refine h.look _ (fun _ _ => rfl) fun s => h.bind (h.tryFill _ _) fun done => ?_
  split
  · refine h.bind (h.checkedAdd hsum _ _) fun _ => h.bind (h.tryFill _ _) fun done => ?_
    split
    · exact h.pure _
    · exact h.pure _
  · exact h.pure _

theorem Serves.getrandomCall : P _ (getrandomCall a) := by
  refine h.look _ (fun _ _ => rfl) fun s => ?_
  dsimp only
  split
  · exact h.bind (h.setRandom _) fun _ => h.bind (h.tryFill _ _) fun _ => h.pure _
  · exact h.pure _

theorem Serves.passOn (c : Syscall)
    (hnumber : E (.error (.syscallUnimplemented (BitVec.ofNat 64 c.number)))) :
    P _ (passOn c a) := by
  refine h.look _ (fun _ _ => rfl) fun s => ?_
  split
  · exact h.askHost _
  · exact h.fail _ hnumber

/-- Only calls that add up addresses or counts crash, and only calls that are passed on end in a
fault. -/
theorem Serves.serve {c : Syscall} (hc : ¬c.MapsMemory)
    (hexit : c.Exits → ∀ code, P _ (modifyMachine fun m => { m with exitCode := some code }))
    (hsum : c ∈ Syscall.adding → E (.crash .sumTooLarge))
    (hnumber : c ∈ Syscall.passedOn →
      E (.error (.syscallUnimplemented (BitVec.ofNat 64 c.number)))) :
    P _ (serve c a) := by
  unfold Platform.serve
  split
  · exact h.bind (hexit (Or.inl rfl) _) fun _ => h.pure _
  · exact h.bind (hexit (Or.inr rfl) _) fun _ => h.pure _
  · exact h.map (h.readCall a)
  · exact h.map (h.writeCall a)
  · exact h.map (h.writeEntries (hsum (by decide)) _ _ _ _)
  · exact h.map (h.openatCall a (hsum (by decide)))
  · exact h.map (h.fstatCall a)
  · exact absurd (Or.inl rfl) hc
  · exact absurd (Or.inr (Or.inl rfl)) hc
  · exact absurd (Or.inr (Or.inr rfl)) hc
  · exact h.pure _
  · exact h.map (h.unameCall a)
  · exact h.map (h.clockGettimeCall a (hsum (by decide)))
  · exact h.pure _
  · exact h.pure _
  · exact h.pure _
  · exact h.map (h.getrandomCall a)
  all_goals exact h.map (h.passOn a _ (hnumber (by decide)))

end

end Platform

end RiscvHart
