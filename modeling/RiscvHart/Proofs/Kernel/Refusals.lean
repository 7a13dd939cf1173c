import RiscvHart.Proofs.Kernel.MappingCalls
import RiscvHart.Proofs.Kernel.Space
import RiscvHart.Proofs.Machine.Access
import Mathlib.Tactic.FinCases

/-!
# Calls that are refused

A call ends in a fault if nobody knows its number, or if it is to be passed on and the host does
not have it. Nothing is done before that is found out. No other call ends in a fault.
-/

namespace RiscvHart.Platform

open Exec

variable {σ : Type} {s s' : Platform σ} {c : Syscall} {a : Arguments} {f : Fault}

def callNumber (s : Platform σ) : Word := s.machine.registers.read Reg.a7

def Unserved (s : Platform σ) : Prop :=
  Syscall.ofNumber? s.callNumber = none ∨
    ∃ c ∈ Syscall.passedOn, Syscall.ofNumber? s.callNumber = some c ∧
      s.kernel.host.remap s.kernel.hostState c = none

theorem number_of_ofNumber? {n : Word} (h : Syscall.ofNumber? n = some c) :
    BitVec.ofNat 64 c.number = n := by
  have hnumber : c.number = n.toNat := by simpa using List.find?_some h
  rw [hnumber, BitVec.ofNat_toNat, BitVec.setWidth_eq]

theorem serve_of_passedOn (hc : c ∈ Syscall.passedOn) :
    serve (σ := σ) c a = some <$> passOn c a := by
  fin_cases hc <;> rfl

theorem passOn_of_remap_none (h : s.kernel.host.remap s.kernel.hostState c = none) :
    passOn c a s = (.error (.error (.syscallUnimplemented (BitVec.ofNat 64 c.number))), s) := by
  rw [passOn, get_bind_apply, h]
  rfl

theorem passOn_of_remap_some {number : Int}
    (h : s.kernel.host.remap s.kernel.hostState c = some number) :
    ∃ result s', passOn c a s = (.ok result, s') := by
  rw [passOn, get_bind_apply, h]
  exact ⟨_, _, rfl⟩

/-! ## Calls that map memory -/

theorem serve_of_mapsMemory (hc : c.MapsMemory) (a : Arguments) (s : Platform σ) :
    ∃ result s', serve c a s = (.ok result, s') := by
  rcases hc with rfl | rfl | rfl
  · obtain ⟨v, s', hrun⟩ : ∃ v s', brkCall a[0] s = (.ok v, s') := by
      rcases brkCall_cases s a[0] with ⟨hrun, -⟩ | ⟨_, _, -, -, ⟨hrun, -⟩ | ⟨_, -, -, hrun⟩⟩
      all_goals exact ⟨_, _, hrun⟩
    exact ⟨_, _, bind_ok hrun⟩
  · obtain ⟨v, s', hrun⟩ : ∃ v s', mmapCall a s = (.ok v, s') := by
      rcases mmapCall_cases a s with ⟨_, -, hrun⟩ | ⟨_, _, _, -, -, -, -, -, hrun⟩
      all_goals exact ⟨_, _, hrun⟩
    exact ⟨_, _, bind_ok hrun⟩
  · obtain ⟨v, s', hrun⟩ : ∃ v s', munmapCall a s = (.ok v, s') := by
      rcases munmapCall_cases a s with hrun | ⟨_, -, -, -, ⟨_, _, -, hrun⟩ | ⟨_, -, hrun⟩⟩
      all_goals exact ⟨_, _, hrun⟩
    exact ⟨_, _, bind_ok hrun⟩

/-! ## All calls -/

theorem serve_ne_fault
    (h : c ∈ Syscall.passedOn → s.kernel.host.remap s.kernel.hostState c ≠ none) :
    (serve c a s).1 ≠ .error (.error f) := by
  intro hfault
  by_cases hmaps : c.MapsMemory
  · obtain ⟨result, s', hrun⟩ := serve_of_mapsMemory hmaps a s
    rw [hrun] at hfault
    cases hfault
  by_cases hpassed : c ∈ Syscall.passedOn
  · obtain ⟨number, hremap⟩ := Option.ne_none_iff_exists'.mp (h hpassed)
    obtain ⟨result, s', hrun⟩ := passOn_of_remap_some (a := a) hremap
    rw [serve_of_passedOn hpassed] at hfault
    rw [show some <$> passOn c a = passOn c a >>= fun r => Pure.pure (some r) from rfl,
      bind_ok hrun] at hfault
    cases hfault
  · have hcontained : Contained space (fun e => e = .crash .sumTooLarge) (serve (σ := σ) c a) :=
      contained_serve indifferent_space a hmaps (fun _ _ _ => rfl) (fun _ => rfl) fun hmem =>
        absurd hmem hpassed
    cases hcontained.fails s _ hfault

variable {e : Failure Fault}

def deliver (result : Option Int) : Exec (Platform σ) Unit :=
  match result with
  | some v => modifyMachine fun m => m.writeRegister Reg.a0 (BitVec.ofInt 64 v)
  | none => Pure.pure ()

/-- What is left of a call when its number is known. -/
theorem environmentCall_of_known (h : Syscall.ofNumber? s.callNumber = some c) :
    environmentCall s = (serve c (arguments s.machine) >>= deliver) s := by
  rw [environmentCall, get_bind_apply]
  simp only [show Syscall.ofNumber? (s.machine.registers.read Reg.a7) = some c from h]
  rfl

/-- A call fails only where it is served; its result can always be delivered. -/
theorem serve_of_environmentCall_error (h : Syscall.ofNumber? s.callNumber = some c)
    (herror : (environmentCall s).1 = .error e) :
    (serve c (arguments s.machine) s).1 = .error e := by
  rw [environmentCall_of_known h] at herror
  refine error_of_bind herror fun result t hdeliver => ?_
  cases result with
  | none => cases hdeliver
  | some v => cases hdeliver

theorem environmentCall_of_unserved (h : s.Unserved) :
    ∃ m, environmentCall s =
        (.error (.error (.syscallUnimplemented s.callNumber)), { s with machine := m }) ∧
      s.machine.Noted m := by
  rcases h with hunknown | ⟨c, hc, hknown, hremap⟩
  · rw [environmentCall, get_bind_apply]
    simp only [show Syscall.ofNumber? (s.machine.registers.read Reg.a7) = none from hunknown]
    exact ⟨_, rfl, (Machine.Noted.refl s.machine).emit (by simp [Event.kind?])⟩
  · refine ⟨s.machine, ?_, Machine.Noted.refl s.machine⟩
    rw [environmentCall_of_known hknown, serve_of_passedOn hc, ← number_of_ofNumber? hknown]
    exact bind_error (bind_error (passOn_of_remap_none hremap))

theorem environmentCall_ne_fault (h : ¬s.Unserved) :
    (environmentCall s).1 ≠ .error (.error f) := by
  intro hfault
  cases hnumber : Syscall.ofNumber? s.callNumber with
  | none => exact h (Or.inl hnumber)
  | some c =>
    refine serve_ne_fault (fun hpassed hremap => ?_) (serve_of_environmentCall_error hnumber hfault)
    exact h (Or.inr ⟨c, hpassed, hnumber, hremap⟩)

end RiscvHart.Platform
