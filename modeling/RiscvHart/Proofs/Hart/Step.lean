import RiscvHart.Hart.Step
import RiscvHart.Proofs.Machine.Effect

/-!
# How a step goes

A step ends early if its word cannot be fetched or is not known, and else does what its action
does. A step whose action only computes succeeds and changes the machine as the effect of the
action says.
-/

namespace RiscvHart.Platform

open Exec

variable {σ : Type} {s : Platform σ} {c : Code} {index : Nat} {e : Entry}

theorem fetch_of_ok (h : s.machine.memory.fetch s.machine.pc.current = .ok c) :
    fetch s = (.ok c, s) := by
  have hattempt : attempt (fun m => (m.memory.fetch m.pc.current).map fun c => (c, m)) s.machine =
      (.ok c, s.machine) := by
    rw [attempt_eq_ok_iff, h]
    rfl
  rw [fetch, onMachine, Exec.on, hattempt]

theorem step_of_fetch_error {e : MemoryError}
    (h : s.machine.memory.fetch s.machine.pc.current = .error e) :
    step s = (.error (.error (.ofMemory e)), s) := by
  have hattempt : attempt (fun m => (m.memory.fetch m.pc.current).map fun c => (c, m)) s.machine =
      (.error (.error (.ofMemory e)), s.machine) := by
    rw [attempt, h]
    rfl
  have hfetch : fetch s = (.error (.error (.ofMemory e)), s) := by
    rw [fetch, onMachine, Exec.on, hattempt]
  exact bind_error hfetch

theorem step_of_unknown (hfetch : s.machine.memory.fetch s.machine.pc.current = .ok c)
    (h : Decoder.select table c = .unknown) :
    step s = (.error (.error (.illegalInstruction c s.machine.pc.current)), { s with
      machine := (s.machine.emit (.before s.machine.pc.current c)).emit
        (.remarked (.illegalInstruction c s.machine.pc.current)) }) := by
  rw [step, bind_ok (fetch_of_ok hfetch), get_bind_apply, modifyMachine, modify_bind_apply]
  refine bind_error ?_
  rw [decode, h]
  rfl

theorem decode_of_known (h : Decoder.select table c = .known index e) :
    decode c s = (.ok (index, e), s) := by
  rw [decode, h]
  rfl

/-- What is left of a step when the entry of its word is found. -/
theorem step_of_known (hfetch : s.machine.memory.fetch s.machine.pc.current = .ok c)
    (hdecode : Decoder.select table c = .known index e) :
    step s = (do
      let trap ← onMachine (e.instr.action.perform (e.read c).operands)
      serveTrap s.machine.pc.current trap
      complete ⟨s.machine.pc.current, c, index, e.instr⟩)
        { s with machine := s.machine.emit (.before s.machine.pc.current c) } := by
  rw [step, bind_ok (fetch_of_ok hfetch), get_bind_apply, modifyMachine, modify_bind_apply,
    bind_ok (decode_of_known hdecode)]

def started (s : Platform σ) (c : Code) : Platform σ :=
  { s with machine := s.machine.emit (.before s.machine.pc.current c) }

def carryOut (pc : Word) (c : Code) (e : Entry) : Exec (Platform σ) Unit := do
  let trap ← onMachine (e.instr.action.perform (e.read c).operands)
  serveTrap pc trap

theorem step_eq_carryOut (hfetch : s.machine.memory.fetch s.machine.pc.current = .ok c)
    (hdecode : Decoder.select table c = .known index e) :
    step s = (carryOut s.machine.pc.current c e >>= fun _ =>
      complete ⟨s.machine.pc.current, c, index, e.instr⟩) (s.started c) := by
  rw [step_of_known hfetch hdecode, carryOut, bind_assoc]
  rfl

theorem action_eq_environmentCall {i : Instr} (h : i.action = .trap .environmentCall) :
    i = .ecall := by
  cases i <;> first | rfl | cases h

theorem action_eq_breakpoint {i : Instr} (h : i.action = .trap .breakpoint) : i = .ebreak := by
  cases i <;> first | rfl | cases h

/-- A step goes through fetch, decoding and the action, and notes the instruction last. -/
theorem step_of_perform {m : Machine}
    (hfetch : s.machine.memory.fetch s.machine.pc.current = .ok c)
    (hdecode : Decoder.select table c = .known index e)
    (hperform : e.instr.action.perform (e.read c).operands
      (s.machine.emit (.before s.machine.pc.current c)) = (.ok none, m)) :
    step s = (.ok (), { s with
      machine := { m with last := some ⟨s.machine.pc.current, c, index, e.instr⟩ }.emit
        (.after ⟨s.machine.pc.current, c, index, e.instr⟩ m.pc.current) }) := by
  rw [step_of_known hfetch hdecode, bind_apply, onMachine, Exec.on, hperform]
  rfl

theorem step_of_perform_error {m : Machine} {failure : Failure Fault}
    (hfetch : s.machine.memory.fetch s.machine.pc.current = .ok c)
    (hdecode : Decoder.select table c = .known index e)
    (hperform : e.instr.action.perform (e.read c).operands
      (s.machine.emit (.before s.machine.pc.current c)) = (.error failure, m)) :
    step s = (.error failure, { s with machine := m }) := by
  rw [step_of_known hfetch hdecode, bind_apply, onMachine, Exec.on, hperform]

theorem step_of_effect? {f : Effect}
    (hfetch : s.machine.memory.fetch s.machine.pc.current = .ok c)
    (hdecode : Decoder.select table c = .known index e)
    (heffect : e.instr.action.effect? (e.read c).operands s.machine.pc.current
      s.machine.registers = some f) :
    ∃ s', step s = (.ok (), s') ∧
      s'.machine.pc.current = f.next ∧
      s'.machine.registers = f.registers s.machine.registers ∧
      s' = { s with machine := { s.machine with
        pc := ⟨s'.machine.pc.current, s.machine.pc.current⟩
        registers := s'.machine.registers
        last := some ⟨s.machine.pc.current, c, index, e.instr⟩
        log := s'.machine.log } } := by
  obtain ⟨m, hperform, hm⟩ := Action.perform_of_effect?
    (m := s.machine.emit (.before s.machine.pc.current c)) heffect
  refine ⟨_, step_of_perform hfetch hdecode hperform, ?_, ?_, ?_⟩
  all_goals
    rw [hm]
    rfl

end RiscvHart.Platform
