import RiscvHart.Machine.Perform
import RiscvHart.Proofs.Machine.Exec

/-!
# Actions that access memory

A load or a store asks memory before it changes anything. If it is refused, the machine has read
its registers and nothing else; if it is met, all of it is done.
-/

namespace RiscvHart

open Exec

namespace Machine

/-- That nothing but the log has changed, and that no instruction is complete by it. -/
structure Noted (m m' : Machine) : Prop where
  others : m' = { m with log := m'.log }
  events : ∃ new, m'.events = m.events ++ new ∧ ∀ e ∈ new, e.kind? ≠ some .after

namespace Noted

variable {m m' : Machine}

theorem refl (m : Machine) : Noted m m :=
  ⟨rfl, [], (List.append_nil _).symm, fun _ h => absurd h List.not_mem_nil⟩

theorem emit (h : Noted m m') {e : Event} (he : e.kind? ≠ some .after) : Noted m (m'.emit e) := by
  obtain ⟨new, hnew, hkinds⟩ := h.events
  refine ⟨?_, new ++ [e], ?_, ?_⟩
  · rw [h.others]
    rfl
  · rw [Machine.events, Machine.emit, EventLog.toList_add, ← List.append_assoc, ← hnew]
    rfl
  · intro e' he'
    rcases List.mem_append.mp he' with hold | hlast
    · exact hkinds e' hold
    · rw [List.mem_singleton.mp hlast]
      exact he

theorem readRegister (h : Noted m m') (r : Reg) : Noted m (m'.readRegister r).2 :=
  h.emit (by simp [Event.kind?])

end Noted

theorem noted_before (m : Machine) (pc : Word) (c : Code) : m.Noted (m.emit (.before pc c)) :=
  (Noted.refl m).emit (by simp [Event.kind?])

variable {m : Machine} {memory : Memory} {w : Width} {addr v old : Word} {e : MemoryError}

theorem attempt_load_of_ok (h : m.memory.peek w addr = .ok v) :
    attempt (fun m => m.load w addr) m = (.ok v, m.emit (.memoryRead addr v w)) := by
  rw [attempt_eq_ok_iff, load, h]
  rfl

theorem attempt_load_of_error (h : m.memory.peek w addr = .error e) :
    attempt (fun m => m.load w addr) m = (.error (.error (.ofMemory e)), m) := by
  have hload : m.load w addr = .error e := by
    rw [load, h]
    rfl
  rw [attempt, hload]

theorem attempt_store_of_ok (hold : m.memory.peek w addr = .ok old)
    (h : m.memory.poke w addr (v.cut w) = .ok memory) :
    attempt (fun m => (m.store w addr v).map fun m' => ((), m')) m =
      (.ok (), { m with memory := memory }.emit (.memoryWrite addr (v.cut w) old w)) := by
  rw [attempt_eq_ok_iff, store, hold, Except.ok_bind, h]
  rfl

theorem attempt_store_of_error (h : m.memory.peek w addr = .error e) :
    attempt (fun m => (m.store w addr v).map fun m' => ((), m')) m =
      (.error (.error (.ofMemory e)), m) := by
  have hstore : m.store w addr v = .error e := by
    rw [store, h]
    rfl
  rw [attempt, hstore]
  rfl

end Machine

namespace Action

variable {m : Machine} {memory : Memory} {w : Width} {sign : Bool} {rs1 rs2 rd : Reg}
  {imm : BitVec 12} {v old : Word} {e : MemoryError}

theorem perform_load_of_ok (sign : Bool) (rd : Reg)
    (h : m.memory.peek w (m.registers.read rs1 + imm.signExtend 64) = .ok v) :
    ∃ m', (load w sign).perform (.i rs1 rd imm) m = (.ok none, m') ∧
      m' = { m with
        pc := ⟨m.pc.current + 4, m.pc.current⟩
        registers := m.registers.write rd (if sign then v.signExtendLow w.bits else v)
        log := m'.log } :=
  ⟨_, bind_ok (Machine.attempt_load_of_ok (m := (m.readRegister rs1).2) h), rfl⟩

theorem perform_load_of_error
    (h : m.memory.peek w (m.registers.read rs1 + imm.signExtend 64) = .error e) :
    (load w sign).perform (.i rs1 rd imm) m =
      (.error (.error (.ofMemory e)), (m.readRegister rs1).2) := by
  show (attempt _ >>= _) (m.readRegister rs1).2 = _
  exact bind_error (Machine.attempt_load_of_error h)

theorem perform_store_of_ok (rs1 rs2 : Reg) (imm : BitVec 12)
    (hold : m.memory.peek w (m.registers.read rs1 + imm.signExtend 64) = .ok old)
    (h : m.memory.poke w (m.registers.read rs1 + imm.signExtend 64)
      ((m.registers.read rs2).cut w) = .ok memory) :
    ∃ m', (store w).perform (.s rs1 rs2 imm) m = (.ok none, m') ∧
      m' = { m with
        pc := ⟨m.pc.current + 4, m.pc.current⟩, memory := memory, log := m'.log } :=
  ⟨_, bind_ok (Machine.attempt_store_of_ok
    (m := ((m.readRegister rs1).2.readRegister rs2).2) hold h), rfl⟩

theorem perform_store_of_error
    (h : m.memory.peek w (m.registers.read rs1 + imm.signExtend 64) = .error e) :
    (store w).perform (.s rs1 rs2 imm) m =
      (.error (.error (.ofMemory e)), ((m.readRegister rs1).2.readRegister rs2).2) := by
  show (attempt _ >>= _) ((m.readRegister rs1).2.readRegister rs2).2 = _
  exact bind_error (Machine.attempt_store_of_error h)

end Action

end RiscvHart
