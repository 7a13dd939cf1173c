import RiscvHart.Isa.Action
import RiscvHart.Isa.Decoder
import RiscvHart.Machine.Basic

/-!
# Performing instructions

What a decoded instruction does to a machine. Source registers are read before the destination is
written, so an instruction may name one register as both. The program counter moves last, and an
instruction that fails has not moved it.
-/

namespace RiscvHart

namespace Machine

def read (r : Reg) : Exec Machine Word := fun m =>
  let (v, m') := m.readRegister r
  (.ok v, m')

def write (r : Reg) (v : Word) : Exec Machine Unit := Exec.modify fun m => m.writeRegister r v

def here : Exec Machine Word := fun m => (.ok m.pc.current, m)

def goTo (target : Word) : Exec Machine Unit := Exec.modify fun m => m.jump target

def goOn : Exec Machine Unit := Exec.modify fun m => m.jump (m.pc.current + 4)

end Machine

namespace Action

open Machine

/-- Performs an action with its operands. Gives the trap that it raises. -/
def perform (a : Action) (o : Operands) : Exec Machine (Option Trap) :=
  match a, o with
  | compute f, .r rs1 rs2 rd => do
    let x ← read rs1
    let y ← read rs2
    write rd (f x y)
    goOn
    return none
  | compute f, .i rs1 rd imm => do
    let x ← read rs1
    write rd (f x (imm.signExtend 64))
    goOn
    return none
  | shift f, .i rs1 rd imm => do
    let x ← read rs1
    write rd (f x (BitVec.ofNat 64 (imm.toNat % 64)))
    goOn
    return none
  | shiftW f, .r rs1 amount rd => do
    let x ← read rs1
    write rd (f x (amount.setWidth 64))
    goOn
    return none
  | branch taken, .b rs1 rs2 imm => do
    let x ← read rs1
    let y ← read rs2
    if taken x y then
      goTo ((← here) + imm.signExtend 64)
    else
      goOn
    return none
  | load width signed, .i rs1 rd imm => do
    let base ← read rs1
    let v ← Exec.attempt fun m => m.load width (base + imm.signExtend 64)
    write rd (if signed then v.signExtendLow width.bits else v)
    goOn
    return none
  | store width, .s rs1 rs2 imm => do
    let base ← read rs1
    let v ← read rs2
    Exec.attempt fun m => (m.store width (base + imm.signExtend 64) v).map fun m' => ((), m')
    goOn
    return none
  | upper, .u rd imm => do
    write rd (imm.signExtend 64)
    goOn
    return none
  | upperFromPc, .u rd imm => do
    write rd ((← here) + imm.signExtend 64)
    goOn
    return none
  | jump, .j rd imm => do
    let pc ← here
    write rd (pc + 4)
    goTo (pc + imm.signExtend 64)
    return none
  | jumpRegister, .i rs1 rd imm => do
    let pc ← here
    let base ← read rs1
    write rd (pc + 4)
    goTo ((base + imm.signExtend 64) &&& ~~~1)
    return none
  | fence, _ => do
    goOn
    return none
  | trap t, _ => do
    goOn
    return some t
  | _, _ => Exec.crash .operandsMismatch

end Action

end RiscvHart
