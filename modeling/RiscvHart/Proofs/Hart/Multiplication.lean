import RiscvHart.Proofs.Hart.Conformance
import RiscvHart.Proofs.Isa.Completeness
import RiscvHart.Proofs.Isa.Multiplication

/-!
# Steps that multiply and divide

A step on a word of the extension for multiplication and division puts the number into its
destination that the laws of the instruction set determine, wherever its operands come from and
wherever the result goes.
-/

namespace RiscvHart

namespace Isa

theorem format_of_multiplication :
    ∀ e ∈ (table : List Entry), e.instr ∈ multiplications ++ divisions →
      e.encoding.format = .r := by
  decide

end Isa

namespace Platform

variable {σ : Type} {s : Platform σ} {c : Code} {i : Instr}

/-- A step on a word of an instruction that multiplies or divides succeeds, and its result is the
only one that the laws allow. -/
theorem step_multiplies (hfetch : s.machine.memory.fetch s.machine.pc.current = .ok c)
    (hencodes : Isa.Encodes i c.toNat) (hi : i ∈ Isa.multiplications ++ Isa.divisions) :
    ∃ v, (∀ v', Isa.Yields i (s.machine.registers.read (Isa.rs1 c.toNat)).toNat
        (s.machine.registers.read (Isa.rs2 c.toNat)).toNat v' ↔ v' = v) ∧
      ∃ index s', step s = (.ok (), s') ∧ Retires i index c v s s' := by
  obtain ⟨index, e, hdecode, rfl⟩ := (Isa.encodes_iff_select i c).mp hencodes
  obtain ⟨f, haction, hyields⟩ := Isa.exists_compute hi
  obtain ⟨v, hv, hresult⟩ := hyields (s.machine.registers.read c.rs1)
    (s.machine.registers.read c.rs2)
  have hformat := Isa.format_of_multiplication e (Decoder.select_known hdecode).1 hi
  have heffect : e.instr.action.effect? (e.read c).operands s.machine.pc.current
      s.machine.registers = some ⟨s.machine.pc.current + 4, some (c.rd, BitVec.ofInt 64 v)⟩ := by
    rw [haction, ← hresult, Entry.read, hformat]
    rfl
  obtain ⟨s', hstep, hnext, hwritten, hothers⟩ := step_of_effect? hfetch hdecode heffect
  rw [c.rs1_eq, c.rs2_eq] at hv
  refine ⟨v, fun v' => ⟨fun hv' => hv'.unique hv, fun heq => heq ▸ hv⟩, index, s', hstep, ?_⟩
  exact retires_of_write hfetch hencodes hnext hwritten hothers

/-- A machine before a division of the most negative number by `-1`, whose destination is its
dividend. -/
def dividing : Machine :=
  { MemoryRequest.performAll [.allocate 0x1000 16, .write .word 0x1000 0x0262C2B3]
      (.start (.empty 0x2000) 0x1000) with
    registers := Registers.write (Registers.write (.zero gpr) 5 (BitVec.intMin 64)) 6 (-1) }

theorem step_multiplies_div :
    dividing.memory.fetch dividing.pc.current = .ok 0x0262C2B3 ∧ Isa.Encodes .div 0x0262C2B3 ∧
      ∃ index s', step ⟨dividing, Kernel.start (Host.unsupported (σ := Unit)) () 0⟩ = (.ok (), s') ∧
        Retires .div index 0x0262C2B3 (-2 ^ 63)
          ⟨dividing, Kernel.start (Host.unsupported (σ := Unit)) () 0⟩ s' ∧
        s'.machine.registers.read 5 = BitVec.intMin 64 := by
  have hfetch : dividing.memory.fetch dividing.pc.current = .ok 0x0262C2B3 := by
    decide +kernel
  have hencodes : Isa.Encodes .div (0x0262C2B3 : Code).toNat := ⟨rfl, rfl, rfl⟩
  obtain ⟨v, hv, index, s', hstep, hretires⟩ := step_multiplies
    (s := ⟨dividing, Kernel.start (Host.unsupported (σ := Unit)) () 0⟩) hfetch hencodes (by decide)
  have hdivision : Isa.Division 64 (-2 ^ 63) (-1) (-2 ^ 63) 0 :=
    ⟨fun h => absurd h (by decide), fun _ _ => ⟨rfl, rfl⟩, fun _ h => absurd rfl (h rfl)⟩
  have hfirst : Isa.signed 64 (dividing.registers.read 5).toNat = -2 ^ 63 := by decide +kernel
  have hsecond : Isa.signed 64 (dividing.registers.read 6).toNat = -1 := by decide +kernel
  obtain rfl : -2 ^ 63 = v := by
    refine (hv _).mp ⟨0, ?_⟩
    show Isa.Division 64 (Isa.signed 64 (dividing.registers.read 5).toNat)
      (Isa.signed 64 (dividing.registers.read 6).toNat) _ _
    rw [hfirst, hsecond]
    exact hdivision
  exact ⟨hfetch, hencodes, index, s', hstep, hretires, hretires.destination (by decide)⟩

end Platform

end RiscvHart
