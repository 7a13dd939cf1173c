import RiscvHart.Register.Bank

/-!
# Reading registers

All general-purpose registers hold 64 bits, but for `x0`, which holds none.
-/

namespace RiscvHart.Registers

variable (x : Registers) {r q : Reg} {v : Word}

theorem specs_gpr (i : Fin 32) :
    gpr.specs[i] = ⟨Reg.numericName (BitVec.ofFin i), 64, i.val = 0⟩ :=
  Vector.getElem_ofFn i.isLt

theorem mask_gpr (i : Fin 32) :
    gpr.specs[i].mask = if i = 0 then 0 else BitVec.allOnes 64 := by
  rw [specs_gpr, RegisterSpec.mask]
  dsimp only
  by_cases hi : i = 0
  · rw [hi, if_pos rfl]
    rfl
  · have hval : ¬i.val = 0 := fun h => hi (Fin.ext h)
    rw [if_neg hi, if_neg (by rw [decide_eq_true_eq]; exact hval)]
    exact BitVec.setWidth_eq _

theorem read_zero : x.read 0 = 0 := by
  have hfits := x.fits 0 (by decide)
  have hmask : gpr.specs[0].mask = 0 := mask_gpr 0
  rw [hmask] at hfits
  exact hfits.symm.trans BitVec.and_zero

/-- A write is seen in its own register, unless that is `x0`, and in no other. -/
theorem read_write : (x.write r v).read q = if q = r ∧ r ≠ 0 then v else x.read q := by
  by_cases hq : q = r
  · by_cases hr : r = 0
    · rw [if_neg fun h => h.2 hr, hq, hr, read_zero, read_zero]
    · have hne : r.toFin ≠ 0 := fun h => hr (BitVec.eq_of_toFin_eq h)
      rw [if_pos ⟨hq, hr⟩, hq, read, write, Bank.get_set_self, mask_gpr, if_neg hne,
        BitVec.and_allOnes]
  · have hne : r.toFin ≠ q.toFin := fun h => hq (BitVec.eq_of_toFin_eq h.symm)
    rw [if_neg fun h => hq h.1, read, write, Bank.get_set_ne _ _ hne, read]

end RiscvHart.Registers
