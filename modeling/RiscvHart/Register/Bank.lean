import RiscvHart.Register.Name

/-!
# Register banks

A class of registers fixes the name and width of each of its registers and which of them cannot
be written. A bank holds their values. A value never has bits outside its register's width, and a
register that cannot be written holds zero.
-/

namespace RiscvHart

structure RegisterSpec where
  name : String
  width : Nat
  readOnly : Bool

namespace RegisterSpec

/-- Whether values of the width fit into a word, and hold something at all. -/
def HasWidth (s : RegisterSpec) : Prop := 0 < s.width ∧ s.width ≤ 64

instance (s : RegisterSpec) : Decidable s.HasWidth := inferInstanceAs (Decidable (_ ∧ _))

def mask (s : RegisterSpec) : Word := if s.readOnly then 0 else (BitVec.allOnes s.width).setWidth 64

theorem mask_eq_zero (s : RegisterSpec) (h : s.readOnly = true) : s.mask = 0 := by simp [mask, h]

end RegisterSpec

/-- An ordered set of registers under a common name. -/
structure RegisterClass (n : Nat) where
  name : String
  specs : Vector RegisterSpec n

/-- The values of the registers of a class. -/
structure Bank {n : Nat} (c : RegisterClass n) where
  values : Vector Word n
  fits : ∀ i (h : i < n), values[i] &&& c.specs[i].mask = values[i]

namespace Bank

variable {n : Nat} {c : RegisterClass n}

def zero (c : RegisterClass n) : Bank c where
  values := Vector.replicate n 0
  fits := by simp

instance : Inhabited (Bank c) := ⟨zero c⟩

def get (b : Bank c) (i : Fin n) : Word := b.values[i]

/-- Writes a register: it keeps the bits of its width, or all it had if it cannot be written. -/
def set (b : Bank c) (i : Fin n) (v : Word) : Bank c :=
  if c.specs[i].readOnly then b
  else
    { values := b.values.set i (v &&& c.specs[i].mask)
      fits := by
        intro j hj
        rw [Vector.getElem_set]
        split
        · next h => subst h; simp [BitVec.and_assoc]
        · exact b.fits j hj }

theorem get_set_ne (b : Bank c) {i j : Fin n} (v : Word) (h : i ≠ j) :
    (b.set i v).get j = b.get j := by
  unfold set get
  split
  · rfl
  · simp only [Fin.getElem_fin]
    rw [Vector.getElem_set_ne]
    exact fun e => h (Fin.ext e)

theorem get_set_self (b : Bank c) (i : Fin n) (v : Word) :
    (b.set i v).get i = v &&& c.specs[i].mask := by
  unfold set get
  split
  · next h =>
    have held := b.fits i i.isLt
    have none_open := RegisterSpec.mask_eq_zero _ h
    simp only [Fin.getElem_fin] at none_open ⊢
    rw [none_open] at held ⊢
    simpa using held.symm
  · simp

end Bank

/-- The general-purpose registers: 64 bits each, and the first one always zero. -/
def gpr : RegisterClass 32 where
  name := "GPR"
  specs := Vector.ofFn fun i => ⟨Reg.numericName (BitVec.ofFin i), 64, i.val = 0⟩

abbrev Registers := Bank gpr

namespace Registers

def read (x : Registers) (r : Reg) : Word := Bank.get x r.toFin

/-- Writes a register; a write to `x0` is lost. -/
def write (x : Registers) (r : Reg) (v : Word) : Registers := Bank.set x r.toFin v

def nonzero (x : Registers) : List (Reg × Word) :=
  (Reg.all.map fun r => (r, x.read r)).filter fun (_, v) => v ≠ 0

/-- One register in the table: its name in seven places and its value in sixteen digits. -/
def cell (x : Registers) (r : Reg) : String :=
  let name := r.abiName
  String.ofList (List.replicate (6 - name.length) ' ') ++ name ++ ": " ++
    Numeral.hexMarkedPadded 16 (x.read r).toNat ++ "  "

def table (x : Registers) : String :=
  let rows := (List.range 4).map fun k =>
    "  " ++ String.join (((Reg.all.drop (8 * k)).take 8).map x.cell) ++ "\n"
  "reg_file \x7b\n" ++ String.join rows ++ "\x7d"

end Registers

end RiscvHart
