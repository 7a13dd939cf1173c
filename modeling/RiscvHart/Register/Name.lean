import RiscvHart.Text.Numeral

/-!
# Register numbers and names

The 32 integer registers, their numeric names `x0` to `x31`, and the names of the calling
convention.
-/

namespace RiscvHart

abbrev Reg := BitVec 5

namespace Reg

/-- The names of each register in the calling convention; one register has two. -/
def conventionNames : Vector (List String) 32 :=
  #v[["zero"], ["ra"], ["sp"], ["gp"], ["tp"], ["t0"], ["t1"], ["t2"],
    ["s0", "fp"], ["s1"], ["a0"], ["a1"], ["a2"], ["a3"], ["a4"], ["a5"],
    ["a6"], ["a7"], ["s2"], ["s3"], ["s4"], ["s5"], ["s6"], ["s7"],
    ["s8"], ["s9"], ["s10"], ["s11"], ["t3"], ["t4"], ["t5"], ["t6"]]

def ofNat? (n : Nat) : Option Reg := if n < 32 then some (BitVec.ofNat 5 n) else none

def all : List Reg := List.ofFn fun i : Fin 32 => BitVec.ofFin i

def numericName (r : Reg) : String := "x" ++ Numeral.decimal r.toNat

/-- The name in the calling convention; two names are joined by a slash. -/
def abiName (r : Reg) : String := "/".intercalate conventionNames[r.toFin]

def sp : Reg := 2
def a0 : Reg := 10
def a7 : Reg := 17

def argument (i : Fin 6) : Reg := a0 + BitVec.ofNat 5 i

/-- Reads a register name: one of the calling convention, or `x` and a number below 32. Blanks
around it do not count. -/
def parse? (s : String) : Option Reg :=
  let name := Text.trim s.toList
  match all.find? fun r => conventionNames[r.toFin].contains (String.ofList name) with
  | some r => some r
  | none =>
    match name with
    | 'x' :: number =>
      match Numeral.readNatural .decimal 256 number with
      | .ok n => ofNat? n
      | .error _ => none
    | _ => none

end Reg

end RiscvHart
