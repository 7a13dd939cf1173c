import RiscvHart.Isa.Assembly
import RiscvHart.Machine.Perform
import RiscvHart.Proofs.Isa.RoundTrip
import RiscvHart.Proofs.Machine.Effect
import RiscvHart.Proofs.Text.Numeral

/-!
# What assembly text says

The operands that are written after a mnemonic are taken as data of their own, a statement:
absolute targets, amounts of shifts, signed immediates. A statement can be read off its text, and
it can be carried out without the word that it was written for. An instruction of the table does
what is written of it, so words with one text have one behaviour.
-/

namespace RiscvHart

inductive Statement where
  | alone
  | registers (rd rs1 rs2 : Reg)
  /-- Two registers with an immediate or the amount of a shift. -/
  | immediate (rd rs1 : Reg) (n : Int)
  /-- A register with the place in memory, or to go on at, that an offset from another gives. -/
  | offset (r base : Reg) (n : Int)
  /-- Two registers to compare, with the address to go on at. -/
  | comparison (rs1 rs2 : Reg) (target : Word)
  /-- A register with an upper immediate or the address to go on at. -/
  | value (rd : Reg) (v : Word)
  deriving DecidableEq, Repr

namespace Statement

def items : Statement → List String
  | alone => []
  | registers rd rs1 rs2 => [rd.numericName, rs1.numericName, rs2.numericName]
  | immediate rd rs1 n => [rd.numericName, rs1.numericName, Numeral.signed n]
  | offset r base n => [r.numericName, Numeral.signed n ++ "(" ++ base.numericName ++ ")"]
  | comparison rs1 rs2 target => [rs1.numericName, rs2.numericName, target.hex]
  | value rd v => [rd.numericName, v.hex]

def text (i : Instr) (s : Statement) : String :=
  match s.items with
  | [] => i.mnemonic
  | items => i.mnemonic ++ " " ++ ", ".intercalate items

end Statement

/-! ## Reading a text -/

theorem List.eq_of_append_separator {α : Type} {c : α} {xs ys rs ss : List α} (hx : c ∉ xs)
    (hy : c ∉ ys) (h : xs ++ c :: rs = ys ++ c :: ss) : xs = ys ∧ rs = ss := by
  induction xs generalizing ys with
  | nil =>
    cases ys with
    | nil => exact ⟨rfl, (List.cons.inj h).2⟩
    | cons y ys =>
      rw [List.mem_cons, not_or] at hy
      exact absurd (List.cons.inj h).1 hy.1
  | cons x xs ih =>
    rw [List.mem_cons, not_or] at hx
    cases ys with
    | nil => exact absurd (List.cons.inj h).1.symm hx.1
    | cons y ys =>
      rw [List.mem_cons, not_or] at hy
      obtain ⟨hhead, htail⟩ := List.cons.inj h
      obtain ⟨hrest, hafter⟩ := ih hx.2 hy.2 htail
      exact ⟨by rw [hhead, hrest], hafter⟩

theorem intercalate_ne_of_not_mem {x y y' : String} {ys : List String} (hx : ',' ∉ x.toList) :
    x ≠ ", ".intercalate (y :: y' :: ys) := by
  intro h
  apply hx
  rw [h, String.intercalate_cons_cons]
  simp [String.toList_append]

/-- Items without a comma can be told apart after they are joined by commas. -/
theorem eq_of_intercalate_eq {xs ys : List String} (hx : ∀ x ∈ xs, ',' ∉ x.toList)
    (hy : ∀ y ∈ ys, ',' ∉ y.toList) (hxs : xs ≠ []) (hys : ys ≠ [])
    (h : ", ".intercalate xs = ", ".intercalate ys) : xs = ys := by
  induction xs generalizing ys with
  | nil => exact absurd rfl hxs
  | cons x xs ih =>
    obtain ⟨y, ys, rfl⟩ := List.exists_cons_of_ne_nil hys
    rw [List.forall_mem_cons] at hx hy
    cases xs with
    | nil =>
      cases ys with
      | nil => simpa using h
      | cons y' ys => exact absurd (by simpa using h) (intercalate_ne_of_not_mem hx.1)
    | cons x' xs =>
      cases ys with
      | nil => exact absurd (by simpa using h.symm) (intercalate_ne_of_not_mem hy.1)
      | cons y' ys =>
        rw [String.intercalate_cons_cons, String.intercalate_cons_cons] at h
        have hchars := congrArg String.toList h
        simp only [String.toList_append, List.append_assoc] at hchars
        obtain ⟨hfirst, hrest⟩ := List.eq_of_append_separator hx.1 hy.1 hchars
        have hjoined : ", ".intercalate (x' :: xs) = ", ".intercalate (y' :: ys) :=
          String.toList_inj.mp (List.cons.inj hrest).2
        rw [String.toList_inj.mp hfirst,
          ih hx.2 hy.2 (List.cons_ne_nil _ _) (List.cons_ne_nil _ _) hjoined]

namespace Instr

theorem mnemonic_injective : Function.Injective mnemonic := by
  have hnodup : (all.map mnemonic).Nodup := by decide
  intro i j h
  exact List.inj_on_of_nodup_map hnodup i.mem_all j.mem_all h

theorem blank_not_mem_mnemonic (i : Instr) : ' ' ∉ i.mnemonic.toList := by
  have hall : ∀ j ∈ all, ' ' ∉ j.mnemonic.toList := by decide
  exact hall i i.mem_all

end Instr

namespace Statement

variable {s t : Statement} {i j : Instr}

theorem comma_not_mem_items (s : Statement) : ∀ x ∈ s.items, ',' ∉ x.toList := by
  have hname : ∀ r : Reg, ',' ∉ r.numericName.toList :=
    Reg.not_mem_numericName (by decide) (by decide)
  have hsigned : ∀ n : Int, ',' ∉ (Numeral.signed n).toList :=
    Numeral.not_mem_signed (by decide) (by decide)
  have hhex : ∀ v : Word, ',' ∉ v.hex.toList := fun v =>
    Numeral.not_mem_hexMarked (by decide) (by decide) _
  cases s <;> simp [items, String.toList_append, hname, hsigned, hhex]

theorem offset_text_inj {a b : Reg} {n m : Int}
    (h : Numeral.signed n ++ "(" ++ a.numericName ++ ")" =
      Numeral.signed m ++ "(" ++ b.numericName ++ ")") : n = m ∧ a = b := by
  have hopen : ∀ k : Int, '(' ∉ (Numeral.signed k).toList :=
    Numeral.not_mem_signed (by decide) (by decide)
  have hchars := congrArg String.toList h
  simp only [String.toList_append, List.append_assoc] at hchars
  obtain ⟨hnumber, hname⟩ := List.eq_of_append_separator (hopen n) (hopen m) hchars
  exact ⟨Numeral.signed_injective (String.toList_inj.mp hnumber),
    Reg.numericName_injective (String.toList_inj.mp (List.append_cancel_right hname))⟩

theorem numericName_ne_signed (r : Reg) (n : Int) : r.numericName ≠ Numeral.signed n := by
  intro h
  have hx : 'x' ∉ (Numeral.signed n).toList := Numeral.not_mem_signed (by decide) (by decide) n
  rw [← h, Reg.numericName, String.toList_append] at hx
  exact hx List.mem_cons_self

theorem numericName_ne_hex (r : Reg) (v : Word) : r.numericName ≠ v.hex := by
  intro h
  have hchars := congrArg String.toList h
  rw [Reg.numericName, Word.hex, Numeral.hexMarked, String.toList_append, String.toList_append]
    at hchars
  exact absurd (List.cons.inj hchars).1 (by decide)

theorem hex_ne_signed (v : Word) (n : Int) : v.hex ≠ Numeral.signed n := by
  intro h
  have hx : 'x' ∉ (Numeral.signed n).toList := Numeral.not_mem_signed (by decide) (by decide) n
  rw [← h, Word.hex, Numeral.hexMarked, String.toList_append] at hx
  exact hx (List.mem_cons_of_mem _ List.mem_cons_self)

theorem offset_text_ne_hex (n : Int) (r : Reg) (v : Word) :
    Numeral.signed n ++ "(" ++ r.numericName ++ ")" ≠ v.hex := by
  intro h
  have hopen : '(' ∉ v.hex.toList := Numeral.not_mem_hexMarked (by decide) (by decide) _
  rw [← h] at hopen
  simp [String.toList_append] at hopen

/-- The items are of a different number or kind for every kind of statement. -/
theorem items_injective : Function.Injective items := by
  intro s t h
  cases s <;> cases t <;>
    simp only [items, List.cons.injEq, reduceCtorEq, and_false, and_true,
      Reg.numericName_injective.eq_iff, Numeral.signed_injective.eq_iff,
      Word.hex_injective.eq_iff, numericName_ne_signed, numericName_ne_hex, hex_ne_signed,
      offset_text_ne_hex, (numericName_ne_signed _ _).symm, (numericName_ne_hex _ _).symm,
      (hex_ne_signed _ _).symm, (offset_text_ne_hex _ _ _).symm] at h
  case alone.alone => rfl
  case offset.offset =>
    obtain ⟨hregister, hplace⟩ := h
    obtain ⟨hnumber, hbase⟩ := offset_text_inj hplace
    rw [hregister, hnumber, hbase]
  all_goals simp [h]

theorem text_eq (i : Instr) (s : Statement) :
    ∃ rest, (text i s).toList = i.mnemonic.toList ++ rest ∧
      (s.items = [] ∧ rest = [] ∨
        s.items ≠ [] ∧ rest = ' ' :: (", ".intercalate s.items).toList) := by
  unfold text
  split
  · next hitems => exact ⟨[], by simp, Or.inl ⟨hitems, rfl⟩⟩
  · next hitems =>
    refine ⟨' ' :: (", ".intercalate s.items).toList, ?_, Or.inr ⟨hitems, rfl⟩⟩
    simp [String.toList_append]

theorem text_alone_ne {rest : List Char} (i j : Instr) :
    i.mnemonic.toList ≠ j.mnemonic.toList ++ ' ' :: rest := by
  intro h
  apply i.blank_not_mem_mnemonic
  rw [h]
  simp

/-- A text has one reading. -/
theorem text_inj (h : text i s = text j t) : i = j ∧ s = t := by
  obtain ⟨rest, hi, hrest⟩ := text_eq i s
  obtain ⟨rest', hj, hrest'⟩ := text_eq j t
  have hchars : i.mnemonic.toList ++ rest = j.mnemonic.toList ++ rest' := by rw [← hi, ← hj, h]
  have hread : i.mnemonic = j.mnemonic ∧ s.items = t.items := by
    rcases hrest with ⟨hs, rfl⟩ | ⟨hs, rfl⟩ <;> rcases hrest' with ⟨ht, rfl⟩ | ⟨ht, rfl⟩
    · have hsame : i.mnemonic.toList = j.mnemonic.toList := by simpa using hchars
      exact ⟨String.toList_inj.mp hsame, by rw [hs, ht]⟩
    · exact absurd (by simpa using hchars) (text_alone_ne i j)
    · exact absurd (by simpa using hchars.symm) (text_alone_ne j i)
    · obtain ⟨hsame, hjoined⟩ := List.eq_of_append_separator i.blank_not_mem_mnemonic
        j.blank_not_mem_mnemonic hchars
      exact ⟨String.toList_inj.mp hsame, eq_of_intercalate_eq s.comma_not_mem_items
        t.comma_not_mem_items hs ht (String.toList_inj.mp hjoined)⟩
  exact ⟨Instr.mnemonic_injective hread.1, items_injective hread.2⟩

/-! ## Carrying out a statement -/

def ofOperands (style : OperandStyle) (o : Operands) (pc : Word) : Statement :=
  match style, o with
  | .omitted, _ => alone
  | _, .bare => alone
  | .shiftAmount, .r rs1 rs2 rd => immediate rd rs1 rs2.toNat
  | _, .r rs1 rs2 rd => registers rd rs1 rs2
  | .shiftAmount, .i rs1 rd imm => immediate rd rs1 (imm.toNat % 64 : Nat)
  | .offset, .i rs1 rd imm => offset rd rs1 imm.toInt
  | .plain, .i rs1 rd imm => immediate rd rs1 imm.toInt
  | _, .s rs1 rs2 imm => offset rs2 rs1 imm.toInt
  | _, .b rs1 rs2 imm => comparison rs1 rs2 (pc + imm.signExtend 64)
  | _, .u rd imm => value rd (BitVec.ofNat 64 (imm.toNat >>> 12))
  | _, .j rd imm => value rd (pc + imm.signExtend 64)

theorem items_ofOperands (style : OperandStyle) (o : Operands) (pc : Word) :
    (ofOperands style o pc).items = Assembly.operands style o pc := by
  have hupper : ∀ imm : BitVec 32,
      Word.hex (BitVec.ofNat 64 (imm.toNat >>> 12)) = Numeral.hexMarked (imm.toNat >>> 12) := by
    intro imm
    have hfits : imm.toNat >>> 12 < 2 ^ 64 := by
      rw [Nat.shiftRight_eq_div_pow]
      omega
    rw [Word.hex, BitVec.toNat_ofNat, Nat.mod_eq_of_lt hfits]
  cases o with
  | u rd imm => cases style <;> simp [ofOperands, items, Assembly.operands, hupper]
  | _ => cases style <;> rfl

/-- Carries out an action on what is written of its operands. Numbers stand for themselves as
words; only an upper immediate is moved to its place, and a target of a jump through a
register made even. -/
def act (a : Action) (s : Statement) : Exec Machine (Option Trap) :=
  match a, s with
  | .compute f, .registers rd rs1 rs2 => do
    let x ← Machine.read rs1
    let y ← Machine.read rs2
    Machine.write rd (f x y)
    Machine.goOn
    return none
  | .compute f, .immediate rd rs1 n | .shift f, .immediate rd rs1 n
  | .shiftW f, .immediate rd rs1 n => do
    let x ← Machine.read rs1
    Machine.write rd (f x (BitVec.ofInt 64 n))
    Machine.goOn
    return none
  | .branch taken, .comparison rs1 rs2 target => do
    let x ← Machine.read rs1
    let y ← Machine.read rs2
    if taken x y then
      Machine.goTo target
    else
      Machine.goOn
    return none
  | .load width signed, .offset rd base n => do
    let x ← Machine.read base
    let v ← Exec.attempt fun m => m.load width (x + BitVec.ofInt 64 n)
    Machine.write rd (if signed then v.signExtendLow width.bits else v)
    Machine.goOn
    return none
  | .store width, .offset rs2 base n => do
    let x ← Machine.read base
    let v ← Machine.read rs2
    Exec.attempt fun m => (m.store width (x + BitVec.ofInt 64 n) v).map fun m' => ((), m')
    Machine.goOn
    return none
  | .upper, .value rd v => do
    Machine.write rd (Word.signExtend32 (v <<< 12))
    Machine.goOn
    return none
  | .upperFromPc, .value rd v => do
    Machine.write rd ((← Machine.here) + (Word.signExtend32 (v <<< 12)))
    Machine.goOn
    return none
  | .jump, .value rd target => do
    Machine.write rd ((← Machine.here) + 4)
    Machine.goTo target
    return none
  | .jumpRegister, .offset rd base n => do
    let pc ← Machine.here
    let x ← Machine.read base
    Machine.write rd (pc + 4)
    Machine.goTo ((x + BitVec.ofInt 64 n) &&& ~~~1)
    return none
  | .fence, .alone => do
    Machine.goOn
    return none
  | .trap t, .alone => do
    Machine.goOn
    return some t
  | _, _ => Exec.crash .operandsMismatch

end Statement

namespace Action

/-- The formats and styles of operands that instructions with this action have. -/
def written (a : Action) (f : Format) (style : OperandStyle) : Bool :=
  match a, f, style with
  | compute _, .r, .plain | compute _, .i, .plain | shift _, .i, .shiftAmount => true
  | shiftW _, .r, .shiftAmount | branch _, .b, .plain => true
  | load _ _, .i, .offset | store _, .s, .plain => true
  | upper, .u, .plain | upperFromPc, .u, .plain | jump, .j, .plain => true
  | jumpRegister, .i, .offset => true
  | fence, .i, .omitted | trap _, .bare, .omitted => true
  | _, _, _ => false

theorem written_of_mem_table {e : Entry} (h : e ∈ table) :
    e.instr.action.written e.encoding.format e.instr.operandStyle = true := by
  have hall : ∀ e ∈ table,
      e.instr.action.written e.encoding.format e.instr.operandStyle = true := by decide
  exact hall e h

end Action

theorem Code.upper_immU (c : Code) :
    Word.signExtend32 (BitVec.ofNat 64 (c.immU.toNat >>> 12) <<< 12) = c.immU.signExtend 64 := by
  have hupper : c.immU.toNat = (c.extractLsb' 12 20).toNat * 4096 := by
    rw [immU, toNat_append]
    simp
  have hfits : (c.extractLsb' 12 20).toNat < 2 ^ 20 := BitVec.isLt _
  rw [Word.signExtend32]
  congr 1
  apply BitVec.eq_of_toNat_eq
  simp only [BitVec.toNat_setWidth, BitVec.toNat_shiftLeft, BitVec.toNat_ofNat, hupper,
    Nat.shiftRight_eq_div_pow, Nat.shiftLeft_eq]
  omega

namespace Statement

theorem act_comparison (taken : Word → Word → Bool) (rs1 rs2 : Reg) (target : Word) (m : Machine) :
    act (.branch taken) (.comparison rs1 rs2 target) m =
      (.ok none, ((m.readRegister rs1).2.readRegister rs2).2.jump
        (if taken (m.registers.read rs1) (m.registers.read rs2) then target
          else m.pc.current + 4)) := by
  show (ite (taken (m.registers.read rs1) (m.registers.read rs2) = true) _ _ :
    Exec Machine (Option Trap)) ((m.readRegister rs1).2.readRegister rs2).2 = _
  by_cases htaken : taken (m.registers.read rs1) (m.registers.read rs2) = true
  · rw [if_pos htaken, if_pos htaken]
    rfl
  · rw [if_neg htaken, if_neg htaken]
    rfl

/-- An instruction does what is written of it. -/
theorem perform_eq_act {a : Action} {f : Format} {style : OperandStyle}
    (h : a.written f style = true) (c : Code) (m : Machine) :
    a.perform (f.extract c) m = act a (ofOperands style (f.extract c) m.pc.current) m := by
  unfold Action.written at h
  split at h
  case h_3 => simp only [Format.extract, ofOperands, act, Action.perform, BitVec.ofInt_natCast]
  case h_4 =>
    simp only [Format.extract, ofOperands, act, Action.perform, BitVec.ofInt_natCast,
      BitVec.ofNat_toNat]
  case h_5 => exact (Action.perform_branch ..).trans (act_comparison ..).symm
  case h_8 | h_9 =>
    simp only [Format.extract, ofOperands, act, Action.perform, Code.upper_immU]
  case h_14 => cases h
  all_goals rfl

theorem render_eq_text (d : Decoded) (pc : Word) :
    Assembly.render d pc = text d.instr (ofOperands d.instr.operandStyle d.operands pc) := by
  rw [text, items_ofOperands]
  rfl

end Statement

namespace Decoder

/-- The text of a word that is known has a statement that the word carries out. -/
theorem exists_statement_of_decode? {c : Code} {d : Decoded} (h : decode? table c = some d)
    (pc : Word) :
    ∃ s : Statement, disassemble c pc = s.text d.instr ∧
      ∀ m : Machine, m.pc.current = pc →
        d.instr.action.perform d.operands m = s.act d.instr.action m := by
  obtain ⟨index, e, hselect, rfl⟩ := select_of_decode? h
  refine ⟨Statement.ofOperands e.instr.operandStyle (e.encoding.format.extract c) pc, ?_, ?_⟩
  · rw [disassemble, h]
    exact Statement.render_eq_text _ pc
  · intro m hpc
    have hwritten := Action.written_of_mem_table (select_known hselect).1
    have hact := Statement.perform_eq_act hwritten c m
    rwa [hpc] at hact

/-- Words with one text at an address are words of one instruction, and there they do the same:
what is written of the operands, with the numbers and targets that are written. -/
theorem behaviour_of_disassemble_eq {c₁ c₂ : Code} {d₁ d₂ : Decoded} {pc : Word}
    (h₁ : decode? table c₁ = some d₁) (h₂ : decode? table c₂ = some d₂)
    (h : disassemble c₁ pc = disassemble c₂ pc) :
    d₁.instr = d₂.instr ∧
      (∀ m : Machine, m.pc.current = pc →
        d₁.instr.action.perform d₁.operands m = d₂.instr.action.perform d₂.operands m) ∧
      ∃ s : Statement, disassemble c₁ pc = s.text d₁.instr ∧
        ∀ m : Machine, m.pc.current = pc →
          d₁.instr.action.perform d₁.operands m = s.act d₁.instr.action m := by
  obtain ⟨s, htext₁, hact₁⟩ := exists_statement_of_decode? h₁ pc
  obtain ⟨t, htext₂, hact₂⟩ := exists_statement_of_decode? h₂ pc
  have hsame : s.text d₁.instr = t.text d₂.instr := by rw [← htext₁, ← htext₂, h]
  obtain ⟨hinstr, rfl⟩ := Statement.text_inj hsame
  refine ⟨hinstr, ?_, s, htext₁, hact₁⟩
  intro m hpc
  rw [hact₁ m hpc, hact₂ m hpc, hinstr]

/-- Two words that shift `x5` to the left by one place: of the immediate, only the low six bits
are the amount. -/
theorem behaviour_of_shifts_by_one :
    decode? table 0x00129293 = some ⟨.slli, .i 5 5 0x001⟩ ∧
      decode? table 0x40129293 = some ⟨.slli, .i 5 5 0x401⟩ ∧
      disassemble 0x00129293 0x1000 = disassemble 0x40129293 0x1000 ∧
      (∀ m : Machine, m.pc.current = 0x1000 →
        (Instr.slli.action).perform (.i 5 5 0x001) m =
          (Instr.slli.action).perform (.i 5 5 0x401) m) := by
  have h₁ : decode? table 0x00129293 = some ⟨.slli, .i 5 5 0x001⟩ := by decide +kernel
  have h₂ : decode? table 0x40129293 = some ⟨.slli, .i 5 5 0x401⟩ := by decide +kernel
  have h : disassemble 0x00129293 0x1000 = disassemble 0x40129293 0x1000 := by
    simp only [disassemble, h₁, h₂]
    rfl
  exact ⟨h₁, h₂, h, (behaviour_of_disassemble_eq h₁ h₂ h).2.1⟩

end Decoder

end RiscvHart
