import RiscvHart.Proofs.Isa.Completeness
import RiscvHart.Proofs.Word.Fields

/-!
# Decoding and encoding

Writing the fixed fields of an entry and its operands into any word gives a word that the decoder
takes apart into them again, and every word whose entry fixes fields is the only one with them.
The shifts to the right by an immediate are the one place where two entries meet: the words of
`srli` whose upper six bits mark an arithmetic shift are words of `srai`.
-/

namespace RiscvHart

namespace Operands

def format : Operands → Format
  | bare => .bare
  | r .. => .r
  | i .. => .i
  | s .. => .s
  | b .. => .b
  | u .. => .u
  | j .. => .j

/-- Whether a word can hold the operands: offsets of jumps and branches are even, and an
immediate of format U is shifted by a page. -/
def Encodable : Operands → Prop
  | b _ _ imm => imm.toNat % 2 = 0
  | j _ imm => imm.toNat % 2 = 0
  | u _ imm => imm.toNat % 2 ^ 12 = 0
  | _ => True

def MarksArithmetic : Operands → Prop
  | i _ _ imm => imm.extractLsb' 6 6 = 0b010000
  | _ => False

instance (o : Operands) : Decidable o.MarksArithmetic :=
  match o with
  | i .. => inferInstanceAs (Decidable (_ = _))
  | bare | r .. | s .. | b .. | u .. | j .. => inferInstanceAs (Decidable False)

end Operands

namespace Format

theorem format_extract (f : Format) (c : Code) : (f.extract c).format = f := by
  cases f <;> rfl

theorem encodable_extract (f : Format) (c : Code) : (f.extract c).Encodable := by
  cases f with
  | bare | r | i | s => trivial
  | b => exact Code.toNat_append_zeros _ 1
  | u => exact Code.toNat_append_zeros _ 12
  | j => exact Code.toNat_append_zeros _ 1

end Format

/-! ## Writing and reading back -/

namespace Operands

theorem extract_insert {o : Operands} (h : o.Encodable) (w : Code) :
    o.format.extract (o.insert w) = o := by
  cases o with
  | bare => rfl
  | r rs1 rs2 rd =>
    simp (disch := decide) only [format, Format.extract, insert, Code.rs1, Code.rs2, Code.rd,
      Code.setRs1, Code.setRs2, Code.setRd, Code.extractLsb'_setField,
      Code.extractLsb'_setField_of_apart, BitVec.setWidth_setWidth_of_le, BitVec.setWidth_eq]
  | i rs1 rd imm =>
    simp only [format, Format.extract, insert, Code.immI_setImmI]
    simp (disch := decide) only [Code.rs1, Code.rd, Code.setRs1, Code.setRd, Code.setImmI,
      Code.extractLsb'_setField, Code.extractLsb'_setField_of_apart,
      BitVec.setWidth_setWidth_of_le, BitVec.setWidth_eq]
  | s rs1 rs2 imm =>
    simp only [format, Format.extract, insert, Code.immS_setImmS]
    simp (disch := decide) only [Code.rs1, Code.rs2, Code.setRs1, Code.setRs2, Code.setImmS,
      Code.extractLsb'_setField, Code.extractLsb'_setField_of_apart,
      BitVec.setWidth_setWidth_of_le, BitVec.setWidth_eq]
  | b rs1 rs2 imm =>
    simp only [format, Format.extract, insert, Code.immB_setImmB _ h]
    simp (disch := decide) only [Code.rs1, Code.rs2, Code.setRs1, Code.setRs2, Code.setImmB,
      Code.extractLsb'_setField, Code.extractLsb'_setField_of_apart,
      BitVec.setWidth_setWidth_of_le, BitVec.setWidth_eq]
  | u rd imm =>
    simp only [format, Format.extract, insert, Code.immU_setImmU _ h]
    simp (disch := decide) only [Code.rd, Code.setRd, Code.setImmU_eq_setField,
      Code.extractLsb'_setField, Code.extractLsb'_setField_of_apart,
      BitVec.setWidth_setWidth_of_le, BitVec.setWidth_eq]
  | j rd imm =>
    simp only [format, Format.extract, insert, Code.immJ_setImmJ _ h]
    simp (disch := decide) only [Code.rd, Code.setRd, Code.setImmJ,
      Code.extractLsb'_setField, Code.extractLsb'_setField_of_apart,
      BitVec.setWidth_setWidth_of_le, BitVec.setWidth_eq]

end Operands

namespace Encoding

variable {e : Encoding} {x y : Code}

theorem matches_insert (h : e.isCustom = false) (w : Code) : e.Matches (e.insert w) := by
  cases e with
  | custom format accepts => cases h
  | _ =>
    simp (disch := decide) only [Matches, insert, Code.opcode, Code.funct3, Code.funct7,
      Code.setOpcode, Code.setFunct3, Code.setFunct7, Code.extractLsb'_setField,
      Code.extractLsb'_setField_of_apart, BitVec.setWidth_setWidth_of_le, BitVec.setWidth_eq,
      and_self]

/-- The operands lie apart from the fixed fields, so it does not matter which
are written first. -/
theorem insert_comm {o : Operands} (h : o.format = e.format) (w : Code) :
    o.insert (e.insert w) = e.insert (o.insert w) := by
  cases e <;> cases o <;> cases h
  all_goals simp (disch := decide) only [insert, Operands.insert, Code.setOpcode, Code.setFunct3,
    Code.setFunct7, Code.setRs1, Code.setRs2, Code.setRd, Code.setImmI, Code.setImmS, Code.setImmB,
    Code.setImmU_eq_setField, Code.setImmJ, Code.setField_comm]

theorem matches_operands_insert {o : Operands} (hfixed : e.isCustom = false)
    (h : o.format = e.format) (w : Code) : e.Matches (o.insert (e.insert w)) := by
  rw [insert_comm h]
  exact matches_insert hfixed _

/-- A word is determined by the fixed fields and the operands. -/
theorem eq_of_matches (hfixed : e.isCustom = false) (hx : e.Matches x) (hy : e.Matches y)
    (h : e.format.extract x = e.format.extract y) : x = y := by
  cases e with
  | custom format accepts => cases hfixed
  | r opcode funct3 funct7 =>
    obtain ⟨hop, hf3, hf7⟩ := hx
    obtain ⟨hop', hf3', hf7'⟩ := hy
    obtain ⟨hrs1, hrs2, hrd⟩ := Operands.r.inj h
    exact Code.eq_of_agree [7, 5, 3, 5, 5, 7] rfl
      ⟨hop.trans hop'.symm, hrd, hf3.trans hf3'.symm, hrs1, hrs2, hf7.trans hf7'.symm, trivial⟩
  | i opcode funct3 =>
    obtain ⟨hop, hf3⟩ := hx
    obtain ⟨hop', hf3'⟩ := hy
    obtain ⟨hrs1, hrd, himm⟩ := Operands.i.inj h
    exact Code.eq_of_agree [7, 5, 3, 5, 12] rfl
      ⟨hop.trans hop'.symm, hrd, hf3.trans hf3'.symm, hrs1, himm, trivial⟩
  | s opcode funct3 =>
    obtain ⟨hop, hf3⟩ := hx
    obtain ⟨hop', hf3'⟩ := hy
    obtain ⟨hrs1, hrs2, himm⟩ := Operands.s.inj h
    obtain ⟨hhigh, hlow⟩ := Code.append_inj himm
    exact Code.eq_of_agree [7, 5, 3, 5, 5, 7] rfl
      ⟨hop.trans hop'.symm, hlow, hf3.trans hf3'.symm, hrs1, hrs2, hhigh, trivial⟩
  | b opcode funct3 =>
    obtain ⟨hop, hf3⟩ := hx
    obtain ⟨hop', hf3'⟩ := hy
    obtain ⟨hrs1, hrs2, himm⟩ := Operands.b.inj h
    obtain ⟨h12to5, h4to1⟩ := Code.append_inj (Code.append_inj himm).1
    obtain ⟨h12to11, h10to5⟩ := Code.append_inj h12to5
    obtain ⟨h12, h11⟩ := Code.append_inj h12to11
    exact Code.eq_of_agree [7, 1, 4, 3, 5, 5, 6, 1] rfl
      ⟨hop.trans hop'.symm, h11, h4to1, hf3.trans hf3'.symm, hrs1, hrs2, h10to5, h12, trivial⟩
  | u opcode =>
    obtain ⟨hrd, himm⟩ := Operands.u.inj h
    exact Code.eq_of_agree [7, 5, 20] rfl
      ⟨hx.trans hy.symm, hrd, (Code.append_inj himm).1, trivial⟩
  | j opcode =>
    obtain ⟨hrd, himm⟩ := Operands.j.inj h
    obtain ⟨h20to11, h10to1⟩ := Code.append_inj (Code.append_inj himm).1
    obtain ⟨h20to12, h11⟩ := Code.append_inj h20to11
    obtain ⟨h20, h19to12⟩ := Code.append_inj h20to12
    exact Code.eq_of_agree [7, 5, 8, 1, 10, 1] rfl
      ⟨hx.trans hy.symm, hrd, h19to12, h11, h10to1, h20, trivial⟩

/-- Writing the fixed fields and the operands of a word gives the word back. -/
theorem insert_extract (hfixed : e.isCustom = false) (hx : e.Matches x) (w : Code) :
    (e.format.extract x).insert (e.insert w) = x := by
  have hformat : (e.format.extract x).format = e.format := Format.format_extract _ _
  have hmatch := matches_operands_insert hfixed hformat w
  have hback := Operands.extract_insert (Format.encodable_extract e.format x) (e.insert w)
  rw [hformat] at hback
  exact eq_of_matches hfixed hmatch hx hback

end Encoding

/-! ## The table -/

namespace Decoder

variable {d : Decoder} {c : Code} {x : Decoded}

theorem select_of_decode? (h : d.decode? c = some x) :
    ∃ index e, d.select c = .known index e ∧ x = e.read c := by
  unfold decode? at h
  cases hselect : d.select c with
  | unknown | ambiguous =>
    rw [hselect] at h
    cases h
  | known index e =>
    rw [hselect] at h
    cases h
    exact ⟨index, e, rfl, rfl⟩

/-- Decoding by a table and writing its words undo each other, and no word is left open
between two entries. -/
structure RoundTrips (d : Decoder) : Prop where
  decode_insert : ∀ e ∈ d, e.encoding.isCustom = false →
    ∀ o : Operands, o.format = e.encoding.format → o.Encodable → ∀ w : Code,
      d.decode? (o.insert (e.encoding.insert w)) =
        some ⟨if e.instr = .srli ∧ o.MarksArithmetic then .srai else e.instr, o⟩
  order : ∀ e ∈ d, ∀ o : Operands, o.format = e.encoding.format → ∀ w : Code,
    o.insert (e.encoding.insert w) = e.encoding.insert (o.insert w)
  insert_decoded : ∀ c x, d.decode? c = some x →
    ∀ e ∈ d, e.instr = x.instr → e.encoding.isCustom = false → ∀ w : Code,
      x.operands.insert (e.encoding.insert w) = c
  precedence : ∀ c, (d.candidates c).Pairwise fun e f => e.precedence ≠ f.precedence
  candidates_le : ∀ c, (d.candidates c).length ≤ 2
  candidates_eq : ∀ c, (d.candidates c).length = 2 ↔ sraiPattern.Matches c

theorem mem_candidates {e : Entry} : e ∈ d.candidates c ↔ e ∈ d ∧ e.Matches c := by
  rw [candidates, List.mem_filter, decide_eq_true_iff]

end Decoder

namespace Isa

variable {c : Code} {e : Entry}

def srliEntry : Entry := ⟨.srli, .i Opcode.opImm 0b101, 100⟩

def sraiEntry : Entry := ⟨.srai, .custom .i sraiPattern.accepts, 50⟩

theorem srliEntry_mem : srliEntry ∈ (table : List Entry) := by simp [table, srliEntry]

theorem sraiEntry_mem : sraiEntry ∈ (table : List Entry) := by simp [table, sraiEntry]

theorem sraiEntry_matches_iff : sraiEntry.Matches c ↔ sraiPattern.Matches c :=
  sraiPattern.accepts_iff c

theorem srliEntry_matches (h : sraiPattern.Matches c) : srliEntry.Matches c :=
  fields_of_hasFunct3 (sraiPattern_matches_iff.mp h).1

/-- An entry that matches a word is selected, unless it is the one of logical shifts to the right
and the word is one of an arithmetic shift. -/
theorem select_of_matches (he : e ∈ (table : List Entry)) (hmatch : e.Matches c)
    (h : e.instr = .srli → ¬sraiPattern.Matches c) :
    ∃ index, Decoder.select table c = .known index e := by
  have hencodes : Encodes e.instr c.toNat := by
    by_cases hsrli : e.instr = .srli
    · obtain rfl := eq_of_instr_eq he srliEntry_mem hsrli
      have hfields := hasFunct3_of_matches hmatch
      exact ⟨hfields, fun hupper => h rfl (sraiPattern_matches_iff.mpr ⟨hfields, hupper⟩)⟩
    · exact encodes_of_matches he hmatch hsrli
  obtain ⟨index, f, hselect, hf⟩ := (encodes_iff_select e.instr c).mp hencodes
  rw [eq_of_instr_eq (Decoder.select_known hselect).1 he hf] at hselect
  exact ⟨index, hselect⟩

theorem decode?_of_select {index : Nat} (h : Decoder.select table c = .known index e) :
    Decoder.decode? table c = some (e.read c) := by
  rw [Decoder.decode?, h]

/-- The upper six bits of the immediate are those that mark an arithmetic shift. -/
theorem sraiPattern_matches_iff_marks (h : srliEntry.Matches c) :
    sraiPattern.Matches c ↔ (Format.i.extract c).MarksArithmetic := by
  have hupper : c.immI.extractLsb' 6 6 = c.extractLsb' 26 6 := by
    ext i hi
    simp [Code.immI, show 6 + i < 12 by omega, ← Nat.add_assoc]
  have hmarks : (Format.i.extract c).MarksArithmetic ↔ c.extractLsb' 26 6 = 0b010000 := by
    rw [← hupper]
    rfl
  have hfields : HasFunct3 c.toNat 0x13 5 := hasFunct3_of_matches h
  rw [sraiPattern_matches_iff, hmarks, funct6_eq, and_iff_right hfields]
  exact BitVec.toNat_inj (y := 0b010000)

theorem decode?_insert {o : Operands} (he : e ∈ (table : List Entry))
    (hfixed : e.encoding.isCustom = false) (hformat : o.format = e.encoding.format)
    (ho : o.Encodable) (w : Code) :
    Decoder.decode? table (o.insert (e.encoding.insert w)) =
      some ⟨if e.instr = .srli ∧ o.MarksArithmetic then .srai else e.instr, o⟩ := by
  have hmatch : e.Matches (o.insert (e.encoding.insert w)) :=
    Encoding.matches_operands_insert hfixed hformat w
  have hextract := Operands.extract_insert ho (e.encoding.insert w)
  generalize o.insert (e.encoding.insert w) = c at hmatch hextract
  by_cases hsrli : e.instr = .srli
  · obtain rfl := eq_of_instr_eq he srliEntry_mem hsrli
    have hmarks := sraiPattern_matches_iff_marks hmatch
    rw [hformat] at hextract
    rw [show Format.i.extract c = o from hextract] at hmarks
    by_cases hsrai : sraiPattern.Matches c
    · obtain ⟨index, hselect⟩ := select_of_matches sraiEntry_mem (sraiEntry_matches_iff.mpr hsrai)
        (fun h => by cases h)
      rw [decode?_of_select hselect, if_pos ⟨rfl, hmarks.mp hsrai⟩]
      exact congrArg (fun x => some (Decoded.mk .srai x)) hextract
    · obtain ⟨index, hselect⟩ := select_of_matches srliEntry_mem hmatch fun _ => hsrai
      rw [decode?_of_select hselect, if_neg fun h => hsrai (hmarks.mpr h.2)]
      exact congrArg (fun x => some (Decoded.mk .srli x)) hextract
  · obtain ⟨index, hselect⟩ := select_of_matches he hmatch fun h => absurd h hsrli
    rw [decode?_of_select hselect, if_neg fun h => hsrli h.1, Entry.read, ← hformat, hextract]

theorem insert_decoded {x : Decoded} (h : Decoder.decode? table c = some x)
    (he : e ∈ (table : List Entry)) (hinstr : e.instr = x.instr)
    (hfixed : e.encoding.isCustom = false) (w : Code) :
    x.operands.insert (e.encoding.insert w) = c := by
  obtain ⟨index, f, hselect, rfl⟩ := Decoder.select_of_decode? h
  obtain ⟨hf, hmatch, -⟩ := Decoder.select_known hselect
  obtain rfl := eq_of_instr_eq he hf hinstr
  exact Encoding.insert_extract hfixed hmatch w

/-! ### Words of two entries -/

/-- Of the entries that match a word, the first is the one of logical shifts to the right and the
second is the one of arithmetic shifts. -/
theorem pairwise_candidates (c : Code) : (Decoder.candidates table c).Pairwise fun e f =>
    e.instr = .srli ∧ f.instr = .srai ∧ f.precedence < e.precedence := by
  have hpairs := (Entry.pairwise_matches c).filter fun e => decide (e.Matches c)
  refine hpairs.imp_of_mem fun {e f} he hf h => ?_
  exact h (Decoder.mem_candidates.mp he).2 (Decoder.mem_candidates.mp hf).2

theorem length_candidates_le (c : Code) : (Decoder.candidates table c).length ≤ 2 := by
  have hpairs := pairwise_candidates c
  match hlist : Decoder.candidates table c with
  | [] | [_] | [_, _] => simp
  | e :: f :: g :: rest =>
    rw [hlist] at hpairs
    obtain ⟨hfirst, hrest⟩ := List.pairwise_cons.mp hpairs
    have hsrai := (hfirst f List.mem_cons_self).2.1
    have hsrli := ((List.pairwise_cons.mp hrest).1 g List.mem_cons_self).1
    rw [hsrai] at hsrli
    cases hsrli

theorem length_candidates_eq_two_iff (c : Code) :
    (Decoder.candidates table c).length = 2 ↔ sraiPattern.Matches c := by
  constructor
  · intro hlength
    obtain ⟨e, f, hlist⟩ := List.length_eq_two.mp hlength
    have hpairs := pairwise_candidates c
    rw [hlist] at hpairs
    have hsrai := ((List.pairwise_cons.mp hpairs).1 f List.mem_cons_self).2.1
    obtain ⟨hf, hmatch⟩ : f ∈ (table : List Entry) ∧ f.Matches c := by
      rw [← Decoder.mem_candidates, hlist]
      simp
    obtain rfl := eq_of_instr_eq hf sraiEntry_mem hsrai
    exact sraiEntry_matches_iff.mp hmatch
  · intro hmatch
    have hsrli := Decoder.mem_candidates.mpr ⟨srliEntry_mem, srliEntry_matches hmatch⟩
    have hsrai := Decoder.mem_candidates.mpr ⟨sraiEntry_mem, sraiEntry_matches_iff.mpr hmatch⟩
    have hle := length_candidates_le c
    match hlist : Decoder.candidates table c with
    | [] =>
      rw [hlist] at hsrli
      cases hsrli
    | [e] =>
      rw [hlist, List.mem_singleton] at hsrli hsrai
      exact absurd (hsrli.trans hsrai.symm) (by simp [srliEntry, sraiEntry])
    | [_, _] => rfl
    | _ :: _ :: _ :: _ =>
      rw [hlist] at hle
      simp at hle

theorem roundTrips_table : Decoder.RoundTrips table where
  decode_insert _ he hfixed _ hformat ho w := decode?_insert he hfixed hformat ho w
  order _ _ _ hformat w := Encoding.insert_comm hformat w
  insert_decoded _ _ h _ he hinstr hfixed w := insert_decoded h he hinstr hfixed w
  precedence c := (pairwise_candidates c).imp fun h => by omega
  candidates_le := length_candidates_le
  candidates_eq := length_candidates_eq_two_iff

end Isa

end RiscvHart
