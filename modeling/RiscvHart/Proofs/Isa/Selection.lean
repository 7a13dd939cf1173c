import RiscvHart.Isa.Decoder
import RiscvHart.Proofs.Isa.Arithmetic
import Mathlib.Tactic.FinCases

/-!
# What the decoder selects

Of the entries that match a word, the one that is selected has the smallest precedence. On the
table of the hart this makes the fixed bits of the word those of the selected instruction.
-/

namespace RiscvHart

namespace Decoder

variable {c : Code} {d : List Entry} {e : Entry} {index i : Nat}

theorem found_of_tail {best : Option (Nat × Entry)} {first : Entry}
    (h : best = some (i, e) ∨ (e ∈ d ∧ e.Matches c)) :
    best = some (i, e) ∨ (e ∈ first :: d ∧ e.Matches c) := by
  rcases h with heq | ⟨hmem, he⟩
  · exact Or.inl heq
  · exact Or.inr ⟨List.mem_cons_of_mem _ hmem, he⟩

theorem found_of_first {first : Entry} (hfirst : first.Matches c)
    (h : some (index, first) = some (i, e) ∨ (e ∈ d ∧ e.Matches c)) :
    e ∈ first :: d ∧ e.Matches c := by
  rcases h with heq | ⟨hmem, he⟩
  · cases heq
    exact ⟨List.mem_cons_self, hfirst⟩
  · exact ⟨List.mem_cons_of_mem _ hmem, he⟩

/-- The result of a scan is the best entry so far or a later one that matches, and none of them
comes before it. -/
theorem scan_known {best : Option (Nat × Entry)} (h : scan c best index d = .known i e) :
    (best = some (i, e) ∨ (e ∈ d ∧ e.Matches c)) ∧
      (∀ held, best = some held → e.precedence ≤ held.2.precedence) ∧
      ∀ f ∈ d, f.Matches c → e.precedence ≤ f.precedence := by
  induction d generalizing best index with
  | nil =>
    cases best with
    | none => cases h
    | some held =>
      cases h
      refine ⟨Or.inl rfl, ?_, fun f hf => absurd hf List.not_mem_nil⟩
      intro held hheld
      rw [← Option.some.inj hheld]
  | cons first rest ih =>
    unfold scan at h
    rw [List.forall_mem_cons]
    by_cases hmatch : first.Matches c
    · rw [if_pos hmatch] at h
      cases best with
      | none =>
        obtain ⟨hfound, hbest, hrest⟩ := ih h
        exact ⟨Or.inr (found_of_first hmatch hfound), fun held hheld => (by cases hheld),
          fun _ => hbest _ rfl, hrest⟩
      | some held =>
        obtain ⟨j, g⟩ := held
        dsimp only at h
        split_ifs at h with hequal hbetter
        · obtain ⟨hfound, hbest, hrest⟩ := ih h
          have hg := hbest _ rfl
          exact ⟨found_of_tail hfound, hbest,
            fun _ => Nat.le_trans hg (Nat.le_of_lt hbetter), hrest⟩
        · obtain ⟨hfound, hbest, hrest⟩ := ih h
          have hfirst := hbest _ rfl
          refine ⟨Or.inr (found_of_first hmatch hfound), ?_, fun _ => hfirst, hrest⟩
          intro held hheld
          cases hheld
          exact Nat.le_trans hfirst (Nat.le_of_not_lt hbetter)
    · rw [if_neg hmatch] at h
      obtain ⟨hfound, hbest, hrest⟩ := ih h
      exact ⟨found_of_tail hfound, hbest, fun hfmatch => absurd hfmatch hmatch, hrest⟩

theorem select_known {d : Decoder} (h : d.select c = .known i e) :
    e ∈ d ∧ e.Matches c ∧ ∀ f ∈ d, f.Matches c → e.precedence ≤ f.precedence := by
  obtain ⟨hfound, -, hrest⟩ := scan_known h
  rcases hfound with heq | ⟨hmem, hmatch⟩
  · cases heq
  · exact ⟨hmem, hmatch, hrest⟩

end Decoder

/-! ## The table of the hart -/

namespace Isa

variable {c : Code}

theorem opcode_eq (c : Code) : opcode c.toNat = c.opcode.toNat := (c.toNat_extractLsb' 0 7).symm

theorem funct3_eq (c : Code) : funct3 c.toNat = c.funct3.toNat := (c.toNat_extractLsb' 12 3).symm

theorem funct7_eq (c : Code) : funct7 c.toNat = c.funct7.toNat := (c.toNat_extractLsb' 25 7).symm

theorem opcode_of_matches {op : BitVec 7} (h : c.opcode = op) : opcode c.toNat = op.toNat := by
  rw [opcode_eq, h]

theorem hasFunct3_of_matches {op : BitVec 7} {f3 : BitVec 3} (h : c.opcode = op ∧ c.funct3 = f3) :
    HasFunct3 c.toNat op.toNat f3.toNat := by
  rw [HasFunct3, opcode_eq, funct3_eq, h.1, h.2]
  exact ⟨rfl, rfl⟩

theorem hasFunct7_of_matches {op f7 : BitVec 7} {f3 : BitVec 3}
    (h : c.opcode = op ∧ c.funct3 = f3 ∧ c.funct7 = f7) :
    HasFunct7 c.toNat op.toNat f3.toNat f7.toNat := by
  rw [HasFunct7, opcode_eq, funct3_eq, funct7_eq, h.1, h.2.1, h.2.2]
  exact ⟨rfl, rfl, rfl⟩

theorem funct6_eq (c : Code) : funct6 c.toNat = (c.extractLsb' 26 6).toNat :=
  (c.toNat_extractLsb' 26 6).symm

theorem getElem_eq_of_extractLsb'_eq {x y : Code} {lsb count i : Nat} (hi : i < 32)
    (h : x.extractLsb' lsb count = y.extractLsb' lsb count) (hlow : lsb ≤ i)
    (hhigh : i < lsb + count) : x[i] = y[i] := by
  have hbit := congrArg (fun z : BitVec count => z.getLsbD (i - lsb)) h
  have hback : lsb + (i - lsb) = i := by omega
  simpa [BitVec.getLsbD_extractLsb', hback, show i - lsb < count by omega,
    BitVec.getLsbD_eq_getElem hi] using hbit

/-- The pattern of the arithmetic shift to the right fixes opcode, second opcode and upper six
bits. -/
theorem sraiPattern_matches_iff :
    sraiPattern.Matches c ↔ HasFunct3 c.toNat 0x13 5 ∧ funct6 c.toNat = 0x10 := by
  have hfield : ∀ lsb count, (c &&& sraiPattern.mask).extractLsb' lsb count =
      c.extractLsb' lsb count &&& sraiPattern.mask.extractLsb' lsb count := fun lsb count =>
    BitVec.extractLsb'_and
  have hopcode : (c &&& sraiPattern.mask).extractLsb' 0 7 = c.opcode :=
    (hfield 0 7).trans BitVec.and_allOnes
  have hfunct3 : (c &&& sraiPattern.mask).extractLsb' 12 3 = c.funct3 :=
    (hfield 12 3).trans BitVec.and_allOnes
  have hfunct6 : (c &&& sraiPattern.mask).extractLsb' 26 6 = c.extractLsb' 26 6 :=
    (hfield 26 6).trans BitVec.and_allOnes
  rw [HasFunct3, opcode_eq, funct3_eq, funct6_eq, ← hopcode, ← hfunct3, ← hfunct6]
  constructor
  · intro hmatch
    rw [show c &&& sraiPattern.mask = sraiPattern.key from hmatch]
    decide
  · rintro ⟨⟨hop, hf3⟩, hf6⟩
    have hlow : (c &&& sraiPattern.mask).extractLsb' 0 7 = sraiPattern.key.extractLsb' 0 7 :=
      BitVec.eq_of_toNat_eq hop
    have hmid : (c &&& sraiPattern.mask).extractLsb' 12 3 = sraiPattern.key.extractLsb' 12 3 :=
      BitVec.eq_of_toNat_eq hf3
    have hhigh : (c &&& sraiPattern.mask).extractLsb' 26 6 = sraiPattern.key.extractLsb' 26 6 :=
      BitVec.eq_of_toNat_eq hf6
    -- The pattern leaves the destination, the source and the shift amount open.
    have hrd : (c &&& sraiPattern.mask).extractLsb' 7 5 = sraiPattern.key.extractLsb' 7 5 :=
      (hfield 7 5).trans BitVec.and_zero
    have hrs : (c &&& sraiPattern.mask).extractLsb' 15 11 = sraiPattern.key.extractLsb' 15 11 :=
      (hfield 15 11).trans BitVec.and_zero
    show c &&& sraiPattern.mask = sraiPattern.key
    ext i hi
    have hplace : i < 7 ∨ (7 ≤ i ∧ i < 12) ∨ (12 ≤ i ∧ i < 15) ∨ (15 ≤ i ∧ i < 26) ∨ 26 ≤ i := by
      omega
    rcases hplace with h | ⟨h, h'⟩ | ⟨h, h'⟩ | ⟨h, h'⟩ | h
    · exact getElem_eq_of_extractLsb'_eq hi hlow (Nat.zero_le i) h
    · exact getElem_eq_of_extractLsb'_eq hi hrd h h'
    · exact getElem_eq_of_extractLsb'_eq hi hmid h h'
    · exact getElem_eq_of_extractLsb'_eq hi hrs h h'
    · exact getElem_eq_of_extractLsb'_eq hi hhigh h hi

theorem eq_of_full_pattern {key : Code} (h : (⟨key, 0xFFFFFFFF⟩ : Pattern).Matches c) :
    c = key := by
  have hall : c &&& BitVec.allOnes 32 = key := h
  rwa [BitVec.and_allOnes] at hall

theorem map_instr_table : (table : List Entry).map Entry.instr = Instr.all := by
  rfl

/-- Each instruction has one entry. -/
theorem eq_of_instr_eq {e f : Entry} (he : e ∈ (table : List Entry)) (hf : f ∈ (table : List Entry))
    (h : e.instr = f.instr) : e = f := by
  have hnodup : ((table : List Entry).map Entry.instr).Nodup := by
    rw [map_instr_table]
    decide
  exact List.inj_on_of_nodup_map hnodup he hf h

/-- The bits of a word that an entry matches are those of its instruction, but for the logical
shift to the right by an immediate, which leaves some of its words to the arithmetic one. -/
theorem encodes_of_matches {e : Entry} (he : e ∈ (table : List Entry)) (hmatch : e.Matches c)
    (hne : e.instr ≠ .srli) : Encodes e.instr c.toNat := by
  fin_cases he
  all_goals first
    | exact hasFunct7_of_matches hmatch
    | exact hasFunct3_of_matches hmatch
    | exact opcode_of_matches hmatch
    | skip
  -- What is left: the shifts to the right by an immediate and the two words of the traps.
  · exact absurd rfl hne
  · exact sraiPattern_matches_iff.mp ((sraiPattern.accepts_iff c).mp hmatch)
  · exact congrArg BitVec.toNat (eq_of_full_pattern ((ecallPattern.accepts_iff c).mp hmatch))
  · exact congrArg BitVec.toNat (eq_of_full_pattern ((ebreakPattern.accepts_iff c).mp hmatch))

/-- The bits of a word that has an entry of the table are those of its instruction. -/
theorem encodes_of_select {index : Nat} {e : Entry}
    (h : Decoder.select table c = .known index e) : Encodes e.instr c.toNat := by
  obtain ⟨hmem, hmatch, hleast⟩ := Decoder.select_known h
  by_cases hsrli : e.instr = .srli
  · obtain rfl : e = ⟨.srli, .i Opcode.opImm 0b101, 100⟩ :=
      eq_of_instr_eq hmem (by simp [table]) hsrli
    have hfields := hasFunct3_of_matches hmatch
    refine ⟨hfields, fun hupper => ?_⟩
    have hsrai : (⟨.srai, .custom .i sraiPattern.accepts, 50⟩ : Entry).Matches c :=
      (sraiPattern.accepts_iff c).mpr (sraiPattern_matches_iff.mpr ⟨hfields, hupper⟩)
    have hle := hleast ⟨.srai, .custom .i sraiPattern.accepts, 50⟩ (by simp [table]) hsrai
    exact absurd hle (by decide)
  · exact encodes_of_matches hmem hmatch hsrli

end Isa

end RiscvHart
