import RiscvHart.Proofs.Isa.Selection

/-!
# The decoder knows every instruction

Two entries of the table share a word only if they are the two shifts to the right by an
immediate, and those differ in precedence. So the search never ends in a tie, and it finds an
instruction in exactly the words that the instruction set gives it.
-/

namespace RiscvHart

namespace Decoder

variable {c : Code} {d : List Entry} {e : Entry} {best : Option (Nat × Entry)} {index i : Nat}

theorem scan_unknown (h : scan c best index d = .unknown) :
    best = none ∧ ∀ e ∈ d, ¬e.Matches c := by
  induction d generalizing best index with
  | nil =>
    cases best with
    | none => exact ⟨rfl, fun e he => absurd he List.not_mem_nil⟩
    | some held => cases h
  | cons first rest ih =>
    unfold scan at h
    rw [List.forall_mem_cons]
    by_cases hmatch : first.Matches c
    · rw [if_pos hmatch] at h
      -- Once an entry is held, some entry is held to the end.
      cases best with
      | none => exact absurd (ih h).1 (Option.some_ne_none _)
      | some held =>
        dsimp only at h
        split_ifs at h
        · exact absurd (ih h).1 (Option.some_ne_none _)
        · exact absurd (ih h).1 (Option.some_ne_none _)
    · rw [if_neg hmatch] at h
      exact ⟨(ih h).1, hmatch, (ih h).2⟩

/-- A tie needs two entries that match the word and have the same precedence. -/
theorem scan_ne_ambiguous (hbest : ∀ b ∈ best, b.2.Matches c)
    (hd : ((best.map Prod.snd).toList ++ d).Pairwise fun e f =>
      e.Matches c → f.Matches c → e.precedence ≠ f.precedence) :
    scan c best index d ≠ .ambiguous := by
  induction d generalizing best index with
  | nil =>
    cases best with
    | none => exact Selection.noConfusion
    | some held => exact Selection.noConfusion
  | cons first rest ih =>
    unfold scan
    by_cases hmatch : first.Matches c
    · rw [if_pos hmatch]
      have hfirst : ∀ b ∈ some (index, first), b.2.Matches c := by
        rintro b ⟨⟩
        exact hmatch
      cases best with
      | none => exact ih hfirst hd
      | some held =>
        have hheld : held.2.Matches c := hbest held rfl
        have hne : first.precedence ≠ held.2.precedence := by
          have hpair := (List.pairwise_cons.mp hd).1 first List.mem_cons_self
          exact (hpair hheld hmatch).symm
        dsimp only
        rw [if_neg hne]
        split
        · exact ih hbest (hd.sublist ((List.sublist_cons_self first rest).cons_cons held.2))
        · exact ih hfirst (List.pairwise_cons.mp hd).2
    · rw [if_neg hmatch]
      exact ih hbest (hd.sublist ((List.sublist_cons_self first rest).append_left _))

/-- The place that is found is the place of the entry. -/
theorem scan_index (h : scan c best index d = .known i e) :
    best = some (i, e) ∨ ∃ k, i = index + k ∧ d[k]? = some e := by
  induction d generalizing best index with
  | nil =>
    cases best with
    | none => cases h
    | some held =>
      cases h
      exact Or.inl rfl
  | cons first rest ih =>
    have hlater : (∃ k, i = index + 1 + k ∧ rest[k]? = some e) →
        ∃ k, i = index + k ∧ (first :: rest)[k]? = some e := by
      rintro ⟨k, rfl, hk⟩
      exact ⟨k + 1, by omega, hk⟩
    have hnow : some (index, first) = some (i, e) →
        ∃ k, i = index + k ∧ (first :: rest)[k]? = some e := by
      rintro ⟨⟩
      exact ⟨0, rfl, rfl⟩
    unfold scan at h
    split at h
    · cases best with
      | none => exact Or.inr ((ih h).elim hnow hlater)
      | some held =>
        dsimp only at h
        split_ifs at h
        · exact (ih h).imp_right hlater
        · exact Or.inr ((ih h).elim hnow hlater)
    · exact (ih h).imp_right hlater

theorem getElem?_of_select {d : Decoder} (h : d.select c = .known i e) : d[i]? = some e := by
  obtain hbest | ⟨k, rfl, hk⟩ := scan_index h
  · cases hbest
  · rwa [Nat.zero_add]

end Decoder

/-! ## Words of two entries -/

namespace Encoding

def opcode? : Encoding → Option (BitVec 7)
  | r op .. | i op _ | s op _ | b op _ | u op | j op => some op
  | custom .. => none

def funct3? : Encoding → Option (BitVec 3)
  | r _ f3 _ | i _ f3 | s _ f3 | b _ f3 => some f3
  | u _ | j _ | custom .. => none

def funct7? : Encoding → Option (BitVec 7)
  | r _ _ f7 => some f7
  | _ => none

def differ {n : Nat} : Option (BitVec n) → Option (BitVec n) → Bool
  | some x, some y => x != y
  | _, _ => false

def clashes (e f : Encoding) : Bool :=
  differ e.opcode? f.opcode? || differ e.funct3? f.funct3? || differ e.funct7? f.funct7?

variable {e f : Encoding} {c : Code}

theorem Matches.fields (h : e.Matches c) :
    (∀ x ∈ e.opcode?, c.opcode = x) ∧ (∀ x ∈ e.funct3?, c.funct3 = x) ∧
      ∀ x ∈ e.funct7?, c.funct7 = x := by
  cases e <;> simp_all [Matches, opcode?, funct3?, funct7?]

theorem differ_eq_false {n : Nat} {v : BitVec n} {x? y? : Option (BitVec n)}
    (hx : ∀ x ∈ x?, v = x) (hy : ∀ y ∈ y?, v = y) : differ x? y? = false := by
  cases x? with
  | none => rfl
  | some x =>
    cases y? with
    | none => rfl
    | some y =>
      have heq : x = y := (hx x rfl).symm.trans (hy y rfl)
      simp [differ, heq]

theorem not_matches_of_clashes (h : e.clashes f = true) (he : e.Matches c) : ¬f.Matches c := by
  intro hf
  obtain ⟨hop, hf3, hf7⟩ := he.fields
  obtain ⟨hop', hf3', hf7'⟩ := hf.fields
  rw [clashes, differ_eq_false hop hop', differ_eq_false hf3 hf3', differ_eq_false hf7 hf7'] at h
  exact Bool.noConfusion h

end Encoding

namespace Opcode

def system : BitVec 7 := 0b1110011

end Opcode

namespace Entry

variable {e f : Entry} {c : Code}

/-- The encoding of an entry, or for the entries with a test of their own, one that all words
which pass the test have. -/
def outline (e : Entry) : Encoding :=
  match e.instr with
  | .srai => .i Opcode.opImm 0b101
  | .ecall | .ebreak => .i Opcode.system 0b000
  | _ => e.encoding

theorem outline_matches (he : e ∈ (table : List Entry)) (h : e.Matches c) :
    e.outline.Matches c := by
  fin_cases he
  all_goals first
    | exact h
    | skip
  -- What is left: the entries with a test of their own.
  · obtain ⟨hop, hf3⟩ := (Isa.sraiPattern_matches_iff.mp ((sraiPattern.accepts_iff c).mp h)).1
    rw [Isa.opcode_eq] at hop
    rw [Isa.funct3_eq] at hf3
    exact ⟨BitVec.eq_of_toNat_eq hop, BitVec.eq_of_toNat_eq hf3⟩
  · obtain rfl := Isa.eq_of_full_pattern ((ecallPattern.accepts_iff c).mp h)
    decide
  · obtain rfl := Isa.eq_of_full_pattern ((ebreakPattern.accepts_iff c).mp h)
    decide

/-- Of any two entries, the outlines clash, or they are the shifts to the right by an immediate,
or they are the traps. -/
theorem pairwise_table : (table : List Entry).Pairwise fun e f =>
    e.outline.clashes f.outline = true ∨
      (e.instr = .srli ∧ f.instr = .srai ∧ f.precedence < e.precedence) ∨
      (e.instr = .ecall ∧ f.instr = .ebreak) := by
  decide +kernel

/-- Of two entries that match a word, the first is the one for logical shifts to the right by an
immediate and the second is the one for arithmetic shifts. -/
theorem pairwise_matches (c : Code) : (table : List Entry).Pairwise fun e f =>
    e.Matches c → f.Matches c →
      e.instr = .srli ∧ f.instr = .srai ∧ f.precedence < e.precedence := by
  refine pairwise_table.imp_of_mem fun {e f} he hf h hmatch hmatch' => ?_
  rcases h with hclash | hshift | ⟨hecall, hebreak⟩
  · exact absurd (outline_matches hf hmatch')
      (Encoding.not_matches_of_clashes hclash (outline_matches he hmatch))
  · exact hshift
  · have hfirst := Isa.encodes_of_matches he hmatch (by rw [hecall]; decide)
    have hsecond := Isa.encodes_of_matches hf hmatch' (by rw [hebreak]; decide)
    rw [hecall] at hfirst
    rw [hebreak] at hsecond
    have hsame : (0x00000073 : Nat) = 0x00100073 := hfirst.symm.trans hsecond
    omega

/-- Two entries that match a word are the same, or they are the two shifts to the right by an
immediate. -/
theorem instr_of_matches (he : e ∈ (table : List Entry)) (hf : f ∈ (table : List Entry))
    (hmatch : e.Matches c) (hmatch' : f.Matches c) :
    e.instr = f.instr ∨ (e.instr = .srli ∧ f.instr = .srai) ∨
      (e.instr = .srai ∧ f.instr = .srli) := by
  let Related (e f : Entry) : Prop := e.Matches c → f.Matches c →
    e.instr = f.instr ∨ (e.instr = .srli ∧ f.instr = .srai) ∨ (e.instr = .srai ∧ f.instr = .srli)
  have hpairs : (table : List Entry).Pairwise Related := by
    refine (pairwise_matches c).imp fun {e f} h hmatch hmatch' => ?_
    obtain ⟨hsrli, hsrai, -⟩ := h hmatch hmatch'
    exact Or.inr (Or.inl ⟨hsrli, hsrai⟩)
  have hflipped : (table : List Entry).Pairwise (flip Related) := by
    refine (pairwise_matches c).imp fun {f e} h hmatch hmatch' => ?_
    obtain ⟨hsrli, hsrai, -⟩ := h hmatch' hmatch
    exact Or.inr (Or.inr ⟨hsrai, hsrli⟩)
  have hsame : ∀ e ∈ (table : List Entry), Related e e := fun e _ _ _ => Or.inl rfl
  exact List.Pairwise.forall_of_forall_of_flip hsame hpairs hflipped he hf hmatch hmatch'

end Entry

/-! ## Selecting from the table -/

namespace Isa

variable {c : Code} {e : Entry}

theorem select_ne_ambiguous (c : Code) : Decoder.select table c ≠ .ambiguous := by
  refine Decoder.scan_ne_ambiguous (fun b hb => by cases hb) ?_
  refine (Entry.pairwise_matches c).imp fun {e f} h hmatch hmatch' => ?_
  have hlt := (h hmatch hmatch').2.2
  omega

theorem not_matches_of_select_unknown (h : Decoder.select table c = .unknown)
    (he : e ∈ (table : List Entry)) : ¬e.Matches c :=
  (Decoder.scan_unknown h).2 e he

theorem opcode_eq_of_toNat {op : BitVec 7} (h : opcode c.toNat = op.toNat) : c.opcode = op :=
  BitVec.eq_of_toNat_eq ((opcode_eq c).symm.trans h)

theorem fields_of_hasFunct3 {op : BitVec 7} {f3 : BitVec 3}
    (h : HasFunct3 c.toNat op.toNat f3.toNat) : c.opcode = op ∧ c.funct3 = f3 :=
  ⟨opcode_eq_of_toNat h.1, BitVec.eq_of_toNat_eq ((funct3_eq c).symm.trans h.2)⟩

theorem fields_of_hasFunct7 {op f7 : BitVec 7} {f3 : BitVec 3}
    (h : HasFunct7 c.toNat op.toNat f3.toNat f7.toNat) :
    c.opcode = op ∧ c.funct3 = f3 ∧ c.funct7 = f7 :=
  ⟨opcode_eq_of_toNat h.1, BitVec.eq_of_toNat_eq ((funct3_eq c).symm.trans h.2.1),
    BitVec.eq_of_toNat_eq ((funct7_eq c).symm.trans h.2.2)⟩

theorem matches_of_encodes (he : e ∈ (table : List Entry)) (h : Encodes e.instr c.toNat) :
    e.Matches c := by
  fin_cases he
  all_goals first
    | exact fields_of_hasFunct7 h
    | exact fields_of_hasFunct3 h
    | exact opcode_eq_of_toNat h
    | skip
  -- What is left: the shifts to the right by an immediate and the two words of the traps.
  · exact fields_of_hasFunct3 h.1
  · exact (sraiPattern.accepts_iff c).mpr (sraiPattern_matches_iff.mpr h)
  · obtain rfl : c = 0x00000073 := BitVec.eq_of_toNat_eq h
    decide
  · obtain rfl : c = 0x00100073 := BitVec.eq_of_toNat_eq h
    decide

/-- The decoder finds an instruction in exactly the words that the instruction set gives it. -/
theorem encodes_iff_select (i : Instr) (c : Code) :
    Encodes i c.toNat ↔ ∃ index e, Decoder.select table c = .known index e ∧ e.instr = i := by
  constructor
  · intro h
    obtain ⟨e, he, rfl⟩ : ∃ e ∈ (table : List Entry), e.instr = i := by
      rw [← List.mem_map, map_instr_table]
      exact i.mem_all
    have hmatch := matches_of_encodes he h
    cases hselect : Decoder.select table c with
    | unknown => exact absurd hmatch (not_matches_of_select_unknown hselect he)
    | ambiguous => exact absurd hselect (select_ne_ambiguous c)
    | known index f =>
      refine ⟨index, f, rfl, ?_⟩
      have hencodes := encodes_of_select hselect
      obtain ⟨hf, hmatch', -⟩ := Decoder.select_known hselect
      rcases Entry.instr_of_matches hf he hmatch' hmatch with heq | ⟨hsrli, hsrai⟩ | ⟨hsrai, hsrli⟩
      · exact heq
      · rw [hsrli] at hencodes
        rw [hsrai] at h
        exact absurd h.2 hencodes.2
      · rw [hsrai] at hencodes
        rw [hsrli] at h
        exact absurd hencodes.2 h.2
  · rintro ⟨index, e, hselect, rfl⟩
    exact encodes_of_select hselect

theorem instr_of_select {i : Instr} {index : Nat}
    (hselect : Decoder.select table c = .known index e)
    (hencodes : Encodes i c.toNat) : e.instr = i := by
  obtain ⟨index', e', hselect', hi⟩ := (encodes_iff_select i c).mp hencodes
  rw [hselect] at hselect'
  cases hselect'
  exact hi

theorem select_eq_unknown_iff (c : Code) :
    Decoder.select table c = .unknown ↔ ∀ i, ¬Encodes i c.toNat := by
  constructor
  · intro hselect i hencodes
    obtain ⟨index, e, hknown, -⟩ := (encodes_iff_select i c).mp hencodes
    rw [hselect] at hknown
    cases hknown
  · intro hnone
    cases hselect : Decoder.select table c with
    | unknown => rfl
    | ambiguous => exact absurd hselect (select_ne_ambiguous c)
    | known index e => exact absurd (encodes_of_select hselect) (hnone e.instr)

end Isa

end RiscvHart
