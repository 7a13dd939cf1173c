import RiscvHart.Proofs.Isa.Completeness

/-!
# Precedence decides, not position

A decoder is any list of entries. Where the entries that match a word differ in precedence, the
search answers with the place of the one that comes before all others, and the order in which the
entries stand in the list has no influence on which entry that is.
-/

namespace RiscvHart

namespace Decoder

variable {c : Code} {d d' : Decoder} {e f : Entry} {i j : Nat}

/-- The entries that match a word differ in precedence. -/
def Ranked (d : Decoder) (c : Code) : Prop :=
  d.Pairwise fun e f => e.Matches c → f.Matches c → e.precedence ≠ f.precedence

instance (d : Decoder) (c : Code) : Decidable (d.Ranked c) :=
  inferInstanceAs (Decidable (List.Pairwise _ d))

/-- The entry at a place of the list matches a word, and its precedence is below that of every
other place whose entry matches. -/
structure Wins (d : Decoder) (c : Code) (i : Nat) (e : Entry) : Prop where
  place : d[i]? = some e
  accepts : e.Matches c
  first : ∀ j f, j ≠ i → d[j]? = some f → f.Matches c → e.precedence < f.precedence

theorem Wins.unique (h : d.Wins c i e) (h' : d.Wins c j f) : i = j ∧ e = f := by
  have hplace : i = j := by
    by_contra hne
    have hlt := h.first j f (Ne.symm hne) h'.place h'.accepts
    have hgt := h'.first i e hne h.place h.accepts
    omega
  subst hplace
  exact ⟨rfl, Option.some.inj (h.place.symm.trans h'.place)⟩

theorem Ranked.precedence_ne (h : d.Ranked c) (hne : i ≠ j) (hi : d[i]? = some e)
    (hj : d[j]? = some f) (he : e.Matches c) (hf : f.Matches c) : e.precedence ≠ f.precedence := by
  obtain ⟨hilt, rfl⟩ := List.getElem?_eq_some_iff.mp hi
  obtain ⟨hjlt, rfl⟩ := List.getElem?_eq_some_iff.mp hj
  have hpairs := List.pairwise_iff_getElem.mp h
  rcases Nat.lt_or_gt_of_ne hne with hlt | hgt
  · exact hpairs i j hilt hjlt hlt he hf
  · exact (hpairs j i hjlt hilt hgt hf he).symm

theorem Ranked.perm (h : d.Ranked c) (hperm : d.Perm d') : d'.Ranked c := by
  refine (hperm.pairwise_iff ?_).mp h
  intro e f hne hf he
  exact (hne he hf).symm

/-! ## One list -/

theorem Ranked.select_ne_ambiguous (h : d.Ranked c) : d.select c ≠ .ambiguous :=
  scan_ne_ambiguous (fun b hb => by cases hb) h

theorem Ranked.wins_of_select (h : d.Ranked c) (hselect : d.select c = .known i e) :
    d.Wins c i e := by
  obtain ⟨-, hmatch, hleast⟩ := select_known hselect
  have hplace := getElem?_of_select hselect
  refine ⟨hplace, hmatch, fun j f hne hj hf => ?_⟩
  have hle := hleast f (List.mem_of_getElem? hj) hf
  have hdistinct := h.precedence_ne hne hj hplace hf hmatch
  omega

theorem Ranked.exists_select (h : d.Ranked c) (he : e ∈ d) (hmatch : e.Matches c) :
    ∃ i f, d.select c = .known i f := by
  cases hselect : d.select c with
  | unknown => exact absurd hmatch ((scan_unknown hselect).2 e he)
  | ambiguous => exact absurd hselect h.select_ne_ambiguous
  | known i f => exact ⟨i, f, rfl⟩

theorem Ranked.select_eq_known_iff (h : d.Ranked c) : d.select c = .known i e ↔ d.Wins c i e := by
  constructor
  · exact h.wins_of_select
  · intro hwins
    obtain ⟨j, f, hselect⟩ := h.exists_select (List.mem_of_getElem? hwins.place) hwins.accepts
    obtain ⟨rfl, rfl⟩ := hwins.unique (h.wins_of_select hselect)
    exact hselect

theorem Ranked.select_eq_unknown_iff (h : d.Ranked c) :
    d.select c = .unknown ↔ ∀ e ∈ d, ¬e.Matches c := by
  constructor
  · intro hselect
    exact (scan_unknown hselect).2
  · intro hnone
    cases hselect : d.select c with
    | unknown => rfl
    | ambiguous => exact absurd hselect h.select_ne_ambiguous
    | known i e =>
      obtain ⟨hmem, hmatch, -⟩ := select_known hselect
      exact absurd hmatch (hnone e hmem)

theorem Ranked.decode?_eq_some_iff (h : d.Ranked c) {x : Decoded} :
    d.decode? c = some x ↔
      ∃ i e, d.Wins c i e ∧ x = ⟨e.instr, e.encoding.format.extract c⟩ := by
  rw [decode?]
  constructor
  · intro hdecode
    cases hselect : d.select c with
    | unknown =>
      rw [hselect] at hdecode
      cases hdecode
    | ambiguous => exact absurd hselect h.select_ne_ambiguous
    | known i e =>
      rw [hselect] at hdecode
      exact ⟨i, e, h.wins_of_select hselect, (Option.some.inj hdecode).symm⟩
  · rintro ⟨i, e, hwins, rfl⟩
    rw [h.select_eq_known_iff.mpr hwins]
    rfl

/-- The candidates are the longest part of the list, in its order, of entries that match. -/
theorem sublist_candidates_iff {l : List Entry} :
    l.Sublist (d.candidates c) ↔ l.Sublist d ∧ ∀ e ∈ l, e.Matches c := by
  rw [candidates, List.sublist_filter_iff]
  constructor
  · rintro ⟨part, hpart, rfl⟩
    refine ⟨List.filter_sublist.trans hpart, fun e he => ?_⟩
    exact of_decide_eq_true (List.mem_filter.mp he).2
  · rintro ⟨hsub, hmatch⟩
    refine ⟨l, hsub, (List.filter_eq_self.mpr fun e he => ?_).symm⟩
    exact decide_eq_true (hmatch e he)

/-! ## The same entries in another order -/

/-- Whether an entry is the selected one can be told without its place. -/
theorem Ranked.exists_select_eq_iff (h : d.Ranked c) :
    (∃ i, d.select c = .known i e) ↔
      e ∈ d ∧ e.Matches c ∧ ∀ f ∈ d, f.Matches c → e.precedence ≤ f.precedence := by
  constructor
  · rintro ⟨i, hselect⟩
    exact select_known hselect
  · rintro ⟨hmem, hmatch, hleast⟩
    obtain ⟨i, f, hselect⟩ := h.exists_select hmem hmatch
    have hwins := h.wins_of_select hselect
    obtain ⟨j, hj⟩ := List.mem_iff_getElem?.mp hmem
    have hle := hleast f (List.mem_of_getElem? hwins.place) hwins.accepts
    have hij : j = i := by
      by_contra hne
      have hlt := hwins.first j e hne hj hmatch
      omega
    subst hij
    obtain rfl := Option.some.inj (hj.symm.trans hwins.place)
    exact ⟨j, hselect⟩

theorem Ranked.exists_select_perm (h : d.Ranked c) (hperm : d.Perm d') (e : Entry) :
    (∃ j, d'.select c = .known j e) ↔ ∃ i, d.select c = .known i e := by
  rw [(h.perm hperm).exists_select_eq_iff, h.exists_select_eq_iff]
  simp only [hperm.mem_iff]

theorem Ranked.select_unknown_perm (h : d.Ranked c) (hperm : d.Perm d') :
    d'.select c = .unknown ↔ d.select c = .unknown := by
  rw [(h.perm hperm).select_eq_unknown_iff, h.select_eq_unknown_iff]
  simp only [hperm.mem_iff]

theorem Ranked.decode?_perm (h : d.Ranked c) (hperm : d.Perm d') : d'.decode? c = d.decode? c := by
  cases hselect : d.select c with
  | unknown =>
    have hselect' := (h.select_unknown_perm hperm).mpr hselect
    rw [decode?, decode?, hselect, hselect']
  | ambiguous => exact absurd hselect h.select_ne_ambiguous
  | known i e =>
    obtain ⟨j, hselect'⟩ := (h.exists_select_perm hperm e).mpr ⟨i, hselect⟩
    rw [decode?, decode?, hselect, hselect']

/-- What a list of entries answers for a word whose entries differ in precedence. -/
structure Decides (d : Decoder) (c : Code) : Prop where
  unknown : d.select c = .unknown ↔ ∀ e ∈ d, ¬e.Matches c
  known : ∀ i e, d.select c = .known i e ↔ d.Wins c i e
  settled : (∃ e ∈ d, e.Matches c) → ∃ i e, d.select c = .known i e
  candidates : ∀ l : List Entry,
    l.Sublist (d.candidates c) ↔ l.Sublist d ∧ ∀ e ∈ l, e.Matches c
  decoded : ∀ x, d.decode? c = some x ↔
    ∃ i e, d.Wins c i e ∧ x = ⟨e.instr, e.encoding.format.extract c⟩
  reordered : ∀ d' : Decoder, d.Perm d' →
    (d'.select c = .unknown ↔ d.select c = .unknown) ∧
      (∀ e, (∃ j, d'.select c = .known j e) ↔ ∃ i, d.select c = .known i e) ∧
      d'.decode? c = d.decode? c

/-- Of any list of entries, in any order, the decoder selects the matching one of smallest
precedence. -/
theorem decides_of_ranked (h : d.Ranked c) : d.Decides c where
  unknown := h.select_eq_unknown_iff
  known _ _ := h.select_eq_known_iff
  settled := fun ⟨_, he, hmatch⟩ => h.exists_select he hmatch
  candidates _ := sublist_candidates_iff
  decoded _ := h.decode?_eq_some_iff
  reordered _ hperm :=
    ⟨h.select_unknown_perm hperm, h.exists_select_perm hperm, h.decode?_perm hperm⟩

/-- An entry for one word of `addi`, which comes before the entry of `addi`. -/
def ahead : Entry := ⟨.ori, .custom .i (· == 0x00500293), 10⟩

/-- The entry of one word is selected behind the general one, and in every other
order of the two. -/
theorem decides_ahead :
    let d : Decoder := [⟨.addi, .i Opcode.opImm 0b000, 100⟩, ahead]
    d.Ranked 0x00500293 ∧ d.select 0x00500293 = .known 1 ahead ∧
      ∀ d' : Decoder, d.Perm d' → ∃ j, d'.select 0x00500293 = .known j ahead := by
  intro d
  have hranked : d.Ranked 0x00500293 := by decide
  have hdecides := decides_of_ranked hranked
  have hselect : d.select 0x00500293 = .known 1 ahead := by
    refine (hdecides.known 1 ahead).mpr ⟨rfl, by decide, fun j f hne hj hf => ?_⟩
    match j with
    | 0 =>
      obtain rfl := Option.some.inj hj
      decide
    | 1 => exact absurd rfl hne
    | j + 2 => cases hj
  refine ⟨hranked, hselect, fun d' hperm => ?_⟩
  exact ((hdecides.reordered d' hperm).2.1 ahead).mpr ⟨1, hselect⟩

end Decoder

end RiscvHart
