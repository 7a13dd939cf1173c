import RiscvHart.Proofs.Program.Elf

/-!
# Loads that fail

A flat file is mapped as a whole or not at all. The spans of an executable are mapped one by one,
and those that were mapped before one that cannot be stay mapped.
-/

namespace RiscvHart

variable {m m' : Memory} {file : List Byte} {addr : Word} {size : Nat} {s : Span} {rest : List Span}

/-- The spans that are mapped for a file, if there is nothing wrong with its segments. -/
def Elf.spans? (file : List Byte) : Option (List Span) :=
  match Elf.read file with
  | .error _ => none
  | .ok x =>
    match x.segments.mapM Segment.pages with
    | .error _ => none
    | .ok pages => some (Span.join pages)

namespace Memory

theorem used_allocate (hok : m.allocate addr size = .ok m') : m'.used = m.used + size := by
  rcases allocate_cases hok with ⟨rfl, rfl⟩ | ⟨-, -, -, -, -, rfl⟩ <;> rfl

theorem used_le_mapSpans (spans : List Span) : m.used ≤ (m.mapSpans spans).1.used := by
  induction spans generalizing m with
  | nil => exact Nat.le_refl _
  | cons s rest ih =>
    unfold mapSpans
    split
    · exact Nat.le_refl _
    · next mapped hok => exact Nat.le_trans (by rw [used_allocate hok]; omega) (ih (m := mapped))

/-- If spans cannot be mapped, memory is what it was if and only if the first of them failed. -/
theorem mapSpans_eq_self_iff (hpos : 0 < s.size) :
    (m.mapSpans (s :: rest)).1 = m ↔
      ∃ e, m.allocate (BitVec.ofNat 64 s.start) s.size = .error e := by
  cases hfirst : m.allocate (BitVec.ofNat 64 s.start) s.size with
  | error e =>
    rw [mapSpans, hfirst]
    exact ⟨fun _ => ⟨e, rfl⟩, fun _ => rfl⟩
  | ok m₁ =>
    rw [(mapSpans_cons m s rest hfirst).1]
    constructor
    · intro heq
      have hused := used_allocate hfirst
      have hle := @used_le_mapSpans m₁ rest
      rw [heq] at hle
      omega
    · rintro ⟨e, he⟩
      cases he

/-- Once the pages of a flat file are mapped its bytes are written without fail. -/
theorem loadFlat_memory_of_error (hm : m.WellFormed) (base : Word) {e : Failure LoadError}
    (hfail : (m.loadFlat file base).result = .error e) : (m.loadFlat file base).memory = m := by
  unfold loadFlat at hfail ⊢
  dsimp only at hfail ⊢
  generalize hspan : (⟨base.toNat, base.toNat + (max file.length 1 + (Span.pageSize - 1)) /
    Span.pageSize * Span.pageSize⟩ : Span) = s at *
  have hstart : BitVec.ofNat 64 s.start = base := by
    rw [← hspan, BitVec.ofNat_toNat, BitVec.setWidth_eq]
  have hsize : file.length ≤ s.size ∧ 0 < s.size := by
    rw [← hspan]
    simp only [Span.size, Span.pageSize]
    omega
  cases hfirst : m.allocate (BitVec.ofNat 64 s.start) s.size with
  | error e' => rw [mapSpans, hfirst]
  | ok m₁ =>
    have hzeros := hm.zeros_mem_of_allocate hsize.2 hfirst
    have hmapped : m₁.Mapped base file.length := by
      refine Or.inr ⟨_, hzeros, ?_, ?_⟩
      · rw [hstart]
        exact Nat.le_refl _
      · rw [hstart]
        exact Nat.add_le_add_left hsize.1 _
    obtain ⟨written, hfill⟩ := ((hm.allocate hfirst).bounded_fill base file).ok_of_mapped hmapped
    rw [mapSpans, hfirst] at hfail
    dsimp only [mapSpans] at hfail
    rw [hfill] at hfail
    cases hfail

/-- An executable that is not loaded has something wrong with its segments and changes nothing,
or it is mapped as far as that goes. -/
theorem loadElf_error_cases (hm : m.WellFormed) {e : Failure LoadError}
    (hfail : (m.loadElf file).result = .error e) :
    (Elf.spans? file = none ∧ (m.loadElf file).memory = m) ∨
      ∃ s rest, Elf.spans? file = some (s :: rest) ∧ 0 < s.size ∧
        (m.loadElf file).memory = (m.mapSpans (s :: rest)).1 := by
  rcases hread : Elf.read file with e' | x
  · exact Or.inl ⟨by rw [Elf.spans?, hread], by rw [loadElf_of_read_error hread]⟩
  rw [loadElf_of_read_ok hread] at hfail ⊢
  have hsized := Elf.sized_of_read hread
  rcases hm.loadExecutable_cases hsized with
    ⟨e', -, hsame, hnone⟩ | ⟨pages, hpages, ⟨e', hmap, -, hmemory⟩ | ⟨-, hok, -⟩⟩
  · refine Or.inl ⟨?_, hsame⟩
    rw [Elf.spans?, hread]
    dsimp only
    split
    · rfl
    · next pages hmapM => exact absurd ⟨pages, Segment.mapM_pages_eq_ok_iff.mp hmapM⟩ hnone
  · have hspans : Elf.spans? file = some (Span.join pages) := by
      rw [Elf.spans?, hread]
      dsimp only
      rw [Segment.mapM_pages_eq_ok_iff.mpr hpages]
    cases hjoin : Span.join pages with
    | nil =>
      rw [hjoin, mapSpans] at hmap
      cases hmap
    | cons s rest =>
      have hpos := (hpages.mappable hsized (hjoin ▸ List.mem_cons_self)).pos
      exact Or.inr ⟨s, rest, by rw [hspans, hjoin], Nat.sub_pos_of_lt hpos, by rw [hmemory, hjoin]⟩
  · rw [hok] at hfail
    cases hfail

/-- A load that fails leaves what was mapped before alone. A flat file leaves nothing of itself;
an executable leaves spans of its own if and only if the first of them could be mapped. -/
theorem memory_of_failed_load (hm : m.WellFormed) (file : List Byte) :
    (∀ base e, (m.loadFlat file base).result = .error e → (m.loadFlat file base).memory = m) ∧
    (∀ e, (m.loadElf file).result = .error e →
      m.Outlasts (m.loadElf file).memory ∧
      (∀ a b, m.byteMap a = some b → (m.loadElf file).memory.byteMap a = some b) ∧
      ((m.loadElf file).memory = m ↔ ∀ s rest, Elf.spans? file = some (s :: rest) →
        ∃ e', m.allocate (BitVec.ofNat 64 s.start) s.size = .error e')) := by
  refine ⟨fun base e => loadFlat_memory_of_error hm base, fun e hfail => ?_⟩
  rcases loadElf_error_cases hm hfail with ⟨hnone, hsame⟩ | ⟨s, rest, hspans, hpos, hmemory⟩
  · rw [hnone, hsame]
    exact ⟨Outlasts.refl m, fun _ _ hb => hb, fun _ _ _ h => (by cases h), fun _ => rfl⟩
  · have hkept := hm.outlasts_mapSpans (s :: rest)
    rw [hspans, hmemory, mapSpans_eq_self_iff hpos]
    refine ⟨hkept, fun a b hb => hkept.byteMap (hm.mapSpans _) hb, fun herror t rest' heq => ?_,
      fun h => h s rest rfl⟩
    cases heq
    exact herror

def takenPage : Memory :=
  (MemoryRequest.performAll [.allocate 0x20000 0x1000] (.start (.empty 0x10000000) 0)).memory

theorem wellFormed_takenPage : takenPage.WellFormed :=
  MemoryRequest.wellFormed_performAll _ _ [.allocate 0x20000 0x1000] (.start (.empty 0x10000000) 0)

theorem memory_of_failed_load_hello :
    takenPage.WellFormed ∧
      (∃ e, (takenPage.loadFlat [0x13] 0x20800).result = .error e ∧
        (takenPage.loadFlat [0x13] 0x20800).memory = takenPage) ∧
      ∃ e, (takenPage.loadElf Elf.hello).result = .error e ∧
        takenPage.Outlasts (takenPage.loadElf Elf.hello).memory := by
  have hflat : (takenPage.loadFlat [0x13] 0x20800).result =
      .error (.error (.memory (.regionOverlap 0x20800 0x1000))) := by cbv
  have helf : (takenPage.loadElf Elf.hello).result =
      .error (.error (.memory (.regionOverlap 0x20000 0x1000))) := by cbv
  refine ⟨wellFormed_takenPage, ⟨_, hflat, ?_⟩, ⟨_, helf, ?_⟩⟩
  · exact (memory_of_failed_load wellFormed_takenPage [0x13]).1 _ _ hflat
  · exact ((memory_of_failed_load wellFormed_takenPage Elf.hello).2 _ helf).1

/-- The first segment stays mapped when the second one cannot be. -/
theorem failed_load_leaves_pages :
    takenPage.WellFormed ∧
      (takenPage.loadElf Elf.hello).result =
        .error (.error (.memory (.regionOverlap 0x20000 0x1000))) ∧
      takenPage.layout = [(0x20000, 0x1000)] ∧ takenPage.used = 0x1000 ∧
      (takenPage.loadElf Elf.hello).memory.layout = [(0x20000, 0x1000), (0x10000, 0x1000)] ∧
      (takenPage.loadElf Elf.hello).memory.used = 0x2000 :=
  ⟨wellFormed_takenPage, by cbv, by cbv, by cbv, by cbv, by cbv⟩

end Memory

end RiscvHart
