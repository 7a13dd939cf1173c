import RiscvHart.Proofs.Memory.Allocation

/-!
# Which requests for bytes are refused

A range is refused if it ends past the last address or meets a mapped one, and then if the budget
or the machine below has not the bytes. One more thing stands in the way of a range although it
has no address: a region without bytes, as a change of size to zero leaves it, that starts inside
the range.
-/

namespace RiscvHart

namespace Region

variable {r : Region} {addr : Word} {size : Nat}

/-- A region that starts before the end of a range and ends after its start has an address of the
range, or it is empty and starts inside. -/
theorem reaches_iff (hpos : 0 < size) :
    (r.base.toNat < addr.toNat + size ∧ addr.toNat < r.finish) ↔
      (∃ a : Word, a.Within addr size ∧ a.Within r.base r.size) ∨
        (r.size = 0 ∧ addr.toNat < r.base.toNat ∧ r.base.toNat < addr.toNat + size) := by
  have hfinish : r.finish = r.base.toNat + r.size := rfl
  rcases Nat.eq_zero_or_pos r.size with hzero | hr
  · have hnone : ¬∃ a : Word, a.Within addr size ∧ a.Within r.base r.size := by
      rintro ⟨a, -, hin⟩
      have := hin.pos
      omega
    rw [or_iff_right hnone]
    omega
  · rw [exists_within_iff hr hpos]
    omega

end Region

namespace Memory

variable {m m' : Memory} {r : Region} {a addr base : Word} {old size : Nat}

theorem WellFormed.contains_iff (h : m.WellFormed) :
    m.contains a = true ↔ ∃ r ∈ m.regions, a.Within r.base r.size := by
  rw [contains, Option.isSome_iff_exists]
  simp only [h.regionOf?_eq_some_iff Nat.one_pos, Region.covers_one_iff]

/-- What stands in the way of a range whose first `old` bytes are taken already: the end of the
address space, a mapped address among the others, or an empty region inside. -/
def Blocked (m : Memory) (addr : Word) (old size : Nat) : Prop :=
  addressLimit ≤ addr.toNat + size ∨
    (∃ a : Word, a.Within addr size ∧ ¬a.Within addr old ∧ m.contains a = true) ∨
    ∃ r ∈ m.regions, r.size = 0 ∧ addr.toNat < r.base.toNat ∧ r.base.toNat < addr.toNat + size

theorem WellFormed.overlaps_none_iff (h : m.WellFormed) (hpos : 0 < size) :
    m.overlaps addr (addr.toNat + size) none = true ↔
      (∃ a : Word, a.Within addr size ∧ ¬a.Within addr 0 ∧ m.contains a = true) ∨
        ∃ r ∈ m.regions, r.size = 0 ∧ addr.toNat < r.base.toNat ∧
          r.base.toNat < addr.toNat + size := by
  rw [h.overlaps_iff]
  constructor
  · rintro ⟨r, hr, -, hreach⟩
    rcases (Region.reaches_iff hpos).mp hreach with ⟨a, ha, hin⟩ | hempty
    · exact Or.inl ⟨a, ha, fun hold => absurd hold.pos (Nat.lt_irrefl 0),
        h.contains_iff.mpr ⟨r, hr, hin⟩⟩
    · exact Or.inr ⟨r, hr, hempty⟩
  · rintro (⟨a, ha, -, hmapped⟩ | ⟨r, hr, hempty⟩)
    · obtain ⟨r, hr, hin⟩ := h.contains_iff.mp hmapped
      exact ⟨r, hr, by simp, (Region.reaches_iff hpos).mpr (Or.inl ⟨a, ha, hin⟩)⟩
    · exact ⟨r, hr, by simp, (Region.reaches_iff hpos).mpr (Or.inr hempty)⟩

/-- A region in the way of one that grows lies over the added bytes, as no two regions meet. -/
theorem WellFormed.overlaps_self_iff (h : m.WellFormed) (hr : r ∈ m.regions) (hpos : 0 < size) :
    m.overlaps r.base (r.base.toNat + size) (some r.base) = true ↔
      (∃ a : Word, a.Within r.base size ∧ ¬a.Within r.base r.size ∧ m.contains a = true) ∨
        ∃ s ∈ m.regions, s.size = 0 ∧ r.base.toNat < s.base.toNat ∧
          s.base.toNat < r.base.toNat + size := by
  rw [h.overlaps_iff]
  constructor
  · rintro ⟨s, hs, hskip, hreach⟩
    rcases (Region.reaches_iff hpos).mp hreach with ⟨a, ha, hin⟩ | hempty
    · refine Or.inl ⟨a, ha, fun hold => hskip ?_, h.contains_iff.mpr ⟨s, hs, hin⟩⟩
      rw [Region.eq_of_within h.apart hs hr hin hold]
    · exact Or.inr ⟨s, hs, hempty⟩
  · rintro (⟨a, ha, hout, hmapped⟩ | ⟨s, hs, hempty⟩)
    · obtain ⟨s, hs, hin⟩ := h.contains_iff.mp hmapped
      refine ⟨s, hs, fun heq => hout ?_, (Region.reaches_iff hpos).mpr (Or.inl ⟨a, ha, hin⟩)⟩
      rwa [← Region.eq_of_mem_of_base_eq h.apart hs hr (Option.some.inj heq)]
    · refine ⟨s, hs, fun heq => ?_, (Region.reaches_iff hpos).mpr (Or.inr hempty)⟩
      have hstart := hempty.2.1
      rw [Option.some.inj heq] at hstart
      exact Nat.lt_irrefl _ hstart

/-! ## The answers -/

/-- A call answers that its range is in use exactly if it is blocked, that there is not enough
memory exactly if it is not blocked but short of bytes, and is done otherwise. -/
structure Answers (answer : Except MemoryError Memory) (inUse exhausted : MemoryError)
    (blocked short : Prop) : Prop where
  refused : answer = .error inUse ↔ blocked
  failed : answer = .error exhausted ↔ ¬blocked ∧ short
  done : (∃ m', answer = .ok m') ↔ ¬blocked ∧ ¬short

section Answers

variable {inUse exhausted : MemoryError} {blocked short : Prop}

theorem answers_refused (hne : inUse ≠ exhausted) (hblocked : blocked) :
    Answers (.error inUse) inUse exhausted blocked short where
  refused := iff_of_true rfl hblocked
  failed := iff_of_false (fun heq => hne (Except.error.inj heq)) fun h => h.1 hblocked
  done := iff_of_false (by rintro ⟨_, ⟨⟩⟩) fun h => h.1 hblocked

theorem answers_failed (hne : inUse ≠ exhausted) (hblocked : ¬blocked) (hshort : short) :
    Answers (.error exhausted) inUse exhausted blocked short where
  refused := iff_of_false (fun heq => hne (Except.error.inj heq).symm) hblocked
  failed := iff_of_true rfl ⟨hblocked, hshort⟩
  done := iff_of_false (by rintro ⟨_, ⟨⟩⟩) fun h => h.2 hshort

theorem answers_done (hblocked : ¬blocked) (hshort : ¬short) :
    Answers (.ok m') inUse exhausted blocked short where
  refused := iff_of_false (by rintro ⟨⟩) hblocked
  failed := iff_of_false (by rintro ⟨⟩) fun h => hshort h.2
  done := iff_of_true ⟨m', rfl⟩ ⟨hblocked, hshort⟩

end Answers

theorem WellFormed.answers_allocate (h : m.WellFormed) (hpos : 0 < size) :
    Answers (m.allocate addr size) (.regionOverlap addr size) (.outOfMemory size)
      (m.Blocked addr 0 size) (m.capacity < m.used + size ∨ m.backs size = false) := by
  have hne : MemoryError.regionOverlap addr size ≠ .outOfMemory size := MemoryError.noConfusion
  have hblocked : m.Blocked addr 0 size ↔ addressLimit ≤ addr.toNat + size ∨
      m.overlaps addr (addr.toNat + size) none = true := by
    rw [Blocked, h.overlaps_none_iff hpos]
  rw [hblocked, Memory.allocate, if_neg hpos.ne']
  split_ifs with hlimit hover hbudget hbacks
  · exact answers_refused hne (Or.inl hlimit)
  · exact answers_refused hne (Or.inr hover)
  · exact answers_failed hne (not_or.mpr ⟨hlimit, hover⟩) (Or.inl hbudget)
  · exact answers_failed hne (not_or.mpr ⟨hlimit, hover⟩) (Or.inr hbacks)
  · exact answers_done (not_or.mpr ⟨hlimit, hover⟩) (not_or.mpr ⟨hbudget, hbacks⟩)

theorem WellFormed.answers_resize (h : m.WellFormed) (hr : r ∈ m.regions) (hgrow : r.size < size) :
    Answers (m.resize r.base size) (.regionOverlap r.base size) (.outOfMemory (size - r.size))
      (m.Blocked r.base r.size size)
      (m.capacity < m.used + (size - r.size) ∨ m.backs size = false) := by
  have hne : MemoryError.regionOverlap r.base size ≠ .outOfMemory (size - r.size) :=
    MemoryError.noConfusion
  have hblocked : m.Blocked r.base r.size size ↔ addressLimit ≤ r.base.toNat + size ∨
      m.overlaps r.base (r.base.toNat + size) (some r.base) = true := by
    rw [Blocked, h.overlaps_self_iff hr (Nat.zero_lt_of_lt hgrow)]
  have hused := h.size_le_used hr
  have htotal : m.used + (size - r.size) = m.used - r.size + size := by omega
  rw [hblocked, htotal, resize_of_region (h.regionFrom?_eq_some_iff.mpr ⟨hr, rfl⟩),
    if_neg hgrow.not_ge]
  split_ifs with hlimit hover hbudget hbacks
  · exact answers_refused hne (Or.inl hlimit)
  · exact answers_refused hne (Or.inr hover)
  · exact answers_failed hne (not_or.mpr ⟨hlimit, hover⟩) (Or.inl hbudget)
  · exact answers_failed hne (not_or.mpr ⟨hlimit, hover⟩) (Or.inr hbacks)
  · exact answers_done (not_or.mpr ⟨hlimit, hover⟩) (not_or.mpr ⟨hbudget, hbacks⟩)

/-- Which ranges a memory with a given budget refuses, and which regions do not grow. -/
structure Refuses (m : Memory) (backs : Nat → Bool) (capacity : Nat) : Prop where
  allocations : ∀ addr size, 0 < size →
    Answers (m.allocate addr size) (.regionOverlap addr size) (.outOfMemory size)
      (m.Blocked addr 0 size) (capacity < m.used + size ∨ backs size = false)
  growths : ∀ r ∈ m.regions, ∀ size, r.size < size →
    Answers (m.resize r.base size) (.regionOverlap r.base size) (.outOfMemory (size - r.size))
      (m.Blocked r.base r.size size)
      (capacity < m.used + (size - r.size) ∨ backs size = false)

theorem WellFormed.refuses (h : m.WellFormed) : m.Refuses m.backs m.capacity where
  allocations _ _ hpos := h.answers_allocate hpos
  growths _ hr _ hgrow := h.answers_resize hr hgrow

end Memory

namespace MemoryRequest

theorem backs_of_serve {r : MemoryRequest} {m m' : Machine} (h : r.serve m = .ok m') :
    m'.memory.backs = m.memory.backs := by
  rcases memory_of_serve h with heq | ⟨_, _, h⟩ | ⟨_, _, h⟩ | ⟨_, _, h⟩ | ⟨_, _, h⟩
  · rw [heq]
  · rcases Memory.allocate_cases h with ⟨-, heq⟩ | ⟨-, -, -, -, -, heq⟩ <;> rw [heq]
  · obtain ⟨_, -, heq, -⟩ := Memory.resize_cases h
    rw [heq]
    rfl
  · obtain ⟨_, -, -, heq⟩ := Memory.release_cases h
    rw [heq]
  · exact (Memory.frame_fill h).2.2.2

theorem backs_performAll (rs : List MemoryRequest) (m : Machine) :
    (performAll rs m).memory.backs = m.memory.backs :=
  performAll_preserves (P := fun m' => m'.memory.backs = m.memory.backs)
    (fun _ _ _ hm h => (backs_of_serve h).trans hm) rs rfl

/-- Whatever was asked of a memory before, it refuses a range if and only if that is blocked, or
short of bytes. -/
theorem refuses_performAll (backs : Nat → Bool) (capacity : Nat) (rs : List MemoryRequest)
    (m : Machine) :
    (performAll rs { m with memory := .emptyOver backs capacity }).memory.Refuses
      backs capacity := by
  have hrefuses := (wellFormed_performAll backs capacity rs m).refuses
  rw [capacity_performAll, backs_performAll] at hrefuses
  exact hrefuses

/-- No address is mapped, and yet the range around a region that shrank to nothing
counts as in use. -/
theorem range_around_nothing_refused :
    let m := (performAll [.allocate 0x2000 16, .resize 0x2000 0]
      (.start (.empty 0x100000) 0x1000)).memory
    (∀ a, m.contains a = false) ∧
      m.allocate 0x1000 0x2000 = .error (.regionOverlap 0x1000 0x2000) := by
  intro m
  have hregions : m.regions = [⟨0x2000, 0, .zeros⟩] := rfl
  have hwell : m.WellFormed := wellFormed_performAll _ 0x100000 _ (.start (.empty 0x100000) 0x1000)
  constructor
  · intro a
    rw [← Bool.not_eq_true, hwell.contains_iff, hregions]
    rintro ⟨r, hr, hin⟩
    rw [List.mem_singleton.mp hr] at hin
    exact Nat.lt_irrefl 0 hin.pos
  · refine (hwell.answers_allocate (by decide)).refused.mpr (Or.inr (Or.inr ?_))
    rw [hregions]
    exact ⟨_, List.mem_singleton_self _, rfl, by decide, by decide⟩

end MemoryRequest

end RiscvHart
