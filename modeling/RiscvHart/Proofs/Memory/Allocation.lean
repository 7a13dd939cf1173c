import RiscvHart.Proofs.Memory.ByteMap

/-!
# When there is room for a range

A range is mapped, or a region grows over it, exactly if no other region is in the way, an
address can stand after its end, and both the budget and the machine below have the bytes for it.
To unmap a range right after it was mapped gives back the memory of before.
-/

namespace RiscvHart

namespace Region

variable {rs : List Region} {r : Region} {addr : Word} {size : Nat}

/-- Two ranges with bytes meet exactly if each of them starts before the other one ends. -/
theorem exists_within_iff (hr : 0 < r.size) (hpos : 0 < size) :
    (∃ a : Word, a.Within addr size ∧ a.Within r.base r.size) ↔
      r.base.toNat < addr.toNat + size ∧ addr.toNat < r.finish := by
  have hfinish : r.finish = r.base.toNat + r.size := rfl
  constructor
  · rintro ⟨a, hin, hin'⟩
    rw [Word.Within] at hin hin'
    omega
  · rintro ⟨hstart, hend⟩
    rcases Nat.le_total addr.toNat r.base.toNat with hle | hle
    · exact ⟨r.base, ⟨hle, hstart⟩, Nat.le_refl _, by omega⟩
    · exact ⟨addr, ⟨Nat.le_refl _, by omega⟩, hle, hend⟩

theorem filter_insertRegion (hfresh : ∀ s ∈ rs, s.base ≠ r.base) :
    (Memory.insertRegion r rs).filter (fun s => s.base ≠ r.base) = rs := by
  have hself : ∀ l : List Region,
      (r :: l).filter (fun s => s.base ≠ r.base) = l.filter fun s => s.base ≠ r.base :=
    fun l => List.filter_cons_of_neg (by simp)
  induction rs with
  | nil => exact hself []
  | cons t rest ih =>
    have hrest : ∀ s ∈ rest, s.base ≠ r.base := fun s hs => hfresh s (List.mem_cons_of_mem _ hs)
    have hkeep : ∀ l : List Region,
        (t :: l).filter (fun s => s.base ≠ r.base) = t :: l.filter fun s => s.base ≠ r.base :=
      fun l => List.filter_cons_of_pos (by simpa using hfresh t List.mem_cons_self)
    unfold Memory.insertRegion
    split
    · rw [hself, hkeep, List.filter_eq_self.mpr fun s hs => decide_eq_true (hrest s hs)]
    · split
      · next heq => exact absurd heq (hfresh t List.mem_cons_self)
      · rw [hkeep, ih hrest]

end Region

namespace Memory

variable {m m' : Memory} {r : Region} {addr base : Word} {size : Nat} {skip : Option Word}

/-- Of the regions that start below the end of a range, none ends above its start, but for
the one at `skip`. -/
def Clear (m : Memory) (addr : Word) (size : Nat) (skip : Option Word) : Prop :=
  ∀ r ∈ m.regions, some r.base ≠ skip → r.base.toNat < addr.toNat + size → r.finish ≤ addr.toNat

theorem WellFormed.overlaps_eq_false_iff (h : m.WellFormed) :
    m.overlaps addr (addr.toNat + size) skip = false ↔ m.Clear addr size skip := by
  rw [← Bool.not_eq_true, h.overlaps_iff, Clear]
  constructor
  · intro hnone r hr hskip hlow
    by_contra hend
    exact hnone ⟨r, hr, hskip, hlow, Nat.lt_of_not_le hend⟩
  · rintro hclear ⟨r, hr, hskip, hlow, hend⟩
    exact absurd (hclear r hr hskip hlow) hend.not_ge

theorem WellFormed.allocate_ok_iff (h : m.WellFormed) (hpos : 0 < size) :
    (∃ m', m.allocate addr size = .ok m') ↔
      addr.toNat + size < addressLimit ∧ m.Clear addr size none ∧ m.used + size ≤ m.capacity ∧
        m.backs size = true := by
  constructor
  · rintro ⟨m', hok⟩
    rcases allocate_cases hok with ⟨hzero, -⟩ | ⟨-, hlimit, hfree, hbudget, hbacks, -⟩
    · omega
    · exact ⟨hlimit, h.overlaps_eq_false_iff.mp hfree, hbudget, hbacks⟩
  · rintro ⟨hlimit, hclear, hbudget, hbacks⟩
    have hfree := h.overlaps_eq_false_iff.mpr hclear
    unfold Memory.allocate
    rw [if_neg hpos.ne', if_neg hlimit.not_ge, hfree, if_neg Bool.false_ne_true,
      if_neg hbudget.not_gt, hbacks, if_neg Bool.noConfusion]
    exact ⟨_, rfl⟩

/-- A region can grow exactly if there is room for the bytes to be added. -/
theorem WellFormed.extend_ok_iff (h : m.WellFormed) (hr : m.regionFrom? base = some r)
    (hgrow : r.size < size) :
    (∃ m', m.resize base size = .ok m') ↔
      base.toNat + size < addressLimit ∧ m.Clear base size (some base) ∧
        m.used + (size - r.size) ≤ m.capacity ∧ m.backs size = true := by
  have hused := h.size_le_used (h.regionFrom?_eq_some_iff.mp hr).1
  have hsum : m.used - r.size + size = m.used + (size - r.size) := by omega
  constructor
  · rintro ⟨m', hok⟩
    obtain ⟨s, hs, -, hroom⟩ := resize_cases hok
    obtain rfl : r = s := Option.some.inj (hr.symm.trans hs)
    rcases hroom with hsmall | ⟨-, hlimit, hfree, hbudget, hbacks⟩
    · omega
    · exact ⟨hlimit, h.overlaps_eq_false_iff.mp hfree, hsum ▸ hbudget, hbacks⟩
  · rintro ⟨hlimit, hclear, hbudget, hbacks⟩
    have hfree := h.overlaps_eq_false_iff.mpr hclear
    rw [← hsum] at hbudget
    rw [resize_of_region hr, if_neg hgrow.not_ge, if_neg hlimit.not_ge, hfree,
      if_neg Bool.false_ne_true, if_neg hbudget.not_gt, hbacks, if_neg Bool.noConfusion]
    exact ⟨_, rfl⟩

/-! ## Room as seen from the addresses -/

theorem byteMap_eq_none_iff_layout {a : Word} :
    m.byteMap a = none ↔ ∀ e ∈ m.layout, ¬a.Within e.1 e.2 := by
  simp [byteMap_eq_none_iff, layout]

theorem Solid.size_pos (h : m.Solid) (hr : r ∈ m.regions) : 0 < r.size :=
  h _ (mem_layout_of_mem hr)

theorem Solid.clear_iff (h : m.Solid) (hpos : 0 < size) :
    m.Clear addr size skip ↔
      ∀ a : Word, a.Within addr size → ∀ r ∈ m.regions, some r.base ≠ skip →
        ¬a.Within r.base r.size := by
  constructor
  · intro hclear a ha r hr hskip hin
    obtain ⟨hlow, hend⟩ := (Region.exists_within_iff (h.size_pos hr) hpos).mp ⟨a, ha, hin⟩
    exact absurd (hclear r hr hskip hlow) hend.not_ge
  · intro hnone r hr hskip hlow
    by_contra hend
    obtain ⟨a, ha, hin⟩ := (Region.exists_within_iff (h.size_pos hr) hpos).mpr
      ⟨hlow, Nat.lt_of_not_le hend⟩
    exact hnone a ha r hr hskip hin

/-- The region that grows has none of the addresses that are added to it. -/
theorem WellFormed.clear_iff_unmapped (h : m.WellFormed) (hsolid : m.Solid) (hr : r ∈ m.regions)
    (hgrow : r.size < size) :
    m.Clear r.base size (some r.base) ↔
      ∀ a : Word, a.Within r.base size → ¬a.Within r.base r.size → m.byteMap a = none := by
  rw [hsolid.clear_iff (by omega)]
  constructor
  · intro hclear a ha hout
    rw [byteMap_eq_none_iff]
    intro s hs hin
    by_cases hbase : s.base = r.base
    · rw [Region.eq_of_mem_of_base_eq h.apart hs hr hbase] at hin
      exact hout hin
    · exact hclear a ha s hs (by simpa using hbase) hin
  · intro hnone a ha s hs hskip hin
    by_cases hold : a.Within r.base r.size
    · apply hskip
      rw [Region.eq_of_within h.apart hs hr hin hold]
    · exact byteMap_eq_none_iff.mp (hnone a ha hold) s hs hin

/-! ## There and back -/

theorem WellFormed.release_of_allocate (h : m.WellFormed) (hpos : 0 < size)
    (hfresh : ∀ e ∈ m.layout, e.1 ≠ addr) (hok : m.allocate addr size = .ok m') :
    m'.release addr = .ok (size, m) := by
  have hwell := h.allocate hok
  rcases allocate_cases hok with ⟨hzero, -⟩ | ⟨-, -, -, -, -, rfl⟩
  · omega
  obtain ⟨rest, hrelease⟩ := hwell.release_of_mem_layout
    (mem_layout_of_mem ((Region.mem_insertRegion h.apart).mpr (Or.inl rfl)))
  obtain ⟨r, -, hsize, hrest⟩ := release_cases hrelease
  have hregions : (insertRegion (.zeros addr size) m.regions).filter (fun s => s.base ≠ addr) =
      m.regions :=
    Region.filter_insertRegion (r := .zeros addr size) fun s hs => hfresh _ (mem_layout_of_mem hs)
  have hused : m.used + size - r.size = m.used := by rw [← hsize]; exact Nat.add_sub_cancel _ _
  refine hrelease.trans (congrArg (fun x => Except.ok (size, x)) (hrest.trans ?_))
  dsimp only
  rw [hused]
  exact congrArg (fun rs => { m with regions := rs }) hregions

end Memory

/-! ## What else changes -/

namespace Machine

variable {m m' : Machine} {r : Region} {addr base : Word} {size : Nat}

theorem eq_of_allocate (hpos : 0 < size) (hok : m.allocate addr size = .ok m') :
    m' = { m with
      memory := { m.memory with
        regions := m'.memory.regions
        used := m.memory.used + size }
      log := m.log.add (.allocated addr size) } := by
  obtain ⟨mapped, hmapped, rfl⟩ := Except.map_eq_ok_iff.mp hok
  rcases Memory.allocate_cases hmapped with ⟨hzero, -⟩ | ⟨-, -, -, -, -, rfl⟩
  · omega
  · dsimp only
    rw [if_neg hpos.ne']
    rfl

theorem eq_of_extend (h : m.memory.WellFormed) (hr : m.memory.regionFrom? base = some r)
    (hgrow : r.size < size) (hok : m.resize base size = .ok m') :
    m' = { m with
      memory := { m.memory with
        regions := m'.memory.regions
        used := m.memory.used + (size - r.size) }
      log := m.log.add (.allocated (base + BitVec.ofNat 64 r.size) (size - r.size)) } := by
  have hused := h.size_le_used (h.regionFrom?_eq_some_iff.mp hr).1
  have hsum : m.memory.used - r.size + size = m.memory.used + (size - r.size) := by omega
  rw [resize_eq_map] at hok
  obtain ⟨resized, hresized, rfl⟩ := Except.map_eq_ok_iff.mp hok
  obtain ⟨s, hs, rfl, -⟩ := Memory.resize_cases hresized
  obtain rfl : r = s := Option.some.inj (hr.symm.trans hs)
  rw [hr]
  dsimp only
  rw [if_pos hgrow, ← hsum]
  rfl

theorem eq_of_release (hok : m.release base = .ok (size, m')) :
    m' = { m with
      memory := { m.memory with
        regions := m'.memory.regions
        used := m.memory.used - size } } := by
  obtain ⟨⟨n, rest⟩, hrest, heq⟩ := Except.map_eq_ok_iff.mp hok
  cases heq
  obtain ⟨s, -, rfl, rfl⟩ := Memory.release_cases hrest
  rfl

end Machine

end RiscvHart
