import RiscvHart.Proofs.Memory.ByteMap

/-!
# What stays while memory is set up

A region that has bytes outlasts what is mapped after it, and a write changes no region but the
one that it goes to. `FilledFrom` tells a region that is written from its start on: some bytes,
and zeros after them.
-/

namespace RiscvHart.Memory

variable {m m' : Memory} {r : Region} {a addr base b : Word} {len size k : Nat} {bs cs : List Byte}

/-! ## Regions that stay -/

theorem WellFormed.base_ne_of_allocate (h : m.WellFormed) (hpos : 0 < size)
    (hok : m.allocate addr size = .ok m') (hr : r ∈ m.regions) (hfull : 0 < r.size) :
    r.base ≠ addr := by
  intro heq
  have hin : r.base.Within r.base r.size := ⟨Nat.le_refl _, by omega⟩
  have hnew : r.base.Within addr size := ⟨by rw [heq], by rw [heq]; omega⟩
  have hnone := (h.byteMap_allocate hok r.base).1 hnew
  exact byteMap_eq_none_iff.mp hnone r hr hin

theorem WellFormed.mem_of_allocate (h : m.WellFormed) (hok : m.allocate addr size = .ok m')
    (hr : r ∈ m.regions) (hfull : 0 < r.size) : r ∈ m'.regions := by
  rcases allocate_cases hok with ⟨-, rfl⟩ | ⟨hpos, -, -, -, -, rfl⟩
  · exact hr
  · exact (Region.mem_insertRegion h.apart).mpr
      (Or.inr ⟨hr, h.base_ne_of_allocate hpos hok hr hfull⟩)

theorem WellFormed.mem_of_resize (h : m.WellFormed) (hok : m.resize base size = .ok m')
    (hr : r ∈ m.regions) (hne : r.base ≠ base) : r ∈ m'.regions := by
  obtain ⟨_, -, -, -, hmem⟩ := h.byteMap_resize hok
  exact (hmem r).mpr (Or.inr ⟨hr, hne⟩)

/-- A write leaves a region alone if its first address is not there. -/
theorem WellFormed.mem_of_fill (h : m.WellFormed) (hok : m.fill addr bs = .ok m')
    (hr : r ∈ m.regions) (hout : 0 < bs.length → ¬addr.Within r.base r.size) :
    r ∈ m'.regions := by
  rcases fill_cases hok with ⟨-, rfl⟩ | ⟨hpos, s, hof, rfl⟩
  · exact hr
  obtain ⟨hs, hcovers⟩ := (h.regionOf?_eq_some_iff hpos).mp hof
  refine (Region.mem_replace h.apart hs).mpr (Or.inr ⟨hr, fun hbase => hout hpos ?_⟩)
  rw [Region.eq_of_mem_of_base_eq h.apart hr hs hbase]
  exact hcovers.within ⟨Nat.le_refl _, by omega⟩

theorem WellFormed.byteMap_of_regions_kept {c : Byte} (h : m'.WellFormed)
    (hkept : ∀ r ∈ m.regions, 0 < r.size → r ∈ m'.regions) (hold : m.byteMap a = some c) :
    m'.byteMap a = some c := by
  obtain ⟨r, hr, hbyte⟩ := List.exists_of_findSome?_eq_some hold
  have hin := (Region.byte?_eq_some_iff.mp hbyte).1
  rw [h.byteMap_of_mem (hkept r hr hin.pos) hin, hbyte]

/-! ## The size of the region at an address -/

/-- The size of the region that starts at `base`, or zero if there is none. -/
def sizeFrom (m : Memory) (base : Word) : Nat := ((m.regionFrom? base).map Region.size).getD 0

theorem WellFormed.sizeFrom_of_mem (h : m.WellFormed) (hr : r ∈ m.regions) :
    m.sizeFrom r.base = r.size := by
  rw [sizeFrom, h.regionFrom?_eq_some_iff.mpr ⟨hr, rfl⟩]
  rfl

theorem WellFormed.exists_of_sizeFrom_pos (h : m.WellFormed) (hpos : 0 < m.sizeFrom base) :
    ∃ r ∈ m.regions, r.base = base ∧ r.size = m.sizeFrom base := by
  cases hfind : m.regionFrom? base with
  | none =>
    rw [sizeFrom, hfind] at hpos
    exact absurd hpos (Nat.lt_irrefl 0)
  | some r =>
    obtain ⟨hr, rfl⟩ := h.regionFrom?_eq_some_iff.mp hfind
    exact ⟨r, hr, rfl, (h.sizeFrom_of_mem hr).symm⟩

/-- The addresses from a base on are mapped as far as its region goes. -/
theorem WellFormed.mapped_of_sizeFrom (h : m.WellFormed) (haddr : addr.toNat = base.toNat + k)
    (hroom : k + len ≤ m.sizeFrom base) : m.Mapped addr len := by
  rcases Nat.eq_zero_or_pos len with hzero | hpos
  · exact Or.inl hzero
  · have hsome : 0 < m.sizeFrom base := by omega
    obtain ⟨r, hr, hbase, hsize⟩ := h.exists_of_sizeFrom_pos hsome
    refine Or.inr ⟨r, hr, ?_, ?_⟩
    · rw [hbase]
      omega
    · rw [Region.finish, hbase, hsize]
      omega

/-- An address of the region at one base is in no region at another. -/
theorem WellFormed.not_within_of_base_ne (h : m.WellFormed) (hr : r ∈ m.regions)
    (hne : r.base ≠ base) (hin : a.Within base (m.sizeFrom base)) : ¬a.Within r.base r.size := by
  intro har
  obtain ⟨s, hs, hbase, hsize⟩ := h.exists_of_sizeFrom_pos hin.pos
  have has : a.Within s.base s.size := by rwa [hbase, hsize]
  exact hne ((congrArg Region.base (Region.eq_of_within h.apart hr hs har has)).trans hbase)

theorem WellFormed.sizeFrom_of_mem_layout (h : m.WellFormed) (hmem : (base, size) ∈ m.layout) :
    m.sizeFrom base = size := by
  obtain ⟨r, hr, rfl, rfl⟩ := mem_layout_iff.mp hmem
  exact h.sizeFrom_of_mem hr

theorem WellFormed.sizeFrom_congr (h : m.WellFormed) (h' : m'.WellFormed)
    (hsame : ∀ n, (base, n) ∈ m'.layout ↔ (base, n) ∈ m.layout) :
    m'.sizeFrom base = m.sizeFrom base := by
  rcases Nat.eq_zero_or_pos (m.sizeFrom base) with hzero | hpos
  · by_contra hne
    have hpos : 0 < m'.sizeFrom base := by omega
    obtain ⟨r, hr, hbase, hsize⟩ := h'.exists_of_sizeFrom_pos hpos
    have hmem := (hsame r.size).mp (hbase ▸ mem_layout_of_mem hr)
    have := h.sizeFrom_of_mem_layout hmem
    omega
  · obtain ⟨r, hr, hbase, hsize⟩ := h.exists_of_sizeFrom_pos hpos
    have hmem := (hsame r.size).mpr (hbase ▸ mem_layout_of_mem hr)
    rw [h'.sizeFrom_of_mem_layout hmem, hsize]

theorem WellFormed.sizeFrom_fill (h : m.WellFormed) (hok : m.fill addr bs = .ok m') (base : Word) :
    m'.sizeFrom base = m.sizeFrom base :=
  h.sizeFrom_congr (h.fill hok) fun n => by rw [(frame_fill hok).1]

theorem WellFormed.sizeFrom_resize (h : m.WellFormed) (hok : m.resize base size = .ok m')
    (b : Word) : m'.sizeFrom b = if b = base then size else m.sizeFrom b := by
  have hlayout := (h.layout_resize hok).2
  split
  · next heq =>
    subst heq
    exact (h.resize hok).sizeFrom_of_mem_layout ((hlayout _).mpr (Or.inl rfl))
  · next hne =>
    refine h.sizeFrom_congr (h.resize hok) fun n => ?_
    simp [hlayout, hne]

theorem WellFormed.sizeFrom_allocate (h : m.WellFormed) (hpos : 0 < size)
    (hok : m.allocate addr size = .ok m') (b : Word) :
    m'.sizeFrom b = if b = addr then size else m.sizeFrom b := by
  have h' := h.allocate hok
  rcases allocate_cases hok with ⟨hzero, -⟩ | ⟨-, -, -, -, -, rfl⟩
  · omega
  have hmem := fun s => Region.mem_insertRegion (r := .zeros addr size) (s := s) h.apart
  split
  · next heq =>
    subst heq
    exact h'.sizeFrom_of_mem ((hmem _).mpr (Or.inl rfl))
  · next hne =>
    refine h.sizeFrom_congr h' fun n => ?_
    rw [mem_layout_iff, mem_layout_iff]
    constructor
    · rintro ⟨s, hs, hbase, hsize⟩
      rcases (hmem s).mp hs with rfl | ⟨hs, -⟩
      · exact absurd hbase.symm hne
      · exact ⟨s, hs, hbase, hsize⟩
    · rintro ⟨s, hs, hbase, hsize⟩
      exact ⟨s, (hmem s).mpr (Or.inr ⟨hs, fun heq => hne (hbase.symm.trans heq)⟩), hbase, hsize⟩

/-- Where bytes can be mapped anew no region with bytes has started. -/
theorem WellFormed.sizeFrom_of_allocate (h : m.WellFormed) (hpos : 0 < size)
    (hok : m.allocate addr size = .ok m') : m.sizeFrom addr = 0 := by
  by_contra hne
  obtain ⟨r, hr, hbase, hsize⟩ := h.exists_of_sizeFrom_pos (Nat.pos_of_ne_zero hne)
  exact h.base_ne_of_allocate hpos hok hr (by omega) hbase

theorem WellFormed.sizeFrom_le_of_allocate (h : m.WellFormed) (hok : m.allocate addr size = .ok m')
    (b : Word) : m.sizeFrom b ≤ m'.sizeFrom b := by
  rcases Nat.eq_zero_or_pos size with rfl | hpos
  · rcases allocate_cases hok with ⟨-, rfl⟩ | ⟨hpos, -⟩
    · exact Nat.le_refl _
    · omega
  rw [h.sizeFrom_allocate hpos hok]
  split
  · next heq =>
    rw [heq, h.sizeFrom_of_allocate hpos hok]
    exact Nat.zero_le _
  · exact Nat.le_refl _

/-! ## Regions written from their start on -/

/-- The region at `base` starts with the bytes `bs`, and all that follow are zero. If there is no
region there are no bytes. -/
structure FilledFrom (m : Memory) (base : Word) (bs : List Byte) : Prop where
  room : bs.length ≤ m.sizeFrom base
  bytes : ∀ a : Word, a.Within base (m.sizeFrom base) →
    m.byteMap a = some (bs[a.toNat - base.toNat]?.getD 0)

theorem filledFrom_nil (hnone : m.sizeFrom base = 0) : m.FilledFrom base [] where
  room := Nat.zero_le _
  bytes _ ha := absurd ha.pos (hnone ▸ Nat.lt_irrefl 0)

/-- Zeros at the end may be counted or not. -/
theorem getD_append_zeros (bs : List Byte) (k i : Nat) :
    (bs ++ List.replicate k 0)[i]?.getD 0 = bs[i]?.getD 0 := by
  rw [List.getElem?_append]
  split
  · rfl
  · next hout =>
    rw [List.getElem?_eq_none (Nat.le_of_not_lt hout), List.getElem?_replicate]
    split <;> rfl

namespace FilledFrom

theorem append_zeros (h : m.FilledFrom base bs) (hroom : bs.length + k ≤ m.sizeFrom base) :
    m.FilledFrom base (bs ++ List.replicate k 0) where
  room := by simpa using hroom
  bytes a ha := by rw [h.bytes a ha, getD_append_zeros]

theorem of_append_zeros (h : m.FilledFrom base (bs ++ List.replicate k 0)) :
    m.FilledFrom base bs where
  room := by
    have hroom := h.room
    rw [List.length_append] at hroom
    omega
  bytes a ha := by rw [h.bytes a ha, getD_append_zeros]

theorem allocate (h : m.FilledFrom base bs) (hm : m.WellFormed)
    (hok : m.allocate addr size = .ok m') : m'.FilledFrom base bs := by
  rcases Nat.eq_zero_or_pos size with rfl | hpos
  · rcases allocate_cases hok with ⟨-, rfl⟩ | ⟨hpos, -⟩
    · exact h
    · omega
  have hsize := hm.sizeFrom_allocate hpos hok base
  by_cases heq : base = addr
  · have hold : m.sizeFrom base = 0 := heq ▸ hm.sizeFrom_of_allocate hpos hok
    have hbs : bs = [] := List.eq_nil_of_length_eq_zero (by have := h.room; omega)
    subst hbs
    rw [if_pos heq] at hsize
    refine ⟨Nat.zero_le _, fun a ha => ?_⟩
    rw [hsize, heq] at ha
    rw [(hm.byteMap_allocate hok a).2, if_pos ha]
    rfl
  · rw [if_neg heq] at hsize
    refine ⟨by rw [hsize]; exact h.room, fun a ha => ?_⟩
    rw [hsize] at ha
    have hbyte := h.bytes a ha
    obtain ⟨hfree, hnew⟩ := hm.byteMap_allocate hok a
    rw [hnew, if_neg, hbyte]
    intro hin
    rw [hfree hin] at hbyte
    cases hbyte

/-- Growth adds zeros. -/
theorem resize (h : m.FilledFrom base bs) (hm : m.WellFormed) (hle : m.sizeFrom base ≤ size)
    (hok : m.resize base size = .ok m') : m'.FilledFrom base bs := by
  have hsize := hm.sizeFrom_resize hok base
  rw [if_pos rfl] at hsize
  obtain ⟨r, hr, rfl, hbytes, -⟩ := hm.byteMap_resize hok
  rw [hm.sizeFrom_of_mem hr] at hle
  have hroom := h.room
  rw [hm.sizeFrom_of_mem hr] at hroom
  refine ⟨by omega, fun a ha => ?_⟩
  rw [hsize] at ha
  rw [hbytes, if_pos ha]
  split
  · next hold => exact h.bytes a (by rwa [hm.sizeFrom_of_mem hr])
  · next hnew =>
    have hlow := ha.1
    have hend : ¬a.toNat < r.base.toNat + r.size := fun hlt => hnew ⟨hlow, hlt⟩
    rw [List.getElem?_eq_none (by omega)]
    rfl

/-- Bytes that are written right after those there go on with them. -/
theorem fill_append (h : m.FilledFrom base bs) (hm : m.WellFormed)
    (haddr : addr.toNat = base.toNat + bs.length) (hroom : bs.length + cs.length ≤ m.sizeFrom base)
    (hok : m.fill addr cs = .ok m') : m'.FilledFrom base (bs ++ cs) := by
  have hsize := hm.sizeFrom_fill hok base
  refine ⟨by rw [hsize]; simpa using hroom, fun a ha => ?_⟩
  rw [hsize] at ha
  have hlow := ha.1
  rw [hm.byteMap_fill hok, List.getElem?_append]
  split
  · next hin =>
    have hstart := hin.1
    have hend := hin.2
    have hplace : a.toNat - base.toNat - bs.length = a.toNat - addr.toNat := by omega
    rw [if_neg (by omega), hplace, List.getElem?_eq_getElem (by omega)]
    rfl
  · next hout =>
    rw [h.bytes a ha]
    split
    · rfl
    · next hbefore =>
      have hafter : ¬a.toNat < addr.toNat + cs.length := fun hlt => hout ⟨by omega, hlt⟩
      rw [List.getElem?_eq_none (by omega), List.getElem?_eq_none (by omega)]

/-- A write elsewhere changes nothing. -/
theorem of_byteMap_eq (h : m.FilledFrom base bs) (hsize : m'.sizeFrom base = m.sizeFrom base)
    (hbytes : ∀ a : Word, a.Within base (m.sizeFrom base) → m'.byteMap a = m.byteMap a) :
    m'.FilledFrom base bs := by
  refine ⟨by rw [hsize]; exact h.room, fun a ha => ?_⟩
  rw [hsize] at ha
  rw [hbytes a ha, h.bytes a ha]

theorem slice_eq {pre post : List Byte} (h : m.FilledFrom base (pre ++ cs ++ post))
    (hm : m.WellFormed) (haddr : addr.toNat = base.toNat + pre.length) :
    m.slice addr cs.length = .ok cs := by
  have hroom := h.room
  rw [List.length_append, List.length_append] at hroom
  have hmapped : m.Mapped addr cs.length := hm.mapped_of_sizeFrom haddr (by omega)
  obtain ⟨read, hread⟩ := (hm.bounded_slice addr cs.length).ok_of_mapped hmapped
  rw [hread, hm.slice_eq hread rfl]
  intro a ha
  have hlow := ha.1
  have hhigh := ha.2
  have hplace : a.toNat - base.toNat = pre.length + (a.toNat - addr.toNat) := by omega
  rw [h.bytes a ⟨by omega, by omega⟩, hplace, List.append_assoc,
    List.getElem?_append_right (by omega), Nat.add_sub_cancel_left,
    List.getElem?_append_left (by omega), List.getElem?_eq_getElem (by omega)]
  rfl

end FilledFrom

end RiscvHart.Memory
