import RiscvHart.Proofs.Memory.Layout
import RiscvHart.Proofs.Memory.Requests
import RiscvHart.Proofs.Word.LittleEndian

/-!
# Memory as a partial map

A memory stands for the partial map from addresses to bytes that its regions make up. Each
operation is told here by what it does to this map.
-/

namespace RiscvHart

def Word.Within (a addr : Word) (len : Nat) : Prop :=
  addr.toNat ≤ a.toNat ∧ a.toNat < addr.toNat + len

instance (a addr : Word) (len : Nat) : Decidable (a.Within addr len) :=
  inferInstanceAs (Decidable (_ ∧ _))

theorem Word.Within.pos {a addr : Word} {len : Nat} (h : a.Within addr len) : 0 < len := by
  obtain ⟨hlow, hhigh⟩ := h
  omega

theorem Word.toNat_add_ofNat {a : Word} {n : Nat} (h : a.toNat + n < addressLimit) :
    (a + BitVec.ofNat 64 n).toNat = a.toNat + n := by
  have hlimit : a.toNat + n < 2 ^ 64 := h
  rw [BitVec.toNat_add, BitVec.toNat_ofNat]
  omega

namespace Region

variable {r s : Region} {a addr : Word} {len : Nat} {bs : List Byte}

theorem covers_one_iff : r.Covers a 1 ↔ a.Within r.base r.size := by
  simp only [Covers, Word.Within, finish]
  omega

theorem byte?_eq_some_iff {b : Byte} :
    r.byte? a = some b ↔ a.Within r.base r.size ∧ r.cells.get (a.toNat - r.base.toNat) = b := by
  simp only [byte?, covers_one_iff, Option.ite_none_right_eq_some, Option.some.injEq]

theorem byte?_eq_none_iff : r.byte? a = none ↔ ¬a.Within r.base r.size := by
  simp only [byte?, covers_one_iff, ite_eq_right_iff, reduceCtorEq, imp_false]

theorem byte?_of_within (ha : a.Within r.base r.size) :
    r.byte? a = some (r.cells.get (a.toNat - r.base.toNat)) :=
  byte?_eq_some_iff.mpr ⟨ha, rfl⟩

theorem byte?_zeros : (zeros addr len).byte? a = if a.Within addr len then some 0 else none := by
  split
  · next ha => exact byte?_of_within ha
  · next ha => exact byte?_eq_none_iff.mpr ha

theorem Covers.within (h : r.Covers addr len) (ha : a.Within addr len) :
    a.Within r.base r.size := by
  simp only [Covers, Word.Within, finish] at *
  omega

theorem byte?_resize (r : Region) (size : Nat) (a : Word) :
    (r.resize size).byte? a =
      if a.Within r.base size then
        if a.Within r.base r.size then r.byte? a else some 0
      else none := by
  by_cases hnew : a.Within r.base size
  · have hplace : (r.resize size).cells.get (a.toNat - r.base.toNat) =
        if a.toNat - r.base.toNat < min r.size size then
          r.cells.get (a.toNat - r.base.toNat) else 0 := Cells.get_take _ _ _
    rw [if_pos hnew, byte?_of_within (r := r.resize size) hnew]
    refine (congrArg some hplace).trans ?_
    have hlow := hnew.1
    have hhigh := hnew.2
    by_cases hold : a.Within r.base r.size
    · have hend := hold.2
      rw [if_pos (by omega), if_pos hold, byte?_of_within hold]
    · have hend : ¬a.toNat < r.base.toNat + r.size := fun h => hold ⟨hlow, h⟩
      rw [if_neg (by omega), if_neg hold]
  · rw [if_neg hnew]
    exact byte?_eq_none_iff.mpr hnew

theorem byte?_write (hcovers : r.Covers addr bs.length) (a : Word) :
    (r.write addr bs).byte? a =
      if a.Within addr bs.length then bs[a.toNat - addr.toNat]? else r.byte? a := by
  by_cases hin : a.Within r.base r.size
  · have hplace := Cells.get_write r.cells (addr.toNat - r.base.toNat) bs
      (a.toNat - r.base.toNat)
    have hread : (r.write addr bs).byte? a = some ((r.cells.write (addr.toNat - r.base.toNat)
        bs).get (a.toNat - r.base.toNat)) := byte?_of_within (r := r.write addr bs) hin
    have hlow := hin.1
    have hstart := hcovers.1
    rw [hread, hplace]
    by_cases hnew : a.Within addr bs.length
    · have hfirst := hnew.1
      have hlast := hnew.2
      have hoffset : a.toNat - r.base.toNat - (addr.toNat - r.base.toNat) =
          a.toNat - addr.toNat := by omega
      rw [dif_pos (by omega), if_pos hnew, List.getElem?_eq_getElem (by omega)]
      simp only [hoffset]
    · have houtside : ¬(addr.toNat - r.base.toNat ≤ a.toNat - r.base.toNat ∧
          a.toNat - r.base.toNat - (addr.toNat - r.base.toNat) < bs.length) := by
        intro h
        exact hnew ⟨by omega, by omega⟩
      rw [dif_neg houtside, if_neg hnew, byte?_of_within hin]
  · rw [byte?_eq_none_iff.mpr hin, if_neg fun ha => hin (hcovers.within ha)]
    exact byte?_eq_none_iff.mpr hin

/-- No two regions have an address in common. -/
theorem eq_of_within {rs : List Region} (hrs : rs.Pairwise Above) (hr : r ∈ rs) (hs : s ∈ rs)
    (har : a.Within r.base r.size) (has : a.Within s.base s.size) : r = s := by
  simp only [Word.Within] at har has
  rcases eq_or_above_of_mem hrs hr hs with heq | habove | habove
  · exact heq
  · have hend : s.base.toNat + s.size ≤ r.base.toNat := habove.2
    omega
  · have hend : r.base.toNat + r.size ≤ s.base.toNat := habove.2
    omega

end Region

namespace Memory

/-- The partial map from addresses to bytes that the regions make up. -/
def byteMap (m : Memory) (a : Word) : Option Byte := m.regions.findSome? fun r => r.byte? a

/-- Whether a range of addresses is empty or lies in one region. -/
def Mapped (m : Memory) (addr : Word) (len : Nat) : Prop :=
  len = 0 ∨ ∃ r ∈ m.regions, r.Covers addr len

variable {m m' : Memory} {r : Region} {a addr base v : Word} {len size : Nat} {bs : List Byte}
  {w : Width}

theorem byteMap_eq_none_iff :
    m.byteMap a = none ↔ ∀ r ∈ m.regions, ¬a.Within r.base r.size := by
  simp only [byteMap, List.findSome?_eq_none_iff, Region.byte?_eq_none_iff]

theorem WellFormed.byteMap_of_mem (h : m.WellFormed) (hr : r ∈ m.regions)
    (ha : a.Within r.base r.size) : m.byteMap a = r.byte? a := by
  cases hfind : m.byteMap a with
  | none => exact absurd ha (byteMap_eq_none_iff.mp hfind r hr)
  | some b =>
    obtain ⟨s, hs, hb⟩ := List.exists_of_findSome?_eq_some hfind
    rw [← Region.eq_of_within h.apart hs hr (Region.byte?_eq_some_iff.mp hb).1 ha, hb]

/-- Two memories have the same byte at an address if the same regions have the address. -/
theorem WellFormed.byteMap_congr (h : m.WellFormed) (h' : m'.WellFormed)
    (hsame : ∀ r : Region, a.Within r.base r.size → (r ∈ m'.regions ↔ r ∈ m.regions)) :
    m'.byteMap a = m.byteMap a := by
  by_cases hmapped : ∃ r ∈ m.regions, a.Within r.base r.size
  · obtain ⟨r, hr, ha⟩ := hmapped
    rw [h.byteMap_of_mem hr ha, h'.byteMap_of_mem ((hsame r ha).mpr hr) ha]
  · have hnone : m.byteMap a = none :=
      byteMap_eq_none_iff.mpr fun r hr ha => hmapped ⟨r, hr, ha⟩
    rw [hnone, byteMap_eq_none_iff]
    exact fun r hr ha => hmapped ⟨r, (hsame r ha).mp hr, ha⟩

/-- Where one region was replaced by another with the same base, the byte comes from the new
region, or is gone with the old one, or is what it was. -/
theorem WellFormed.byteMap_replace {f : Region → Region} (h : m.WellFormed)
    (h' : m'.WellFormed) (hr : r ∈ m.regions) (hbase : (f r).base = r.base)
    (hregions : m'.regions = m.regions.map fun s => if s.base = r.base then f s else s) (a : Word) :
    m'.byteMap a =
      if a.Within r.base (f r).size then (f r).byte? a
      else if a.Within r.base r.size then none
      else m.byteMap a := by
  have hmem : ∀ s, s ∈ m'.regions ↔ s = f r ∨ (s ∈ m.regions ∧ s.base ≠ r.base) := by
    intro s
    rw [hregions]
    exact Region.mem_replace h.apart hr
  by_cases hnew : a.Within r.base (f r).size
  · rw [if_pos hnew]
    exact h'.byteMap_of_mem ((hmem (f r)).mpr (Or.inl rfl)) (hbase ▸ hnew)
  rw [if_neg hnew]
  by_cases hold : a.Within r.base r.size
  · rw [if_pos hold, byteMap_eq_none_iff]
    intro s hs ha
    rcases (hmem s).mp hs with rfl | ⟨hs, hne⟩
    · exact hnew (hbase ▸ ha)
    · exact hne (congrArg Region.base (Region.eq_of_within h.apart hs hr ha hold))
  · rw [if_neg hold]
    refine h.byteMap_congr h' fun s ha => ?_
    rw [hmem]
    constructor
    · rintro (rfl | ⟨hs, -⟩)
      · exact absurd (hbase ▸ ha) hnew
      · exact hs
    · intro hs
      refine Or.inr ⟨hs, fun heq => hold ?_⟩
      rw [Region.eq_of_mem_of_base_eq h.apart hs hr heq] at ha
      exact ha

/-! ## Operations on the map -/

theorem WellFormed.byteMap_allocate (h : m.WellFormed) (hok : m.allocate addr size = .ok m')
    (a : Word) :
    (a.Within addr size → m.byteMap a = none) ∧
      m'.byteMap a = if a.Within addr size then some 0 else m.byteMap a := by
  have h' := h.allocate hok
  rcases allocate_cases hok with ⟨rfl, rfl⟩ | ⟨hpos, -, hfree, -, -, rfl⟩
  · have hempty : ¬a.Within addr 0 := fun ha => absurd ha.pos (Nat.lt_irrefl 0)
    exact ⟨fun ha => absurd ha hempty, (if_neg hempty).symm⟩
  have hclear : a.Within addr size → ∀ r ∈ m.regions, ¬a.Within r.base r.size := by
    intro ha r hr har
    have hlow := ha.1
    have hhigh := ha.2
    have hstart := har.1
    have hend : a.toNat < r.finish := har.2
    have hover : m.overlaps addr (addr.toNat + size) none = true :=
      (h.overlaps_iff none).mpr ⟨r, hr, by simp, by omega, by omega⟩
    rw [hover] at hfree
    exact Bool.noConfusion hfree
  refine ⟨fun ha => byteMap_eq_none_iff.mpr (hclear ha), ?_⟩
  by_cases ha : a.Within addr size
  · have hzeros : Region.zeros addr size ∈ insertRegion (.zeros addr size) m.regions :=
      (Region.mem_insertRegion h.apart).mpr (Or.inl rfl)
    rw [h'.byteMap_of_mem hzeros ha, Region.byte?_zeros, if_pos ha, if_pos ha]
  · rw [if_neg ha]
    refine h.byteMap_congr h' fun r har => ?_
    rw [Region.mem_insertRegion h.apart]
    constructor
    · rintro (rfl | ⟨hr, -⟩)
      · exact absurd har ha
      · exact hr
    · intro hr
      refine Or.inr ⟨hr, fun hbase => ?_⟩
      -- A region in the place of the new one has no bytes, so it does not have `a`.
      have hstart : r.base = addr := hbase
      have hover : m.overlaps addr (addr.toNat + size) none = true := by
        refine (h.overlaps_iff none).mpr ⟨r, hr, by simp, by rw [hstart]; omega, ?_⟩
        have hlow := har.1
        have hend : a.toNat < r.finish := har.2
        rw [hstart] at hlow
        omega
      rw [hover] at hfree
      exact Bool.noConfusion hfree

theorem WellFormed.byteMap_resize (h : m.WellFormed) (hok : m.resize base size = .ok m') :
    ∃ r ∈ m.regions, r.base = base ∧
      (∀ a, m'.byteMap a =
        if a.Within base size then
          if a.Within base r.size then m.byteMap a else some 0
        else if a.Within base r.size then none
        else m.byteMap a) ∧
      ∀ s, s ∈ m'.regions ↔ s = r.resize size ∨ (s ∈ m.regions ∧ s.base ≠ base) := by
  have h' := h.resize hok
  obtain ⟨r, hfind, rfl, -⟩ := resize_cases hok
  obtain ⟨hr, rfl⟩ := h.regionFrom?_eq_some_iff.mp hfind
  refine ⟨r, hr, rfl, fun a => ?_, fun s => Region.mem_replace h.apart hr⟩
  rw [h.byteMap_replace (f := (·.resize size)) h' hr rfl rfl a]
  have hsize : (r.resize size).size = size := rfl
  rw [hsize, Region.byte?_resize]
  split_ifs with hnew hold
  · exact (h.byteMap_of_mem hr hold).symm
  · rfl
  · rfl
  · rfl

/-- Where a region grows, nothing was mapped before. -/
theorem WellFormed.byteMap_of_growth (h : m.WellFormed) (hr : m.regionFrom? base = some r)
    (hok : m.resize base size = .ok m') (ha : a.Within base size) (hout : ¬a.Within base r.size) :
    m.byteMap a = none := by
  obtain ⟨s, hs, -, hroom⟩ := resize_cases hok
  obtain rfl : r = s := Option.some.inj (hr.symm.trans hs)
  obtain ⟨hmem, rfl⟩ := h.regionFrom?_eq_some_iff.mp hr
  have hlow := ha.1
  have hhigh := ha.2
  rcases hroom with hsmall | ⟨-, -, hfree, -⟩
  · exact absurd ⟨hlow, by omega⟩ hout
  rw [byteMap_eq_none_iff]
  intro t ht hat
  have hstart := hat.1
  have hend : a.toNat < t.finish := hat.2
  have hne : t.base ≠ r.base := by
    intro heq
    rw [Region.eq_of_mem_of_base_eq h.apart ht hmem heq] at hat
    exact hout hat
  have hover : m.overlaps r.base (r.base.toNat + size) (some r.base) = true :=
    (h.overlaps_iff _).mpr ⟨t, ht, by simpa using hne, by omega, by omega⟩
  rw [hover] at hfree
  exact Bool.noConfusion hfree

theorem WellFormed.byteMap_release (h : m.WellFormed) (hok : m.release base = .ok (size, m')) :
    ∃ r ∈ m.regions, r.base = base ∧ size = r.size ∧
      (∀ a, m'.byteMap a = if a.Within base r.size then none else m.byteMap a) ∧
      ∀ s, s ∈ m'.regions ↔ s ∈ m.regions ∧ s.base ≠ base := by
  have h' := h.release hok
  obtain ⟨r, hfind, rfl, rfl⟩ := release_cases hok
  obtain ⟨hr, rfl⟩ := h.regionFrom?_eq_some_iff.mp hfind
  have hmem : ∀ s, s ∈ m.regions.filter (fun s => s.base ≠ r.base) ↔
      s ∈ m.regions ∧ s.base ≠ r.base := by simp
  refine ⟨r, hr, rfl, rfl, fun a => ?_, hmem⟩
  by_cases ha : a.Within r.base r.size
  · rw [if_pos ha, byteMap_eq_none_iff]
    intro s hs has
    obtain ⟨hs, hne⟩ := (hmem s).mp hs
    exact hne (congrArg Region.base (Region.eq_of_within h.apart hs hr has ha))
  · rw [if_neg ha]
    refine h.byteMap_congr h' fun s has => ?_
    refine (hmem s).trans ⟨And.left, fun hs => ⟨hs, fun hbase => ha ?_⟩⟩
    rw [Region.eq_of_mem_of_base_eq h.apart hs hr hbase] at has
    exact has

theorem WellFormed.byteMap_fill (h : m.WellFormed) (hok : m.fill addr bs = .ok m') (a : Word) :
    m'.byteMap a = if a.Within addr bs.length then bs[a.toNat - addr.toNat]? else m.byteMap a := by
  have h' := h.fill hok
  rcases fill_cases hok with ⟨rfl, rfl⟩ | ⟨hpos, r, hof, rfl⟩
  · have hempty : ¬a.Within addr 0 := fun ha => absurd ha.pos (Nat.lt_irrefl 0)
    exact (if_neg hempty).symm
  obtain ⟨hr, hcovers⟩ := (h.regionOf?_eq_some_iff hpos).mp hof
  rw [h.byteMap_replace (f := fun r => r.write addr bs) h' hr rfl rfl a]
  have hsize : (r.write addr bs).size = r.size := rfl
  rw [hsize, Region.byte?_write hcovers]
  split_ifs with hold hnew hnew
  · rfl
  · exact (h.byteMap_of_mem hr hold).symm
  · exact absurd (hcovers.within hnew) hold
  · rfl

theorem length_of_slice (hok : m.slice addr len = .ok bs) : bs.length = len := by
  unfold slice at hok
  split_ifs at hok with hlen
  · cases hok
    exact hlen.symm
  split at hok
  · cases hok
    exact Cells.length_read _ _ _
  · cases hok

/-- An instruction word has the bytes at its address, from the lowest up. -/
theorem slice_of_fetch {c : Code} (hok : m.fetch addr = .ok c) :
    ∃ bs, m.slice addr 4 = .ok bs ∧ c.toNat = LittleEndian.ofBytes bs := by
  obtain ⟨v, hv, rfl⟩ := Except.map_eq_ok_iff.mp hok
  obtain ⟨bs, hbs, rfl⟩ := Except.map_eq_ok_iff.mp hv
  have hlen : bs.length = 4 := length_of_slice hbs
  have hlt : LittleEndian.ofBytes bs < 256 ^ 4 := hlen ▸ LittleEndian.ofBytes_lt bs
  refine ⟨bs, hbs, ?_⟩
  rw [BitVec.toNat_setWidth, Word.toNat_ofBytes (by omega), Nat.mod_eq_of_lt (by omega)]

theorem WellFormed.mapped_of_slice (h : m.WellFormed) (hok : m.slice addr len = .ok bs) :
    m.Mapped addr len := by
  unfold slice at hok
  split_ifs at hok with hlen
  · exact Or.inl hlen
  split at hok
  · next r hof => exact Or.inr ⟨r, (h.regionOf?_eq_some_iff (Nat.pos_of_ne_zero hlen)).mp hof⟩
  · cases hok

theorem WellFormed.mapped_of_peek (h : m.WellFormed) (hok : m.peek w addr = .ok v) :
    m.Mapped addr w.bytes := by
  obtain ⟨bs, hslice, -⟩ := Except.map_eq_ok_iff.mp hok
  exact h.mapped_of_slice hslice

theorem WellFormed.mapped_of_fill (h : m.WellFormed) (hok : m.fill addr bs = .ok m') :
    m.Mapped addr bs.length := by
  rcases fill_cases hok with ⟨rfl, -⟩ | ⟨hpos, r, hof, -⟩
  · exact Or.inl rfl
  · exact Or.inr ⟨r, (h.regionOf?_eq_some_iff hpos).mp hof⟩

/-- A range that is mapped ends where an address can stand. -/
theorem WellFormed.finish_of_mapped (h : m.WellFormed) (hmapped : m.Mapped addr len)
    (hlen : 0 < len) : addr.toNat + len < addressLimit := by
  obtain ⟨r, hr, -, hend⟩ := hmapped.resolve_left (by omega)
  have hbound := h.bounded r hr
  omega

theorem WellFormed.byteMap_slice (h : m.WellFormed) (hok : m.slice addr len = .ok bs) :
    bs.length = len ∧ ∀ a : Word, a.Within addr len → m.byteMap a = bs[a.toNat - addr.toNat]? := by
  refine ⟨length_of_slice hok, fun a ha => ?_⟩
  unfold slice at hok
  split_ifs at hok with hlen
  · exact absurd ha.pos (hlen ▸ Nat.lt_irrefl 0)
  split at hok
  · next r hof =>
    cases hok
    obtain ⟨hr, hcovers⟩ := (h.regionOf?_eq_some_iff (Nat.pos_of_ne_zero hlen)).mp hof
    have hin := hcovers.within ha
    have hlow := ha.1
    have hhigh := ha.2
    have hstart := hcovers.1
    have hplace : addr.toNat - r.base.toNat + (a.toNat - addr.toNat) =
        a.toNat - r.base.toNat := by omega
    have hin' : a.toNat - addr.toNat < (r.slice addr len).length := by
      rw [Region.slice, Cells.length_read]
      omega
    rw [h.byteMap_of_mem hr hin, Region.byte?_of_within hin, List.getElem?_eq_getElem hin']
    simp only [Region.slice, Cells.getElem_read, hplace]
  · simp at hok

/-- The bytes of a range that can be read are those of the map. -/
theorem WellFormed.slice_eq {cs : List Byte} (h : m.WellFormed) (hok : m.slice addr len = .ok bs)
    (hlen : cs.length = len)
    (hbytes : ∀ a : Word, a.Within addr len → m.byteMap a = cs[a.toNat - addr.toNat]?) :
    bs = cs := by
  obtain ⟨hlen', hbytes'⟩ := h.byteMap_slice hok
  apply List.ext_getElem?
  intro k
  by_cases hk : k < len
  · have hend : addr.toNat + len < 2 ^ 64 :=
      h.finish_of_mapped (h.mapped_of_slice hok) (by omega)
    have hplace : (BitVec.ofNat 64 (addr.toNat + k) : Word).toNat = addr.toNat + k := by
      rw [BitVec.toNat_ofNat]
      omega
    have hin : Word.Within (BitVec.ofNat 64 (addr.toNat + k)) addr len := by
      rw [Word.Within, hplace]
      omega
    have hsame := (hbytes' _ hin).symm.trans (hbytes _ hin)
    rwa [hplace, Nat.add_sub_cancel_left] at hsame
  · rw [List.getElem?_eq_none (by omega), List.getElem?_eq_none (by omega)]

/-- Eight bits of the value read are the byte at each place, and it has no others. -/
theorem WellFormed.byteMap_peek (h : m.WellFormed) (hok : m.peek w addr = .ok v) :
    v.toNat < 256 ^ w.bytes ∧
      ∀ a : Word, a.Within addr w.bytes →
        m.byteMap a = some (v.extractLsb' (8 * (a.toNat - addr.toNat)) 8) := by
  obtain ⟨bs, hbs, rfl⟩ := Except.map_eq_ok_iff.mp hok
  obtain ⟨hlen, hbytes⟩ := h.byteMap_slice hbs
  have height : bs.length ≤ 8 := hlen ▸ w.bytes_le
  refine ⟨hlen ▸ Word.ofBytes_lt height, fun a ha => ?_⟩
  have hlow := ha.1
  have hhigh := ha.2
  rw [hbytes a ha, Word.getElem?_eq_extractLsb'_ofBytes height (by omega)]

theorem WellFormed.byteMap_fetch {c : Code} (h : m.WellFormed) (hok : m.fetch addr = .ok c)
    (ha : a.Within addr 4) :
    m.byteMap a = some (c.extractLsb' (8 * (a.toNat - addr.toNat)) 8) := by
  obtain ⟨v, hv, rfl⟩ := Except.map_eq_ok_iff.mp hok
  rw [(h.byteMap_peek hv).2 a ha]
  have hlow := ha.1
  have hhigh := ha.2
  congr 1
  ext j hj
  simp only [BitVec.getElem_extractLsb', BitVec.getLsbD_setWidth]
  have hbit : 8 * (a.toNat - addr.toNat) + j < 32 := by omega
  simp only [hbit, decide_true, Bool.true_and]

theorem WellFormed.byteMap_poke (h : m.WellFormed) (hok : m.poke w addr v = .ok m') (a : Word) :
    m'.byteMap a =
      if a.Within addr w.bytes then some (v.extractLsb' (8 * (a.toNat - addr.toNat)) 8)
      else m.byteMap a := by
  rw [h.byteMap_fill hok a, Word.length_toBytes]
  split_ifs with ha
  · have hlow := ha.1
    have hhigh := ha.2
    exact Word.getElem?_toBytes v (by omega)
  · rfl

/-- The bytes of a value above the width of an access do not matter to it. -/
theorem poke_cut : m.poke w addr (v.cut w) = m.poke w addr v := by
  rw [poke, poke, Word.toBytes_cut]

/-! ## Which accesses succeed -/

theorem mapped_iff_of_layout_eq (h : m'.layout = m.layout) :
    m'.Mapped addr len ↔ m.Mapped addr len := by
  have hranges : ∀ m : Memory, (∃ r ∈ m.regions, r.Covers addr len) ↔
      ∃ e ∈ m.layout, e.1.toNat ≤ addr.toNat ∧ addr.toNat + len ≤ e.1.toNat + e.2 := by
    intro m
    constructor
    · rintro ⟨r, hr, hcovers⟩
      exact ⟨_, mem_layout_of_mem hr, hcovers⟩
    · rintro ⟨e, he, hrange⟩
      obtain ⟨r, hr, hbase, hsize⟩ := mem_layout_iff.mp he
      rw [← hbase, ← hsize] at hrange
      exact ⟨r, hr, hrange⟩
  rw [Mapped, Mapped, hranges, hranges, h]

/-- An access to a range is met if the range is empty or lies in one region, and is refused with
its first address otherwise. -/
def Bounded {α : Type} (m : Memory) (addr : Word) (len : Nat) (x : Except MemoryError α) : Prop :=
  (m.Mapped addr len ∧ ∃ a, x = .ok a) ∨ (¬m.Mapped addr len ∧ x = .error (.outOfBounds addr))

theorem Bounded.map {α β : Type} {x : Except MemoryError α} (h : m.Bounded addr len x)
    (f : α → β) : m.Bounded addr len (x.map f) := by
  rcases h with ⟨hmapped, a, rfl⟩ | ⟨hunmapped, rfl⟩
  · exact Or.inl ⟨hmapped, f a, rfl⟩
  · exact Or.inr ⟨hunmapped, rfl⟩

theorem Bounded.ok_of_mapped {α : Type} {x : Except MemoryError α} (h : m.Bounded addr len x)
    (hmapped : m.Mapped addr len) : ∃ a, x = .ok a := by
  rcases h with ⟨-, hok⟩ | ⟨hunmapped, -⟩
  · exact hok
  · exact absurd hmapped hunmapped

theorem Bounded.error_of_unmapped {α : Type} {x : Except MemoryError α} (h : m.Bounded addr len x)
    (hunmapped : ¬m.Mapped addr len) : x = .error (.outOfBounds addr) := by
  rcases h with ⟨hmapped, -⟩ | ⟨-, herror⟩
  · exact absurd hmapped hunmapped
  · exact herror

/-- A range is looked up in one region only, which is the one that has all of it. -/
theorem WellFormed.mapped_cases (h : m.WellFormed) (addr : Word) (hlen : len ≠ 0) :
    (m.Mapped addr len ∧ ∃ r, m.regionOf? addr len = some r) ∨
      (¬m.Mapped addr len ∧ m.regionOf? addr len = none) := by
  have hpos := Nat.pos_of_ne_zero hlen
  cases hof : m.regionOf? addr len with
  | some r => exact Or.inl ⟨Or.inr ⟨r, (h.regionOf?_eq_some_iff hpos).mp hof⟩, r, rfl⟩
  | none =>
    refine Or.inr ⟨?_, rfl⟩
    rintro (hzero | ⟨r, hr, hcovers⟩)
    · exact hlen hzero
    · exact (h.regionOf?_eq_none_iff hpos).mp hof r hr hcovers

theorem WellFormed.bounded_slice (h : m.WellFormed) (addr : Word) (len : Nat) :
    m.Bounded addr len (m.slice addr len) := by
  unfold slice
  split_ifs with hlen
  · exact Or.inl ⟨Or.inl hlen, [], rfl⟩
  · rcases h.mapped_cases addr hlen with ⟨hmapped, r, hof⟩ | ⟨hunmapped, hof⟩
    · exact Or.inl ⟨hmapped, r.slice addr len, by rw [hof]⟩
    · exact Or.inr ⟨hunmapped, by rw [hof]⟩

theorem WellFormed.bounded_fill (h : m.WellFormed) (addr : Word) (bs : List Byte) :
    m.Bounded addr bs.length (m.fill addr bs) := by
  unfold Memory.fill
  split_ifs with hempty
  · exact Or.inl ⟨Or.inl (by rw [hempty]; rfl), m, rfl⟩
  · have hlen : bs.length ≠ 0 := fun h => hempty (List.eq_nil_of_length_eq_zero h)
    rcases h.mapped_cases addr hlen with ⟨hmapped, r, hof⟩ | ⟨hunmapped, hof⟩
    · exact Or.inl ⟨hmapped, _, by rw [hof]⟩
    · exact Or.inr ⟨hunmapped, by rw [hof]⟩

theorem WellFormed.bounded_peek (h : m.WellFormed) (w : Width) (addr : Word) :
    m.Bounded addr w.bytes (m.peek w addr) :=
  (h.bounded_slice addr w.bytes).map Word.ofBytes

theorem WellFormed.bounded_fetch (h : m.WellFormed) (addr : Word) :
    m.Bounded addr 4 (m.fetch addr) :=
  (h.bounded_peek .word addr).map fun v => v.setWidth 32

theorem WellFormed.bounded_poke (h : m.WellFormed) (w : Width) (addr v : Word) :
    m.Bounded addr w.bytes (m.poke w addr v) := by
  have hfill := h.bounded_fill addr (v.toBytes w)
  rw [Word.length_toBytes] at hfill
  exact hfill

/-! ## Ranges across regions -/

/-- Each address of a range lies in some region. -/
def Spanned (m : Memory) (start len : Nat) : Prop :=
  ∀ a, start ≤ a → a < start + len → ∃ r ∈ m.regions, r.base.toNat ≤ a ∧ a < r.finish

theorem Spanned.append {start n : Nat} (h : m.Spanned start n) (hmapped : m.Mapped addr len)
    (haddr : addr.toNat = start + n) : m.Spanned start (n + len) := by
  intro a hlow hhigh
  by_cases ha : a < start + n
  · exact h a hlow ha
  · obtain ⟨r, hr, hstart, hend⟩ := hmapped.resolve_left (by omega)
    exact ⟨r, hr, by omega, by omega⟩

theorem Mapped.spanned (h : m.Mapped addr len) : m.Spanned addr.toNat len := by
  have hnone : m.Spanned addr.toNat 0 := fun a hlow hhigh => by omega
  simpa using hnone.append h rfl

theorem WellFormed.len_le_used {start : Nat} (h : m.WellFormed) (hspan : m.Spanned start len) :
    len ≤ m.used := by
  have hcard := Region.card_le_total (Finset.Ico start (start + len)) fun a ha => by
    obtain ⟨hlow, hhigh⟩ := Finset.mem_Ico.mp ha
    exact hspan a hlow hhigh
  rw [Nat.card_Ico, Nat.add_sub_cancel_left, ← h.counted] at hcard
  exact hcard

end Memory

namespace Machine

variable {m : Machine}

theorem bounded_load (h : m.memory.WellFormed) (w : Width) (addr : Word) :
    m.memory.Bounded addr w.bytes (m.load w addr) :=
  (h.bounded_peek w addr).map fun v => (v, m.emit (.memoryRead addr v w))

theorem bounded_store (h : m.memory.WellFormed) (w : Width) (addr v : Word) :
    m.memory.Bounded addr w.bytes (m.store w addr v) := by
  unfold store
  rcases h.bounded_peek w addr with ⟨hmapped, old, hold⟩ | ⟨hunmapped, hrefused⟩
  · obtain ⟨written, hwritten⟩ := (h.bounded_poke w addr (v.cut w)).ok_of_mapped hmapped
    refine Or.inl ⟨hmapped, ?_⟩
    rw [hold, hwritten]
    exact ⟨_, rfl⟩
  · refine Or.inr ⟨hunmapped, ?_⟩
    rw [hrefused]
    rfl

end Machine

end RiscvHart
