import RiscvHart.Proofs.Memory.InPlace
import RiscvHart.Proofs.Memory.Regions

/-!
# Well-formed memory

The regions of a memory lie apart, end where an address can stand, and are paid for by its
budget. Each lookup inspects one region only. That this is the right one rests on the whole list
being in order, so every operation that changes the list is shown to keep it so.
-/

namespace RiscvHart.Memory

/-- What every operation on memory relies on and keeps. -/
structure WellFormed (m : Memory) : Prop where
  apart : m.regions.Pairwise Region.Above
  bounded : ∀ r ∈ m.regions, r.finish < addressLimit
  counted : m.used = Region.total m.regions
  affordable : m.used ≤ m.capacity

variable {m m' : Memory} {r s : Region} {addr base : Word} {len size bound : Nat}

theorem wellFormed_emptyOver (backs : Nat → Bool) (capacity : Nat) :
    (emptyOver backs capacity).WellFormed where
  apart := List.Pairwise.nil
  bounded := by simp [emptyOver]
  counted := rfl
  affordable := Nat.zero_le _

theorem WellFormed.size_le_used (h : m.WellFormed) (hr : r ∈ m.regions) : r.size ≤ m.used := by
  rw [h.counted]
  exact Region.size_le_total hr

/-! ## Lookups -/

theorem WellFormed.regionFrom?_eq_some_iff (h : m.WellFormed) :
    m.regionFrom? base = some r ↔ r ∈ m.regions ∧ r.base = base := by
  constructor
  · intro hfind
    exact ⟨List.mem_of_find?_eq_some hfind, by simpa using List.find?_some hfind⟩
  · rintro ⟨hr, rfl⟩
    exact Region.find?_base_of_mem h.apart hr

theorem WellFormed.regionBelow?_of_covers (h : m.WellFormed) (hr : r ∈ m.regions)
    (hcovers : r.Covers addr len) (hlen : 0 < len) : m.regionBelow? addr = some r :=
  Region.find?_below_of_mem h.apart hr hcovers.1 (by have := hcovers.2; omega)

theorem WellFormed.regionOf?_eq_some_iff (h : m.WellFormed) (hlen : 0 < len) :
    m.regionOf? addr len = some r ↔ r ∈ m.regions ∧ r.Covers addr len := by
  constructor
  · intro hof
    obtain ⟨hbelow, hcovers⟩ := Option.filter_eq_some_iff.mp hof
    exact ⟨List.mem_of_find?_eq_some hbelow, by simpa using hcovers⟩
  · rintro ⟨hr, hcovers⟩
    rw [regionOf?, h.regionBelow?_of_covers hr hcovers hlen]
    exact Option.filter_eq_some_iff.mpr ⟨rfl, by simpa using hcovers⟩

theorem WellFormed.regionOf?_eq_none_iff (h : m.WellFormed) (hlen : 0 < len) :
    m.regionOf? addr len = none ↔ ∀ r ∈ m.regions, ¬r.Covers addr len := by
  rw [Option.eq_none_iff_forall_ne_some]
  refine forall_congr' fun r => ?_
  rw [Ne, h.regionOf?_eq_some_iff hlen, not_and]

/-- The one region that `overlaps` inspects decides for all of them. -/
theorem WellFormed.overlaps_iff (h : m.WellFormed) (skip : Option Word) :
    m.overlaps addr bound skip = true ↔
      ∃ r ∈ m.regions, some r.base ≠ skip ∧ r.base.toNat < bound ∧ addr.toNat < r.finish := by
  have hone : m.overlaps addr bound skip = true ↔
      ∃ r, (m.regions.filter fun r => some r.base ≠ skip).find?
        (fun r => r.base.toNat < bound) = some r ∧ addr.toNat < r.finish := by
    unfold overlaps
    cases (m.regions.filter fun r => some r.base ≠ skip).find? fun r => r.base.toNat < bound with
    | none => simp
    | some r => simp
  rw [hone, Region.find?_below_ends_above_iff (h.apart.filter _)]
  constructor
  · rintro ⟨r, hr, hlow, hend⟩
    obtain ⟨hmem, hskip⟩ := List.mem_filter.mp hr
    exact ⟨r, hmem, by simpa using hskip, hlow, hend⟩
  · rintro ⟨r, hr, hskip, hlow, hend⟩
    exact ⟨r, List.mem_filter.mpr ⟨hr, by simpa using hskip⟩, hlow, hend⟩

/-! ## What each operation can do -/

theorem allocate_cases (h : m.allocate addr size = .ok m') :
    (size = 0 ∧ m' = m) ∨
      (0 < size ∧ addr.toNat + size < addressLimit ∧
        m.overlaps addr (addr.toNat + size) none = false ∧ m.used + size ≤ m.capacity ∧
        m.backs size = true ∧
        m' = { m with
          regions := insertRegion (.zeros addr size) m.regions, used := m.used + size }) := by
  unfold allocate at h
  split_ifs at h with hzero hlimit hoverlap hbudget hbacks
  · exact Or.inl ⟨hzero, (Except.ok.inj h).symm⟩
  · exact Or.inr ⟨by omega, by omega, by simpa using hoverlap, by omega, by simpa using hbacks,
      (Except.ok.inj h).symm⟩

theorem resize_cases (h : m.resize base size = .ok m') :
    ∃ r, m.regionFrom? base = some r ∧
      m' = { m.modifyRegion base (·.resize size) with used := m.used - r.size + size } ∧
      (size ≤ r.size ∨
        (r.size < size ∧ base.toNat + size < addressLimit ∧
          m.overlaps base (base.toNat + size) (some base) = false ∧
          m.used - r.size + size ≤ m.capacity ∧ m.backs size = true)) := by
  cases hr : m.regionFrom? base with
  | none =>
    rw [resize_of_none hr] at h
    cases h
  | some r =>
    rw [resize_of_region hr] at h
    refine ⟨r, rfl, ?_⟩
    split_ifs at h with hsmall hlimit hoverlap hbudget hbacks
    · exact ⟨(Except.ok.inj h).symm, Or.inl hsmall⟩
    · exact ⟨(Except.ok.inj h).symm, Or.inr ⟨by omega, by omega, by simpa using hoverlap, by omega,
        by simpa using hbacks⟩⟩

theorem release_cases (h : m.release base = .ok (size, m')) :
    ∃ r, m.regionFrom? base = some r ∧ size = r.size ∧
      m' = { m with
        regions := m.regions.filter (fun s => s.base ≠ base), used := m.used - r.size } := by
  unfold release at h
  split at h
  · simp at h
  · next r hr =>
    obtain ⟨rfl, rfl⟩ := Prod.mk.inj (Except.ok.inj h)
    exact ⟨r, hr, rfl, rfl⟩

theorem fill_cases {bs : List Byte} (h : m.fill addr bs = .ok m') :
    (bs = [] ∧ m' = m) ∨
      (0 < bs.length ∧ ∃ r, m.regionOf? addr bs.length = some r ∧
        m' = m.modifyRegion r.base fun r => r.write addr bs) := by
  unfold fill at h
  split_ifs at h with hempty
  · exact Or.inl ⟨hempty, (Except.ok.inj h).symm⟩
  · split at h
    · next r hr =>
      exact Or.inr ⟨List.length_pos_iff.mpr hempty, r, hr, (Except.ok.inj h).symm⟩
    · simp at h

theorem capacity_allocate (h : m.allocate addr size = .ok m') : m'.capacity = m.capacity := by
  rcases allocate_cases h with ⟨-, rfl⟩ | ⟨-, -, -, -, -, rfl⟩ <;> rfl

theorem capacity_resize (h : m.resize base size = .ok m') : m'.capacity = m.capacity := by
  obtain ⟨_, -, rfl, -⟩ := resize_cases h
  rfl

theorem capacity_release (h : m.release base = .ok (size, m')) : m'.capacity = m.capacity := by
  obtain ⟨_, -, -, rfl⟩ := release_cases h
  rfl

theorem capacity_fill {bs : List Byte} (h : m.fill addr bs = .ok m') :
    m'.capacity = m.capacity := by
  rcases fill_cases h with ⟨-, rfl⟩ | ⟨-, _, -, rfl⟩ <;> rfl

def layout (m : Memory) : List (Word × Nat) := m.regions.map fun r => (r.base, r.size)

theorem layout_modifyRegion {f : Region → Region}
    (hf : ∀ r, (f r).base = r.base ∧ (f r).size = r.size) :
    (m.modifyRegion base f).layout = m.layout := by
  rw [layout, layout, modifyRegion, List.map_map]
  refine List.map_congr_left fun r _ => ?_
  simp only [Function.comp_apply]
  split
  · rw [(hf r).1, (hf r).2]
  · rfl

/-- Writing changes bytes and nothing else. -/
theorem frame_fill {bs : List Byte} (h : m.fill addr bs = .ok m') :
    m'.layout = m.layout ∧ m'.used = m.used ∧ m'.capacity = m.capacity ∧ m'.backs = m.backs := by
  rcases fill_cases h with ⟨-, rfl⟩ | ⟨-, r, -, rfl⟩
  · exact ⟨rfl, rfl, rfl, rfl⟩
  · exact ⟨layout_modifyRegion fun _ => ⟨rfl, rfl⟩, rfl, rfl, rfl⟩

/-! ## Every operation keeps memory well-formed -/

theorem WellFormed.allocate (h : m.WellFormed) (hok : m.allocate addr size = .ok m') :
    m'.WellFormed := by
  rcases allocate_cases hok with ⟨-, rfl⟩ | ⟨hpos, hlimit, hfree, hbudget, -, rfl⟩
  · exact h
  -- No region reaches into the new range, so each one lies above it, lies below it, or is empty
  -- and starts where it does.
  have hclear : ∀ s ∈ m.regions, addr.toNat + size ≤ s.base.toNat ∨ s.finish ≤ addr.toNat := by
    intro s hs
    by_contra hmeet
    have hover : m.overlaps addr (addr.toNat + size) none = true :=
      (h.overlaps_iff none).mpr ⟨s, hs, by simp, by omega, by omega⟩
    rw [hover] at hfree
    exact Bool.noConfusion hfree
  refine ⟨Region.pairwise_insertRegion h.apart ?_, ?_, ?_, hbudget⟩
  · intro s hs hne
    have hbases : s.base.toNat ≠ addr.toNat := fun heq => hne (BitVec.eq_of_toNat_eq heq)
    rcases hclear s hs with hhigh | hlow
    · exact Or.inr ⟨show addr.toNat < s.base.toNat by omega, hhigh⟩
    · have hle := s.base_le_finish
      exact Or.inl ⟨show s.base.toNat < addr.toNat by omega, hlow⟩
  · intro s hs
    rcases (Region.mem_insertRegion h.apart).mp hs with rfl | ⟨hs, -⟩
    · exact hlimit
    · exact h.bounded s hs
  · rw [Region.total_insertRegion, ← h.counted]
    · rfl
    · intro s hs heq
      have hbase : s.base.toNat = addr.toNat := congrArg BitVec.toNat heq
      have hsize : s.finish = s.base.toNat + s.size := rfl
      rcases hclear s hs with hhigh | hlow <;> omega

theorem WellFormed.resize (h : m.WellFormed) (hok : m.resize base size = .ok m') :
    m'.WellFormed := by
  obtain ⟨r, hfind, rfl, hroom⟩ := resize_cases hok
  obtain ⟨hr, rfl⟩ := h.regionFrom?_eq_some_iff.mp hfind
  have hfinish : (r.resize size).finish = r.base.toNat + size := rfl
  have hused := h.size_le_used hr
  have haffordable := h.affordable
  have htotal := Region.total_replace (f := (·.resize size)) h.apart hr
  have hcounted := h.counted
  refine ⟨Region.pairwise_replace h.apart hr rfl ?_, ?_, ?_, ?_⟩
  · intro s hs hlt
    rw [hfinish]
    rcases hroom with hsmall | ⟨-, -, hfree, -, -⟩
    · have hne : r.base ≠ s.base := fun heq => by rw [heq] at hlt; omega
      have hold : r.finish = r.base.toNat + r.size := rfl
      rcases Region.eq_or_above_of_mem h.apart hr hs with heq | habove | habove
      · exact absurd (congrArg Region.base heq) hne
      · have := habove.1
        omega
      · have := habove.2
        omega
    · by_contra hmeet
      have hle := s.base_le_finish
      have hover : m.overlaps r.base (r.base.toNat + size) (some r.base) = true := by
        refine (h.overlaps_iff (some r.base)).mpr ⟨s, hs, ?_, by omega, by omega⟩
        intro heq
        rw [Option.some.inj heq] at hlt
        omega
      rw [hover] at hfree
      exact Bool.noConfusion hfree
  · intro s hs
    rcases (Region.mem_replace h.apart hr).mp hs with rfl | ⟨hs, -⟩
    · rw [hfinish]
      rcases hroom with hsmall | ⟨-, hlimit, -⟩
      · have hold : r.finish = r.base.toNat + r.size := rfl
        have := h.bounded r hr
        omega
      · exact hlimit
    · exact h.bounded s hs
  · have hsize : (r.resize size).size = size := rfl
    simp only [modifyRegion]
    rw [hsize] at htotal
    omega
  · simp only [modifyRegion]
    rcases hroom with hsmall | ⟨-, -, -, hbudget, -⟩ <;> omega

theorem WellFormed.release (h : m.WellFormed) (hok : m.release base = .ok (size, m')) :
    m'.WellFormed := by
  obtain ⟨r, hfind, rfl, rfl⟩ := release_cases hok
  obtain ⟨hr, rfl⟩ := h.regionFrom?_eq_some_iff.mp hfind
  have htotal := Region.total_remove h.apart hr
  have hcounted := h.counted
  have haffordable := h.affordable
  refine ⟨h.apart.filter _, ?_, ?_, ?_⟩
  · exact fun s hs => h.bounded s (List.mem_of_mem_filter hs)
  · show m.used - r.size = Region.total (m.regions.filter fun s => s.base ≠ r.base)
    omega
  · show m.used - r.size ≤ m.capacity
    omega

theorem WellFormed.fill {bs : List Byte} (h : m.WellFormed) (hok : m.fill addr bs = .ok m') :
    m'.WellFormed := by
  rcases fill_cases hok with ⟨-, rfl⟩ | ⟨hpos, r, hof, rfl⟩
  · exact h
  obtain ⟨hr, -⟩ := (h.regionOf?_eq_some_iff hpos).mp hof
  have htotal := Region.total_replace (f := fun r => r.write addr bs) h.apart hr
  refine ⟨Region.pairwise_replace h.apart hr rfl ?_, ?_, ?_, h.affordable⟩
  · intro s hs hlt
    rcases Region.eq_or_above_of_mem h.apart hr hs with rfl | habove | habove
    · omega
    · have := habove.1
      omega
    · exact habove.2
  · intro s hs
    rcases (Region.mem_replace h.apart hr).mp hs with rfl | ⟨hs, -⟩
    · exact h.bounded r hr
    · exact h.bounded s hs
  · have hcounted := h.counted
    have hsize : (r.write addr bs).size = r.size := rfl
    simp only [modifyRegion]
    rw [hsize] at htotal
    omega

/-! ## Numbers that stay in range -/

/-- Positions in regions, ends of ranges and the accounts are all in range, so they can be added
up and subtracted without a look at the result. -/
structure InRange (m : Memory) : Prop where
  slices : ∀ addr len r, 0 < len → m.regionOf? addr len = some r →
    r.base.toNat ≤ addr.toNat ∧ addr.toNat - r.base.toNat + len ≤ r.size
  ends : ∀ r ∈ m.regions, r.base.toNat + r.size < addressLimit
  accounts : ∀ r ∈ m.regions, r.size ≤ m.used
  allocations : ∀ addr size m', m.allocate addr size = .ok m' →
    addr.toNat + size < addressLimit ∧ m'.used ≤ m.capacity
  resizings : ∀ base size m', m.resize base size = .ok m' →
    base.toNat + size < addressLimit ∧ m'.used ≤ m.capacity

theorem finish_of_allocate (h : m.allocate addr size = .ok m') :
    addr.toNat + size < addressLimit := by
  rcases allocate_cases h with ⟨rfl, -⟩ | ⟨-, hlimit, -⟩
  · exact addr.isLt
  · exact hlimit

theorem WellFormed.inRange (h : m.WellFormed) : m.InRange where
  slices addr len r hlen hof := by
    obtain ⟨-, hstart, hend⟩ := (h.regionOf?_eq_some_iff hlen).mp hof
    have hfinish : r.finish = r.base.toNat + r.size := rfl
    exact ⟨hstart, by omega⟩
  ends := h.bounded
  accounts _ hr := h.size_le_used hr
  allocations _ _ _ hok :=
    ⟨finish_of_allocate hok, capacity_allocate hok ▸ (h.allocate hok).affordable⟩
  resizings base size m' hok := by
    refine ⟨?_, capacity_resize hok ▸ (h.resize hok).affordable⟩
    obtain ⟨r, hfind, -, hroom⟩ := resize_cases hok
    obtain ⟨hr, rfl⟩ := h.regionFrom?_eq_some_iff.mp hfind
    have hbound : r.base.toNat + r.size < addressLimit := h.bounded r hr
    rcases hroom with hsmall | ⟨-, hlimit, -⟩
    · omega
    · exact hlimit

/-- Well-formed memory with a budget of so many bytes. -/
structure Budgeted (m : Memory) (capacity : Nat) : Prop extends WellFormed m where
  budget : m.capacity = capacity

namespace Budgeted

variable {capacity : Nat}

theorem allocate (h : m.Budgeted capacity) (hok : m.allocate addr size = .ok m') :
    m'.Budgeted capacity :=
  ⟨h.toWellFormed.allocate hok, (capacity_allocate hok).trans h.budget⟩

theorem resize (h : m.Budgeted capacity) (hok : m.resize base size = .ok m') :
    m'.Budgeted capacity :=
  ⟨h.toWellFormed.resize hok, (capacity_resize hok).trans h.budget⟩

theorem release (h : m.Budgeted capacity) (hok : m.release base = .ok (size, m')) :
    m'.Budgeted capacity :=
  ⟨h.toWellFormed.release hok, (capacity_release hok).trans h.budget⟩

theorem fill {bs : List Byte} (h : m.Budgeted capacity) (hok : m.fill addr bs = .ok m') :
    m'.Budgeted capacity :=
  ⟨h.toWellFormed.fill hok, (capacity_fill hok).trans h.budget⟩

end Budgeted

end RiscvHart.Memory
