import RiscvHart.Proofs.Memory.WellFormed

/-!
# Layouts of memory

Which ranges are mapped does not depend on the bytes in them. Memory is solid if none of its
regions is empty; then a range that is newly mapped never takes the place of a region that was
there.
-/

namespace RiscvHart.Memory

def Solid (m : Memory) : Prop := ∀ e ∈ m.layout, 0 < e.2

variable {m m' : Memory} {addr base : Word} {size n : Nat} {e f : Word × Nat}

theorem mem_layout_iff : e ∈ m.layout ↔ ∃ r ∈ m.regions, r.base = e.1 ∧ r.size = e.2 := by
  rw [layout, List.mem_map]
  exact exists_congr fun r => and_congr_right fun _ => Prod.ext_iff

theorem mem_layout_of_mem {r : Region} (hr : r ∈ m.regions) : (r.base, r.size) ∈ m.layout :=
  mem_layout_iff.mpr ⟨r, hr, rfl, rfl⟩

theorem exists_region_of_layout_eq {m' : Memory} {r : Region} (h : m'.layout = m.layout)
    (hr : r ∈ m.regions) : ∃ s ∈ m'.regions, s.base = r.base ∧ s.size = r.size :=
  mem_layout_iff.mp (h ▸ mem_layout_of_mem hr)

def Apart (e f : Word × Nat) : Prop :=
  e.1.toNat + e.2 ≤ f.1.toNat ∨ f.1.toNat + f.2 ≤ e.1.toNat

theorem WellFormed.apart_of_mem_layout (h : m.WellFormed) (he : e ∈ m.layout) (hf : f ∈ m.layout)
    (hne : e.1 ≠ f.1) : Apart e f := by
  obtain ⟨r, hr, hbase, hsize⟩ := mem_layout_iff.mp he
  obtain ⟨s, hs, hbase', hsize'⟩ := mem_layout_iff.mp hf
  rw [Apart, ← hbase, ← hsize, ← hbase', ← hsize']
  rcases Region.eq_or_above_of_mem h.apart hr hs with rfl | habove | habove
  · exact absurd (hbase.symm.trans hbase') hne
  · exact Or.inr habove.2
  · exact Or.inl habove.2

theorem WellFormed.eq_of_mem_layout (h : m.WellFormed) (he : e ∈ m.layout) (hf : f ∈ m.layout)
    (heq : e.1 = f.1) : e = f := by
  obtain ⟨r, hr, hbase, hsize⟩ := mem_layout_iff.mp he
  obtain ⟨s, hs, hbase', hsize'⟩ := mem_layout_iff.mp hf
  have hrs := Region.eq_of_mem_of_base_eq h.apart hr hs (hbase.trans (heq.trans hbase'.symm))
  subst hrs
  exact Prod.ext heq (hsize.symm.trans hsize')

/-- Whether memory is well-formed can be seen from its layout and its accounts. -/
theorem WellFormed.of_layout_eq (h : m.WellFormed) (hlayout : m'.layout = m.layout)
    (hused : m'.used = m.used) (hcapacity : m'.capacity = m.capacity) : m'.WellFormed := by
  have hmem : ∀ r ∈ m'.regions, ∃ s ∈ m.regions, s.base = r.base ∧ s.size = r.size := by
    intro r hr
    have hr' := mem_layout_of_mem hr
    rw [hlayout] at hr'
    exact mem_layout_iff.mp hr'
  refine ⟨?_, ?_, ?_, ?_⟩
  · have hpairs : ∀ m : Memory, m.regions.Pairwise Region.Above ↔
        m.layout.Pairwise fun hi lo =>
          lo.1.toNat < hi.1.toNat ∧ lo.1.toNat + lo.2 ≤ hi.1.toNat := by
      intro m
      rw [layout, List.pairwise_map]
      rfl
    rw [hpairs, hlayout, ← hpairs]
    exact h.apart
  · intro r hr
    obtain ⟨s, hs, hbase, hsize⟩ := hmem r hr
    have hbound := h.bounded s hs
    rw [Region.finish, hbase, hsize] at hbound
    exact hbound
  · have htotal : ∀ m : Memory, Region.total m.regions = (m.layout.map Prod.snd).sum := by
      intro m
      rw [layout, List.map_map]
      rfl
    rw [hused, htotal, hlayout, ← htotal]
    exact h.counted
  · rw [hused, hcapacity]
    exact h.affordable

theorem Budgeted.of_layout_eq {capacity : Nat} (h : m.Budgeted capacity)
    (hlayout : m'.layout = m.layout) (hused : m'.used = m.used)
    (hcapacity : m'.capacity = m.capacity) :
    m'.Budgeted capacity :=
  ⟨h.toWellFormed.of_layout_eq hlayout hused hcapacity, hcapacity.trans h.budget⟩

theorem Solid.of_layout_eq (h : m.Solid) (hlayout : m'.layout = m.layout) : m'.Solid := by
  rw [Solid, hlayout]
  exact h

/-! ## What each operation does to the layout -/

theorem WellFormed.layout_allocate (h : m.WellFormed) (hsolid : m.Solid) (hpos : 0 < size)
    (hok : m.allocate addr size = .ok m') :
    (∀ e ∈ m.layout, e.1 ≠ addr) ∧ ∀ e, e ∈ m'.layout ↔ e = (addr, size) ∨ e ∈ m.layout := by
  rcases allocate_cases hok with ⟨hzero, -⟩ | ⟨-, hlimit, hfree, -, -, rfl⟩
  · omega
  have hfresh : ∀ s ∈ m.regions, s.base ≠ addr := by
    intro s hs heq
    have hfull := hsolid _ (mem_layout_of_mem hs)
    have hover : m.overlaps addr (addr.toNat + size) none = true := by
      refine (h.overlaps_iff none).mpr ⟨s, hs, by simp, ?_, ?_⟩
      · rw [heq]
        omega
      · rw [Region.finish, heq]
        exact Nat.lt_add_of_pos_right hfull
    rw [hover] at hfree
    exact Bool.noConfusion hfree
  constructor
  · intro e he
    obtain ⟨s, hs, hbase, -⟩ := mem_layout_iff.mp he
    rw [← hbase]
    exact hfresh s hs
  · intro e
    rw [mem_layout_iff, mem_layout_iff]
    constructor
    · rintro ⟨s, hs, hbase, hsize⟩
      rcases (Region.mem_insertRegion h.apart).mp hs with rfl | ⟨hs, -⟩
      · exact Or.inl (Prod.ext hbase.symm hsize.symm)
      · exact Or.inr ⟨s, hs, hbase, hsize⟩
    · rintro (rfl | ⟨s, hs, hbase, hsize⟩)
      · exact ⟨.zeros addr size, (Region.mem_insertRegion h.apart).mpr (Or.inl rfl), rfl, rfl⟩
      · exact ⟨s, (Region.mem_insertRegion h.apart).mpr (Or.inr ⟨hs, hfresh s hs⟩), hbase, hsize⟩

theorem WellFormed.layout_resize (h : m.WellFormed) (hok : m.resize base size = .ok m') :
    (∃ old, (base, old) ∈ m.layout) ∧
      ∀ e, e ∈ m'.layout ↔ e = (base, size) ∨ (e ∈ m.layout ∧ e.1 ≠ base) := by
  obtain ⟨r, hfind, rfl, -⟩ := resize_cases hok
  obtain ⟨hr, rfl⟩ := h.regionFrom?_eq_some_iff.mp hfind
  refine ⟨⟨r.size, mem_layout_of_mem hr⟩, fun e => ?_⟩
  rw [mem_layout_iff, mem_layout_iff]
  constructor
  · rintro ⟨s, hs, hbase, hsize⟩
    rcases (Region.mem_replace h.apart hr).mp hs with rfl | ⟨hs, hne⟩
    · exact Or.inl (Prod.ext hbase.symm hsize.symm)
    · exact Or.inr ⟨⟨s, hs, hbase, hsize⟩, hbase ▸ hne⟩
  · rintro (rfl | ⟨⟨s, hs, hbase, hsize⟩, hne⟩)
    · exact ⟨r.resize size, (Region.mem_replace h.apart hr).mpr (Or.inl rfl), rfl, rfl⟩
    · exact ⟨s, (Region.mem_replace h.apart hr).mpr (Or.inr ⟨hs, hbase.symm ▸ hne⟩), hbase, hsize⟩

theorem WellFormed.layout_release (h : m.WellFormed) (hok : m.release base = .ok (size, m')) :
    (base, size) ∈ m.layout ∧ ∀ e, e ∈ m'.layout ↔ e ∈ m.layout ∧ e.1 ≠ base := by
  obtain ⟨r, hfind, rfl, rfl⟩ := release_cases hok
  obtain ⟨hr, rfl⟩ := h.regionFrom?_eq_some_iff.mp hfind
  refine ⟨mem_layout_of_mem hr, fun e => ?_⟩
  rw [mem_layout_iff, mem_layout_iff]
  constructor
  · rintro ⟨s, hs, hbase, hsize⟩
    obtain ⟨hs, hne⟩ := List.mem_filter.mp hs
    exact ⟨⟨s, hs, hbase, hsize⟩, hbase ▸ of_decide_eq_true hne⟩
  · rintro ⟨⟨s, hs, hbase, hsize⟩, hne⟩
    exact ⟨s, List.mem_filter.mpr ⟨hs, decide_eq_true (hbase.symm ▸ hne)⟩, hbase, hsize⟩

theorem WellFormed.release_of_mem_layout (h : m.WellFormed) (he : (base, size) ∈ m.layout) :
    ∃ m', m.release base = .ok (size, m') := by
  obtain ⟨r, hr, rfl, rfl⟩ := mem_layout_iff.mp he
  rw [Memory.release, h.regionFrom?_eq_some_iff.mpr ⟨hr, rfl⟩]
  exact ⟨_, rfl⟩

theorem Solid.allocate (hsolid : m.Solid) (h : m.WellFormed)
    (hok : m.allocate addr size = .ok m') : m'.Solid := by
  rcases Nat.eq_zero_or_pos size with hzero | hpos
  · rcases allocate_cases hok with ⟨-, rfl⟩ | ⟨hpos, -⟩
    · exact hsolid
    · omega
  intro e he
  rcases ((h.layout_allocate hsolid hpos hok).2 e).mp he with rfl | he
  · exact hpos
  · exact hsolid e he

theorem Solid.resize (hsolid : m.Solid) (h : m.WellFormed) (hpos : 0 < size)
    (hok : m.resize base size = .ok m') : m'.Solid := by
  intro e he
  rcases ((h.layout_resize hok).2 e).mp he with rfl | ⟨he, -⟩
  · exact hpos
  · exact hsolid e he

theorem Solid.release (hsolid : m.Solid) (h : m.WellFormed)
    (hok : m.release base = .ok (size, m')) : m'.Solid := by
  intro e he
  exact hsolid e (((h.layout_release hok).2 e).mp he).1

end RiscvHart.Memory
