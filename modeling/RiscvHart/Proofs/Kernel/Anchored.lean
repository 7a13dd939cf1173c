import RiscvHart.Proofs.Kernel.MappingCalls
import RiscvHart.Proofs.Machine.Space
import RiscvHart.Proofs.Memory.Layout

/-!
# What stays where it is

A machine is anchored if a list of ranges is still mapped and its heap is in order: one region at
the start of the heap holds all of it, and that region alone may have grown. This holds while a
process is being prepared, and while it runs.
-/

namespace RiscvHart.Machine

/-- The ranges in `kept` are still mapped, and the heap starts at `heap`. -/
structure Anchored (kept : List (Word × Nat)) (heap : Word) (m : Machine) : Prop where
  wellFormed : m.memory.WellFormed
  solid : m.memory.Solid
  heapStart : m.landmarks.get? Landmarks.heapStart = some heap
  heapEnd : ∃ finish, m.landmarks.get? Landmarks.heapEnd = some finish ∧
    heap.toNat ≤ finish.toNat ∧
    (finish = heap ∨ ∃ size, (heap, size) ∈ m.memory.layout ∧ finish.toNat ≤ heap.toNat + size)
  kept : ∀ e ∈ kept, ∃ size, (e.1, size) ∈ m.memory.layout ∧ e.2 ≤ size ∧ (e.1 ≠ heap → size = e.2)

namespace Anchored

variable {kept : List (Word × Nat)} {heap base newEnd : Word} {size : Nat} {m m' : Machine}

/-- What is mapped now may serve as the ranges to be kept from now on. -/
theorem rebase (h : m.Anchored kept heap) : m.Anchored m.memory.layout heap where
  wellFormed := h.wellFormed
  solid := h.solid
  heapStart := h.heapStart
  heapEnd := h.heapEnd
  kept e he := ⟨e.2, he, Nat.le_refl _, fun _ => rfl⟩

theorem of_space_eq (h : m.Anchored kept heap) (heq : m'.space = m.space) :
    m'.Anchored kept heap := by
  have hlayout : m'.memory.layout = m.memory.layout := congrArg AddressSpace.layout heq
  have hlandmarks : m'.landmarks = m.landmarks := congrArg AddressSpace.landmarks heq
  have hused : m'.memory.used = m.memory.used := congrArg AddressSpace.used heq
  have hcapacity : m'.memory.capacity = m.memory.capacity := congrArg AddressSpace.capacity heq
  constructor
  · exact h.wellFormed.of_layout_eq hlayout hused hcapacity
  · exact h.solid.of_layout_eq hlayout
  · rw [hlandmarks]
    exact h.heapStart
  · rw [hlandmarks, hlayout]
    exact h.heapEnd
  · rw [hlayout]
    exact h.kept

/-- Naming an address does not matter if it is not a bound of the heap. -/
theorem mark (h : m.Anchored kept heap) {name : String} {addr : Word}
    (hstart : Landmarks.heapStart ≠ name) (hend : Landmarks.heapEnd ≠ name) :
    (m.mark name addr).Anchored kept heap where
  wellFormed := h.wellFormed
  solid := h.solid
  heapStart := by
    rw [Machine.mark, Landmarks.get?_set_ne _ _ hstart]
    exact h.heapStart
  heapEnd := by
    rw [Machine.mark, Landmarks.get?_set_ne _ _ hend]
    exact h.heapEnd
  kept := h.kept

/-- A machine stays anchored if it keeps its names and what it has mapped. -/
theorem of_subset (h : m.Anchored kept heap) (hwell : m'.memory.WellFormed)
    (hsolid : m'.memory.Solid) (hlandmarks : m'.landmarks = m.landmarks)
    (hsub : ∀ e ∈ m.memory.layout, e.1 = heap ∨ e.1 ∈ kept.map Prod.fst → e ∈ m'.memory.layout) :
    m'.Anchored kept heap := by
  refine ⟨hwell, hsolid, ?_, ?_, ?_⟩
  · rw [hlandmarks]
    exact h.heapStart
  · obtain ⟨finish, hfinish, hle, hroom⟩ := h.heapEnd
    refine ⟨finish, by rw [hlandmarks]; exact hfinish, hle, ?_⟩
    rcases hroom with heq | ⟨size, hmem, hroom⟩
    · exact Or.inl heq
    · exact Or.inr ⟨size, hsub _ hmem (Or.inl rfl), hroom⟩
  · intro e he
    obtain ⟨size, hmem, hle, hsize⟩ := h.kept e he
    exact ⟨size, hsub _ hmem (Or.inr (List.mem_map.mpr ⟨e, he, rfl⟩)), hle, hsize⟩

theorem allocate (h : m.Anchored kept heap) {addr : Word} (hok : m.allocate addr size = .ok m') :
    m'.Anchored kept heap := by
  have hmemory := memory_of_allocate hok
  have hlandmarks : m'.landmarks = m.landmarks := by
    rw [MemoryRequest.eq_of_serve (r := .allocate addr size) hok]
  refine h.of_subset (h.wellFormed.allocate hmemory) (h.solid.allocate h.wellFormed hmemory)
    hlandmarks fun e he _ => ?_
  rcases Nat.eq_zero_or_pos size with hzero | hpos
  · rcases Memory.allocate_cases hmemory with ⟨-, heq⟩ | ⟨hpos, -⟩
    · rw [heq]
      exact he
    · omega
  · exact ((h.wellFormed.layout_allocate h.solid hpos hmemory).2 e).mpr (Or.inr he)

theorem release (h : m.Anchored kept heap) (hok : m.release base = .ok (size, m'))
    (hheap : base ≠ heap) (hkept : base ∉ kept.map Prod.fst) : m'.Anchored kept heap := by
  have hmemory := memory_of_release hok
  have hlandmarks : m'.landmarks = m.landmarks := by
    have hserve : MemoryRequest.serve (.release base) m = .ok m' :=
      Except.map_eq_ok_iff.mpr ⟨(size, m'), hok, rfl⟩
    rw [MemoryRequest.eq_of_serve hserve]
  refine h.of_subset (h.wellFormed.release hmemory) (h.solid.release h.wellFormed hmemory)
    hlandmarks fun e he hbase => ?_
  refine ((h.wellFormed.layout_release hmemory).2 e).mpr ⟨he, fun heq => ?_⟩
  rcases hbase with hbase | hbase
  · exact hheap (heq.symm.trans hbase)
  · exact hkept (heq ▸ hbase)

/-- Moving the break puts the name of the end of the heap on an address inside its region. -/
theorem markHeapEnd (h : m.Anchored kept heap) (hle : heap.toNat ≤ newEnd.toNat)
    (hroom : newEnd = heap ∨
      ∃ size, (heap, size) ∈ m.memory.layout ∧ newEnd.toNat ≤ heap.toNat + size) :
    (m.mark Landmarks.heapEnd newEnd).Anchored kept heap where
  wellFormed := h.wellFormed
  solid := h.solid
  heapStart := by
    rw [Machine.mark, Landmarks.get?_set_ne _ _ (by decide)]
    exact h.heapStart
  heapEnd := ⟨newEnd, Landmarks.get?_set_self _ _ _, hle, hroom⟩
  kept := h.kept

theorem resizeHeap (h : m.Anchored kept heap) {old : Nat} (hold : (heap, old) ∈ m.memory.layout)
    (hgrow : old < size) (hok : m.resize heap size = .ok m') : m'.Anchored kept heap := by
  have hmemory := memory_of_resize hok
  have hlandmarks : m'.landmarks = m.landmarks := by
    rw [MemoryRequest.eq_of_serve (r := .resize heap size) hok]
  have hlayout := (h.wellFormed.layout_resize hmemory).2
  have hheap : (heap, size) ∈ m'.memory.layout := (hlayout _).mpr (Or.inl rfl)
  have hsize : ∀ n, (heap, n) ∈ m.memory.layout → n = old := fun n hn =>
    congrArg Prod.snd (h.wellFormed.eq_of_mem_layout hn hold rfl)
  refine ⟨h.wellFormed.resize hmemory, h.solid.resize h.wellFormed (by omega) hmemory, ?_, ?_, ?_⟩
  · rw [hlandmarks]
    exact h.heapStart
  · obtain ⟨finish, hfinish, hle, hroom⟩ := h.heapEnd
    refine ⟨finish, by rw [hlandmarks]; exact hfinish, hle, ?_⟩
    rcases hroom with heq | ⟨n, hn, hroom⟩
    · exact Or.inl heq
    · have := hsize n hn
      exact Or.inr ⟨size, hheap, by omega⟩
  · intro e he
    obtain ⟨n, hn, hle, hexact⟩ := h.kept e he
    by_cases hbase : e.1 = heap
    · rw [hbase] at hn
      have := hsize n hn
      exact ⟨size, hbase ▸ hheap, by omega, fun hne => absurd hbase hne⟩
    · exact ⟨n, (hlayout _).mpr (Or.inr ⟨hn, hbase⟩), hle, hexact⟩

/-- The break may be moved to any address from the start of the heap on. -/
theorem growHeap (h : m.Anchored kept heap) (hle : heap.toNat ≤ newEnd.toNat)
    (hok : m.growHeap newEnd = .ok m') :
    m'.Anchored kept heap ∧ m'.landmarks.get? Landmarks.heapEnd = some newEnd := by
  obtain ⟨start, grown, hstart, rfl, hgrown⟩ := growHeap_cases hok
  obtain rfl : start = heap := Option.some.inj (hstart.symm.trans h.heapStart)
  refine ⟨?_, Landmarks.get?_set_self _ _ _⟩
  rcases hgrown with ⟨r, hr, hfits, rfl⟩ | ⟨r, hr, hgrow, hresize⟩ | ⟨-, hallocate⟩
  · obtain ⟨hmem, rfl⟩ := h.wellFormed.regionFrom?_eq_some_iff.mp hr
    exact h.markHeapEnd hle (Or.inr ⟨r.size, Memory.mem_layout_of_mem hmem, by omega⟩)
  · obtain ⟨hmem, rfl⟩ := h.wellFormed.regionFrom?_eq_some_iff.mp hr
    have hlayout := (h.wellFormed.layout_resize (memory_of_resize hresize)).2
    refine (h.resizeHeap (Memory.mem_layout_of_mem hmem) hgrow hresize).markHeapEnd hle ?_
    exact Or.inr ⟨_, (hlayout _).mpr (Or.inl rfl), by omega⟩
  · refine (h.allocate hallocate).markHeapEnd hle ?_
    rcases Nat.eq_zero_or_pos (newEnd.toNat - start.toNat) with hzero | hpos
    · exact Or.inl (BitVec.eq_of_toNat_eq (by omega))
    · have hlayout :=
        (h.wellFormed.layout_allocate h.solid hpos (memory_of_allocate hallocate)).2
      exact Or.inr ⟨_, (hlayout _).mpr (Or.inl rfl), by omega⟩

end Anchored

end RiscvHart.Machine
