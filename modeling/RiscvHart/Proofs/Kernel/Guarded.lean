import RiscvHart.Proofs.Kernel.Anchored
import RiscvHart.Proofs.Kernel.Space

/-!
# Mappings and the regions around them

Three records have to agree: the regions of memory, the table of the mappings that the guest was
given, and the names of the bounds of the heap. They agree if each mapping is a region and none
of them is a region that is to be kept. Every call and every instruction leaves them so.
-/

namespace RiscvHart.Platform

open Exec

variable {σ : Type}

/-- The table of mappings agrees with the memory, and leaves the ranges in `kept` alone. -/
structure Guarded (kept : List (Word × Nat)) (heap : Word) (s : Platform σ) : Prop where
  anchored : s.machine.Anchored kept heap
  heapKept : heap ∈ kept.map Prod.fst
  mapped : ∀ e ∈ s.kernel.mappings, e ∈ s.machine.memory.layout
  keyed : s.kernel.mappings.Pairwise fun e f => e.1 ≠ f.1
  foreign : ∀ e ∈ s.kernel.mappings, e.1 ∉ kept.map Prod.fst

variable {kept : List (Word × Nat)} {heap : Word} {s s' : Platform σ}

theorem mem_of_lookup {mappings : List (Word × Nat)} {base : Word} {size : Nat}
    (h : mappings.lookup base = some size) : (base, size) ∈ mappings := by
  obtain ⟨before, after, heq, -⟩ := List.lookup_eq_some_iff.mp h
  rw [heq]
  exact List.mem_append_right _ List.mem_cons_self

namespace Guarded

theorem of_space_eq (h : s.Guarded kept heap) (heq : s'.space = s.space) :
    s'.Guarded kept heap := by
  have hspace : s'.machine.space = s.machine.space := congrArg Prod.fst heq
  have hmappings : s'.kernel.mappings = s.kernel.mappings :=
    congrArg (fun v => v.2.1) heq
  refine ⟨h.anchored.of_space_eq hspace, h.heapKept, ?_, ?_, ?_⟩
  · rw [hmappings, show s'.machine.memory.layout = s.machine.memory.layout from
      congrArg AddressSpace.layout hspace]
    exact h.mapped
  · rw [hmappings]
    exact h.keyed
  · rw [hmappings]
    exact h.foreign

theorem ne_heap (h : s.Guarded kept heap) {e : Word × Nat} (he : e ∈ s.kernel.mappings) :
    e.1 ≠ heap := fun heq => h.foreign e he (heq ▸ h.heapKept)

theorem mem_bases_of_kept (h : s.Guarded kept heap) {base : Word}
    (hbase : base ∈ kept.map Prod.fst) :
    ∃ size, (base, size) ∈ s.machine.memory.layout := by
  obtain ⟨e, he, rfl⟩ := List.mem_map.mp hbase
  obtain ⟨size, hmem, -⟩ := h.anchored.kept e he
  exact ⟨size, hmem⟩

/-- A change of the machine that keeps all that was mapped, the heap but for its size, and does
not touch the table of mappings. -/
theorem of_anchored (h : s.Guarded kept heap) {m : Machine} (hm : m.Anchored kept heap)
    (hall : m.Anchored s.machine.memory.layout heap) :
    (⟨m, s.kernel⟩ : Platform σ).Guarded kept heap := by
  refine ⟨hm, h.heapKept, fun e he => ?_, h.keyed, h.foreign⟩
  obtain ⟨size, hmem, -, hsize⟩ := hall.kept e (h.mapped e he)
  rw [hsize (h.ne_heap he)] at hmem
  exact hmem

theorem release_of_mapped (h : s.Guarded kept heap) {e : Word × Nat}
    (he : e ∈ s.kernel.mappings) : ∃ m, s.machine.release e.1 = .ok (e.2, m) := by
  obtain ⟨rest, hrelease⟩ := h.anchored.wellFormed.release_of_mem_layout (h.mapped e he)
  rw [Machine.release, hrelease]
  exact ⟨_, rfl⟩

/-! ## The three calls that change the address space -/

theorem brkCall (h : s.Guarded kept heap) (requested : Word) :
    (Platform.brkCall requested s).2.Guarded kept heap := by
  rcases brkCall_cases s requested with ⟨hrun, -⟩ | ⟨start, finish, hstart, -, hrest⟩
  · rw [hrun]
    exact h
  obtain rfl : start = heap := Option.some.inj (hstart.symm.trans h.anchored.heapStart)
  rcases hrest with ⟨hrun, -⟩ | ⟨m, hle, hgrow, hrun⟩
  · rw [hrun]
    exact h
  · rw [hrun]
    exact h.of_anchored (h.anchored.growHeap hle hgrow).1 (h.anchored.rebase.growHeap hle hgrow).1

theorem record (h : s.Guarded kept heap) {base : Word} {size : Nat}
    (hmapped : (base, size) ∈ s.machine.memory.layout)
    (hnew : ∀ e ∈ s.kernel.mappings, e.1 ≠ base) (hforeign : base ∉ kept.map Prod.fst) :
    (⟨s.machine, s.kernel.record base size⟩ : Platform σ).Guarded kept heap := by
  have hfilter : (s.kernel.mappings.filter fun e => e.1 ≠ base) = s.kernel.mappings :=
    List.filter_eq_self.mpr fun e he => decide_eq_true (hnew e he)
  have hmappings : (s.kernel.record base size).mappings = (base, size) :: s.kernel.mappings := by
    rw [Kernel.record, hfilter]
  refine ⟨h.anchored, h.heapKept, ?_, ?_, ?_⟩
  · rw [hmappings]
    intro e he
    rcases List.mem_cons.mp he with rfl | he
    · exact hmapped
    · exact h.mapped e he
  · rw [hmappings]
    exact List.pairwise_cons.mpr ⟨fun e he => (hnew e he).symm, h.keyed⟩
  · rw [hmappings]
    intro e he
    rcases List.mem_cons.mp he with rfl | he
    · exact hforeign
    · exact h.foreign e he

theorem mmapCall (h : s.Guarded kept heap) (a : Arguments) :
    (Platform.mmapCall a s).2.Guarded kept heap := by
  rcases mmapCall_cases a s with ⟨e, -, hrun⟩ | ⟨size, target, m, hlength, -, hsize, -, hok, hrun⟩
  · rw [hrun]
    exact h
  rw [hrun]
  have hpos : 0 < size.toNat := mapSize?_pos hlength hsize
  obtain ⟨hfresh, hlayout⟩ := h.anchored.wellFormed.layout_allocate h.anchored.solid hpos
    (Machine.memory_of_allocate hok)
  have hkeep : ∀ kept, m.Anchored kept heap → (noteMapping a m target size).Anchored kept heap := by
    intro kept hm
    unfold noteMapping
    split
    · exact hm
    · exact hm.mark (by decide) (by decide)
  have hguarded : (⟨noteMapping a m target size, s.kernel⟩ : Platform σ).Guarded kept heap :=
    h.of_anchored (hkeep _ (h.anchored.allocate hok)) (hkeep _ (h.anchored.rebase.allocate hok))
  refine hguarded.record ?_ ?_ ?_
  · rw [memory_noteMapping]
    exact (hlayout _).mpr (Or.inl rfl)
  · exact fun e he => hfresh e (h.mapped e he)
  · intro hmem
    obtain ⟨n, hn⟩ := h.mem_bases_of_kept hmem
    exact hfresh _ hn rfl

theorem munmapCall (h : s.Guarded kept heap) (a : Arguments) :
    (Platform.munmapCall a s).2.Guarded kept heap := by
  rcases munmapCall_cases a s with hrun | ⟨size, -, -, hlookup, hrest⟩
  · rw [hrun]
    exact h
  have hentry := mem_of_lookup hlookup
  obtain ⟨m, hrelease⟩ := h.release_of_mapped hentry
  rcases hrest with ⟨n, m', hrelease', hrun⟩ | ⟨e, hfail, -⟩
  · rw [hrun]
    have hlayout := (h.anchored.wellFormed.layout_release (Machine.memory_of_release hrelease')).2
    refine ⟨h.anchored.release hrelease' (h.ne_heap hentry) (h.foreign _ hentry), h.heapKept, ?_,
      h.keyed.filter _, ?_⟩
    · intro e he
      obtain ⟨he, hne⟩ := List.mem_filter.mp he
      exact (hlayout e).mpr ⟨h.mapped e he, of_decide_eq_true hne⟩
    · exact fun e he => h.foreign e (List.mem_of_mem_filter he)
  · rw [hrelease] at hfail
    cases hfail

end Guarded

theorem lasting_guarded : Lasting (Guarded (σ := σ) kept heap) where
  space _ _ heq h := h.of_space_eq heq
  brk requested _ h := h.brkCall requested
  mmap a _ h := h.mmapCall a
  munmap a _ h := h.munmapCall a

end RiscvHart.Platform
