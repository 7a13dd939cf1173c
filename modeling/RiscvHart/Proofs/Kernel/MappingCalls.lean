import RiscvHart.Kernel.Calls
import RiscvHart.Proofs.Machine.Exec
import RiscvHart.Proofs.Memory.Requests

/-!
# What the calls that map memory can do

Moving the break, mapping and unmapping: for each, all the ways in which it can end, with the
result and the state in which it leaves the platform. None of them ends without an answer.
-/

namespace RiscvHart

open Exec

theorem Machine.growHeap_cases {m m' : Machine} {newEnd : Word}
    (h : m.growHeap newEnd = .ok m') :
    ∃ start grown, m.landmarks.get? Landmarks.heapStart = some start ∧
      m' = grown.mark Landmarks.heapEnd newEnd ∧
      ((∃ r, m.memory.regionFrom? start = some r ∧ newEnd.toNat - start.toNat ≤ r.size ∧
          grown = m) ∨
        (∃ r, m.memory.regionFrom? start = some r ∧ r.size < newEnd.toNat - start.toNat ∧
          m.resize start (newEnd.toNat - start.toNat) = .ok grown) ∨
        (m.memory.regionFrom? start = none ∧
          m.allocate start (newEnd.toNat - start.toNat) = .ok grown)) := by
  cases hstart : m.landmarks.get? Landmarks.heapStart with
  | none =>
    rw [growHeap_of_none hstart] at h
    cases h
  | some start =>
    rw [growHeap_of_start hstart] at h
    obtain ⟨grown, hgrown, rfl⟩ := Except.map_eq_ok_iff.mp h
    rw [settled_backHeap] at hgrown
    refine ⟨start, grown, rfl, rfl, ?_⟩
    cases hr : m.memory.regionFrom? start with
    | none =>
      rw [hr] at hgrown
      exact Or.inr (Or.inr ⟨rfl, hgrown⟩)
    | some r =>
      rw [hr] at hgrown
      dsimp only at hgrown
      split at hgrown
      · next hfits => exact Or.inl ⟨r, rfl, hfits, (Except.ok.inj hgrown).symm⟩
      · next hfits => exact Or.inr (Or.inl ⟨r, rfl, Nat.lt_of_not_le hfits, hgrown⟩)

theorem Machine.budgeted_growHeap {m m' : Machine} {newEnd : Word} {capacity : Nat}
    (h : m.memory.Budgeted capacity) (hgrow : m.growHeap newEnd = .ok m') :
    m'.memory.Budgeted capacity := by
  obtain ⟨start, grown, -, rfl, hrest⟩ := growHeap_cases hgrow
  show grown.memory.Budgeted capacity
  rcases hrest with ⟨_, -, -, rfl⟩ | ⟨_, -, -, hresize⟩ | ⟨-, hallocate⟩
  · exact h
  · exact h.resize (memory_of_resize hresize)
  · exact h.allocate (memory_of_allocate hallocate)

namespace Platform

variable {σ : Type} (a : Arguments) (s : Platform σ)

/-- What is tried in place is done, or the platform is as it was. -/
theorem tryInPlace_of_atomic {f : Machine → Except MemoryError Unit × Machine} (hf : Atomic f) :
    tryInPlace f s =
      match settled (f s.machine) with
      | .ok m => (.ok true, { s with machine := m })
      | .error _ => (.ok false, s) := by
  rw [tryInPlace, hf.eq_match s.machine]
  cases settled (f s.machine) <;> rfl

theorem brkCall_of_bounds {start finish : Word} (requested : Word)
    (hstart : s.machine.landmarks.get? Landmarks.heapStart = some start)
    (hfinish : s.machine.landmarks.get? Landmarks.heapEnd = some finish) :
    brkCall requested s =
      if requested.toNat < start.toNat then (.ok finish, s)
      else
        match s.machine.growHeap requested with
        | .ok m => (.ok requested, { s with machine := m })
        | .error _ => (.ok finish, s) := by
  rw [brkCall, get_bind_apply, hstart, hfinish]
  dsimp only
  split
  · rfl
  · rw [bind_apply, tryInPlace_of_atomic s (Machine.atomic_growHeapInPlace requested),
      Machine.growHeap]
    cases settled (s.machine.growHeapInPlace requested) <;> rfl

theorem brkCall_cases (requested : Word) :
    (brkCall requested s = (.ok 0, s) ∧
      (s.machine.landmarks.get? Landmarks.heapStart = none ∨
        s.machine.landmarks.get? Landmarks.heapEnd = none)) ∨
      ∃ start finish, s.machine.landmarks.get? Landmarks.heapStart = some start ∧
        s.machine.landmarks.get? Landmarks.heapEnd = some finish ∧
        ((brkCall requested s = (.ok finish, s) ∧
            (requested.toNat < start.toNat ∨ ∃ e, s.machine.growHeap requested = .error e)) ∨
          ∃ m, start.toNat ≤ requested.toNat ∧ s.machine.growHeap requested = .ok m ∧
            brkCall requested s = (.ok requested, { s with machine := m })) := by
  cases hstart : s.machine.landmarks.get? Landmarks.heapStart with
  | none =>
    rw [brkCall, get_bind_apply, hstart]
    exact Or.inl ⟨rfl, Or.inl rfl⟩
  | some start =>
    cases hend : s.machine.landmarks.get? Landmarks.heapEnd with
    | none =>
      rw [brkCall, get_bind_apply, hstart, hend]
      exact Or.inl ⟨rfl, Or.inr rfl⟩
    | some finish =>
      refine Or.inr ⟨start, finish, rfl, rfl, ?_⟩
      rw [brkCall_of_bounds s requested hstart hend]
      by_cases hlow : requested.toNat < start.toNat
      · rw [if_pos hlow]
        exact Or.inl ⟨rfl, Or.inl hlow⟩
      · rw [if_neg hlow]
        cases hgrow : s.machine.growHeap requested with
        | error e => exact Or.inl ⟨rfl, Or.inr ⟨e, rfl⟩⟩
        | ok m => exact Or.inr ⟨m, Nat.le_of_not_lt hlow, rfl, rfl⟩

def mapTarget? : Option Word :=
  if a.get 3 &&& mapFixed ≠ 0 then some (a.get 0) else s.machine.landmarks.get? Landmarks.mmapNext

/-- The size of a mapping: a number of bytes rounded up to whole pages. -/
def mapSize? (length : Word) : Option Word := Word.alignUp? length (BitVec.ofNat 64 Span.pageSize)

/-- The machine after a mapping: the next one goes after it, unless its place was fixed. -/
def noteMapping (a : Arguments) (m : Machine) (target size : Word) : Machine :=
  if a.get 3 &&& mapFixed ≠ 0 then m else m.mark Landmarks.mmapNext (target + size)

theorem memory_noteMapping (m : Machine) (target size : Word) :
    (noteMapping a m target size).memory = m.memory := by
  unfold noteMapping
  split <;> rfl

/-- Rounding up to whole pages gives at least one page, unless there is nothing to round up. -/
theorem mapSize?_pos {length size : Word} (hlength : length ≠ 0)
    (hsize : mapSize? length = some size) : 0 < size.toNat := by
  unfold mapSize? Word.alignUp? at hsize
  dsimp only at hsize
  split at hsize
  · next hlimit =>
    have hpos : length.toNat ≠ 0 := fun h => hlength (BitVec.eq_of_toNat_eq h)
    have hpage : (BitVec.ofNat 64 Span.pageSize).toNat = 4096 := rfl
    rw [hpage] at hsize hlimit
    obtain rfl := Option.some.inj hsize
    rw [BitVec.toNat_ofNat, Nat.mod_eq_of_lt hlimit]
    omega
  · cases hsize

theorem mmapCall_cases :
    (∃ e, (e = Errno.invalidArgument ∨ e = Errno.outOfMemory) ∧
        mmapCall a s = (.ok e.result, s)) ∨
      ∃ size target m, a.get 1 ≠ 0 ∧ a.get 3 &&& mapAnonymous ≠ 0 ∧ mapSize? (a.get 1) = some size ∧
        mapTarget? a s = some target ∧ s.machine.allocate target size.toNat = .ok m ∧
        mmapCall a s = (.ok target.toInt,
          ⟨noteMapping a m target size, s.kernel.record target size.toNat⟩) := by
  generalize hrun : mmapCall a s = x
  have htarget : a[0] = a.get 0 := rfl
  have hlength : a[1] = a.get 1 := rfl
  have hflags : a[3] = a.get 3 := rfl
  unfold mmapCall at hrun
  rw [htarget, hlength, hflags] at hrun
  by_cases hbad : a.get 1 = 0 ∨ a.get 3 &&& mapAnonymous = 0
  · rw [if_pos hbad] at hrun
    exact Or.inl ⟨_, Or.inl rfl, hrun.symm⟩
  rw [if_neg hbad] at hrun
  rw [not_or] at hbad
  cases hsize : mapSize? (a.get 1) with
  | none =>
    rw [show Word.alignUp? (a.get 1) _ = none from hsize] at hrun
    exact Or.inl ⟨_, Or.inr rfl, hrun.symm⟩
  | some size =>
    rw [show Word.alignUp? (a.get 1) _ = some size from hsize] at hrun
    dsimp only at hrun
    rw [get_bind_apply] at hrun
    cases htarget : mapTarget? a s with
    | none =>
      rw [show ite (a.get 3 &&& mapFixed ≠ 0) _ _ = none from htarget] at hrun
      exact Or.inl ⟨_, Or.inr rfl, hrun.symm⟩
    | some target =>
      rw [show ite (a.get 3 &&& mapFixed ≠ 0) _ _ = some target from htarget] at hrun
      dsimp only at hrun
      cases hallocate : s.machine.allocate target size.toNat with
      | error e =>
        rw [hallocate] at hrun
        refine Or.inl ?_
        cases e with
        | regionOverlap addr n =>
          by_cases hfixed : a.get 3 &&& mapFixed ≠ 0
          · exact ⟨_, Or.inl rfl, by rw [← hrun, if_pos hfixed]; rfl⟩
          · exact ⟨_, Or.inr rfl, by rw [← hrun, if_neg hfixed]; rfl⟩
        | outOfBounds addr => exact ⟨_, Or.inr rfl, hrun.symm⟩
        | outOfMemory n => exact ⟨_, Or.inr rfl, hrun.symm⟩
      | ok m =>
        rw [hallocate] at hrun
        refine Or.inr ⟨size, target, m, hbad.1, hbad.2, rfl, rfl, hallocate, ?_⟩
        rw [← hrun]
        dsimp only
        rw [noteMapping, modifyMachine, modify_bind_apply]
        by_cases hfixed : a.get 3 &&& mapFixed ≠ 0
        · rw [if_pos hfixed, if_neg (not_not.mpr hfixed)]
          rfl
        · have hroom := Memory.finish_of_allocate (Machine.memory_of_allocate hallocate)
          rw [if_neg hfixed, if_pos hfixed, checkedAdd_bind_apply _ _ hroom]
          rfl

theorem munmapCall_cases :
    munmapCall a s = (.ok Errno.invalidArgument.result, s) ∨
      ∃ size, a.get 1 ≠ 0 ∧ mapSize? (a.get 1) = some size ∧
        s.kernel.mappings.lookup (a.get 0) = some size.toNat ∧
        ((∃ released m, s.machine.release (a.get 0) = .ok (released, m) ∧
            munmapCall a s = (.ok 0, ⟨m, s.kernel.forget (a.get 0)⟩)) ∨
          ∃ e, s.machine.release (a.get 0) = .error e ∧
            munmapCall a s = (.ok Errno.invalidArgument.result,
              ⟨s.machine, s.kernel.forget (a.get 0)⟩)) := by
  generalize hrun : munmapCall a s = x
  have hbase : a[0] = a.get 0 := rfl
  have hlength : a[1] = a.get 1 := rfl
  rw [munmapCall, hbase, hlength, get_bind_apply] at hrun
  cases hsize : mapSize? (a.get 1) with
  | none =>
    rw [show Word.alignUp? (a.get 1) _ = none from hsize] at hrun
    rw [if_pos (Or.inr rfl)] at hrun
    exact Or.inl hrun.symm
  | some size =>
    rw [show Word.alignUp? (a.get 1) _ = some size from hsize] at hrun
    by_cases hbad : a.get 1 = 0 ∨ (s.kernel.mappings.lookup (a.get 0) == some size.toNat) = false
    · rw [if_pos hbad] at hrun
      exact Or.inl hrun.symm
    · rw [if_neg hbad, modify_bind_apply] at hrun
      rw [not_or, Bool.not_eq_false, beq_iff_eq] at hbad
      refine Or.inr ⟨size, hbad.1, rfl, hbad.2, ?_⟩
      cases hrelease : s.machine.release (a.get 0) with
      | error e =>
        rw [hrelease] at hrun
        exact Or.inr ⟨e, rfl, hrun.symm⟩
      | ok outcome =>
        rw [hrelease] at hrun
        exact Or.inl ⟨outcome.1, outcome.2, rfl, hrun.symm⟩

end Platform

end RiscvHart
