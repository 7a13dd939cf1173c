import RiscvHart.Kernel.Heap
import RiscvHart.Proofs.Machine.Exec
import Mathlib.Tactic.SplitIfs

/-!
# Changes made in place

To change its size, a region has its bytes taken out and put back; the break moves when the heap
below it has grown. Both give the state that they leave, whatever comes of them. As neither
leaves anything changed when it fails, it is enough to know what they give when they succeed.
-/

namespace RiscvHart

/-- What a change gives that has succeeded, or its error. -/
def settled {ε σ : Type} (x : Except ε Unit × σ) : Except ε σ := x.1.map fun _ => x.2

/-- A change that fails leaves the state as it was. -/
def Atomic {ε σ : Type} (f : σ → Except ε Unit × σ) : Prop :=
  ∀ s e, (f s).1 = .error e → (f s).2 = s

section

variable {ε σ : Type} {f : σ → Except ε Unit × σ}

theorem Atomic.eq_match (hf : Atomic f) (s : σ) :
    f s =
      match settled (f s) with
      | .ok s' => (.ok (), s')
      | .error e => (.error e, s) := by
  have hs := hf s
  revert hs
  cases f s with
  | mk result left =>
    cases result with
    | ok u => exact fun _ => rfl
    | error e => exact fun hs => congrArg (Prod.mk (Except.error e)) (hs e rfl)

theorem Exec.inPlace_eq_attempt {f : σ → Except MemoryError Unit × σ} (hf : Atomic f) :
    inPlace f = attempt fun s => (settled (f s)).map fun s' => ((), s') := by
  funext s
  rw [inPlace, attempt, hf.eq_match s]
  cases settled (f s) <;> rfl

end

namespace Region

variable (r : Region) (size : Nat)

theorem resizeInPlace_reserved : r.resizeInPlace size true = (true, r.resize size) := rfl

/-- The bytes that were taken out are all put back. -/
theorem resizeInPlace_unreserved : r.resizeInPlace size false = (false, r) := rfl

end Region

namespace Memory

variable {m : Memory} {base : Word} {size : Nat}

theorem modifyRegion_self : m.modifyRegion base (fun r => r) = m := by
  simp [modifyRegion]

def resize (m : Memory) (base : Word) (size : Nat) : Except MemoryError Memory :=
  settled (m.resizeInPlace base size)

theorem atomic_resizeInPlace (base : Word) (size : Nat) :
    Atomic fun m : Memory => m.resizeInPlace base size := by
  intro m e h
  dsimp only at h ⊢
  unfold resizeInPlace at h ⊢
  cases hr : m.regionFrom? base with
  | none => rfl
  | some r =>
    rw [hr] at h
    dsimp only at h ⊢
    cases hgrowth : m.growthError? base r.size size with
    | some e' => rfl
    | none =>
      rw [hgrowth] at h
      dsimp only at h ⊢
      cases hreserved : decide (size ≤ r.size) || m.backs size with
      | true =>
        rw [hreserved] at h
        cases h
      | false => exact modifyRegion_self

theorem resize_of_none (hr : m.regionFrom? base = none) :
    m.resize base size = .error (.outOfBounds base) := by
  rw [resize, resizeInPlace, hr]
  rfl

theorem resize_of_region {r : Region} (hr : m.regionFrom? base = some r) :
    m.resize base size =
      if size ≤ r.size then
        .ok { m.modifyRegion base (·.resize size) with used := m.used - r.size + size }
      else if addressLimit ≤ base.toNat + size then .error (.regionOverlap base size)
      else if m.overlaps base (base.toNat + size) (some base) then .error (.regionOverlap base size)
      else if m.capacity < m.used - r.size + size then .error (.outOfMemory (size - r.size))
      else if m.backs size = false then .error (.outOfMemory (size - r.size))
      else .ok { m.modifyRegion base (·.resize size) with used := m.used - r.size + size } := by
  rw [resize, resizeInPlace, hr]
  dsimp only
  unfold growthError?
  by_cases hsmall : size ≤ r.size
  · rw [if_pos hsmall, if_pos hsmall, decide_eq_true hsmall, Bool.true_or]
    rfl
  · rw [if_neg hsmall, if_neg hsmall, decide_eq_false hsmall, Bool.false_or]
    cases m.backs size with
    | true =>
      simp only [Region.resizeInPlace_reserved, reduceCtorEq, ↓reduceIte]
      split_ifs <;> rfl
    | false =>
      simp only [Region.resizeInPlace_unreserved, Bool.false_eq_true, ↓reduceIte]
      split_ifs <;> rfl

end Memory

namespace Machine

variable {m : Machine} {base newEnd : Word} {size : Nat}

def resize (m : Machine) (base : Word) (size : Nat) : Except MemoryError Machine :=
  settled (m.resizeInPlace base size)

theorem resize_eq_map :
    m.resize base size = (m.memory.resize base size).map fun resized =>
      let after := { m with memory := resized }
      match m.memory.regionFrom? base with
      | some r =>
        if r.size < size then
          after.emit (.allocated (base + BitVec.ofNat 64 r.size) (size - r.size))
        else after
      | none => after := by
  unfold resize resizeInPlace Memory.resize
  cases m.memory.resizeInPlace base size with
  | mk result left => cases result <;> rfl

theorem atomic_resizeInPlace (base : Word) (size : Nat) :
    Atomic fun m : Machine => m.resizeInPlace base size := by
  intro m e h
  have hmemory := Memory.atomic_resizeInPlace base size m.memory
  dsimp only at h hmemory ⊢
  unfold resizeInPlace at h ⊢
  cases hrun : m.memory.resizeInPlace base size with
  | mk result left =>
    rw [hrun] at h hmemory
    cases result with
    | error e' =>
      obtain rfl : left = m.memory := hmemory e' rfl
      rfl
    | ok u => cases h

/-- Growing the heap at its start, if that is needed. -/
theorem atomic_backHeap (start : Word) (size : Nat) :
    Atomic fun m : Machine => m.backHeap start size := by
  intro m e h
  dsimp only at h ⊢
  unfold backHeap at h ⊢
  cases hr : m.memory.regionFrom? start with
  | some r =>
    rw [hr] at h
    dsimp only at h ⊢
    split
    · rfl
    · next hgrow =>
      rw [if_neg hgrow] at h
      exact atomic_resizeInPlace start size m e h
  | none =>
    rw [hr] at h
    dsimp only at h ⊢
    cases hallocate : m.allocate start size with
    | ok allocated =>
      rw [hallocate] at h
      cases h
    | error e' => rfl

def growHeap (m : Machine) (newEnd : Word) : Except MemoryError Machine :=
  settled (m.growHeapInPlace newEnd)

/-- The break is moved after the heap has grown, so it stays where it was if the
heap cannot grow. -/
theorem atomic_growHeapInPlace (newEnd : Word) :
    Atomic fun m : Machine => m.growHeapInPlace newEnd := by
  intro m e h
  dsimp only at h ⊢
  unfold growHeapInPlace at h ⊢
  cases hstart : m.landmarks.get? Landmarks.heapStart with
  | none => rfl
  | some start =>
    rw [hstart] at h
    have hheap := atomic_backHeap start (newEnd.toNat - start.toNat) m
    dsimp only at h hheap ⊢
    cases hrun : m.backHeap start (newEnd.toNat - start.toNat) with
    | mk result left =>
      rw [hrun] at h hheap
      cases result with
      | error e' => exact hheap e' rfl
      | ok u => cases h

theorem inPlace_growHeap (newEnd : Word) :
    (Exec.inPlace fun m : Machine => m.growHeapInPlace newEnd) =
      Exec.attempt fun m => (m.growHeap newEnd).map fun m' => ((), m') :=
  Exec.inPlace_eq_attempt (atomic_growHeapInPlace newEnd)

theorem growHeap_of_none (hstart : m.landmarks.get? Landmarks.heapStart = none) :
    m.growHeap newEnd = .error (.outOfBounds newEnd) := by
  rw [growHeap, growHeapInPlace, hstart]
  rfl

theorem settled_backHeap (start : Word) (size : Nat) :
    settled (m.backHeap start size) =
      match m.memory.regionFrom? start with
      | some r => if size ≤ r.size then .ok m else m.resize start size
      | none => m.allocate start size := by
  unfold backHeap
  cases m.memory.regionFrom? start with
  | some r =>
    dsimp only
    split <;> rfl
  | none => cases m.allocate start size <;> rfl

theorem growHeap_of_start {start : Word}
    (hstart : m.landmarks.get? Landmarks.heapStart = some start) :
    m.growHeap newEnd = (settled (m.backHeap start (newEnd.toNat - start.toNat))).map
      fun grown => grown.mark Landmarks.heapEnd newEnd := by
  rw [growHeap, growHeapInPlace, hstart]
  dsimp only
  cases m.backHeap start (newEnd.toNat - start.toNat) with
  | mk result left => cases result <;> rfl

end Machine

end RiscvHart
