import RiscvHart.Machine.Basic
import RiscvHart.Proofs.Machine.Exec
import RiscvHart.Proofs.Memory.WellFormed

/-!
# Runs of memory requests

Whatever a program asks of its memory, and in whatever order, the regions stay in order and
within the budget.
-/

namespace RiscvHart

inductive MemoryRequest where
  | allocate (addr : Word) (size : Nat)
  | resize (base : Word) (size : Nat)
  | release (base : Word)
  | read (width : Width) (addr : Word)
  | write (width : Width) (addr v : Word)
  /-- Writes without an event. -/
  | poke (width : Width) (addr v : Word)
  /-- Writes bytes without an event. -/
  | fill (addr : Word) (bs : List Byte)

namespace MemoryRequest

def serve (r : MemoryRequest) (m : Machine) : Except MemoryError Machine :=
  match r with
  | allocate addr size => m.allocate addr size
  | resize base size => m.resize base size
  | release base => (m.release base).map Prod.snd
  | read width addr => (m.load width addr).map Prod.snd
  | write width addr v => m.store width addr v
  | poke width addr v =>
    (m.memory.poke width addr v).map fun memory => { m with memory := memory }
  | fill addr bs => m.fill addr bs

def perform (r : MemoryRequest) : Exec Machine Unit :=
  match r with
  | resize base size => Exec.inPlace fun m => m.resizeInPlace base size
  | r => Exec.attempt fun m => (r.serve m).map fun m' => ((), m')

/-- The machine after requests in order, those that fail included. -/
def performAll (rs : List MemoryRequest) (m : Machine) : Machine :=
  rs.foldl (fun m r => (r.perform m).2) m

end MemoryRequest

namespace Machine

variable {m m' : Machine} {addr base v : Word} {size : Nat} {w : Width} {bs : List Byte}

theorem memory_of_allocate (h : m.allocate addr size = .ok m') :
    m.memory.allocate addr size = .ok m'.memory := by
  obtain ⟨mapped, hmapped, rfl⟩ := Except.map_eq_ok_iff.mp h
  rw [hmapped]
  split <;> rfl

theorem memory_of_resize (h : m.resize base size = .ok m') :
    m.memory.resize base size = .ok m'.memory := by
  rw [resize_eq_map] at h
  obtain ⟨resized, hresized, rfl⟩ := Except.map_eq_ok_iff.mp h
  rw [hresized]
  dsimp only
  split
  · split <;> rfl
  · rfl

theorem memory_of_release (h : m.release base = .ok (size, m')) :
    m.memory.release base = .ok (size, m'.memory) := by
  obtain ⟨⟨size, rest⟩, hrest, heq⟩ := Except.map_eq_ok_iff.mp h
  cases heq
  exact hrest

theorem memory_of_fill (h : m.fill addr bs = .ok m') : m.memory.fill addr bs = .ok m'.memory := by
  obtain ⟨written, hwritten, rfl⟩ := Except.map_eq_ok_iff.mp h
  exact hwritten

theorem memory_of_load {result : Word} (h : m.load w addr = .ok (result, m')) :
    m.memory.peek w addr = .ok result ∧ m'.memory = m.memory := by
  obtain ⟨v, hv, heq⟩ := Except.map_eq_ok_iff.mp h
  cases heq
  exact ⟨hv, rfl⟩

theorem memory_of_store (h : m.store w addr v = .ok m') :
    m.memory.poke w addr (v.cut w) = .ok m'.memory := by
  obtain ⟨old, -, h⟩ := Except.bind_eq_ok_iff.mp h
  obtain ⟨written, hwritten, heq⟩ := Except.bind_eq_ok_iff.mp h
  cases heq
  exact hwritten

end Machine

namespace MemoryRequest

variable {r : MemoryRequest} {m m' : Machine}

/-- A request that is met does to the memory what one of four operations does, if anything. -/
theorem memory_of_serve (h : r.serve m = .ok m') :
    m'.memory = m.memory ∨
      (∃ addr size, m.memory.allocate addr size = .ok m'.memory) ∨
      (∃ base size, m.memory.resize base size = .ok m'.memory) ∨
      (∃ base size, m.memory.release base = .ok (size, m'.memory)) ∨
      ∃ addr bs, m.memory.fill addr bs = .ok m'.memory := by
  cases r with
  | allocate addr size => exact Or.inr (Or.inl ⟨addr, size, Machine.memory_of_allocate h⟩)
  | resize base size => exact Or.inr (Or.inr (Or.inl ⟨base, size, Machine.memory_of_resize h⟩))
  | release base =>
    obtain ⟨⟨size, rest⟩, hrelease, rfl⟩ := Except.map_eq_ok_iff.mp h
    exact Or.inr (Or.inr (Or.inr (Or.inl ⟨base, size, Machine.memory_of_release hrelease⟩)))
  | read w addr =>
    obtain ⟨⟨v, after⟩, hload, rfl⟩ := Except.map_eq_ok_iff.mp h
    exact Or.inl (Machine.memory_of_load hload).2
  | write w addr v =>
    exact Or.inr (Or.inr (Or.inr (Or.inr ⟨addr, _, Machine.memory_of_store h⟩)))
  | poke w addr v =>
    obtain ⟨written, hpoke, rfl⟩ := Except.map_eq_ok_iff.mp h
    exact Or.inr (Or.inr (Or.inr (Or.inr ⟨addr, _, hpoke⟩)))
  | fill addr bs => exact Or.inr (Or.inr (Or.inr (Or.inr ⟨addr, bs, Machine.memory_of_fill h⟩)))

theorem eq_of_serve (h : r.serve m = .ok m') :
    m' = { m with memory := m'.memory, log := m'.log } := by
  cases r with
  | allocate addr size =>
    obtain ⟨mapped, -, rfl⟩ := Except.map_eq_ok_iff.mp h
    dsimp only
    split <;> rfl
  | resize base size =>
    rw [serve, Machine.resize_eq_map] at h
    obtain ⟨resized, -, rfl⟩ := Except.map_eq_ok_iff.mp h
    dsimp only
    split
    · split <;> rfl
    · rfl
  | release base =>
    obtain ⟨⟨size, rest⟩, hrelease, rfl⟩ := Except.map_eq_ok_iff.mp h
    obtain ⟨⟨n, left⟩, -, heq⟩ := Except.map_eq_ok_iff.mp hrelease
    cases heq
    rfl
  | read w addr =>
    obtain ⟨⟨v, after⟩, hload, rfl⟩ := Except.map_eq_ok_iff.mp h
    obtain ⟨value, -, heq⟩ := Except.map_eq_ok_iff.mp hload
    cases heq
    rfl
  | write w addr v =>
    obtain ⟨old, -, h⟩ := Except.bind_eq_ok_iff.mp h
    obtain ⟨written, -, heq⟩ := Except.bind_eq_ok_iff.mp h
    cases heq
    rfl
  | poke w addr v =>
    obtain ⟨written, -, rfl⟩ := Except.map_eq_ok_iff.mp h
    rfl
  | fill addr bs =>
    obtain ⟨written, -, rfl⟩ := Except.map_eq_ok_iff.mp h
    rfl

/-- A change of size that fails leaves the machine as it was, as the other requests do that check
first. -/
theorem perform_eq_attempt (r : MemoryRequest) :
    r.perform = Exec.attempt fun m => (r.serve m).map fun m' => ((), m') := by
  cases r with
  | resize base size => exact Exec.inPlace_eq_attempt (Machine.atomic_resizeInPlace base size)
  | _ => rfl

theorem perform_of_ok (h : r.serve m = .ok m') : r.perform m = (.ok (), m') := by
  rw [perform_eq_attempt, Exec.attempt, h]
  rfl

theorem perform_of_error {e : MemoryError} (h : r.serve m = .error e) : (r.perform m).2 = m := by
  rw [perform_eq_attempt, Exec.attempt, h]
  rfl

/-- What one met request keeps, all requests together keep. -/
theorem performAll_preserves {P : Machine → Prop}
    (hserve : ∀ r m m', P m → serve r m = .ok m' → P m') (rs : List MemoryRequest) (h : P m) :
    P (performAll rs m) := by
  induction rs generalizing m with
  | nil => exact h
  | cons r rest ih =>
    apply ih
    show P (r.perform m).2
    cases hr : r.serve m with
    | error e =>
      rw [perform_of_error hr]
      exact h
    | ok after =>
      rw [perform_of_ok hr]
      exact hserve r m after h hr

theorem wellFormed_of_serve (hm : m.memory.WellFormed) (h : r.serve m = .ok m') :
    m'.memory.WellFormed := by
  rcases memory_of_serve h with heq | ⟨_, _, h⟩ | ⟨_, _, h⟩ | ⟨_, _, h⟩ | ⟨_, _, h⟩
  · rwa [heq]
  · exact hm.allocate h
  · exact hm.resize h
  · exact hm.release h
  · exact hm.fill h

theorem capacity_of_serve (h : r.serve m = .ok m') : m'.memory.capacity = m.memory.capacity := by
  rcases memory_of_serve h with heq | ⟨_, _, h⟩ | ⟨_, _, h⟩ | ⟨_, _, h⟩ | ⟨_, _, h⟩
  · rw [heq]
  · exact Memory.capacity_allocate h
  · exact Memory.capacity_resize h
  · exact Memory.capacity_release h
  · exact Memory.capacity_fill h

/-- The memory that requests lead to from one without regions. -/
theorem wellFormed_performAll (backs : Nat → Bool) (capacity : Nat) (rs : List MemoryRequest)
    (m : Machine) :
    (performAll rs { m with memory := .emptyOver backs capacity }).memory.WellFormed :=
  performAll_preserves (P := fun m => m.memory.WellFormed)
    (fun _ _ _ hm h => wellFormed_of_serve hm h) rs (Memory.wellFormed_emptyOver backs capacity)

theorem capacity_performAll (rs : List MemoryRequest) (m : Machine) :
    (performAll rs m).memory.capacity = m.memory.capacity :=
  performAll_preserves (P := fun m' => m'.memory.capacity = m.memory.capacity)
    (fun _ _ _ hm h => (capacity_of_serve h).trans hm) rs rfl

end MemoryRequest

namespace Memory

/-- Regions in order within the budget `capacity`, and what the two lookups draw from that. -/
structure Sound (m : Memory) (capacity : Nat) : Prop where
  /-- Under an address stands the region that starts there, and each region stands
  under its base. -/
  keyed : ∀ base r, m.regionFrom? base = some r ↔ r ∈ m.regions ∧ r.base = base
  ordered : m.ascending.Pairwise fun lo hi =>
    lo.base.toNat < hi.base.toNat ∧ lo.finish ≤ hi.base.toNat
  bounded : ∀ r ∈ m.regions, r.finish ≤ 2 ^ 64 - 1
  counted : m.used = (m.regions.map Region.size).sum
  affordable : m.used ≤ capacity
  /-- What a change of size or a release takes off the count is in it. -/
  deductible : ∀ r ∈ m.regions, r.size ≤ m.used
  /-- If any region has a range, it is the one that is looked at. -/
  covering : ∀ addr len, 0 < len → ∀ r ∈ m.regions, r.Covers addr len →
    m.regionBelow? addr = some r ∧ m.regionOf? addr len = some r
  overlapping : ∀ addr bound skip, m.overlaps addr bound skip = true ↔
    ∃ r ∈ m.regions, some r.base ≠ skip ∧ r.base.toNat < bound ∧ addr.toNat < r.finish

theorem WellFormed.sound {m : Memory} (h : m.WellFormed) : m.Sound m.capacity where
  keyed _ _ := h.regionFrom?_eq_some_iff
  ordered := by
    rw [ascending, List.pairwise_reverse]
    exact h.apart
  bounded r hr := Nat.le_sub_one_of_lt (h.bounded r hr)
  counted := h.counted
  affordable := h.affordable
  deductible _ hr := h.size_le_used hr
  covering _ _ hlen _ hr hcovers :=
    ⟨h.regionBelow?_of_covers hr hcovers hlen, (h.regionOf?_eq_some_iff hlen).mpr ⟨hr, hcovers⟩⟩
  overlapping _ _ skip := h.overlaps_iff skip

end Memory

/-- Whatever is asked of a memory without regions, its regions stay in order. -/
theorem MemoryRequest.sound_performAll (backs : Nat → Bool) (capacity : Nat)
    (rs : List MemoryRequest) (m : Machine) :
    (performAll rs { m with memory := .emptyOver backs capacity }).memory.Sound capacity := by
  have hsound := (wellFormed_performAll backs capacity rs m).sound
  rw [capacity_performAll] at hsound
  exact hsound

end RiscvHart
