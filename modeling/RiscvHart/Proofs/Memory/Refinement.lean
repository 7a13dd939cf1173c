import RiscvHart.Proofs.Memory.ByteMap

/-!
# Memory refines a partial map

The operations on the memory of a machine, each told by the partial map from addresses to bytes
before and after it. Regions show through in two places only: an access has to lie in one of
them, and each change of size or release is of a whole one.
-/

namespace RiscvHart.Machine

/-- What the operations on memory do to the partial map of bytes, and what they read from it. -/
structure RefinesByteMap (m : Machine) : Prop where
  /-- The map is that of the regions, whichever of them is asked. -/
  functional : ∀ a b, m.memory.byteMap a = some b ↔ ∃ r ∈ m.memory.regions, r.byte? a = some b
  allocate : ∀ addr size m', m.allocate addr size = .ok m' → ∀ a : Word,
    (a.Within addr size → m.memory.byteMap a = none) ∧
      m'.memory.byteMap a = if a.Within addr size then some 0 else m.memory.byteMap a
  /-- A change of size keeps the bytes of both sizes, adds zeros or drops the tail. -/
  resize : ∀ base size m', m.resize base size = .ok m' →
    ∃ r ∈ m.memory.regions, r.base = base ∧
      (∀ a : Word, m'.memory.byteMap a =
        if a.Within base size then
          if a.Within base r.size then m.memory.byteMap a else some 0
        else if a.Within base r.size then none
        else m.memory.byteMap a) ∧
      ∀ s, s ∈ m'.memory.regions ↔ s = r.resize size ∨ (s ∈ m.memory.regions ∧ s.base ≠ base)
  release : ∀ base size m', m.release base = .ok (size, m') →
    ∃ r ∈ m.memory.regions, r.base = base ∧ size = r.size ∧
      (∀ a : Word, m'.memory.byteMap a =
        if a.Within base r.size then none else m.memory.byteMap a) ∧
      ∀ s, s ∈ m'.memory.regions ↔ s ∈ m.memory.regions ∧ s.base ≠ base
  write : ∀ w addr v m', m.store w addr v = .ok m' →
    m'.memory.layout = m.memory.layout ∧ m'.memory.used = m.memory.used ∧
      ∀ a : Word, m'.memory.byteMap a =
        if a.Within addr w.bytes then some (v.extractLsb' (8 * (a.toNat - addr.toNat)) 8)
        else m.memory.byteMap a
  poke : ∀ w addr v memory, m.memory.poke w addr v = .ok memory →
    memory.layout = m.memory.layout ∧ memory.used = m.memory.used ∧
      ∀ a : Word, memory.byteMap a =
        if a.Within addr w.bytes then some (v.extractLsb' (8 * (a.toNat - addr.toNat)) 8)
        else m.memory.byteMap a
  fill : ∀ addr bs m', m.fill addr bs = .ok m' →
    m'.memory.layout = m.memory.layout ∧ m'.memory.used = m.memory.used ∧
      ∀ a : Word, m'.memory.byteMap a =
        if a.Within addr bs.length then bs[a.toNat - addr.toNat]? else m.memory.byteMap a
  slice : ∀ addr len bs, m.memory.slice addr len = .ok bs →
    bs.length = len ∧
      ∀ a : Word, a.Within addr len → m.memory.byteMap a = bs[a.toNat - addr.toNat]?
  /-- The value read has the bytes of the map from the lowest up, and no others. -/
  peek : ∀ w addr v, m.memory.peek w addr = .ok v →
    v.toNat < 256 ^ w.bytes ∧
      ∀ a : Word, a.Within addr w.bytes →
        m.memory.byteMap a = some (v.extractLsb' (8 * (a.toNat - addr.toNat)) 8)
  read : ∀ w addr v m', m.load w addr = .ok (v, m') →
    m'.memory = m.memory ∧ v.toNat < 256 ^ w.bytes ∧
      ∀ a : Word, a.Within addr w.bytes →
        m.memory.byteMap a = some (v.extractLsb' (8 * (a.toNat - addr.toNat)) 8)
  fetch : ∀ addr c, m.memory.fetch addr = .ok c →
    ∀ a : Word, a.Within addr 4 →
      m.memory.byteMap a = some (c.extractLsb' (8 * (a.toNat - addr.toNat)) 8)
  bounded_slice : ∀ addr len, m.memory.Bounded addr len (m.memory.slice addr len)
  bounded_fill : ∀ addr bs, m.memory.Bounded addr bs.length (m.fill addr bs)
  bounded_read : ∀ w addr, m.memory.Bounded addr w.bytes (m.load w addr)
  bounded_write : ∀ w addr v, m.memory.Bounded addr w.bytes (m.store w addr v)
  bounded_peek : ∀ w addr, m.memory.Bounded addr w.bytes (m.memory.peek w addr)
  bounded_poke : ∀ w addr v, m.memory.Bounded addr w.bytes (m.memory.poke w addr v)
  bounded_fetch : ∀ addr, m.memory.Bounded addr 4 (m.memory.fetch addr)
  /-- A request that fails changes neither memory nor the log of events. -/
  refused : ∀ (r : MemoryRequest) e m', r.perform m = (.error e, m') → m' = m

variable {m : Machine}

theorem eq_of_perform_error {r : MemoryRequest} {e : Failure Fault} {m' : Machine}
    (h : r.perform m = (.error e, m')) : m' = m := by
  cases hserve : r.serve m with
  | ok after =>
    rw [MemoryRequest.perform_of_ok hserve] at h
    cases h
  | error e =>
    have hkept := MemoryRequest.perform_of_error hserve
    rw [h] at hkept
    exact hkept

theorem byteMap_store {m' : Machine} {w : Width} {addr v : Word} (h : m.memory.WellFormed)
    (hok : m.store w addr v = .ok m') (a : Word) :
    m'.memory.byteMap a =
      if a.Within addr w.bytes then some (v.extractLsb' (8 * (a.toNat - addr.toNat)) 8)
      else m.memory.byteMap a := by
  have hpoke := memory_of_store hok
  rw [Memory.poke_cut] at hpoke
  exact h.byteMap_poke hpoke a

theorem refinesByteMap (h : m.memory.WellFormed) : m.RefinesByteMap where
  functional a b := by
    constructor
    · exact List.exists_of_findSome?_eq_some
    · rintro ⟨r, hr, hb⟩
      rw [h.byteMap_of_mem hr (Region.byte?_eq_some_iff.mp hb).1, hb]
  allocate _ _ _ hok := h.byteMap_allocate (memory_of_allocate hok)
  resize _ _ _ hok := h.byteMap_resize (memory_of_resize hok)
  release _ _ _ hok := h.byteMap_release (memory_of_release hok)
  write _ _ _ _ hok := by
    obtain ⟨hlayout, hused, -⟩ := Memory.frame_fill (memory_of_store hok)
    exact ⟨hlayout, hused, byteMap_store h hok⟩
  poke _ _ _ _ hok := by
    obtain ⟨hlayout, hused, -⟩ := Memory.frame_fill hok
    exact ⟨hlayout, hused, h.byteMap_poke hok⟩
  fill _ _ _ hok := by
    obtain ⟨hlayout, hused, -⟩ := Memory.frame_fill (memory_of_fill hok)
    exact ⟨hlayout, hused, h.byteMap_fill (memory_of_fill hok)⟩
  slice _ _ _ hok := h.byteMap_slice hok
  peek _ _ _ hok := h.byteMap_peek hok
  read _ _ _ _ hok := by
    obtain ⟨hpeek, hmemory⟩ := memory_of_load hok
    exact ⟨hmemory, h.byteMap_peek hpeek⟩
  fetch _ _ hok _ ha := h.byteMap_fetch hok ha
  bounded_slice := h.bounded_slice
  bounded_fill addr bs := by
    unfold Machine.fill
    exact (h.bounded_fill addr bs).map _
  bounded_read := bounded_load h
  bounded_write := bounded_store h
  bounded_peek := h.bounded_peek
  bounded_poke := h.bounded_poke
  bounded_fetch := h.bounded_fetch
  refused _ _ _ herror := eq_of_perform_error herror

/-- Whatever is asked of a memory without regions, in any order and over any machine below,
memory behaves as the partial map of its bytes. -/
theorem refinesByteMap_performAll (backs : Nat → Bool) (capacity : Nat) (rs : List MemoryRequest)
    (m : Machine) :
    (MemoryRequest.performAll rs
      { m with memory := .emptyOver backs capacity }).RefinesByteMap :=
  refinesByteMap (MemoryRequest.wellFormed_performAll backs capacity rs m)

end RiscvHart.Machine
