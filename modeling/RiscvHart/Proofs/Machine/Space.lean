import RiscvHart.Proofs.Machine.Perform
import RiscvHart.Proofs.Memory.Layout
import RiscvHart.Proofs.Memory.Requests

/-!
# Instructions and the address space

No instruction maps or unmaps memory or names an address. What it does to memory is to write
bytes where there is room for them already.
-/

namespace RiscvHart

/-- Where memory is mapped and which addresses have names. -/
structure AddressSpace where
  layout : List (Word × Nat)
  used : Nat
  capacity : Nat
  backs : Nat → Bool
  landmarks : Landmarks

namespace Machine

open Exec

def space (m : Machine) : AddressSpace :=
  ⟨m.memory.layout, m.memory.used, m.memory.capacity, m.memory.backs, m.landmarks⟩

variable {m m' : Machine} {addr v : Word} {w : Width} {bs : List Byte}

theorem wellFormed_of_space_eq (heq : m'.space = m.space) (h : m.memory.WellFormed) :
    m'.memory.WellFormed :=
  h.of_layout_eq (congrArg AddressSpace.layout heq) (congrArg AddressSpace.used heq)
    (congrArg AddressSpace.capacity heq)

theorem space_of_memory_fill {memory : Memory} (h : m.memory.fill addr bs = .ok memory) :
    { m with memory := memory }.space = m.space := by
  obtain ⟨hlayout, hused, hcapacity, hbacks⟩ := Memory.frame_fill h
  simp only [space, hlayout, hused, hcapacity, hbacks]

theorem space_of_fill (h : m.fill addr bs = .ok m') : m'.space = m.space := by
  obtain ⟨written, hwritten, rfl⟩ := Except.map_eq_ok_iff.mp h
  exact space_of_memory_fill hwritten

theorem space_of_load (h : m.load w addr = .ok (v, m')) : m'.space = m.space := by
  obtain ⟨value, -, heq⟩ := Except.map_eq_ok_iff.mp h
  cases heq
  rfl

theorem space_of_store (h : m.store w addr v = .ok m') : m'.space = m.space := by
  obtain ⟨old, -, h⟩ := Except.bind_eq_ok_iff.mp h
  obtain ⟨written, hwritten, heq⟩ := Except.bind_eq_ok_iff.mp h
  cases heq
  exact space_of_memory_fill hwritten

def Spatial (P : Machine → Prop) : Prop := ∀ m m' : Machine, m'.space = m.space → P m → P m'

theorem Spatial.preserves {α : Type} {P : Machine → Prop} {x : Exec Machine α} (h : Spatial P)
    (hx : Keeps space x) : Preserves P x := fun m hm => h m _ (hx m) hm

theorem follows_space : Follows fun m m' => m'.space = m.space where
  readRegister _ _ := rfl
  writeRegister _ _ _ := rfl
  jump _ _ := rfl
  load _ _ _ _ _ h := space_of_load h
  store _ _ _ _ _ h := space_of_store h

end Machine

theorem Action.keeps_perform (a : Action) (o : Operands) :
    Exec.Keeps Machine.space (a.perform o) := a.advances_perform Machine.follows_space o

end RiscvHart
