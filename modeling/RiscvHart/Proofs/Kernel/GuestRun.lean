import RiscvHart.Proofs.Kernel.Bootstrap
import RiscvHart.Proofs.Kernel.Guarded

/-!
# The address space of a guest, whatever it does

A guest executes instructions and makes calls, in any order and with any arguments, on a host
that answers as it likes. What it was given in the beginning stays: its program, its stack and
its heap are never unmapped, and the memory that it asks for lies beside them.
-/

namespace RiscvHart

inductive GuestMove where
  | step
  /-- Performs any action with any operands, as if an instruction for it lay there. -/
  | perform (action : Action) (operands : Operands)
  /-- Makes a call with the number and the arguments that these registers describe. -/
  | call (registers : Registers)

namespace Platform

open Exec

variable {σ : Type}

def move (s : Platform σ) : GuestMove → Platform σ
  | .step => (step s).2
  | .perform action operands => (onMachine (action.perform operands) s).2
  | .call registers =>
    (environmentCall { s with machine := { s.machine with registers := registers } }).2

def after (s : Platform σ) (moves : List GuestMove) : Platform σ := moves.foldl move s

/-- A region starts at `base` and has at least `size` bytes, and no mapping meets it. -/
def Reserved (s : Platform σ) (base : Word) (size : Nat) : Prop :=
  ∃ r ∈ s.machine.memory.regions, r.base = base ∧ size ≤ r.size ∧
    ∀ e ∈ s.kernel.mappings, e.1 ≠ base ∧ Memory.Apart e (r.base, r.size)

/-- What a guest cannot change in the address space of the process that was prepared from
`before` and started as `initial`. -/
structure Confined (before initial : Machine) (config : Config) (s : Platform σ) : Prop where
  mapped : ∀ e ∈ s.kernel.mappings, ∃ r ∈ s.machine.memory.regions, r.base = e.1 ∧ r.size = e.2
  disjoint : s.kernel.mappings.Pairwise Memory.Apart
  releasable : ∀ e ∈ s.kernel.mappings, ∃ m, s.machine.release e.1 = .ok (e.2, m)
  /-- A call to unmap is refused and changes nothing, or takes a whole mapping off the table
  and out of memory. -/
  unmaps : ∀ a, munmapCall a s = (.ok Errno.invalidArgument.result, s) ∨
    ∃ size m, (a.get 0, size) ∈ s.kernel.mappings ∧ s.machine.release (a.get 0) = .ok (size, m) ∧
      munmapCall a s = (.ok 0, ⟨m, s.kernel.forget (a.get 0)⟩)
  /-- The region at the start of the heap has all of the heap. -/
  heap : ∃ finish, s.machine.landmarks.get? Landmarks.heapStart = some config.heapStart ∧
    s.machine.landmarks.get? Landmarks.heapEnd = some finish ∧
    config.heapStart.toNat ≤ finish.toNat ∧
    s.Reserved config.heapStart (finish.toNat - config.heapStart.toNat)
  stack : 0 < config.stackSize.toNat → s.Reserved config.stackStart config.stackSize.toNat
  program : ∀ r ∈ before.memory.regions, s.Reserved r.base r.size
  /-- Every region of the beginning is there, and only the one of the heap may have grown. -/
  kept : ∀ r ∈ initial.memory.regions, s.Reserved r.base r.size ∧
    (r.base ≠ config.heapStart →
      ∃ r' ∈ s.machine.memory.regions, r'.base = r.base ∧ r'.size = r.size)

variable {kept : List (Word × Nat)} {heap : Word} {s : Platform σ}

/-! ## Every move keeps what lasts -/

theorem Lasting.move {P : Platform σ → Prop} (h : Lasting P) (hs : P s) (next : GuestMove) :
    P (s.move next) := by
  cases next with
  | step => exact h.step s hs
  | perform action operands =>
    exact h.keeps (Keeps.onMachine (action.keeps_perform operands)) s hs
  | call registers =>
    have hset : P { s with machine := { s.machine with registers := registers } } :=
      h.space s _ rfl hs
    exact h.environmentCall _ hset

theorem Lasting.after {P : Platform σ → Prop} (h : Lasting P) (hs : P s) (moves : List GuestMove) :
    P (s.after moves) := by
  induction moves generalizing s with
  | nil => exact hs
  | cons next rest ih => exact ih (h.move hs next)

theorem Guarded.after (h : s.Guarded kept heap) (moves : List GuestMove) :
    (s.after moves).Guarded kept heap := lasting_guarded.after h moves

/-! ## What the invariant says -/

theorem Guarded.reserved (h : s.Guarded kept heap) {base : Word} {size : Nat}
    (hmem : base ∈ kept.map Prod.fst) (hheld : s.machine.Holds base size) :
    s.Reserved base size := by
  obtain ⟨n, hn, hle⟩ := hheld
  obtain ⟨r, hr, rfl, rfl⟩ := Memory.mem_layout_iff.mp hn
  refine ⟨r, hr, rfl, hle, fun e he => ?_⟩
  have hne : e.1 ≠ r.base := fun heq => h.foreign e he (heq ▸ hmem)
  exact ⟨hne, h.anchored.wellFormed.apart_of_mem_layout (h.mapped e he)
    (Memory.mem_layout_of_mem hr) hne⟩

theorem Guarded.munmapCall_exact (h : s.Guarded kept heap) (a : Arguments) :
    Platform.munmapCall a s = (.ok Errno.invalidArgument.result, s) ∨
      ∃ size m, (a.get 0, size) ∈ s.kernel.mappings ∧ s.machine.release (a.get 0) = .ok (size, m) ∧
        Platform.munmapCall a s = (.ok 0, ⟨m, s.kernel.forget (a.get 0)⟩) := by
  rcases munmapCall_cases a s with hrun | ⟨size, -, -, hlookup, hrest⟩
  · exact Or.inl hrun
  have hentry := mem_of_lookup hlookup
  obtain ⟨m, hrelease⟩ := h.release_of_mapped hentry
  rcases hrest with ⟨released, m', hrelease', hrun⟩ | ⟨e, hfail, -⟩
  · obtain ⟨rfl, rfl⟩ := Prod.mk.inj (Except.ok.inj (hrelease'.symm.trans hrelease))
    exact Or.inr ⟨_, _, hentry, hrelease, hrun⟩
  · rw [hrelease] at hfail
    cases hfail

theorem Guarded.pairwise_apart (h : s.Guarded kept heap) :
    s.kernel.mappings.Pairwise Memory.Apart :=
  h.keyed.imp_of_mem fun he hf hne =>
    h.anchored.wellFormed.apart_of_mem_layout (h.mapped _ he) (h.mapped _ hf) hne

/-- Whatever a guest does after its process was prepared on memory without empty regions. -/
theorem confined_after {args : ProcessArgs} {config : Config} {m m' : Machine} (host : Host σ)
    (hostState : σ) (seed : Word) (hwell : m.memory.WellFormed)
    (hfull : ∀ r ∈ m.memory.regions, 0 < r.size)
    (hboot : m.bootstrap args config = (.ok (), m')) (moves : List GuestMove) :
    (after ⟨m', Kernel.start host hostState seed⟩ moves).Confined m m' config := by
  have hsolid : m.memory.Solid := by
    intro e he
    obtain ⟨r, hr, -, hsize⟩ := Memory.mem_layout_iff.mp he
    rw [← hsize]
    exact hfull r hr
  obtain ⟨hanchored, ⟨n, hheap, -⟩, hstack⟩ := Machine.anchored_bootstrap hwell hsolid hboot
  have hstart : (⟨m', Kernel.start host hostState seed⟩ : Platform σ).Guarded m'.memory.layout
      config.heapStart :=
    ⟨hanchored.rebase, List.mem_map.mpr ⟨_, hheap, rfl⟩, fun e he => absurd he List.not_mem_nil,
      List.Pairwise.nil, fun e he => absurd he List.not_mem_nil⟩
  have h := hstart.after moves
  generalize after ⟨m', Kernel.start host hostState seed⟩ moves = s at h
  -- What was held when the process started is held now, and no mapping meets it.
  have hreserved : ∀ base size, m'.Holds base size → s.Reserved base size := by
    rintro base size ⟨k, hk, hle⟩
    obtain ⟨k', hk', hle', -⟩ := h.anchored.kept _ hk
    exact h.reserved (List.mem_map.mpr ⟨_, hk, rfl⟩) ⟨k', hk', by omega⟩
  constructor
  · exact fun e he => Memory.mem_layout_iff.mp (h.mapped e he)
  · exact h.pairwise_apart
  · exact fun e he => h.release_of_mapped he
  · exact h.munmapCall_exact
  · obtain ⟨finish, hfinish, hle, hroom⟩ := h.anchored.heapEnd
    refine ⟨finish, h.anchored.heapStart, hfinish, hle, ?_⟩
    refine h.reserved h.heapKept ?_
    rcases hroom with rfl | ⟨size, hsize, hroom⟩
    · obtain ⟨k, hk, -⟩ := h.anchored.kept _ hheap
      exact ⟨k, hk, by omega⟩
    · exact ⟨size, hsize, by omega⟩
  · exact fun hpos => hreserved _ _ (hstack hpos)
  · exact fun r hr => hreserved _ _ (hanchored.holds (Memory.mem_layout_of_mem hr))
  · intro r hr
    have hmem := Memory.mem_layout_of_mem hr
    refine ⟨hreserved _ _ ⟨r.size, hmem, Nat.le_refl _⟩, fun hne => ?_⟩
    obtain ⟨k, hk, -, hsize⟩ := h.anchored.kept _ hmem
    obtain ⟨r', hr', hbase, hsize'⟩ := Memory.mem_layout_iff.mp hk
    exact ⟨r', hr', hbase, hsize'.trans (hsize hne)⟩

def smallProgram : Machine :=
  MemoryRequest.performAll [.allocate 0x1000 16] (.start (.empty 0x2000) 0x1000)

def smallConfig : Config :=
  { Config.standard with
    arenaSize := 0x2000, heapStart := 0x2000, stackStart := 0x4000, stackSize := 0x100 }

def smallProcess : Except (Failure Fault) Unit × Machine :=
  smallProgram.bootstrap ⟨["a", "b"], [("HOME", "/")]⟩ smallConfig

def mapOnePage : List GuestMove :=
  [.call (Registers.write (Registers.write (Registers.write (.zero gpr) Reg.a7 222)
    (Reg.a0 + 1) 1) (Reg.a0 + 3) mapAnonymous), .step]

theorem confined_after_mmap :
    smallProgram.memory.WellFormed ∧ (∀ r ∈ smallProgram.memory.regions, 0 < r.size) ∧
      smallProcess = (.ok (), smallProcess.2) ∧
      (after ⟨smallProcess.2, Kernel.start (Host.unsupported (σ := Unit)) () 0⟩
        mapOnePage).kernel.mappings = [(0x200000000000, 4096)] ∧
      (after ⟨smallProcess.2, Kernel.start (Host.unsupported (σ := Unit)) () 0⟩
        mapOnePage).Confined smallProgram smallProcess.2 smallConfig := by
  have hwell : smallProgram.memory.WellFormed :=
    MemoryRequest.wellFormed_performAll _ _ [.allocate 0x1000 16] (.start (.empty 0x2000) 0x1000)
  have hfull : ∀ r ∈ smallProgram.memory.regions, 0 < r.size := by
    have hsizes : smallProgram.memory.regions.map Region.size = [16] := by decide +kernel
    intro r hr
    have hsize : r.size ∈ smallProgram.memory.regions.map Region.size := List.mem_map_of_mem hr
    rw [hsizes, List.mem_singleton] at hsize
    omega
  have hok : smallProcess.1 = .ok () := by decide +kernel
  have hboot : smallProcess = (.ok (), smallProcess.2) := by rw [← hok]
  exact ⟨hwell, hfull, hboot, by decide +kernel, confined_after _ _ _ hwell hfull hboot _⟩

end Platform

end RiscvHart
