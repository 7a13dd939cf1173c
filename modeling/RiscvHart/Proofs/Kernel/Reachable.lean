import RiscvHart.Machine.Loading
import RiscvHart.Proofs.Kernel.GuestRun

/-!
# States that a platform can come to

A platform is set up on memory without regions: memory is asked for and written, programs are
loaded, a process is prepared. Then the guest runs. In between, and in the beginning, everything
but memory may be changed at will. Memory is in order in every state that this leads to.
-/

namespace RiscvHart

open Exec

namespace Memory.Budgeted

variable {m : Memory} {capacity : Nat}

theorem mapSpans (h : m.Budgeted capacity) (spans : List Span) :
    (m.mapSpans spans).1.Budgeted capacity := by
  induction spans generalizing m with
  | nil => exact h
  | cons s rest ih =>
    unfold Memory.mapSpans
    split
    · exact h
    · next mapped hmapped => exact ih (h.allocate hmapped)

theorem writeSegments (h : m.Budgeted capacity) (segments : List Segment) :
    (m.writeSegments segments).1.Budgeted capacity := by
  induction segments generalizing m with
  | nil => exact h
  | cons s rest ih =>
    unfold Memory.writeSegments
    split
    · exact h
    · next written hwritten => exact ih (h.fill hwritten)

theorem loadExecutable (h : m.Budgeted capacity) (x : Executable) :
    (m.loadExecutable x).memory.Budgeted capacity := by
  unfold Memory.loadExecutable
  split
  · exact h
  next pages _ =>
  have hmapped := h.mapSpans (Span.join pages)
  split
  · next heq =>
    rw [heq] at hmapped
    exact hmapped
  next after spans heq =>
  rw [heq] at hmapped
  have hwritten := Budgeted.writeSegments hmapped x.segments
  split
  all_goals
    next heq =>
    rw [heq] at hwritten
    exact hwritten

theorem loadElf (h : m.Budgeted capacity) (file : List Byte) :
    (m.loadElf file).memory.Budgeted capacity := by
  unfold Memory.loadElf
  split
  · exact h
  · exact h.loadExecutable _

theorem loadFlat (h : m.Budgeted capacity) (file : List Byte) (base : Word) :
    (m.loadFlat file base).memory.Budgeted capacity := by
  unfold Memory.loadFlat
  dsimp only
  have hmapped := h.mapSpans [⟨base.toNat, base.toNat +
    (max file.length 1 + (Span.pageSize - 1)) / Span.pageSize * Span.pageSize⟩]
  split
  · next heq =>
    rw [heq] at hmapped
    exact hmapped
  next after spans heq =>
  rw [heq] at hmapped
  split
  · exact hmapped
  · next written hwritten => exact Budgeted.fill hmapped hwritten

end Memory.Budgeted

namespace Machine

variable {capacity : Nat}

theorem spatial_budgeted : Spatial fun m => m.memory.Budgeted capacity := by
  intro m m' heq h
  exact h.of_layout_eq (congrArg AddressSpace.layout heq) (congrArg AddressSpace.used heq)
    (congrArg AddressSpace.capacity heq)

open Bootstrap in
theorem budgeted_takeHeap (length : Nat) :
    Preserves (fun m => m.memory.Budgeted capacity) (takeHeap length) := by
  intro m h
  cases hrun : takeHeap length m with
  | mk result m' =>
    cases result with
    | ok addr => exact budgeted_growHeap h (takeHeap_cases hrun).2.2
    | error e =>
      rw [takeHeap_error hrun]
      exact h

open Bootstrap in
theorem budgeted_mapStack (config : Config) :
    Preserves (fun m => m.memory.Budgeted capacity) (mapStack config) := by
  refine (spatial_budgeted.preserves (keeps_checkedAdd _ _)).bind fun finish => ?_
  refine Preserves.bind (fun m h => ?_) fun _ => preserves_pure finish
  unfold attempt
  split
  · next hrun =>
    obtain ⟨mapped, hmapped, heq⟩ := Except.map_eq_ok_iff.mp hrun
    cases heq
    show mapped.memory.Budgeted capacity
    exact h.allocate (memory_of_allocate hmapped)
  · exact h

open Bootstrap in
theorem budgeted_bootstrap (args : ProcessArgs) (config : Config) :
    Preserves (fun m => m.memory.Budgeted capacity) (bootstrap args config) := by
  refine Preserves.bind (fun m h => h) fun _ => ?_
  refine (budgeted_mapStack config).bind fun stackEnd => ?_
  refine (budgeted_takeHeap _).bind fun random => ?_
  exact preserves_putTextsAndBlock spatial_budgeted budgeted_takeHeap args config stackEnd random

end Machine

namespace Platform

variable {σ : Type} {s : Platform σ}

theorem lasting_budgeted (capacity : Nat) :
    Lasting fun s : Platform σ => s.machine.memory.Budgeted capacity where
  space s s' heq h := Machine.spatial_budgeted _ _ (congrArg Prod.fst heq) h
  brk requested s h := by
    rcases brkCall_cases s requested with ⟨hrun, -⟩ | ⟨_, _, -, -, ⟨hrun, -⟩ | ⟨m, -, hgrow, hrun⟩⟩
    · rwa [hrun]
    · rwa [hrun]
    · rw [hrun]
      exact Machine.budgeted_growHeap h hgrow
  mmap a s h := by
    rcases mmapCall_cases a s with ⟨_, -, hrun⟩ | ⟨size, target, m, -, -, -, -, hok, hrun⟩
    · rwa [hrun]
    · rw [hrun]
      show (noteMapping a m target size).memory.Budgeted capacity
      rw [memory_noteMapping]
      exact h.allocate (Machine.memory_of_allocate hok)
  munmap a s h := by
    rcases munmapCall_cases a s with hrun | ⟨_, -, -, -, ⟨_, m, hok, hrun⟩ | ⟨_, -, hrun⟩⟩
    · rwa [hrun]
    · rw [hrun]
      exact h.release (Machine.memory_of_release hok)
    · rwa [hrun]

/-- The states that a platform can come to. -/
inductive Reachable : Platform σ → Prop where
  | fresh {s : Platform σ} (backs : Nat → Bool) (capacity : Nat) :
    s.machine.memory = .emptyOver backs capacity → Reachable s
  /-- Registers, flags, names, the kernel: whatever is not memory may be set. -/
  | adjust {s s' : Platform σ} :
    Reachable s → s'.machine.memory = s.machine.memory → Reachable s'
  | request {s : Platform σ} (r : MemoryRequest) :
    Reachable s → Reachable { s with machine := (r.perform s.machine).2 }
  | loadElf {s : Platform σ} (file : List Byte) :
    Reachable s → Reachable { s with machine := (s.machine.loadProgram (·.loadElf file)).2 }
  | loadFlat {s : Platform σ} (file : List Byte) (base : Word) :
    Reachable s → Reachable { s with machine := (s.machine.loadProgram (·.loadFlat file base)).2 }
  | bootstrap {s : Platform σ} (args : ProcessArgs) (config : Config) :
    Reachable s → Reachable { s with machine := (s.machine.bootstrap args config).2 }
  | move {s : Platform σ} (next : GuestMove) : Reachable s → Reachable (s.move next)

theorem Reachable.performAll (h : s.Reachable) (rs : List MemoryRequest) :
    Reachable { s with machine := MemoryRequest.performAll rs s.machine } := by
  induction rs generalizing s with
  | nil => exact h
  | cons r rest ih => exact ih (h.request r)

/-- A platform can be reached if its memory is what requests make of memory without regions. -/
theorem reachable_of_memory_eq (capacity : Nat) (entry : Word) (rs : List MemoryRequest)
    (h : s.machine.memory = (MemoryRequest.performAll rs (.start (.empty capacity) entry)).memory) :
    s.Reachable := by
  have hstart : (⟨.start (.empty capacity) entry, s.kernel⟩ : Platform σ).Reachable :=
    .fresh _ _ rfl
  exact (hstart.performAll rs).adjust h

theorem Reachable.budgeted (h : s.Reachable) : ∃ capacity, s.machine.memory.Budgeted capacity := by
  have hlog : ∀ (m : Machine) (spans : List Span), (spans.foldl (fun m span =>
      m.emit (.allocated (BitVec.ofNat 64 span.start) span.size)) m).memory = m.memory := by
    intro m spans
    induction spans generalizing m with
    | nil => rfl
    | cons span rest ih => exact ih _
  induction h with
  | fresh backs capacity heq =>
    refine ⟨capacity, ?_⟩
    rw [heq]
    exact ⟨Memory.wellFormed_emptyOver backs capacity, rfl⟩
  | adjust _ heq ih =>
    rw [heq]
    exact ih
  | @request s r _ ih =>
    obtain ⟨capacity, ih⟩ := ih
    refine ⟨capacity, ?_⟩
    dsimp only
    cases hserve : r.serve s.machine with
    | error e =>
      rw [MemoryRequest.perform_of_error hserve]
      exact ih
    | ok m =>
      rw [MemoryRequest.perform_of_ok hserve]
      exact ⟨MemoryRequest.wellFormed_of_serve ih.toWellFormed hserve,
        (MemoryRequest.capacity_of_serve hserve).trans ih.budget⟩
  | loadElf file _ ih =>
    obtain ⟨capacity, ih⟩ := ih
    refine ⟨capacity, ?_⟩
    dsimp only [Machine.loadProgram]
    rw [hlog]
    exact ih.loadElf file
  | loadFlat file base _ ih =>
    obtain ⟨capacity, ih⟩ := ih
    refine ⟨capacity, ?_⟩
    dsimp only [Machine.loadProgram]
    rw [hlog]
    exact ih.loadFlat file base
  | @bootstrap s args config _ ih =>
    obtain ⟨capacity, ih⟩ := ih
    exact ⟨capacity, Machine.budgeted_bootstrap args config s.machine ih⟩
  | move next _ ih =>
    obtain ⟨capacity, ih⟩ := ih
    exact ⟨capacity, (lasting_budgeted capacity).move ih next⟩

theorem Reachable.wellFormed (h : s.Reachable) : s.machine.memory.WellFormed := by
  obtain ⟨_, hbudgeted⟩ := h.budgeted
  exact hbudgeted.toWellFormed

end Platform

end RiscvHart
