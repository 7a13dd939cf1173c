import RiscvHart.Proofs.Kernel.ProcessImage
import RiscvHart.Proofs.Kernel.Reachable

/-!
# A loaded program while its process is prepared

The stack is mapped where nothing was mapped, and the heap grows from a region of its own. So a
program that was loaded before keeps its regions and its bytes, as long as none of its regions
starts where the heap is to start: the heap takes such a region for its own.
-/

namespace RiscvHart.Machine

open Bootstrap

variable {before m : Machine} {args : ProcessArgs} {config : Config} {a : Word} {e : Failure Fault}

/-- The bytes that were mapped before are what they were, in the same regions. -/
structure Undisturbed (before m : Machine) : Prop where
  regions : ∀ r ∈ before.memory.regions, 0 < r.size → r ∈ m.memory.regions
  bytes : ∀ (a : Word) b, before.memory.byteMap a = some b → m.memory.byteMap a = some b

/-- An address that a process is to have for its stack, its random bytes or its texts. -/
def Claims (args : ProcessArgs) (config : Config) (a : Word) : Prop :=
  a.Within config.stackStart config.stackSize.toNat ∨
    config.heapStart.toNat ≤ a.toNat ∧ a.toNat < textPlace args config args.texts.length

theorem LaidOut.unmapped_before (h : before.LaidOut args config m)
    (hfree : before.HeapFree config) (ha : Claims args config a) :
    before.memory.byteMap a = none := by
  rcases ha with hstack | ⟨hlow, hhigh⟩
  · exact h.stackFree a hstack
  · have hplace := length_take_terminated args config args.texts.length
    rw [List.take_length] at hplace
    have hroom := h.preparing.heap.room
    have hin : a.Within config.heapStart (m.memory.sizeFrom config.heapStart) := ⟨hlow, by omega⟩
    refine Memory.byteMap_eq_none_iff.mpr fun r hr har => ?_
    exact h.preparing.wellFormed.not_within_of_base_ne (h.preparing.kept r hr har.pos)
      (hfree r hr har.pos) hin har

theorem Started.kept {laidOut : Machine} {sp : Word} (h : laidOut.Started args config sp m)
    (hlaid : before.LaidOut args config laidOut) :
    ∀ r ∈ before.memory.regions, 0 < r.size → r ∈ m.memory.regions := by
  intro r hr hfull
  have hge := blockSize_ge (initialBlock args config).length
  have habove := h.above
  have hbelow := h.below
  refine h.put.regions r (hlaid.preparing.kept r hr hfull) fun a ha => ?_
  have hlow := ha.1
  have hhigh := ha.2
  exact Memory.byteMap_eq_none_iff.mp (hlaid.stackFree a ⟨by omega, by omega⟩) r hr

/-- Whatever comes of it, preparing a process leaves what was mapped before alone. If the process
is to have an address that was mapped, this is a fault. -/
theorem undisturbed_of_bootstrap (hwell : before.memory.WellFormed) (hfree : before.HeapFree config)
    (args : ProcessArgs) :
    before.Undisturbed (before.bootstrap args config).2 ∧
      (config.stackStart.toNat + config.stackSize.toNat < addressLimit →
        textPlace args config args.texts.length < addressLimit →
        ∀ a, Claims args config a → before.memory.byteMap a ≠ none →
        ∃ f, (before.bootstrap args config).1 = .error (.error f)) := by
  have hwell' : (before.bootstrap args config).2.memory.WellFormed :=
    (budgeted_bootstrap args config before ⟨hwell, rfl⟩).toWellFormed
  have hplace := length_take_terminated args config args.texts.length
  rw [List.take_length, List.length_append, randomBytes, ChaCha.Generator.length_bytes] at hplace
  have hkept : ∀ m : Machine, m.memory.WellFormed →
      (∀ r ∈ before.memory.regions, 0 < r.size → r ∈ m.memory.regions) → before.Undisturbed m :=
    fun m h hregions => ⟨hregions, fun a b hb => h.byteMap_of_regions_kept hregions hb⟩
  rcases bootstrap_meets hwell hfree args before rfl with
    ⟨⟨⟩, m, hrun, laidOut, sp, hlaid, hstarted⟩ | ⟨e, m, hrun, hrefused | hlaid⟩
  all_goals rw [hrun] at hwell' ⊢
  · refine ⟨hkept m hwell' (hstarted.kept hlaid), fun _ _ a ha hmapped => ?_⟩
    exact absurd (hlaid.unmapped_before hfree ha) hmapped
  · refine ⟨hkept m hwell' hrefused.kept, fun hstack hheap a ha hmapped => ?_⟩
    rcases hrefused.cause with ⟨f, rfl⟩ | hreach
    · exact ⟨f, rfl⟩
    · rw [reach] at hreach
      omega
  · refine ⟨hkept m hwell' hlaid.preparing.kept, fun _ _ a ha hmapped => ?_⟩
    exact absurd (hlaid.unmapped_before hfree ha) hmapped

/-- A layout with the stack on the program. -/
def stackOnProgram : Config := { Config.standard with stackStart := 0xF00, stackSize := 0x400 }

theorem undisturbed_of_stackOnProgram :
    withProgram.memory.WellFormed ∧ withProgram.HeapFree stackOnProgram ∧
      withProgram.Undisturbed (withProgram.bootstrap verboseRun stackOnProgram).2 ∧
      ∃ f, (withProgram.bootstrap verboseRun stackOnProgram).1 = .error (.error f) := by
  have hfree : withProgram.HeapFree stackOnProgram := heapFree_withProgram (by decide)
  obtain ⟨hkept, hmeet⟩ := undisturbed_of_bootstrap wellFormed_withProgram hfree verboseRun
  exact ⟨wellFormed_withProgram, hfree, hkept,
    hmeet (by decide) (by decide +kernel) 0x1000 (Or.inl (by decide)) (by decide +kernel)⟩

/-- A program of two instructions where the heap is to start. -/
def programOnHeap : Machine :=
  .start ((Memory.empty 0x10000000).loadFlat [0x13, 0x05, 0x10, 0x00, 0x6F, 0x00, 0x00, 0x00]
    Config.standard.heapStart).memory Config.standard.heapStart

/-- The heap takes the region of the program for its own, and the random bytes
go over its code. -/
theorem heap_overwrites_program :
    programOnHeap.memory.WellFormed ∧
      (programOnHeap.bootstrap ⟨["a"], []⟩ Config.standard).1 = .ok () ∧
      programOnHeap.memory.byteMap Config.standard.heapStart = some 0x13 ∧
      (programOnHeap.bootstrap ⟨["a"], []⟩ Config.standard).2.memory.byteMap
        Config.standard.heapStart = some 0x91 := by
  refine ⟨?_, by decide +kernel, by decide +kernel, by decide +kernel⟩
  have hempty : (Memory.empty 0x10000000).Budgeted 0x10000000 :=
    ⟨Memory.wellFormed_emptyOver _ _, rfl⟩
  exact (hempty.loadFlat _ _).toWellFormed

end RiscvHart.Machine
