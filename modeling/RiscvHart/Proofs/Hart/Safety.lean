import RiscvHart.Hart.Basic
import RiscvHart.Proofs.Hart.Faults
import RiscvHart.Proofs.Kernel.Safety

/-!
# No guest breaks the engine

Where memory is in order and the host says nothing absurd, every instruction ends with an answer:
it is done, or there is a fault. Both hold again afterwards, so a run of any length has an answer
too.
-/

namespace RiscvHart

open Exec

namespace Platform

variable {σ : Type} {s : Platform σ} {c : Code} {index : Nat} {e : Entry}

theorem lasting_host (host : Host σ) : Lasting fun s : Platform σ => s.kernel.host = host where
  space s s' heq h := (congrArg (fun v => v.2.2) heq).trans h
  brk requested s h := by
    rcases brkCall_cases s requested with ⟨hrun, -⟩ | ⟨_, _, -, -, ⟨hrun, -⟩ | ⟨_, -, -, hrun⟩⟩
    all_goals
      rw [hrun]
      exact h
  mmap a s h := by
    rcases mmapCall_cases a s with ⟨_, -, hrun⟩ | ⟨_, _, _, -, -, -, -, -, hrun⟩
    all_goals
      rw [hrun]
      exact h
  munmap a s h := by
    rcases munmapCall_cases a s with hrun | ⟨_, -, -, -, ⟨_, _, -, hrun⟩ | ⟨_, -, hrun⟩⟩
    all_goals
      rw [hrun]
      exact h

theorem Sound.step (h : s.Sound) : (Platform.step s).2.Sound := by
  have hmemory := (lasting_budgeted s.machine.memory.capacity).step s ⟨h.wellFormed, rfl⟩
  have hhost := (lasting_host s.kernel.host).step s rfl
  refine ⟨hmemory.toWellFormed, ?_, ?_⟩
  · rw [hmemory.budget]
    exact h.affordable
  · rw [hhost]
    exact h.honest

theorem step_ne_crash (h : s.Sound) (crash : Crash) : (step s).1 ≠ .error (.crash crash) := by
  intro hcrash
  rcases h.wellFormed.bounded_fetch s.machine.pc.current with ⟨-, c, hfetch⟩ | ⟨-, herror⟩
  swap
  · rw [step_of_fetch_error herror] at hcrash
    cases hcrash
  cases hselect : Decoder.select table c with
  | ambiguous => exact Isa.select_ne_ambiguous c hselect
  | unknown =>
    rw [step_of_unknown hfetch hselect] at hcrash
    cases hcrash
  | known index e =>
    rcases step_known_cases h.wellFormed hfetch hselect with
      ⟨s', hok⟩ | ⟨-, -, m, -, hrefused⟩ | ⟨-, hcall⟩
    · rw [hok] at hcrash
      cases hcrash
    · rw [hrefused] at hcrash
      cases hcrash
    · have hanswers := environmentCall_ne_crash (s := s.advanced c) (h.of_eq rfl rfl) crash
      rw [hcall] at hcrash
      exact hanswers (error_of_bind hcrash fun _ _ hok => by cases hok)

/-- What a step does not do: it does not end without an answer, select an entry outside the table
or two at once, or leave the ranges of its numbers. -/
structure Safe (s : Platform σ) : Prop where
  answers : (step s).1 = .ok () ∨ ∃ f, (step s).1 = .error (.error f)
  /-- The conditions for all of this hold again after the step. -/
  sound : (step s).2.Sound
  memory : s.machine.memory.InRange
  indexed : ∀ c index e, Decoder.select table c = .known index e →
    (table : List Entry)[index]? = some e
  unique : ∀ c, Decoder.select table c ≠ .ambiguous

theorem step_safe (h : s.Sound) : s.Safe where
  answers := by
    cases hresult : (step s).1 with
    | ok _ => exact Or.inl rfl
    | error e =>
      cases e with
      | error f => exact Or.inr ⟨f, rfl⟩
      | crash crash => exact absurd hresult (step_ne_crash h crash)
  sound := h.step
  memory := h.wellFormed.inRange
  indexed _ _ _ hselect := Decoder.getElem?_of_select hselect
  unique := Isa.select_ne_ambiguous

/-- A platform before a call that is to write more buffers than there are addresses, from a table
at the highest of them. -/
def writingAtTheEnd : Platform Unit where
  machine :=
    { MemoryRequest.performAll [.allocate 0x1000 16, .write .word 0x1000 0x00000073,
        .allocate 0xFFFFFFFFFFFFFF00 255, .write .double 0xFFFFFFFFFFFFFFEF 0x1000,
        .write .double 0xFFFFFFFFFFFFFFF7 4] (.start (.empty 0x2000) 0x1000) with
      registers := Registers.write (Registers.write (Registers.write (Registers.write (.zero gpr)
        Reg.a7 66) Reg.a0 1) (Reg.a0 + 1) 0xFFFFFFFFFFFFFFEF) (Reg.a0 + 2) (-1) }
  kernel := .start { Host.unsupported with write := fun _ bytes s => ⟨bytes.length, s⟩ } () 0

theorem step_safe_writev :
    writingAtTheEnd.Sound ∧ writingAtTheEnd.Safe ∧
      (step writingAtTheEnd).2.machine.registers.read Reg.a0 =
        BitVec.ofInt 64 Errno.badAddress.result := by
  have hreachable : writingAtTheEnd.Reachable := reachable_of_memory_eq 0x2000 0x1000
    [.allocate 0x1000 16, .write .word 0x1000 0x00000073, .allocate 0xFFFFFFFFFFFFFF00 255,
      .write .double 0xFFFFFFFFFFFFFFEF 0x1000, .write .double 0xFFFFFFFFFFFFFFF7 4]
    (by simp only [writingAtTheEnd])
  have hsound : writingAtTheEnd.Sound :=
    ⟨hreachable.wellFormed, by decide +kernel, fun _ _ _ => le_refl _⟩
  exact ⟨hsound, step_safe hsound, by decide +kernel⟩

end Platform

namespace Hart

variable {σ : Type} {h h' : Hart σ}

/-- That a run of the hart has not broken off, and that the next step will not break it off. -/
structure Sturdy (h : Hart σ) : Prop where
  sound : h.platform.Sound
  going : h.crashed = false

namespace Sturdy

theorem of_eq (hs : h.Sturdy) (hmemory : h'.machine.memory = h.machine.memory)
    (hhost : h'.platform.kernel.host = h.platform.kernel.host) (hcrashed : h'.crashed = h.crashed) :
    h'.Sturdy :=
  ⟨hs.sound.of_eq hmemory hhost, hcrashed.trans hs.going⟩

theorem grant (hs : h.Sturdy) (requests : List Request) : (h.grant requests).Sturdy := by
  induction requests generalizing h with
  | nil => exact hs
  | cons r rest ih =>
    unfold Hart.grant
    dsimp only
    split
    · exact ih (hs.of_eq rfl rfl rfl)
    · exact ih hs

theorem settle (hs : h.Sturdy) : h.settle.Sturdy := by
  unfold Hart.settle
  split
  · exact hs.of_eq rfl rfl rfl
  · split
    · have hnoted : (h.modifyMachine fun m => { m with pauseRequested := false }).Sturdy :=
        hs.of_eq rfl rfl rfl
      exact hnoted.grant _
    · exact hs

theorem cycle (hs : h.Sturdy) : h.cycle.Sturdy := by
  have hsound := hs.sound.step
  unfold Hart.cycle
  split
  · next platform heq =>
    rw [heq] at hsound
    have hafter : { h with
        platform := platform, watch := (h.watch.observe platform.machine).1 }.Sturdy :=
      ⟨hsound, hs.going⟩
    exact (hafter.grant _).settle
  · next fault platform heq =>
    rw [heq] at hsound
    have hafter : { h with platform := platform }.Sturdy := ⟨hsound, hs.going⟩
    exact hafter.of_eq rfl rfl rfl
  · next crash platform heq =>
    exact absurd (congrArg Prod.fst heq) (Platform.step_ne_crash hs.sound crash)

/-- However long a hart runs, the run does not break off. -/
theorem run (hs : h.Sturdy) (fuel : Nat) : (h.run fuel).Sturdy := by
  induction fuel generalizing h with
  | zero => exact hs
  | succ fuel ih =>
    unfold Hart.run
    split
    · exact ih hs.cycle
    · exact hs

end Sturdy

end Hart

end RiscvHart
