import RiscvHart.Proofs.Kernel.Transcript

/-!
# Calls that a guest makes

Wherever a guest has come to, it may put anything into its registers and make a call. What is
known of the platform then is what has lasted since the process was prepared.
-/

namespace RiscvHart.Platform

open Exec

variable {σ : Type} {s t : Platform σ} {c : Syscall} {v : Int} {kept : List (Word × Nat)}
  {heap : Word}

def facing (s : Platform σ) (registers : Registers) : Platform σ :=
  { s with machine := { s.machine with registers := registers } }

theorem move_call (s : Platform σ) (registers : Registers) :
    s.move (.call registers) = (s.facing registers).served := rfl

theorem Guarded.facing (h : s.Guarded kept heap) (registers : Registers) :
    (s.facing registers).Guarded kept heap := h.of_space_eq rfl

/-- What is known of a guest on memory that had no empty regions when its
process was prepared. -/
theorem guarded_after {args : ProcessArgs} {config : Config} {m m' : Machine} (host : Host σ)
    (hostState : σ) (seed : Word) (hwell : m.memory.WellFormed)
    (hfull : ∀ r ∈ m.memory.regions, 0 < r.size)
    (hboot : m.bootstrap args config = (.ok (), m')) (moves : List GuestMove) :
    (after ⟨m', Kernel.start host hostState seed⟩ moves).Guarded m'.memory.layout
      config.heapStart := by
  have hsolid : m.memory.Solid := by
    intro e he
    obtain ⟨r, hr, -, hsize⟩ := Memory.mem_layout_iff.mp he
    exact hsize ▸ hfull r hr
  obtain ⟨hanchored, ⟨n, hheap, -⟩, -⟩ := Machine.anchored_bootstrap hwell hsolid hboot
  apply Guarded.after
  constructor
  · exact hanchored.rebase
  · exact List.mem_map.mpr ⟨_, hheap, rfl⟩
  · exact fun e he => absurd he List.not_mem_nil
  · exact List.Pairwise.nil
  · exact fun e he => absurd he List.not_mem_nil

/-! ## What a call comes to -/

/-- A call that is served with a result ends with this result in its register. -/
theorem environmentCall_eq_of_map {α : Type} {f : α → Option Int} {x : Exec (Platform σ) α} {r : α}
    (hc : s.called? = some c) (hserve : serve c (arguments s.machine) = f <$> x)
    (hrun : x s = (.ok r, t)) (hresult : f r = some v) :
    environmentCall s = (.ok (), { t with
      machine := t.machine.writeRegister Reg.a0 (BitVec.ofInt 64 v) }) := by
  have hserved : serve c (arguments s.machine) s = (.ok (some v), t) := by
    rw [hserve, map_apply, hrun, ← hresult]
    rfl
  rw [environmentCall_of_known hc, bind_apply, hserved]
  rfl

theorem answer_of_eq {m : Machine} {k : Kernel σ} {v : Word}
    (hrun : environmentCall s = (.ok (), ⟨m.writeRegister Reg.a0 v, k⟩)) : s.answer = v := by
  rw [Platform.answer, served, hrun]
  exact read_writeRegister_a0 m v

def OnlyAnswers (s : Platform σ) (v : Word) : Prop :=
  environmentCall s = (.ok (), { s with machine := s.machine.writeRegister Reg.a0 v })

theorem OnlyAnswers.answer {v : Word} (h : s.OnlyAnswers v) : s.answer = v :=
  answer_of_eq h

/-! ## A small process -/

theorem wellFormed_smallProgram : smallProgram.memory.WellFormed :=
  MemoryRequest.wellFormed_performAll _ _ [.allocate 0x1000 16] (.start (.empty 0x2000) 0x1000)

theorem size_pos_smallProgram : ∀ r ∈ smallProgram.memory.regions, 0 < r.size := by
  have hsizes : smallProgram.memory.regions.map Region.size = [16] := by decide +kernel
  intro r hr
  have hsize : r.size ∈ smallProgram.memory.regions.map Region.size := List.mem_map_of_mem hr
  rw [hsizes, List.mem_singleton] at hsize
  omega

theorem smallProcess_eq : smallProcess = (.ok (), smallProcess.2) := by
  have hok : smallProcess.1 = .ok () := by decide +kernel
  rw [← hok]

def atWork (moves : List GuestMove) : Platform Unit :=
  after ⟨smallProcess.2, Kernel.start (Host.unsupported (σ := Unit)) () 0⟩ moves

def callRegisters (c : Syscall) (arguments : List Word) : Registers :=
  arguments.zipIdx.foldl (fun x v => x.write (Reg.a0 + BitVec.ofNat 5 v.2) v.1)
    (Registers.write (.zero gpr) Reg.a7 (BitVec.ofNat 64 c.number))

end RiscvHart.Platform
