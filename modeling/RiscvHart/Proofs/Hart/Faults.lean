import RiscvHart.Proofs.Hart.Access
import RiscvHart.Proofs.Kernel.Refusals

/-!
# Steps that end in a fault

A step looks for a reason to fail in a fixed order: the word at the program counter, the
instruction in it, the memory that the instruction accesses, the call that it makes. Whatever it
finds, it finds before it has changed anything that the guest or a debugger could see afterwards.
-/

namespace RiscvHart

namespace Isa

theorem kind_of_mem_table : ∀ e ∈ (table : List Entry),
    e.instr.action.computes e.encoding.format = true ∨ e.instr ∈ loads ++ stores ∨
      e.instr = .fence ∨ e.instr = .fenceI ∨ e.instr = .ebreak ∨ e.instr = .ecall := by
  decide

end Isa

namespace Platform

open Exec

variable {σ : Type} {s s' : Platform σ} {c : Code} {index : Nat} {e : Entry} {f : Fault}

/-! ## Steps of one known instruction -/

/-- The platform when an instruction that only goes on to the next one has done so. -/
def advanced (s : Platform σ) (c : Code) : Platform σ where
  machine := (s.machine.emit (.before s.machine.pc.current c)).jump (s.machine.pc.current + 4)
  kernel := s.kernel

theorem step_of_fence (hfetch : s.machine.memory.fetch s.machine.pc.current = .ok c)
    (hdecode : Decoder.select table c = .known index e)
    (hi : e.instr = .fence ∨ e.instr = .fenceI) :
    ∃ s', step s = (.ok (), s') := by
  have haction : e.instr.action = .fence := by
    rcases hi with hi | hi <;> rw [hi] <;> rfl
  have hperform : e.instr.action.perform (e.read c).operands
      (s.machine.emit (.before s.machine.pc.current c)) = (.ok none, (s.advanced c).machine) := by
    rw [haction]
    rfl
  exact ⟨_, step_of_perform hfetch hdecode hperform⟩

theorem step_of_breakpoint (hfetch : s.machine.memory.fetch s.machine.pc.current = .ok c)
    (hdecode : Decoder.select table c = .known index e) (hi : e.instr = .ebreak) :
    ∃ s', step s = (.ok (), s') := by
  rw [step_of_known hfetch hdecode, hi]
  exact ⟨_, rfl⟩

theorem step_of_call (hfetch : s.machine.memory.fetch s.machine.pc.current = .ok c)
    (hdecode : Decoder.select table c = .known index e) (hi : e.instr = .ecall) :
    step s = (environmentCall >>= fun _ => complete ⟨s.machine.pc.current, c, index, e.instr⟩)
      (s.advanced c) := by
  rw [step_of_known hfetch hdecode, hi]
  rfl

theorem step_known_cases (hwell : s.machine.memory.WellFormed)
    (hfetch : s.machine.memory.fetch s.machine.pc.current = .ok c)
    (hdecode : Decoder.select table c = .known index e) :
    (∃ s', step s = (.ok (), s')) ∨
      (e.instr ∈ Isa.loads ++ Isa.stores ∧ ¬s.Accessible e.instr c ∧
        ∃ m, s.machine.Noted m ∧ step s =
          (.error (.error (.outOfBounds (s.machine.accessAddress e.instr c))),
            { s with machine := m })) ∨
      (e.instr = .ecall ∧ step s =
        (environmentCall >>= fun _ => complete ⟨s.machine.pc.current, c, index, e.instr⟩)
          (s.advanced c)) := by
  rcases Isa.kind_of_mem_table e (Decoder.select_known hdecode).1 with
    hcomputes | haccess | hfence | hfence | hbreak | hcall
  · obtain ⟨effect, heffect⟩ := Action.exists_effect? hcomputes c s.machine.pc.current
      s.machine.registers
    obtain ⟨s', hstep, -⟩ := step_of_effect? hfetch hdecode heffect
    exact Or.inl ⟨s', hstep⟩
  · rcases step_access_cases hwell hfetch hdecode haccess with ⟨-, s', hstep, -⟩ | hrefused
    · exact Or.inl ⟨s', hstep⟩
    · exact Or.inr (Or.inl ⟨haccess, hrefused⟩)
  · exact Or.inl (step_of_fence hfetch hdecode (Or.inl hfence))
  · exact Or.inl (step_of_fence hfetch hdecode (Or.inr hfence))
  · exact Or.inl (step_of_breakpoint hfetch hdecode hbreak)
  · exact Or.inr (Or.inr ⟨hcall, step_of_call hfetch hdecode hcall⟩)

/-! ## Which steps end in a fault -/

def Calls (s : Platform σ) : Prop :=
  ∃ c, s.machine.memory.fetch s.machine.pc.current = .ok c ∧ Isa.Encodes .ecall c.toNat

/-- The faults that a step can end in, each with what has to be the case for it. -/
inductive Faults (s : Platform σ) : Fault → Prop where
  | fetch : ¬s.machine.memory.Mapped s.machine.pc.current 4 →
    Faults s (.outOfBounds s.machine.pc.current)
  | decode {c : Code} : s.machine.memory.fetch s.machine.pc.current = .ok c →
    Decoder.select table c = .unknown → Faults s (.illegalInstruction c s.machine.pc.current)
  | access {c : Code} {i : Instr} : s.machine.memory.fetch s.machine.pc.current = .ok c →
    Isa.Encodes i c.toNat → i ∈ Isa.loads ++ Isa.stores → ¬s.Accessible i c →
    Faults s (.outOfBounds (s.machine.accessAddress i c))
  | call : s.Calls → s.Unserved → Faults s (.syscallUnimplemented s.callNumber)

/-- That a step which ended in a fault has left everything as it was, but for the log and the
program counter of an environment call. -/
structure Untouched (f : Fault) (s s' : Platform σ) : Prop where
  others : s' = { s with machine := { s.machine with
    pc := s'.machine.pc, log := s'.machine.log } }
  /-- No instruction is complete. -/
  events : ∃ new, s'.machine.events = s.machine.events ++ new ∧ ∀ e ∈ new, e.kind? ≠ some .after
  pc : ¬s.Calls → s'.machine.pc = s.machine.pc
  call : s.Calls → f = .syscallUnimplemented s.callNumber ∧
    s'.machine.pc = ⟨s.machine.pc.current + 4, s.machine.pc.current⟩

theorem untouched_of_noted {m : Machine} (hcalls : ¬s.Calls) (h : s.machine.Noted m) :
    Untouched f s { s with machine := m } := by
  have hpc : m.pc = s.machine.pc := by
    rw [h.others]
  refine ⟨?_, h.events, fun _ => hpc, fun hc => absurd hc hcalls⟩
  dsimp only
  rw [hpc, ← h.others]

theorem untouched_of_call {m : Machine} (hcalls : s.Calls)
    (h : (s.advanced c).machine.Noted m) :
    Untouched (.syscallUnimplemented s.callNumber) s { s with machine := m } := by
  have hpc : m.pc = ⟨s.machine.pc.current + 4, s.machine.pc.current⟩ := by
    rw [h.others]
    rfl
  have hbefore : (s.advanced c).machine.events =
      s.machine.events ++ [.before s.machine.pc.current c] := EventLog.toList_add _ _
  obtain ⟨new, hnew, hkinds⟩ := h.events
  refine ⟨?_, ⟨.before s.machine.pc.current c :: new, ?_, ?_⟩, fun hc => absurd hcalls hc,
    fun _ => ⟨rfl, hpc⟩⟩
  · dsimp only
    rw [hpc]
    exact congrArg (Platform.mk · s.kernel) h.others
  · rw [List.append_cons, ← hbefore]
    exact hnew
  · rw [List.forall_mem_cons]
    exact ⟨by simp [Event.kind?], hkinds⟩

theorem step_of_faults (hwell : s.machine.memory.WellFormed) (h : s.Faults f) :
    ∃ s', step s = (.error (.error f), s') := by
  cases h with
  | fetch hunmapped =>
    exact ⟨s, step_of_fetch_error ((hwell.bounded_fetch _).error_of_unmapped hunmapped)⟩
  | decode hfetch hunknown => exact ⟨_, step_of_unknown hfetch hunknown⟩
  | access hfetch hencodes hi hunmapped =>
    obtain ⟨index, e, hdecode, rfl⟩ := (Isa.encodes_iff_select _ _).mp hencodes
    rcases step_access_cases hwell hfetch hdecode hi with ⟨hmapped, -⟩ | ⟨-, m, -, hrefused⟩
    · exact absurd hmapped hunmapped
    · exact ⟨_, hrefused⟩
  | call hcalls hunserved =>
    obtain ⟨c, hfetch, hencodes⟩ := hcalls
    obtain ⟨index, e, hdecode, hi⟩ := (Isa.encodes_iff_select _ _).mp hencodes
    obtain ⟨m, hcall, -⟩ := environmentCall_of_unserved (s := s.advanced c) hunserved
    rw [step_of_call hfetch hdecode hi]
    exact ⟨_, bind_error hcall⟩

theorem faults_of_step (hwell : s.machine.memory.WellFormed)
    (h : step s = (.error (.error f), s')) : s.Faults f ∧ Untouched f s s' := by
  rcases hwell.bounded_fetch s.machine.pc.current with ⟨-, c, hfetch⟩ | ⟨hunmapped, herror⟩
  swap
  · rw [step_of_fetch_error herror] at h
    cases h
    have hcalls : ¬s.Calls := by
      rintro ⟨c, hfetch, -⟩
      rw [herror] at hfetch
      cases hfetch
    exact ⟨.fetch hunmapped, untouched_of_noted hcalls (.refl _)⟩
  have hcode : ∀ c', s.machine.memory.fetch s.machine.pc.current = .ok c' → c = c' := fun c' h =>
    Except.ok.inj (hfetch.symm.trans h)
  have hbefore := s.machine.noted_before s.machine.pc.current c
  cases hselect : Decoder.select table c with
  | ambiguous => exact absurd hselect (Isa.select_ne_ambiguous c)
  | unknown =>
    rw [step_of_unknown hfetch hselect] at h
    cases h
    have hcalls : ¬s.Calls := by
      rintro ⟨c', hfetch', hencodes⟩
      obtain rfl := hcode c' hfetch'
      exact (Isa.select_eq_unknown_iff c).mp hselect _ hencodes
    exact ⟨.decode hfetch hselect,
      untouched_of_noted hcalls (hbefore.emit (by simp [Event.kind?]))⟩
  | known index e =>
    rcases step_known_cases hwell hfetch hselect with
      ⟨after, hok⟩ | ⟨haccess, hunmapped, m, hnoted, hrefused⟩ | ⟨hi, hcall⟩
    · rw [hok] at h
      cases h
    · rw [hrefused] at h
      cases h
      have hcalls : ¬s.Calls := by
        rintro ⟨c', hfetch', hencodes⟩
        obtain rfl := hcode c' hfetch'
        rw [Isa.instr_of_select hselect hencodes] at haccess
        exact absurd haccess (by decide)
      exact ⟨.access hfetch (Isa.encodes_of_select hselect) haccess hunmapped,
        untouched_of_noted hcalls hnoted⟩
    · have hcalls : s.Calls := ⟨c, hfetch, hi ▸ Isa.encodes_of_select hselect⟩
      rw [hcall] at h
      by_cases hunserved : s.Unserved
      · obtain ⟨m, hrun, hnoted⟩ := environmentCall_of_unserved (s := s.advanced c) hunserved
        rw [bind_error hrun] at h
        cases h
        exact ⟨.call hcalls hunserved, untouched_of_call hcalls hnoted⟩
      · have hnofault := environmentCall_ne_fault (s := s.advanced c) (f := f) hunserved
        exact absurd (error_of_bind (congrArg Prod.fst h) fun _ _ hok => by cases hok) hnofault

/-- A step of a platform that can be reached ends in a fault in four cases, and then nothing but
the log has changed, and for a call that is refused the program counter. -/
theorem step_faults (hs : s.Reachable) (f : Fault) :
    ((∃ s', step s = (.error (.error f), s')) ↔ s.Faults f) ∧
      ∀ s', step s = (.error (.error f), s') → Untouched f s s' := by
  have hwell := hs.wellFormed
  constructor
  · constructor
    · rintro ⟨s', hstep⟩
      exact (faults_of_step hwell hstep).1
    · exact step_of_faults hwell
  · intro s' hstep
    exact (faults_of_step hwell hstep).2

def unanswered : Platform Unit where
  machine :=
    { MemoryRequest.performAll [.allocate 0x1000 16, .write .word 0x1000 0x00000073]
        (.start (.empty 0x2000) 0x1000) with
      registers := Registers.write (.zero gpr) Reg.a7 9999 }
  kernel := .start .unsupported () 0

theorem step_faults_call :
    unanswered.Reachable ∧ unanswered.Faults (.syscallUnimplemented 9999) ∧
      ∃ s', step unanswered = (.error (.error (.syscallUnimplemented 9999)), s') ∧
        Untouched (.syscallUnimplemented 9999) unanswered s' ∧
        s'.machine.pc = ⟨0x1004, 0x1000⟩ := by
  have hreachable : unanswered.Reachable := reachable_of_memory_eq 0x2000 0x1000
    [.allocate 0x1000 16, .write .word 0x1000 0x00000073] (by simp only [unanswered])
  have hfetch : unanswered.machine.memory.fetch unanswered.machine.pc.current = .ok 0x00000073 := by
    decide +kernel
  have hcalls : unanswered.Calls := ⟨_, hfetch, rfl⟩
  have hfaults : unanswered.Faults (.syscallUnimplemented 9999) := .call hcalls (Or.inl rfl)
  obtain ⟨hiff, huntouched⟩ := step_faults hreachable (.syscallUnimplemented 9999)
  obtain ⟨s', hstep⟩ := hiff.mpr hfaults
  exact ⟨hreachable, hfaults, s', hstep, huntouched s' hstep, ((huntouched s' hstep).call hcalls).2⟩

end Platform

end RiscvHart
