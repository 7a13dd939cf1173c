import RiscvHart.Proofs.Hart.Faults

/-!
# Steps and flags

A step sees none of the flags. What it does to them depends on its instruction alone: the calls
that end the process leave an exit code, a breakpoint instruction leaves its address or asks for
a pause, and nothing else touches them.
-/

namespace RiscvHart

open Exec

namespace Flags

def clear (pausesOnBreakpoint : Bool) : Flags := ⟨pausesOnBreakpoint, false, none, none, none, none⟩

def exited (code : BitVec 32) (f : Flags) : Flags := { f with exitCode := some code }

def broken (pc : Word) (f : Flags) : Flags :=
  if f.pausesOnBreakpoint then { f with pauseRequested := true }
  else { f with breakpoint := some pc }

end Flags

namespace Platform

variable {σ : Type} {s t : Platform σ} {f : Flags} {c : Code} {index : Nat} {e : Entry}

/-! ## Calls -/

theorem serves_flags (f : Flags) :
    Serves (σ := σ) (fun _ x => Commutes (Platform.withFlags f) x) fun _ => True where
  pure a := commutes_pure a
  bind hx hf := hx.bind hf
  look k hseen hk := commutes_get_bind (hseen f) hk
  consult _ _ := rfl
  tryFill addr bs s := by
    unfold tryFill
    rw [show (s.withFlags f).machine.fill addr bs =
      (s.machine.fill addr bs).map (Machine.withFlags f) from Machine.fill_withFlags _ _ _]
    cases s.machine.fill addr bs <;> rfl
  setRandom _ _ := rfl
  fail _ _ _ := rfl

theorem commutes_tryGrowHeap (newEnd : Word) :
    Commutes (Platform.withFlags (σ := σ) f) (tryInPlace fun m => m.growHeapInPlace newEnd) := by
  intro s
  have hgrow : settled ((s.withFlags f).machine.growHeapInPlace newEnd) =
      (settled (s.machine.growHeapInPlace newEnd)).map (Machine.withFlags f) :=
    Machine.growHeap_withFlags s.machine newEnd
  rw [tryInPlace_of_atomic _ (Machine.atomic_growHeapInPlace newEnd),
    tryInPlace_of_atomic _ (Machine.atomic_growHeapInPlace newEnd), hgrow]
  cases settled (s.machine.growHeapInPlace newEnd) <;> rfl

theorem commutes_brkCall (requested : Word) :
    Commutes (Platform.withFlags (σ := σ) f) (brkCall requested) := by
  refine commutes_get_bind (fun _ => rfl) fun s => ?_
  split
  · split
    · exact commutes_pure _
    · exact (commutes_tryGrowHeap requested).bind fun _ => commutes_pure _
  · exact commutes_pure _

/-- What is done next starts from the new machine. -/
theorem withFlags_of_newMachine {α : Type} {k : Unit → Exec (Platform σ) α} (m : Machine)
    (s : Platform σ) (hk : Commutes (Platform.withFlags f) (k ())) :
    (modifyMachine (fun _ => m.withFlags f) >>= k) (s.withFlags f) =
      (((modifyMachine (fun _ => m) >>= k) s).1,
        ((modifyMachine (fun _ => m) >>= k) s).2.withFlags f) :=
  hk ⟨m, s.kernel⟩

theorem commutes_mmapCall (a : Arguments) :
    Commutes (Platform.withFlags (σ := σ) f) (mmapCall a) := by
  unfold mmapCall
  split
  · exact commutes_pure _
  cases Word.alignUp? a[1] (BitVec.ofNat 64 Span.pageSize) with
  | none => exact commutes_pure _
  | some size =>
    dsimp only
    intro s
    rw [get_bind_apply, get_bind_apply,
      show (s.withFlags f).machine.landmarks = s.machine.landmarks from rfl]
    cases (if a[3] &&& mapFixed ≠ 0 then some a[0]
        else s.machine.landmarks.get? Landmarks.mmapNext) with
    | none => rfl
    | some target =>
      dsimp only
      rw [show (s.withFlags f).machine.allocate target size.toNat =
        (s.machine.allocate target size.toNat).map (Machine.withFlags f)
        from Machine.allocate_withFlags _ _ _]
      cases s.machine.allocate target size.toNat with
      | error e => cases e <;> rfl
      | ok m =>
        refine withFlags_of_newMachine m s ?_
        split
        · exact (commutes_checkedAdd _ _).bind fun _ _ => rfl
        · exact fun _ => rfl

theorem commutes_munmapCall (a : Arguments) :
    Commutes (Platform.withFlags (σ := σ) f) (munmapCall a) := by
  intro s
  rw [munmapCall, get_bind_apply, get_bind_apply,
    show (s.withFlags f).machine.release a[0] =
      (s.machine.release a[0]).map fun r => (r.1, r.2.withFlags f) from
      Machine.release_withFlags _ _,
    show (s.withFlags f).kernel = s.kernel from rfl]
  cases Word.alignUp? a[1] (BitVec.ofNat 64 Span.pageSize) with
  | none =>
    rw [if_pos (Or.inr rfl), if_pos (Or.inr rfl)]
    rfl
  | some size =>
    by_cases hbad : a[1] = 0 ∨ (s.kernel.mappings.lookup a[0] == some size.toNat) = false
    · rw [if_pos hbad, if_pos hbad]
      rfl
    · rw [if_neg hbad, if_neg hbad]
      cases s.machine.release a[0] <;> rfl

theorem commutes_serve {c : Syscall} (a : Arguments) (hexit : ¬c.Exits) :
    Commutes (Platform.withFlags (σ := σ) f) (serve c a) := by
  by_cases hmaps : c.MapsMemory
  · rcases hmaps with rfl | rfl | rfl
    · exact (commutes_brkCall _).map
    · exact (commutes_mmapCall a).map
    · exact (commutes_munmapCall a).map
  · exact (serves_flags f).serve a hmaps (fun h => absurd h hexit) (fun _ => trivial)
      fun _ => trivial

/-- The exit code that the call in the registers leaves, if it ends the process. -/
def exitCode? (s : Platform σ) : Option (BitVec 32) :=
  match Syscall.ofNumber? s.callNumber with
  | some .exit | some .exitGroup => some (int32 (s.machine.registers.read Reg.a0))
  | _ => none

theorem environmentCall_of_exit {code : BitVec 32} (h : s.exitCode? = some code) :
    environmentCall s =
      (.ok (), { s with machine := { s.machine with exitCode := some code } }) := by
  unfold exitCode? at h
  split at h
  · next hnumber =>
    cases h
    rw [environmentCall_of_known hnumber]
    rfl
  · next hnumber =>
    cases h
    rw [environmentCall_of_known hnumber]
    rfl
  · cases h

theorem environmentCall_withFlags (h : s.exitCode? = none) :
    environmentCall (s.withFlags f) =
      ((environmentCall s).1, (environmentCall s).2.withFlags f) := by
  cases hnumber : Syscall.ofNumber? s.callNumber with
  | none =>
    have hwith : Syscall.ofNumber? (s.withFlags f).callNumber = none := hnumber
    unfold callNumber at hnumber hwith
    rw [environmentCall, get_bind_apply, get_bind_apply]
    simp only [hnumber, hwith]
    rfl
  | some c =>
    have hexit : ¬c.Exits := by
      rintro (rfl | rfl)
      all_goals
        rw [exitCode?, hnumber] at h
        cases h
    have hdeliver : ∀ result, Commutes (Platform.withFlags (σ := σ) f) (deliver result) := by
      intro result
      cases result with
      | none => exact commutes_pure ()
      | some v => exact fun _ => rfl
    rw [environmentCall_of_known hnumber,
      environmentCall_of_known (s := s.withFlags f) hnumber]
    exact ((commutes_serve _ hexit).bind hdeliver) s

/-! ## Steps -/

def Executes (s : Platform σ) (i : Instr) : Prop :=
  ∃ c, s.machine.memory.fetch s.machine.pc.current = .ok c ∧ Isa.Encodes i c.toNat

def next? (s : Platform σ) : Option Instr :=
  match s.machine.memory.fetch s.machine.pc.current with
  | .error _ => none
  | .ok c =>
    match Decoder.select table c with
    | .known _ e => some e.instr
    | _ => none

theorem next?_of_known (hfetch : s.machine.memory.fetch s.machine.pc.current = .ok c)
    (hselect : Decoder.select table c = .known index e) : s.next? = some e.instr := by
  simp only [next?, hfetch, hselect]

theorem next?_eq_some_iff {i : Instr} : s.next? = some i ↔ s.Executes i := by
  constructor
  · intro h
    unfold next? at h
    split at h
    · cases h
    · next c hfetch =>
      split at h
      · next index e hselect =>
        cases h
        exact ⟨c, hfetch, Isa.encodes_of_select hselect⟩
      · cases h
  · rintro ⟨c, hfetch, hencodes⟩
    obtain ⟨index, e, hselect, rfl⟩ := (Isa.encodes_iff_select i c).mp hencodes
    exact next?_of_known hfetch hselect

def marking (s : Platform σ) (f : Flags) : Flags :=
  match s.next? with
  | some .ebreak => f.broken s.machine.pc.current
  | some .ecall =>
    match s.exitCode? with
    | some code => f.exited code
    | none => f
  | _ => f

theorem carryOut_withFlags (hcall : e.instr ≠ .ecall) (hbreak : e.instr ≠ .ebreak) (pc : Word) :
    Commutes (Platform.withFlags (σ := σ) f) (carryOut pc c e) := by
  intro s
  have hperform := e.instr.action.perform_of_suits (Machine.suits_flags f) (e.read c).operands
    s.machine
  rw [carryOut, bind_apply, bind_apply, onMachine, Exec.on, Exec.on,
    show (s.withFlags f).machine = s.machine.withFlags f from rfl, hperform]
  cases hrun : e.instr.action.perform (e.read c).operands s.machine with
  | mk result m =>
    obtain failure | _ | trap := result
    · rfl
    · rfl
    · cases trap with
      | environmentCall =>
        exact absurd (action_eq_environmentCall (Action.trap_of_perform hrun)) hcall
      | breakpoint => exact absurd (action_eq_breakpoint (Action.trap_of_perform hrun)) hbreak

theorem step_eq_broken (hfetch : s.machine.memory.fetch s.machine.pc.current = .ok c)
    (hselect : Decoder.select table c = .known index e) (hbreak : e.instr = .ebreak) :
    step s = complete ⟨s.machine.pc.current, c, index, e.instr⟩
      ((s.advanced c).withFlags (s.machine.flags.broken s.machine.pc.current)) := by
  rw [step_of_known hfetch hselect, hbreak]
  show complete _ { s with machine := ite (s.machine.pausesOnBreakpoint = true) _ _ } = _
  unfold Flags.broken
  rw [show s.machine.flags.pausesOnBreakpoint = s.machine.pausesOnBreakpoint from rfl]
  split <;> rfl

/-- A step sees no flags, and changes them in a way that does not depend on anything it could
have done to them before. -/
theorem step_withFlags (s : Platform σ) (f : Flags) :
    step (s.withFlags f) = ((step s).1, (step s).2.withFlags (s.marking f)) := by
  cases hfetch : s.machine.memory.fetch s.machine.pc.current with
  | error error =>
    have hmarking : s.marking f = f := by simp only [marking, next?, hfetch]
    rw [step_of_fetch_error hfetch, step_of_fetch_error (s := s.withFlags f) hfetch, hmarking]
  | ok c =>
    cases hselect : Decoder.select table c with
    | ambiguous => exact absurd hselect (Isa.select_ne_ambiguous c)
    | unknown =>
      have hmarking : s.marking f = f := by simp only [marking, next?, hfetch, hselect]
      rw [step_of_unknown hfetch hselect, step_of_unknown (s := s.withFlags f) hfetch hselect,
        hmarking]
      rfl
    | known index e =>
      have hnext := next?_of_known hfetch hselect
      by_cases hcall : e.instr = .ecall
      · rw [step_of_call hfetch hselect hcall,
          step_of_call (s := s.withFlags f) hfetch hselect hcall]
        rw [hcall] at hnext
        cases hexit : s.exitCode? with
        | none =>
          have hmarking : s.marking f = f := by simp only [marking, hnext, hexit]
          have hrun := environmentCall_withFlags (f := f) (s := s.advanced c) hexit
          rw [hmarking]
          rw [bind_apply, bind_apply, show (s.withFlags f).advanced c = (s.advanced c).withFlags f
            from rfl, hrun]
          cases environmentCall (s.advanced c) with
          | mk result t => cases result <;> rfl
        | some code =>
          have hmarking : s.marking f = f.exited code := by simp only [marking, hnext, hexit]
          rw [hmarking, bind_ok (environmentCall_of_exit (s := s.advanced c) hexit),
            bind_ok (environmentCall_of_exit (s := (s.withFlags f).advanced c) hexit)]
          rfl
      by_cases hbreak : e.instr = .ebreak
      · rw [hbreak] at hnext
        have hmarking : s.marking f = f.broken s.machine.pc.current := by
          simp only [marking, hnext]
        rw [hmarking, step_eq_broken hfetch hselect hbreak,
          step_eq_broken (s := s.withFlags f) hfetch hselect hbreak]
        rfl
      · have hmarking : s.marking f = f := by
          unfold marking
          rw [hnext]
          split
          · next h => exact absurd (Option.some.inj h) hbreak
          · next h => exact absurd (Option.some.inj h) hcall
          · rfl
        rw [step_eq_carryOut hfetch hselect, step_eq_carryOut (s := s.withFlags f) hfetch hselect,
          hmarking]
        have hcommutes : Commutes (Platform.withFlags (σ := σ) f)
            (carryOut s.machine.pc.current c e >>= fun _ =>
              complete ⟨s.machine.pc.current, c, index, e.instr⟩) :=
          (carryOut_withFlags hcall hbreak _).bind fun _ _ => rfl
        exact hcommutes (s.started c)

theorem flags_step (s : Platform σ) : (step s).2.machine.flags = s.marking s.machine.flags := by
  have hsame := congrArg (fun x => x.2.machine.flags) (step_withFlags s s.machine.flags)
  exact hsame

theorem exists_last_of_step (h : step s = (.ok (), t)) :
    ∃ c index e, s.machine.memory.fetch s.machine.pc.current = .ok c ∧
      Decoder.select table c = .known index e ∧
      t.machine.last = some ⟨s.machine.pc.current, c, index, e.instr⟩ := by
  cases hfetch : s.machine.memory.fetch s.machine.pc.current with
  | error error =>
    rw [step_of_fetch_error hfetch] at h
    cases h
  | ok c =>
    cases hselect : Decoder.select table c with
    | ambiguous => exact absurd hselect (Isa.select_ne_ambiguous c)
    | unknown =>
      rw [step_of_unknown hfetch hselect] at h
      cases h
    | known index e =>
      rw [step_eq_carryOut hfetch hselect] at h
      obtain ⟨_, after, -, hcomplete⟩ := bind_eq_ok h
      cases hcomplete
      exact ⟨c, index, e, rfl, hselect, rfl⟩

end Platform

end RiscvHart
