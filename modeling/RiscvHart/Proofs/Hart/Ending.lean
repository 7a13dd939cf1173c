import RiscvHart.Proofs.Hart.Conformance
import RiscvHart.Proofs.Hart.Flags

/-!
# Which steps end a run

The engine looks at the machine after a step to find out whether the run is over: at marks that
may have been left at any time, at the last instruction, and at the program counter. What it
finds depends on the last step alone, and can be told from the instruction set and the layout of
memory.
-/

namespace RiscvHart

namespace Isa

/-- An offset is too short to lead around all addresses. -/
theorem next_jal_eq_iff {pc : Word} {w : Nat} {a b : Int} :
    BitVec.ofInt 64 (next .jal w pc.toNat a b) = pc ↔ immJ w = 0 := by
  have hnext : next .jal w pc.toNat a b = pc.toNat + immJ w := by
    rw [next, if_pos rfl]
  have hpc := pc.isLt
  have hlow : -2 ^ 20 ≤ immJ w := by
    unfold immJ signed
    exact Int.le_bmod (by decide)
  have hhigh : immJ w < 2 ^ 20 := by
    unfold immJ signed
    exact Int.bmod_lt (by decide)
  conv_lhs => rhs; rw [Word.eq_ofInt_toNat pc]
  rw [hnext, Word.ofInt_eq_ofInt_iff]
  omega

end Isa

namespace Platform

open Exec

variable {σ : Type} {s t : Platform σ} {pauses : Bool} {r : HaltReason}

def Exits (s : Platform σ) (code : BitVec 32) : Prop :=
  s.Executes .ecall ∧ (∃ c : Syscall, Syscall.ofNumber? s.callNumber = some c ∧ c.Exits) ∧
    code = int32 (s.machine.registers.read Reg.a0)

def JumpsToItself (s : Platform σ) : Prop :=
  ∃ c, s.machine.memory.fetch s.machine.pc.current = .ok c ∧ Isa.Encodes .jal c.toNat ∧
    Isa.immJ c.toNat = 0

/-- The program counter is in no region. -/
def Astray (s : Platform σ) : Prop :=
  ∀ r ∈ s.machine.memory.regions, ¬r.Covers s.machine.pc.current 1

/-- The reasons for which a run is over after a step from one platform to another, in the order
in which they count. -/
inductive Ends (s t : Platform σ) : HaltReason → Prop where
  | exited {code : BitVec 32} : s.Exits code → Ends s t (.exited code)
  | breakpoint : s.Executes .ebreak → Ends s t (.breakpoint s.machine.pc.current)
  | selfJump : s.JumpsToItself → Ends s t (.selfJump s.machine.pc.current)
  | pcOutOfRange : (∀ code, ¬s.Exits code) → ¬s.Executes .ebreak → ¬s.JumpsToItself → t.Astray →
    Ends s t (.pcOutOfRange t.machine.pc.current)

theorem exitCode?_eq_some_iff {code : BitVec 32} :
    s.exitCode? = some code ↔
      (∃ c : Syscall, Syscall.ofNumber? s.callNumber = some c ∧ c.Exits) ∧
        code = int32 (s.machine.registers.read Reg.a0) := by
  unfold exitCode? Syscall.Exits
  cases hnumber : Syscall.ofNumber? s.callNumber with
  | none => simp
  | some c =>
    cases c
    all_goals simp [eq_comm]

theorem exits_iff {code : BitVec 32} :
    s.Exits code ↔ s.next? = some .ecall ∧ s.exitCode? = some code := by
  rw [Exits, next?_eq_some_iff, exitCode?_eq_some_iff]

/-- Whether a jump led nowhere shows in where the program counter stands after it. -/
theorem jumpsToItself_iff (h : step s = (.ok (), t)) :
    s.JumpsToItself ↔
      (t.machine.last.any fun l => l.instr = .jal && l.pc = t.machine.pc.current) = true := by
  obtain ⟨c, index, e, hfetch, hselect, hlast⟩ := exists_last_of_step h
  rw [hlast]
  simp only [Option.any_some, Bool.and_eq_true, decide_eq_true_eq]
  have hjump : e.instr = .jal → (s.machine.pc.current = t.machine.pc.current ↔
      Isa.immJ c.toNat = 0) := by
    intro hi
    have hformat := Isa.format_of_mem_table e (Decoder.select_known hselect).1 (by rw [hi]; decide)
    have heffect : e.instr.action.effect? (e.read c).operands s.machine.pc.current
        s.machine.registers = some (Isa.effect .jal c.toNat s.machine.pc.current.toNat 0 0) := by
      show e.instr.action.effect? (e.encoding.format.extract c) _ _ = _
      rw [hformat, hi]
      exact Isa.jal_effect 0 0
    obtain ⟨s', hstep, hnext, -⟩ := step_of_effect? hfetch hselect heffect
    obtain rfl : s' = t := congrArg Prod.snd (hstep.symm.trans h)
    rw [hnext, eq_comm]
    exact Isa.next_jal_eq_iff
  constructor
  · rintro ⟨c', hfetch', hencodes, hoffset⟩
    obtain rfl : c' = c := Except.ok.inj (hfetch'.symm.trans hfetch)
    have hi : e.instr = .jal := Isa.instr_of_select hselect hencodes
    exact ⟨hi, (hjump hi).mpr hoffset⟩
  · rintro ⟨hi, hpc⟩
    exact ⟨c, hfetch, hi ▸ Isa.encodes_of_select hselect, (hjump hi).mp hpc⟩

theorem astray_iff (h : s.machine.memory.WellFormed) :
    s.Astray ↔ s.machine.memory.contains s.machine.pc.current = false := by
  rw [Memory.contains, ← Bool.not_eq_true, Option.not_isSome_iff_eq_none,
    h.regionOf?_eq_none_iff one_pos]
  rfl

/-! ## What the engine finds -/

theorem exitCode_marking (pauses : Bool) {code : BitVec 32} :
    (s.marking (.clear pauses)).exitCode = some code ↔ s.Exits code := by
  rw [exits_iff, marking]
  split
  · next hnext =>
    rw [hnext, Flags.broken]
    split <;> simp [Flags.clear]
  · next hnext =>
    rw [hnext]
    cases s.exitCode? <;> simp [Flags.clear, Flags.exited]
  · next hcall =>
    have hother : s.next? ≠ some .ecall := hcall
    simp [Flags.clear, hother]

theorem breakpoint_marking (hpauses : pauses = true → ¬s.Executes .ebreak) {addr : Word} :
    (s.marking (.clear pauses)).breakpoint = some addr ↔
      s.Executes .ebreak ∧ s.machine.pc.current = addr := by
  rw [← next?_eq_some_iff, marking]
  split
  · next hnext =>
    have hoff : pauses = false := by
      by_contra hon
      exact hpauses (Bool.eq_true_of_not_eq_false hon) (next?_eq_some_iff.mp hnext)
    simp [Flags.clear, Flags.broken, hoff, hnext]
  · next hnext =>
    cases s.exitCode? <;> simp [Flags.clear, Flags.exited, hnext]
  · next hbreak _ =>
    have hother : s.next? ≠ some .ebreak := hbreak
    simp [Flags.clear, hother]

theorem Executes.unique {i j : Instr} (hi : s.Executes i) (hj : s.Executes j) : i = j := by
  rw [← next?_eq_some_iff] at hi hj
  exact Option.some.inj (hi.symm.trans hj)

theorem JumpsToItself.executes (h : s.JumpsToItself) : s.Executes .jal := by
  obtain ⟨c, hfetch, hencodes, -⟩ := h
  exact ⟨c, hfetch, hencodes⟩

theorem Ends.unique {r' : HaltReason} (h : Ends s t r) (h' : Ends s t r') : r = r' := by
  cases h with
  | exited hexits =>
    cases h' with
    | exited hexits' => rw [hexits.2.2, hexits'.2.2]
    | breakpoint hbreaks => exact absurd (hexits.1.unique hbreaks) (by decide)
    | selfJump hjumps => exact absurd (hexits.1.unique hjumps.executes) (by decide)
    | pcOutOfRange hnone => exact absurd hexits (hnone _)
  | breakpoint hbreaks =>
    cases h' with
    | exited hexits => exact absurd (hexits.1.unique hbreaks) (by decide)
    | breakpoint _ => rfl
    | selfJump hjumps => exact absurd (hbreaks.unique hjumps.executes) (by decide)
    | pcOutOfRange _ hnone => exact absurd hbreaks hnone
  | selfJump hjumps =>
    cases h' with
    | exited hexits => exact absurd (hexits.1.unique hjumps.executes) (by decide)
    | breakpoint hbreaks => exact absurd (hbreaks.unique hjumps.executes) (by decide)
    | selfJump _ => rfl
    | pcOutOfRange _ _ hnone => exact absurd hjumps hnone
  | pcOutOfRange hcode hbreak hjump =>
    cases h' with
    | exited hexits => exact absurd hexits (hcode _)
    | breakpoint hbreaks => exact absurd hbreaks hbreak
    | selfJump hjumps => exact absurd hjumps hjump
    | pcOutOfRange => rfl

/-- What the engine looks at after a step, and what it tells about the step. -/
structure Found (s t : Platform σ) : Prop where
  exited : ∀ code, t.machine.exitCode = some code ↔ s.Exits code
  broken : ∀ addr, t.machine.breakpoint = some addr ↔
    s.Executes .ebreak ∧ s.machine.pc.current = addr
  jumped : s.JumpsToItself ↔
    (t.machine.last.any fun l => l.instr = .jal && l.pc = t.machine.pc.current) = true
  here : s.JumpsToItself → s.machine.pc.current = t.machine.pc.current
  astray : t.Astray ↔ t.machine.memory.contains t.machine.pc.current = false

theorem found_of_step (hclear : s.machine.flags = .clear pauses)
    (hpauses : pauses = true → ¬s.Executes .ebreak) (hwell : t.machine.memory.WellFormed)
    (h : step s = (.ok (), t)) : Found s t := by
  have hflags : t.machine.flags = s.marking (.clear pauses) := by
    rw [← hclear, ← flags_step, h]
  constructor
  · intro code
    rw [← exitCode_marking pauses, ← hflags]
    rfl
  · intro addr
    rw [← breakpoint_marking hpauses, ← hflags]
    rfl
  · exact jumpsToItself_iff h
  · intro hjumps
    have hjump := (jumpsToItself_iff h).mp hjumps
    obtain ⟨c, index, e, -, -, hlast⟩ := exists_last_of_step h
    rw [hlast] at hjump
    simp only [Option.any_some, Bool.and_eq_true, decide_eq_true_eq] at hjump
    exact hjump.2
  · exact astray_iff hwell

theorem Found.not_exits (hf : Found s t) (hcode : t.machine.exitCode = none) (code : BitVec 32) :
    ¬s.Exits code := by
  rw [← hf.exited, hcode]
  exact fun h => by cases h

theorem Found.not_executes (hf : Found s t) (hbreak : t.machine.breakpoint = none) :
    ¬s.Executes .ebreak := by
  intro hexecutes
  have hmarked := (hf.broken _).mpr ⟨hexecutes, rfl⟩
  rw [hbreak] at hmarked
  cases hmarked

theorem Found.ends (hf : Found s t) (hreason : t.machine.haltReason? = some r) : Ends s t r := by
  unfold Machine.haltReason? at hreason
  split at hreason
  · next hcode =>
    cases hreason
    exact .exited ((hf.exited _).mp hcode)
  · next hbreak =>
    cases hreason
    obtain ⟨hexecutes, rfl⟩ := (hf.broken _).mp hbreak
    exact .breakpoint hexecutes
  · next hcode hbreak =>
    dsimp only at hreason
    split at hreason
    · next hjump =>
      cases hreason
      have hself := hf.jumped.mpr hjump
      rw [← hf.here hself]
      exact .selfJump hself
    · next hjump =>
      split at hreason
      · cases hreason
      · next hout =>
        cases hreason
        exact .pcOutOfRange (hf.not_exits hcode) (hf.not_executes hbreak)
          (fun hself => hjump (hf.jumped.mp hself)) (hf.astray.mpr (eq_false_of_ne_true hout))

theorem Found.haltReason?_ne_none (hf : Found s t) (hends : Ends s t r) :
    t.machine.haltReason? ≠ none := by
  intro hnone
  unfold Machine.haltReason? at hnone
  split at hnone
  · cases hnone
  · cases hnone
  · next hcode hbreak =>
    dsimp only at hnone
    split at hnone
    · cases hnone
    · next hjump =>
      split at hnone
      · next hin =>
        cases hends with
        | exited hexits => exact hf.not_exits hcode _ hexits
        | breakpoint hexecutes => exact hf.not_executes hbreak hexecutes
        | selfJump hself => exact hjump (hf.jumped.mp hself)
        | pcOutOfRange _ _ _ hout =>
          rw [hf.astray.mp hout] at hin
          cases hin
      · cases hnone

/-- What the engine concludes from a machine whose marks were clear before its last step. -/
theorem haltReason?_eq_some_iff (hclear : s.machine.flags = .clear pauses)
    (hpauses : pauses = true → ¬s.Executes .ebreak) (hwell : t.machine.memory.WellFormed)
    (h : step s = (.ok (), t)) : t.machine.haltReason? = some r ↔ Ends s t r := by
  have hfound := found_of_step hclear hpauses hwell h
  constructor
  · exact hfound.ends
  · intro hends
    obtain ⟨r', hr'⟩ := Option.ne_none_iff_exists'.mp (hfound.haltReason?_ne_none hends)
    rw [hr', hends.unique (hfound.ends hr')]

end Platform

end RiscvHart
