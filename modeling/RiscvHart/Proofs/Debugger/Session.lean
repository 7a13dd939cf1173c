import RiscvHart.Proofs.Debugger.AtLarge

/-!
# Debugging sessions

A session is a list of calls to a debugger. Whatever they are, the hart takes the turns of a run
without a debugger, in their order and none of them twice, and what a session says of the end of
the program is how that run ends.
-/

namespace RiscvHart

open Exec

/-- What can be asked of a debugger. -/
inductive DebugCall where
  | setBreakpoint (addr : Word)
  | clearBreakpoint (addr : Word)
  | stepOnce
  | continueUntil (steps : Nat)
  | continueRun
  | readPc
  | readRegister (r : Reg)
  | readMemory (width : Width) (addr : Word)
  | history

inductive DebugAnswer where
  | changed (isNew : Bool)
  | stop (result : Except DebugError DebugStop)
  | word (result : Except DebugError Word)
  | history (pcs : List Word)
  deriving DecidableEq

namespace DebugCall

def budget? : DebugCall → Option (Option Nat)
  | stepOnce => some (some 1)
  | continueUntil steps => if steps = 0 then none else some (some steps)
  | continueRun => some none
  | _ => none

end DebugCall

namespace Hart

open Platform

variable {σ : Type} {d e : Hart σ} {fuel n : Nat} {call : DebugCall} {budget : Option Nat}

def ask (fuel : Nat) (d : Hart σ) : DebugCall → DebugAnswer × Hart σ
  | .setBreakpoint addr => (.changed (d.setBreakpoint addr).1, (d.setBreakpoint addr).2)
  | .clearBreakpoint addr => (.changed (d.clearBreakpoint addr).1, (d.clearBreakpoint addr).2)
  | .stepOnce => (.stop (d.stepOnce fuel).1, (d.stepOnce fuel).2)
  | .continueUntil steps => (.stop (d.continueUntil fuel steps).1, (d.continueUntil fuel steps).2)
  | .continueRun => (.stop (d.continueRun fuel).1, (d.continueRun fuel).2)
  | .readPc => (.word (.ok d.machine.pc.current), d)
  | .readRegister r => (.word (.ok (d.machine.registers.read r)), d)
  | .readMemory width addr => (.word (d.inspect width addr), d)
  | .history => (.history d.debugger.history, d)

def released (budget : Option Nat) (d : Hart σ) : Hart σ :=
  { d.modifyDebugger fun c => c.arm budget with monitor := ⟨.running, true⟩ }

def turnsOf (fuel : Nat) (d : Hart σ) (call : DebugCall) : List (Hart σ) :=
  match d.notReady?, call.budget? with
  | none, some budget => (d.released budget).turns fuel
  | _, _ => []

/-- The answers to calls one after the other, each with the hart after it. -/
def session (fuel : Nat) : List DebugCall → Hart σ → List (DebugAnswer × Hart σ)
  | [], _ => []
  | call :: rest, d => d.ask fuel call :: session fuel rest (d.ask fuel call).2

def after (fuel : Nat) : List DebugCall → Hart σ → Hart σ
  | [], d => d
  | call :: rest, d => after fuel rest (d.ask fuel call).2

def sessionTurns (fuel : Nat) : List DebugCall → Hart σ → List (Hart σ)
  | [], _ => []
  | call :: rest, d => d.turnsOf fuel call ++ sessionTurns fuel rest (d.ask fuel call).2

/-! ## Calls -/

theorem notReady?_eq_none_iff : d.notReady? = none ↔ d.state = .paused := by
  unfold notReady?
  cases d.state <;> simp

theorem Attended.monitor_of_paused (ha : d.Attended) (hpaused : d.state = .paused) :
    d.monitor = ⟨.paused, true⟩ := by
  rw [ha.monitor_eq, hpaused]

theorem Attended.modifyDebugger (ha : d.Attended) (f : DebugControl → DebugControl) :
    (d.modifyDebugger f).Attended where
  started := ha.started
  unscheduled := ⟨ha.unscheduled.stopAt, ha.unscheduled.pauseAt⟩
  attached h := ha.attached (Option.map_eq_none_iff.mp h)
  wellFormed := ha.wellFormed
  going := ha.going
  clear := ha.clear
  stopped := ha.stopped
  invalid := ha.invalid

theorem Attended.debugger_modifyDebugger (ha : d.Attended) (f : DebugControl → DebugControl) :
    (d.modifyDebugger f).debugger = f d.debugger := by
  obtain ⟨c, hc⟩ := Option.ne_none_iff_exists'.mp ha.attached
  unfold debugger Hart.modifyDebugger
  dsimp only
  rw [hc]
  rfl

theorem atLarge_modifyDebugger {f : DebugControl → DebugControl} (d : Hart σ)
    (hf : ∀ c, (f c).recent = c.recent) (kept : Bool) :
    (d.modifyDebugger f).atLarge kept = d.atLarge kept := by
  have hidle : DebugControl.idle ∘ f = DebugControl.idle := by
    funext c
    simp only [Function.comp_apply, DebugControl.idle, hf]
  cases kept
  · rfl
  · simp only [atLarge, Hart.modifyDebugger, Watch.atLarge, Option.map_map, hidle, if_true]

theorem Attended.released (ha : d.Attended) (hpaused : d.state = .paused) (budget : Option Nat) :
    (d.released budget).Attended where
  started := rfl
  unscheduled := ⟨ha.unscheduled.stopAt, ha.unscheduled.pauseAt⟩
  attached h := ha.attached (Option.map_eq_none_iff.mp h)
  wellFormed := ha.wellFormed
  going h := absurd rfl h
  clear _ _ := ha.clear (Or.inr hpaused) (ha.going (by rw [hpaused]; decide))
  stopped h := by cases h
  invalid h := by cases h

theorem Attended.debugger_released (ha : d.Attended) (budget : Option Nat) :
    (d.released budget).debugger = d.debugger.arm budget :=
  ha.debugger_modifyDebugger fun c => c.arm budget

theorem Attended.atLarge_released (ha : d.Attended) (hpaused : d.state = .paused)
    (budget : Option Nat) (kept : Bool) : (d.released budget).atLarge kept = d.atLarge kept := by
  rw [← atLarge_modifyDebugger d (f := fun c => c.arm budget) (fun _ => rfl)]
  unfold atLarge Hart.released
  dsimp only
  rw [show (d.modifyDebugger fun c => c.arm budget).monitor = ⟨.paused, true⟩ from
    ha.monitor_of_paused hpaused]
  rfl

theorem Attended.runWithBudget_eq (ha : d.Attended) (hpaused : d.state = .paused)
    (fuel : Nat) (budget : Option Nat) :
    d.runWithBudget fuel budget =
      (((d.released budget).run fuel).stopReached, (d.released budget).run fuel) := by
  have hresume : (d.modifyDebugger fun c => c.arm budget).resume fuel =
      .ok ((d.released budget).run fuel) := by
    rw [resume, control, show (d.modifyDebugger fun c => c.arm budget).monitor =
      ⟨.paused, true⟩ from ha.monitor_of_paused hpaused]
    rfl
  unfold runWithBudget
  dsimp only
  rw [hresume]

theorem Attended.ask_of_budget (ha : d.Attended) (hpaused : d.state = .paused)
    (hbudget : call.budget? = some budget) :
    d.ask fuel call =
      (.stop ((d.released budget).run fuel).stopReached, (d.released budget).run fuel) := by
  have hready := notReady?_eq_none_iff.mpr hpaused
  have hrun := ha.runWithBudget_eq hpaused fuel budget
  unfold DebugCall.budget? at hbudget
  split at hbudget
  · cases hbudget
    simp only [ask, stepOnce, continueUntil, hready, hrun]
    rfl
  · split at hbudget
    · cases hbudget
    · next hpos =>
      cases hbudget
      simp only [ask, continueUntil, hready, hrun, if_neg hpos]
  · cases hbudget
    simp only [ask, continueRun, hready, hrun]
  · cases hbudget

theorem continueUntil_of_still {steps : Nat} (h : d.state ≠ .paused ∨ steps = 0) :
    (d.continueUntil fuel steps).2 = d := by
  unfold continueUntil
  split
  · rfl
  · next hready =>
    rw [if_pos (h.resolve_left fun hnot => hnot (notReady?_eq_none_iff.mp hready))]

/-- A call that lets nothing run and is not about breakpoints changes nothing at all. -/
theorem ask_eq_self (hset : ∀ addr, call ≠ .setBreakpoint addr)
    (hclear : ∀ addr, call ≠ .clearBreakpoint addr)
    (hstill : d.state ≠ .paused ∨ call.budget? = none) : (d.ask fuel call).2 = d := by
  cases call with
  | setBreakpoint addr => exact absurd rfl (hset addr)
  | clearBreakpoint addr => exact absurd rfl (hclear addr)
  | stepOnce => exact continueUntil_of_still (Or.inl (hstill.resolve_right fun h => by cases h))
  | continueUntil steps =>
    exact continueUntil_of_still (hstill.imp_right fun h => by simpa [DebugCall.budget?] using h)
  | continueRun =>
    have hpaused := hstill.resolve_right fun h => by cases h
    show (d.continueRun fuel).2 = d
    unfold continueRun
    split
    · rfl
    · next hready => exact absurd (notReady?_eq_none_iff.mp hready) hpaused
  | readPc | readRegister | readMemory | history => rfl

/-- A call that lets nothing run leaves the hart where it is. -/
theorem Attended.ask_of_still (ha : d.Attended)
    (hstill : d.state ≠ .paused ∨ call.budget? = none) :
    Mirrored d [] (d.ask fuel call).2 := by
  have hset : ∀ f : DebugControl → DebugControl, (∀ c, (f c).recent = c.recent) →
      Mirrored d [] (d.modifyDebugger f) := fun f hf =>
    ⟨ha.modifyDebugger f, atLarge_modifyDebugger d hf, fun _ => rfl⟩
  cases call with
  | setBreakpoint addr => exact hset _ fun _ => rfl
  | clearBreakpoint addr => exact hset _ fun _ => rfl
  | stepOnce | continueUntil | continueRun | readPc | readRegister | readMemory | history =>
    rw [ask_eq_self (fun _ h => by cases h) (fun _ h => by cases h) hstill]
    exact ha.mirrored_nil

theorem Attended.mirrored_ask (ha : d.Attended) (fuel : Nat) (call : DebugCall)
    (hquiet : ∀ h ∈ d.turnsOf fuel call, ¬h.platform.Executes .ebreak) :
    Mirrored d (d.turnsOf fuel call) (d.ask fuel call).2 := by
  unfold turnsOf at hquiet ⊢
  split
  · next budget hready hbudget =>
    have hpaused := notReady?_eq_none_iff.mp hready
    simp only [hready, hbudget] at hquiet
    have hrun := (ha.released hpaused budget).mirrored_run fuel hquiet
    rw [ha.ask_of_budget hpaused hbudget]
    constructor
    · exact hrun.attended
    · intro kept
      rw [hrun.reached, ha.atLarge_released hpaused]
    · intro kept
      rw [← hrun.visited, ha.atLarge_released hpaused]
  · next hother =>
    refine ha.ask_of_still ?_
    by_cases hpaused : d.state = .paused
    · right
      cases hbudget : call.budget? with
      | none => rfl
      | some budget => exact absurd hbudget (hother budget (notReady?_eq_none_iff.mpr hpaused))
    · exact Or.inl hpaused

/-- Why there is no stop to report, from the hart that there is after a call. -/
inductive NoStop (d : Hart σ) : DebugError → Prop where
  | notPaused : d.state = .running → NoStop d .notPaused
  | running : d.state = .running → NoStop d .finished
  | finished : d.state = .stopped → NoStop d .finished
  | fault {f : Fault} : d.state = .invalid → d.machine.fault = some f → NoStop d (.targetFault f)

theorem Attended.noStop_of_invalid (ha : d.Attended) (h : d.state = .invalid) :
    d.NoStop d.targetFault := by
  obtain ⟨f, hf⟩ := Option.ne_none_iff_exists'.mp (ha.invalid h).1
  rw [targetFault, hf]
  exact .fault h hf

theorem Attended.noStop_of_notReady (ha : d.Attended) {e : DebugError}
    (h : d.notReady? = some e) : d.NoStop e := by
  unfold notReady? at h
  split at h
  · cases h
  · next hstate =>
    cases h
    exact .notPaused hstate
  · next hstate =>
    cases h
    exact .finished hstate
  · next hstate =>
    cases h
    exact ha.noStop_of_invalid hstate

theorem Attended.noStop_of_stopReached (ha : d.Attended) {e : DebugError}
    (h : d.stopReached = .error e) : d.NoStop e := by
  unfold stopReached at h
  split at h
  · cases h
  · split at h
    · cases h
    · next hstate =>
      cases h
      exact ha.noStop_of_invalid hstate
    · next hpaused hinvalid =>
      cases h
      cases hstate : d.state with
      | running => exact .running hstate
      | stopped => exact .finished hstate
      | paused => exact absurd hstate hpaused
      | invalid => exact absurd hstate hinvalid

theorem Attended.noStop_of_continueUntil (ha : d.Attended) {steps : Nat} {e : DebugError}
    (hattended : (d.continueUntil fuel steps).2.Attended)
    (h : (d.continueUntil fuel steps).1 = .error e) : (d.continueUntil fuel steps).2.NoStop e := by
  unfold continueUntil at hattended h ⊢
  split at h
  · next e' hnot =>
    cases h
    exact ha.noStop_of_notReady hnot
  · next hready =>
    split at h
    · cases h
    · next hpos =>
      simp only [hready, if_neg hpos] at hattended ⊢
      rw [ha.runWithBudget_eq (notReady?_eq_none_iff.mp hready)] at hattended h ⊢
      exact hattended.noStop_of_stopReached h

theorem Attended.noStop_of_ask (ha : d.Attended) {e : DebugError}
    (hattended : (d.ask fuel call).2.Attended) (h : (d.ask fuel call).1 = .stop (.error e)) :
    (d.ask fuel call).2.NoStop e := by
  cases call with
  | stepOnce => exact ha.noStop_of_continueUntil hattended (DebugAnswer.stop.inj h)
  | continueUntil steps => exact ha.noStop_of_continueUntil hattended (DebugAnswer.stop.inj h)
  | continueRun =>
    replace h := DebugAnswer.stop.inj h
    show (d.continueRun fuel).2.NoStop e
    change (d.continueRun fuel).2.Attended at hattended
    unfold continueRun at hattended h ⊢
    split at h
    · next e' hnot =>
      cases h
      exact ha.noStop_of_notReady hnot
    · next hready =>
      simp only [hready] at hattended ⊢
      rw [ha.runWithBudget_eq (notReady?_eq_none_iff.mp hready)] at hattended h ⊢
      exact hattended.noStop_of_stopReached h
  | setBreakpoint | clearBreakpoint | readPc | readRegister | readMemory | history => cases h

/-! ## Sessions -/

theorem Attended.mirrored_session (ha : d.Attended) (fuel : Nat) (calls : List DebugCall)
    (hquiet : ∀ h ∈ d.sessionTurns fuel calls, ¬h.platform.Executes .ebreak) :
    Mirrored d (d.sessionTurns fuel calls) (d.after fuel calls) ∧
      ∀ x ∈ d.session fuel calls, ∃ (b : Hart σ) (call : DebugCall) (ts : List (Hart σ)),
        b.Attended ∧ x = b.ask fuel call ∧ Mirrored d ts x.2 := by
  induction calls generalizing d with
  | nil => exact ⟨ha.mirrored_nil, List.forall_mem_nil _⟩
  | cons call rest ih =>
    rw [sessionTurns, List.forall_mem_append] at hquiet
    have hask := ha.mirrored_ask fuel call hquiet.1
    obtain ⟨hrest, hsession⟩ := ih hask.attended hquiet.2
    refine ⟨hask.trans hrest, ?_⟩
    intro x hx
    rw [session, List.mem_cons] at hx
    rcases hx with rfl | hx
    · exact ⟨d, call, _, ha, rfl, hask⟩
    · obtain ⟨b, call', ts, hb, hxb, hts⟩ := hsession x hx
      exact ⟨b, call', _, hb, hxb, hask.trans hts⟩

end Hart

end RiscvHart
