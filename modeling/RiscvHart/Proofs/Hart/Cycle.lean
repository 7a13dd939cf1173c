import RiscvHart.Hart.Basic
import RiscvHart.Proofs.Hart.Ending
import RiscvHart.Proofs.Kernel.Reachable

/-!
# One turn of a running hart

A turn is a step with what the hart does about it. Unless the step ends the run, the hart goes on
from the new platform, or pauses there if a debugger asks for it.
-/

namespace RiscvHart

open Exec

namespace Platform

variable {σ : Type} {s t u : Platform σ} {n : Nat} {f : Flags}

/-- A step that neither fails nor ends the run. -/
def GoesOn (s t : Platform σ) : Prop := step s = (.ok (), t) ∧ ∀ r, ¬Ends s t r

inductive Outcome where
  | halted (reason : HaltReason)
  | failed (fault : Fault)
  /-- The last step had no answer. -/
  | broken
  deriving DecidableEq

/-- A step that is the last one of a run. -/
inductive Concludes (s : Platform σ) : Outcome → Platform σ → Prop where
  | halted {t : Platform σ} {r : HaltReason} : step s = (.ok (), t) → Ends s t r →
    Concludes s (.halted r) t
  | failed {t : Platform σ} {f : Fault} : step s = (.error (.error f), t) →
    Concludes s (.failed f) t
  | broken {t : Platform σ} {c : Crash} : step s = (.error (.crash c), t) → Concludes s .broken t

theorem goesOn_or_concludes (s : Platform σ) :
    (∃ t, GoesOn s t) ∨ ∃ o t, Concludes s o t := by
  cases hstep : step s with
  | mk result t =>
    obtain (f | c) | _ := result
    · exact Or.inr ⟨_, t, .failed hstep⟩
    · exact Or.inr ⟨_, t, .broken hstep⟩
    · by_cases hends : ∃ r, Ends s t r
      · obtain ⟨r, hr⟩ := hends
        exact Or.inr ⟨_, t, .halted hstep hr⟩
      · exact Or.inl ⟨t, hstep, fun r hr => hends ⟨r, hr⟩⟩

theorem GoesOn.marking (h : GoesOn s t) : s.marking f = f := by
  unfold Platform.marking
  split
  · next hnext => exact absurd (.breakpoint (next?_eq_some_iff.mp hnext)) (h.2 _)
  · next hnext =>
    split
    · next code hexit => exact absurd (.exited (exits_iff.mpr ⟨hnext, hexit⟩)) (h.2 _)
    · rfl
  · rfl

theorem GoesOn.flags (h : GoesOn s t) : t.machine.flags = s.machine.flags := by
  have hflags := flags_step s
  rw [h.1, h.marking] at hflags
  exact hflags

theorem marking_verdict (s : Platform σ) (f : Flags) :
    (s.marking f).haltReason = f.haltReason ∧ (s.marking f).fault = f.fault := by
  unfold marking
  split
  · unfold Flags.broken
    split <;> exact ⟨rfl, rfl⟩
  · split <;> exact ⟨rfl, rfl⟩
  · exact ⟨rfl, rfl⟩

/-- The verdict on a run is not left to its steps. -/
theorem verdict_step (s : Platform σ) :
    (step s).2.machine.haltReason = s.machine.haltReason ∧
      (step s).2.machine.fault = s.machine.fault := by
  have hflags := flags_step s
  obtain ⟨hreason, hfault⟩ := marking_verdict s s.machine.flags
  rw [← hflags] at hreason hfault
  exact ⟨hreason, hfault⟩

theorem Concludes.verdict {o : Outcome} (h : Concludes s o t) :
    t.machine.haltReason = s.machine.haltReason ∧ t.machine.fault = s.machine.fault := by
  have hafter : (step s).2 = t := by
    cases h with
    | halted hstep _ => rw [hstep]
    | failed hstep => rw [hstep]
    | broken hstep => rw [hstep]
  rw [← hafter]
  exact verdict_step s

theorem wellFormed_of_step (h : s.machine.memory.WellFormed) :
    (step s).2.machine.memory.WellFormed :=
  ((lasting_budgeted s.machine.memory.capacity).step s ⟨h, rfl⟩).toWellFormed

end Platform

namespace Watch

structure Unscheduled (w : Watch) : Prop where
  stopAt : w.schedule.stopAt = Option.none
  pauseAt : w.schedule.pauseAt = []

theorem Unscheduled.observe {w : Watch} (h : w.Unscheduled) (m : Machine) :
    (w.observe m).1.Unscheduled ∧ ((w.observe m).2 = [] ∨ (w.observe m).2 = [.pause]) := by
  have hrequests : w.schedule.advance.2 = [] := by
    simp [Schedule.advance, h.stopAt, h.pauseAt]
  cases hdebugger : w.debugger with
  | none =>
    simp only [Watch.observe, hdebugger]
    exact ⟨⟨h.stopAt, h.pauseAt⟩, Or.inl hrequests⟩
  | some control =>
    simp only [Watch.observe, hdebugger, hrequests, List.nil_append]
    refine ⟨⟨h.stopAt, h.pauseAt⟩, ?_⟩
    unfold DebugControl.observe
    dsimp only
    split
    · exact Or.inr rfl
    · exact Or.inl rfl

theorem Unscheduled.observe_alone {w : Watch} (h : w.Unscheduled)
    (halone : w.debugger = Option.none) (m : Machine) :
    (w.observe m).1.debugger = Option.none ∧ (w.observe m).2 = [] := by
  simp [Watch.observe, halone, Schedule.advance, h.stopAt, h.pauseAt]

end Watch

namespace Hart

open Platform

variable {σ : Type} {h : Hart σ} {t : Platform σ} {pauses : Bool} {r : HaltReason} {f : Fault}

/-- A hart that runs, with nothing on the way that could stop it other than its guest and a
debugger. -/
structure Ready (pauses : Bool) (h : Hart σ) : Prop where
  monitor : h.monitor = ⟨.running, true⟩
  going : h.crashed = false
  unscheduled : h.watch.Unscheduled
  clear : h.machine.flags = .clear pauses
  wellFormed : h.machine.memory.WellFormed

def turned (h : Hart σ) (t : Platform σ) : Hart σ :=
  { h with
    platform := t
    watch := (h.watch.observe t.machine).1
    monitor := ⟨if (h.watch.observe t.machine).2 = [] then .running else .paused, true⟩ }

def concluded (h : Hart σ) (o : Outcome) (t : Platform σ) : Hart σ :=
  match o with
  | .halted r =>
    { h.turned t with
      platform := { t with machine := { t.machine with haltReason := some r } }
      monitor := ⟨.stopped, true⟩ }
  | .failed f =>
    { h with
      platform := { t with
        machine := { t.machine.emit (.remarked (.hartFault f)) with fault := some f } }
      monitor := ⟨.invalid, true⟩ }
  | .broken => { h with platform := t, crashed := true }

theorem grant_turned (hr : h.Ready pauses) (t : Platform σ) :
    Hart.grant { h with platform := t, watch := (h.watch.observe t.machine).1 }
      (h.watch.observe t.machine).2 = h.turned t := by
  rcases (hr.unscheduled.observe t.machine).2 with hnone | hpause
  · rw [turned, hnone, if_pos rfl, ← hr.monitor]
    rfl
  · rw [turned, hpause, grant, hr.monitor]
    rfl

theorem Ready.wellFormed_of_step {result : Except (Failure Fault) Unit} (hr : h.Ready pauses)
    (hstep : step h.platform = (result, t)) : t.machine.memory.WellFormed := by
  have hafter := Platform.wellFormed_of_step hr.wellFormed
  rw [show step h.platform = _ from hstep] at hafter
  exact hafter

theorem Ready.haltReason?_eq_some_iff (hr : h.Ready pauses)
    (hpauses : pauses = true → ¬h.platform.Executes .ebreak)
    (hstep : step h.platform = (.ok (), t)) :
    t.machine.haltReason? = some r ↔ Ends h.platform t r :=
  Platform.haltReason?_eq_some_iff hr.clear hpauses (hr.wellFormed_of_step hstep) hstep

theorem settle_turned_of_halt (hreason : t.machine.haltReason? = some r) :
    (h.turned t).settle = h.concluded (.halted r) t := by
  have hhalt : (h.turned t).monitor.halt = ⟨.stopped, true⟩ := by
    unfold turned Monitor.halt
    dsimp only
    split <;> rfl
  rw [settle, show (h.turned t).machine = t.machine from rfl, hreason]
  dsimp only
  rw [hhalt]
  rfl

theorem Ready.cycle_of_ok (hr : h.Ready pauses) (hstep : step h.platform = (.ok (), t)) :
    h.cycle = (h.turned t).settle := by
  unfold cycle
  rw [hstep]
  dsimp only
  rw [grant_turned hr t]

theorem Ready.cycle_of_halt (hr : h.Ready pauses) (hstep : step h.platform = (.ok (), t))
    (hreason : t.machine.haltReason? = some r) : h.cycle = h.concluded (.halted r) t := by
  rw [hr.cycle_of_ok hstep, settle_turned_of_halt hreason]

theorem cycle_of_fault (hstep : step h.platform = (.error (.error f), t)) :
    h.cycle = h.concluded (.failed f) t := by
  unfold cycle
  rw [hstep]
  rfl

theorem cycle_of_crash {c : Crash} (hstep : step h.platform = (.error (.crash c), t)) :
    h.cycle = h.concluded .broken t := by
  unfold cycle
  rw [hstep]
  rfl

theorem Ready.cycle_of_goesOn (hr : h.Ready pauses)
    (hpauses : pauses = true → ¬h.platform.Executes .ebreak) (hgoes : GoesOn h.platform t) :
    h.cycle = h.turned t := by
  have hflags : t.machine.flags = .clear pauses := hgoes.flags.trans hr.clear
  have hreason : t.machine.haltReason? = none := by
    rw [Option.eq_none_iff_forall_ne_some]
    exact fun r hr' => hgoes.2 r ((hr.haltReason?_eq_some_iff hpauses hgoes.1).mp hr')
  have hrequest : t.machine.pauseRequested = false := congrArg Flags.pauseRequested hflags
  rw [hr.cycle_of_ok hgoes.1, settle, show (h.turned t).machine = t.machine from rfl, hreason,
    hrequest]
  rfl

theorem Ready.cycle_of_concludes (hr : h.Ready pauses)
    (hpauses : pauses = true → ¬h.platform.Executes .ebreak) {o : Outcome}
    (hlast : Concludes h.platform o t) : h.cycle = h.concluded o t := by
  cases hlast with
  | failed hstep => exact cycle_of_fault hstep
  | broken hstep => exact cycle_of_crash hstep
  | halted hstep hends =>
    exact hr.cycle_of_halt hstep ((hr.haltReason?_eq_some_iff hpauses hstep).mpr hends)

theorem Ready.turned (hr : h.Ready pauses) (hgoes : GoesOn h.platform t)
    (hon : (h.watch.observe t.machine).2 = []) : (h.turned t).Ready pauses where
  monitor := by
    rw [Hart.turned, if_pos hon]
  going := hr.going
  unscheduled := (hr.unscheduled.observe _).1
  clear := hgoes.flags.trans hr.clear
  wellFormed := hr.wellFormed_of_step hgoes.1

end Hart

end RiscvHart
