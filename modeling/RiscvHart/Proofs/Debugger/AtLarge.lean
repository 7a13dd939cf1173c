import RiscvHart.Debugger.Session
import RiscvHart.Proofs.Hart.WholeRun

/-!
# Debugged harts at large

A debugger only ever pauses a hart between two turns. What is left of a debugged hart when its
pauses are forgotten is a hart that runs by itself, and turn by turn it does what the debugged
hart does.
-/

namespace RiscvHart

open Exec

/-! ## Platforms -/

namespace Flags

def plain (f : Flags) : Flags := { f with pausesOnBreakpoint := false }

end Flags

namespace Platform

variable {σ : Type} {s t : Platform σ} {f g : Flags} {r : HaltReason} {o : Outcome}

/-- The platform without the mark that a debugger is attached. -/
def plain (s : Platform σ) : Platform σ := s.withFlags s.machine.flags.plain

theorem marking_plain (hbreak : ¬s.Executes .ebreak) : s.marking f.plain = (s.marking f).plain := by
  unfold marking
  split
  · next hnext => exact absurd (next?_eq_some_iff.mp hnext) hbreak
  · split <;> rfl
  · rfl

theorem step_plain (hbreak : ¬s.Executes .ebreak) :
    step s.plain = ((step s).1, (step s).2.plain) := by
  rw [plain, step_withFlags, marking_plain hbreak, ← flags_step]
  rfl

theorem Ends.withFlags (h : Ends s t r) : Ends (s.withFlags f) (t.withFlags g) r := by
  cases h with
  | exited hexits => exact .exited hexits
  | breakpoint hbreaks => exact .breakpoint hbreaks
  | selfJump hjumps => exact .selfJump hjumps
  | pcOutOfRange hcode hbreak hjump hout => exact .pcOutOfRange hcode hbreak hjump hout

theorem GoesOn.plain (hbreak : ¬s.Executes .ebreak) (h : GoesOn s t) : GoesOn s.plain t.plain := by
  constructor
  · rw [step_plain hbreak, h.1]
  · intro r hends
    exact h.2 r (hends.withFlags (f := s.machine.flags) (g := t.machine.flags))

theorem Concludes.plain (hbreak : ¬s.Executes .ebreak) (h : Concludes s o t) :
    Concludes s.plain o t.plain := by
  have hstep := step_plain hbreak
  cases h with
  | halted hrun hends =>
    rw [hrun] at hstep
    exact .halted hstep hends.withFlags
  | failed hrun =>
    rw [hrun] at hstep
    exact .failed hstep
  | broken hrun =>
    rw [hrun] at hstep
    exact .broken hstep

end Platform

/-! ## Watches -/

namespace DebugControl

/-- A debugger that has no reason to stop the run and only remembers where it was. -/
def idle (c : DebugControl) : DebugControl := { new with recent := c.recent }

theorem recent_observe (c : DebugControl) (m : Machine) :
    (c.observe m).1.recent = (c.remember m).recent := by
  unfold observe
  dsimp only
  split <;> rfl

theorem breakpoints_remember (c : DebugControl) (m : Machine) :
    (c.remember m).breakpoints = c.breakpoints := by
  unfold remember
  cases m.last <;> rfl

theorem breakpoints_observe (c : DebugControl) (m : Machine) :
    (c.observe m).1.breakpoints = c.breakpoints := by
  rw [← breakpoints_remember c m]
  unfold observe
  dsimp only
  split <;> rfl

theorem observe_idle (c : DebugControl) (m : Machine) :
    c.idle.observe m = ((c.observe m).1.idle, []) := by
  have hremember : c.idle.remember m = (c.remember m).idle := by
    unfold remember
    cases m.last <;> rfl
  have hidle : c.idle.observe m = (c.idle.remember m, []) := by
    unfold observe
    dsimp only
    rw [hremember]
    rfl
  rw [hidle, hremember, idle, idle, recent_observe]

end DebugControl

namespace Watch

/-- The watch of a hart at large, where the debugger is kept to remember things or is not. -/
def atLarge (kept : Bool) (w : Watch) : Watch :=
  { w with debugger := if kept then w.debugger.map DebugControl.idle else Option.none }

theorem Unscheduled.observe_debugger {w : Watch} {c : DebugControl} (h : w.Unscheduled)
    (hc : w.debugger = some c) (m : Machine) :
    (w.observe m).1.debugger = some (c.observe m).1 ∧ (w.observe m).2 = (c.observe m).2 := by
  have hrequests : w.schedule.advance.2 = [] := by
    simp [Schedule.advance, h.stopAt, h.pauseAt]
  simp only [Watch.observe, hc, hrequests, List.nil_append, and_self]

theorem Unscheduled.observe_atLarge {w : Watch} (h : w.Unscheduled) (kept : Bool) (m : Machine) :
    (w.atLarge kept).observe m = ((w.observe m).1.atLarge kept, []) := by
  have hrequests : w.schedule.advance.2 = [] := by
    simp [Schedule.advance, h.stopAt, h.pauseAt]
  cases hdebugger : w.debugger with
  | none => cases kept <;> simp [Watch.observe, atLarge, hdebugger, hrequests]
  | some control =>
    cases kept
    · simp [Watch.observe, atLarge, hdebugger, hrequests]
    · simp [Watch.observe, atLarge, hdebugger, hrequests, DebugControl.observe_idle]

end Watch

namespace Monitor

def unpaused (m : Monitor) : Monitor :=
  { m with state := if m.state = .paused then .running else m.state }

end Monitor

/-! ## Harts -/

namespace Platform

variable {σ : Type} {s t : Platform σ} {o : Outcome}

def atLarge (kept : Bool) (s : Platform σ) : Platform σ := if kept then s else s.plain

theorem GoesOn.atLarge (kept : Bool) (hbreak : ¬s.Executes .ebreak) (h : GoesOn s t) :
    GoesOn (s.atLarge kept) (t.atLarge kept) := by
  cases kept
  · exact h.plain hbreak
  · exact h

theorem Concludes.atLarge (kept : Bool) (hbreak : ¬s.Executes .ebreak) (h : Concludes s o t) :
    Concludes (s.atLarge kept) o (t.atLarge kept) := by
  cases kept
  · exact h.plain hbreak
  · exact h

end Platform

namespace Hart

open Platform

variable {σ : Type} {d e : Hart σ} {t : Platform σ} {o : Outcome} {pauses : Bool}

/-- The hart as it would be if nothing had ever paused it, with the debugger that goes on
remembering things or without it. -/
def atLarge (kept : Bool) (d : Hart σ) : Hart σ :=
  { d with
    platform := d.platform.atLarge kept
    monitor := d.monitor.unpaused
    watch := d.watch.atLarge kept }

theorem Ready.atLarge (hr : d.Ready true) (kept : Bool) : (d.atLarge kept).Ready kept where
  monitor := by
    show d.monitor.unpaused = _
    rw [hr.monitor]
    rfl
  going := hr.going
  unscheduled := ⟨hr.unscheduled.stopAt, hr.unscheduled.pauseAt⟩
  clear := by
    have hclear := hr.clear
    cases kept
    · show d.machine.flags.plain = _
      rw [hclear]
      rfl
    · exact hclear
  wellFormed := by
    cases kept
    · exact hr.wellFormed
    · exact hr.wellFormed

theorem turned_atLarge (hr : d.Ready true) (kept : Bool) (t : Platform σ) :
    (d.turned t).atLarge kept = (d.atLarge kept).turned (t.atLarge kept) := by
  have hobserve : (d.watch.atLarge kept).observe (t.atLarge kept).machine =
      ((d.watch.observe t.machine).1.atLarge kept, []) := by
    have hsame := hr.unscheduled.observe_atLarge kept t.machine
    cases kept
    · exact hsame
    · exact hsame
  have hmonitor : (d.turned t).monitor.unpaused = ⟨.running, true⟩ := by
    unfold turned Monitor.unpaused
    dsimp only
    split <;> rfl
  have hwatch := congrArg Prod.fst hobserve
  have hrequests := congrArg Prod.snd hobserve
  unfold turned at hmonitor ⊢
  unfold atLarge
  dsimp only at hmonitor hwatch hrequests ⊢
  rw [hmonitor, hwatch, hrequests, if_pos rfl]

theorem concluded_atLarge (hr : d.Ready true) (kept : Bool) (o : Outcome) (t : Platform σ) :
    (d.concluded o t).atLarge kept = (d.atLarge kept).concluded o (t.atLarge kept) := by
  cases o with
  | halted r =>
    unfold concluded
    dsimp only
    rw [← turned_atLarge hr kept t]
    cases kept <;> rfl
  | failed f => cases kept <;> rfl
  | broken => cases kept <;> rfl

/-- A turn does what it would do if the debugger were not there to pause the hart after it. -/
theorem Ready.cycle_atLarge (hr : d.Ready true) (hbreak : ¬d.platform.Executes .ebreak)
    (kept : Bool) : d.cycle.atLarge kept = (d.atLarge kept).cycle := by
  have hready := hr.atLarge kept
  have hstill : kept = true → ¬(d.atLarge kept).platform.Executes .ebreak := by
    rintro rfl
    exact hbreak
  rcases goesOn_or_concludes d.platform with ⟨t, hgoes⟩ | ⟨o, t, hlast⟩
  · rw [hr.cycle_of_goesOn (fun _ => hbreak) hgoes, turned_atLarge hr,
      hready.cycle_of_goesOn hstill (hgoes.atLarge kept hbreak)]
  · rw [hr.cycle_of_concludes (fun _ => hbreak) hlast, concluded_atLarge hr,
      hready.cycle_of_concludes hstill (hlast.atLarge kept hbreak)]

/-! ## Runs -/

def turns : Nat → Hart σ → List (Hart σ)
  | 0, _ => []
  | fuel + 1, h =>
    if h.state = .running ∧ h.crashed = false then h :: turns fuel h.cycle else []

/-- A hart with a debugger, between two turns. -/
structure Attended (d : Hart σ) : Prop where
  started : d.monitor.started = true
  unscheduled : d.watch.Unscheduled
  attached : d.watch.debugger ≠ none
  wellFormed : d.machine.memory.WellFormed
  going : d.state ≠ .running → d.crashed = false
  clear : d.state = .running ∨ d.state = .paused → d.crashed = false →
    d.machine.flags = .clear true
  stopped : d.state = .stopped → d.machine.fault = none ∧ d.machine.haltReason ≠ none
  invalid : d.state = .invalid → d.machine.fault ≠ none ∧ d.machine.haltReason = none

theorem Attended.monitor_eq (ha : d.Attended) : d.monitor = ⟨d.state, true⟩ := by
  rw [← ha.started]
  rfl

theorem Attended.ready (ha : d.Attended) (hrunning : d.state = .running)
    (hgoing : d.crashed = false) : d.Ready true where
  monitor := by
    rw [ha.monitor_eq, hrunning]
  going := hgoing
  unscheduled := ha.unscheduled
  clear := ha.clear (Or.inl hrunning) hgoing
  wellFormed := ha.wellFormed

theorem observe_attached {w : Watch} (h : w.debugger ≠ none) (m : Machine) :
    (w.observe m).1.debugger ≠ none := by
  cases hdebugger : w.debugger with
  | none => exact absurd hdebugger h
  | some control => simp [Watch.observe, hdebugger]

theorem Attended.recent_of_atLarge (ha : d.Attended) (he : e.Attended)
    (hsame : d.atLarge true = e.atLarge true) : d.debugger.recent = e.debugger.recent := by
  obtain ⟨c, hc⟩ := Option.ne_none_iff_exists'.mp ha.attached
  obtain ⟨c', hc'⟩ := Option.ne_none_iff_exists'.mp he.attached
  have hidle : d.watch.debugger.map DebugControl.idle = e.watch.debugger.map DebugControl.idle :=
    congrArg (fun h => h.watch.debugger) hsame
  rw [hc, hc', Option.map_some, Option.map_some] at hidle
  rw [debugger, debugger, hc, hc', Option.getD_some, Option.getD_some]
  exact congrArg (fun c => c.recent) (Option.some.inj hidle)

theorem Attended.turned (ha : d.Attended) (hr : d.Ready true) (hgoes : GoesOn d.platform t) :
    (d.turned t).Attended := by
  have hon : (d.turned t).state ≠ .stopped ∧ (d.turned t).state ≠ .invalid := by
    unfold state Hart.turned
    dsimp only
    split <;> decide
  constructor
  · rfl
  · exact (hr.unscheduled.observe _).1
  · exact observe_attached ha.attached _
  · exact hr.wellFormed_of_step hgoes.1
  · exact fun _ => hr.going
  · exact fun _ _ => hgoes.flags.trans hr.clear
  · exact fun h => absurd h hon.1
  · exact fun h => absurd h hon.2

theorem Attended.concluded (ha : d.Attended) (hr : d.Ready true)
    (hlast : Concludes d.platform o t) :
    (d.concluded o t).Attended := by
  obtain ⟨hreason, hfault⟩ := hlast.verdict
  have hnoReason : t.machine.haltReason = none :=
    hreason.trans (congrArg Flags.haltReason hr.clear)
  have hnoFault : t.machine.fault = none := hfault.trans (congrArg Flags.fault hr.clear)
  cases hlast with
  | halted hstep _ =>
    have hwell := hr.wellFormed_of_step hstep
    refine ⟨rfl, (hr.unscheduled.observe _).1, observe_attached ha.attached _, hwell,
      fun _ => hr.going, ?_, fun _ => ⟨hnoFault, Option.some_ne_none _⟩, ?_⟩
    · rintro (h | h) <;> cases h
    · exact fun h => by cases h
  | failed hstep =>
    have hwell := hr.wellFormed_of_step hstep
    refine ⟨rfl, hr.unscheduled, ha.attached, hwell, fun _ => hr.going, ?_, ?_,
      fun _ => ⟨Option.some_ne_none _, hnoReason⟩⟩
    · rintro (h | h) <;> cases h
    · exact fun h => by cases h
  | broken hstep =>
    have hrunning : (d.concluded .broken t).state = .running := by
      rw [state, show (d.concluded .broken t).monitor = _ from hr.monitor]
    constructor
    · exact ha.started
    · exact hr.unscheduled
    · exact ha.attached
    · exact hr.wellFormed_of_step hstep
    · exact fun hnot => absurd hrunning hnot
    · exact fun _ h => by cases h
    · exact fun h => by rw [hrunning] at h; cases h
    · exact fun h => by rw [hrunning] at h; cases h

theorem Attended.cycle (ha : d.Attended) (hrunning : d.state = .running)
    (hgoing : d.crashed = false) (hbreak : ¬d.platform.Executes .ebreak) : d.cycle.Attended := by
  have hr := ha.ready hrunning hgoing
  rcases goesOn_or_concludes d.platform with ⟨t, hgoes⟩ | ⟨o, t, hlast⟩
  · rw [hr.cycle_of_goesOn (fun _ => hbreak) hgoes]
    exact ha.turned hr hgoes
  · rw [hr.cycle_of_concludes (fun _ => hbreak) hlast]
    exact ha.concluded hr hlast

theorem Settled.turns_eq {h : Hart σ} (hs : h.Settled) (fuel : Nat) : h.turns fuel = [] := by
  cases fuel with
  | zero => rfl
  | succ fuel => rw [turns, if_neg (settled_iff.mp hs)]

theorem turns_add (h : Hart σ) (n k : Nat) : h.turns (n + k) = h.turns n ++ (h.run n).turns k := by
  induction n generalizing h with
  | zero => rw [Nat.zero_add, turns, run, List.nil_append]
  | succ n ih =>
    rw [Nat.succ_add_eq_add_succ, Nat.add_succ, turns, turns, run]
    split
    · rw [ih, List.cons_append]
    · next hdone =>
      exact ((settled_iff.mpr hdone).turns_eq k).symm

/-- From one hart to another by turns, which the hart at large takes as well. -/
structure Mirrored (d : Hart σ) (ts : List (Hart σ)) (e : Hart σ) : Prop where
  attended : e.Attended
  reached : ∀ kept, e.atLarge kept = (d.atLarge kept).run ts.length
  visited : ∀ kept, ((d.atLarge kept).turns ts.length).map (fun h => h.cycle.platform) =
    ts.map fun h => h.cycle.platform.atLarge kept

theorem Attended.mirrored_nil (ha : d.Attended) : Mirrored d [] d where
  attended := ha
  reached _ := rfl
  visited _ := rfl

theorem Attended.mirrored_turn (ha : d.Attended) (hrunning : d.state = .running)
    (hgoing : d.crashed = false) (hbreak : ¬d.platform.Executes .ebreak) :
    Mirrored d [d] d.cycle where
  attended := ha.cycle hrunning hgoing hbreak
  reached kept := by
    have hr := ha.ready hrunning hgoing
    rw [hr.cycle_atLarge hbreak kept, List.length_singleton, (hr.atLarge kept).run_succ]
    rfl
  visited kept := by
    have hr := ha.ready hrunning hgoing
    have hready := hr.atLarge kept
    have hturns : (d.atLarge kept).turns 1 = [d.atLarge kept] := by
      rw [turns, if_pos ⟨by rw [state, hready.monitor], hready.going⟩]
      rfl
    rw [List.length_singleton, hturns, List.map_singleton, List.map_singleton,
      ← hr.cycle_atLarge hbreak kept]
    rfl

theorem Mirrored.trans {f : Hart σ} {ts us : List (Hart σ)} (h : Mirrored d ts e)
    (h' : Mirrored e us f) : Mirrored d (ts ++ us) f where
  attended := h'.attended
  reached kept := by
    rw [h'.reached, h.reached, ← run_add, List.length_append]
  visited kept := by
    rw [List.length_append, turns_add, List.map_append, List.map_append, h.visited, ← h.reached,
      h'.visited]

theorem Attended.mirrored_run (ha : d.Attended) (fuel : Nat)
    (hquiet : ∀ h ∈ d.turns fuel, ¬h.platform.Executes .ebreak) :
    Mirrored d (d.turns fuel) (d.run fuel) := by
  induction fuel generalizing d with
  | zero => exact ha.mirrored_nil
  | succ fuel ih =>
    rw [turns] at hquiet ⊢
    rw [run]
    split
    · next hrunning =>
      rw [if_pos hrunning, List.forall_mem_cons] at hquiet
      have hturn := ha.mirrored_turn hrunning.1 hrunning.2 hquiet.1
      exact hturn.trans (ih hturn.attended hquiet.2)
    · exact ha.mirrored_nil

end Hart

end RiscvHart
