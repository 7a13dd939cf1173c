import RiscvHart.Proofs.Debugger.Session

/-!
# Budgets

A budget cuts the run of a debugged hart where it says and nowhere else, so it does not matter
into how many budgets a number of steps is divided.
-/

namespace RiscvHart

open Exec

namespace Hart

open Platform

variable {σ : Type} {d e : Hart σ} {fuel n : Nat}

theorem Settled.atLarge (hsettled : d.Settled) (hover : d.state ≠ .paused) (kept : Bool) :
    (d.atLarge kept).Settled := by
  rcases hsettled with hstate | hcrashed
  · left
    show (d.monitor.unpaused).state ≠ .running
    unfold Monitor.unpaused
    dsimp only
    rw [if_neg (show d.monitor.state ≠ .paused from hover)]
    exact hstate
  · exact Or.inr hcrashed

theorem observe_of_budget {w : Watch} {c : DebugControl} (hw : w.Unscheduled)
    (hdebugger : w.debugger = some c) (hbreakpoints : c.breakpoints = [])
    (hbudget : c.budget = some (n + 1)) (m : Machine) :
    ∃ c', (w.observe m).1.debugger = some c' ∧ c'.breakpoints = [] ∧
      (n = 0 ∧ (w.observe m).2 = [.pause] ∨
        0 < n ∧ (w.observe m).2 = [] ∧ c'.budget = some n) := by
  have hremember : (c.remember m).breakpoints = [] ∧ (c.remember m).budget = some (n + 1) := by
    unfold DebugControl.remember
    cases m.last with
    | none => exact ⟨hbreakpoints, hbudget⟩
    | some e => exact ⟨hbreakpoints, hbudget⟩
  obtain ⟨hobserved, hrequests⟩ := hw.observe_debugger hdebugger m
  rw [hrequests]
  refine ⟨(c.observe m).1, hobserved, (c.breakpoints_observe m).trans hbreakpoints, ?_⟩
  cases n with
  | zero => simp [DebugControl.observe, DebugControl.stopAt, hremember]
  | succ n => simp [DebugControl.observe, DebugControl.stopAt, hremember]

/-- A running hart without breakpoints whose debugger has a number of turns left for it. -/
structure Granted (n : Nat) (d : Hart σ) : Prop extends Attended d where
  running : d.state = .running
  uncrashed : d.crashed = false
  breakpoints : d.debugger.breakpoints = []
  budget : d.debugger.budget = some n

theorem Granted.ready (hg : d.Granted n) : d.Ready true :=
  hg.toAttended.ready hg.running hg.uncrashed

theorem Granted.observe (hg : d.Granted (n + 1)) (m : Machine) :
    ∃ c, (d.watch.observe m).1.debugger = some c ∧ c.breakpoints = [] ∧
      (n = 0 ∧ (d.watch.observe m).2 = [.pause] ∨
        0 < n ∧ (d.watch.observe m).2 = [] ∧ c.budget = some n) := by
  obtain ⟨c, hdebugger⟩ := Option.ne_none_iff_exists'.mp hg.attached
  have hcontrol : d.debugger = c := by rw [debugger, hdebugger, Option.getD_some]
  exact observe_of_budget hg.unscheduled hdebugger (hcontrol ▸ hg.breakpoints)
    (hcontrol ▸ hg.budget) m

theorem Granted.concluded (hg : d.Granted (n + 1)) (o : Outcome) (t : Platform σ) :
    (d.concluded o t).debugger.breakpoints = [] ∧ (d.concluded o t).Settled ∧
      (d.concluded o t).state ≠ .paused := by
  refine ⟨?_, settled_concluded d o t, ?_⟩
  · cases o with
    | halted r =>
      obtain ⟨c, hc, hnone, -⟩ := hg.observe t.machine
      show ((d.watch.observe t.machine).1.debugger.getD .new).breakpoints = []
      rw [hc, Option.getD_some, hnone]
    | failed f | broken => exact hg.breakpoints
  · cases o with
    | halted r => exact fun h => by cases h
    | failed f => exact fun h => by cases h
    | broken =>
      show d.state ≠ .paused
      rw [hg.running]
      decide

/-- A turn uses up one of the turns that are left, and ends the run if there is no other one. -/
theorem Granted.cycle (hg : d.Granted (n + 1)) (hbreak : ¬d.platform.Executes .ebreak) :
    d.cycle.debugger.breakpoints = [] ∧
      (d.cycle.Settled ∧ (d.cycle.state = .paused → n = 0) ∨ 0 < n ∧ d.cycle.Granted n) := by
  have hr := hg.ready
  have hattended := hg.toAttended.cycle hg.running hg.uncrashed hbreak
  rcases goesOn_or_concludes d.platform with ⟨t, hgoes⟩ | ⟨o, t, hlast⟩
  · rw [hr.cycle_of_goesOn (fun _ => hbreak) hgoes] at hattended ⊢
    obtain ⟨c, hc, hnone, hcase⟩ := hg.observe t.machine
    have hcontrol : (d.turned t).debugger = c := by
      rw [debugger, show (d.turned t).watch.debugger = some c from hc, Option.getD_some]
    refine ⟨hcontrol ▸ hnone, ?_⟩
    rcases hcase with ⟨rfl, hpause⟩ | ⟨hpos, hon, hleft⟩
    · refine Or.inl ⟨Or.inl ?_, fun _ => rfl⟩
      rw [state, turned, hpause]
      exact fun h => by cases h
    · refine Or.inr ⟨hpos, hattended, ?_, hg.uncrashed, hcontrol ▸ hnone, hcontrol ▸ hleft⟩
      rw [state, turned, hon]
      rfl
  · rw [hr.cycle_of_concludes (fun _ => hbreak) hlast]
    obtain ⟨hnone, hsettled, hpaused⟩ := hg.concluded o t
    exact ⟨hnone, Or.inl ⟨hsettled, fun h => absurd h hpaused⟩⟩

/-- What a debugged hart without breakpoints is like after a number of turns that
it was allowed. -/
structure Spends (d : Hart σ) (n : Nat) (e : Hart σ) : Prop where
  attended : e.Attended
  settled : e.Settled
  breakpoints : e.debugger.breakpoints = []
  reached : ∀ kept, e.atLarge kept = (d.atLarge kept).run n

theorem Ready.turns_succ {pauses : Bool} (hr : d.Ready pauses) (n : Nat) :
    d.turns (n + 1) = d :: d.cycle.turns n := by
  rw [turns, if_pos ⟨by rw [state, hr.monitor], hr.going⟩]

theorem Granted.spends_run (hg : d.Granted (n + 1))
    (hquiet : ∀ t ∈ (d.atLarge false).turns (n + 1), ¬t.platform.Executes .ebreak) :
    Spends d (n + 1) (d.run (n + 1)) := by
  -- By induction on the turns that are left; after one that ends the run, the others are none.
  induction n generalizing d with
  | zero =>
    have hr := hg.ready
    rw [(hr.atLarge false).turns_succ, List.forall_mem_cons] at hquiet
    obtain ⟨hnone, ⟨hsettled, -⟩ | ⟨hpos, -⟩⟩ := hg.cycle hquiet.1
    · rw [hr.run_succ]
      refine ⟨hg.toAttended.cycle hg.running hg.uncrashed hquiet.1, hsettled, hnone, fun kept => ?_⟩
      rw [(hr.atLarge kept).run_succ, ← hr.cycle_atLarge hquiet.1]
      rfl
    · exact absurd hpos (Nat.lt_irrefl 0)
  | succ n ih =>
    have hr := hg.ready
    rw [(hr.atLarge false).turns_succ, List.forall_mem_cons] at hquiet
    obtain ⟨hbreak, hrest⟩ := hquiet
    have hreached : ∀ kept, (d.atLarge kept).run (n + 1 + 1) =
        (d.cycle.atLarge kept).run (n + 1) := by
      intro kept
      rw [(hr.atLarge kept).run_succ, ← hr.cycle_atLarge hbreak]
    rw [← hr.cycle_atLarge hbreak] at hrest
    rw [hr.run_succ]
    obtain ⟨hnone, ⟨hsettled, hpaused⟩ | ⟨-, hmore⟩⟩ := hg.cycle hbreak
    · have hover : d.cycle.state ≠ .paused := fun h => absurd (hpaused h) (Nat.succ_ne_zero n)
      rw [hsettled.run_eq]
      refine ⟨hg.toAttended.cycle hg.running hg.uncrashed hbreak, hsettled, hnone, fun kept => ?_⟩
      rw [hreached, (hsettled.atLarge hover kept).run_eq]
    · obtain ⟨hattended, hsettled, hnone', hrun⟩ := ih hmore hrest
      exact ⟨hattended, hsettled, hnone', fun kept => (hrun kept).trans (hreached kept).symm⟩

/-- A debugged run without breakpoints and within its budget meets every instruction that the
hart at large meets in as many turns. -/
theorem Granted.quiet_run (hg : d.Granted (n + 1))
    (hquiet : ∀ t ∈ d.turns (n + 1), ¬t.platform.Executes .ebreak) :
    ∀ t ∈ (d.atLarge false).turns (n + 1), ¬t.platform.Executes .ebreak := by
  induction n generalizing d with
  | zero =>
    have hr := hg.ready
    rw [hr.turns_succ, List.forall_mem_cons] at hquiet
    rw [(hr.atLarge false).turns_succ, List.forall_mem_cons]
    exact ⟨hquiet.1, List.forall_mem_nil _⟩
  | succ n ih =>
    have hr := hg.ready
    rw [hr.turns_succ, List.forall_mem_cons] at hquiet
    obtain ⟨hbreak, hrest⟩ := hquiet
    rw [(hr.atLarge false).turns_succ, List.forall_mem_cons, ← hr.cycle_atLarge hbreak]
    refine ⟨hbreak, ?_⟩
    obtain ⟨-, ⟨hsettled, hpaused⟩ | ⟨-, hmore⟩⟩ := hg.cycle hbreak
    · have hover : d.cycle.state ≠ .paused := fun h => absurd (hpaused h) (Nat.succ_ne_zero n)
      rw [(hsettled.atLarge hover false).turns_eq]
      exact List.forall_mem_nil _
    · exact ih hmore hrest

theorem Attended.granted_released (ha : d.Attended) (hpaused : d.state = .paused)
    (hbreakpoints : d.debugger.breakpoints = []) (n : Nat) : (d.released (some n)).Granted n := by
  have hcontrol := ha.debugger_released (some n)
  refine ⟨ha.released hpaused (some n), rfl, ha.going (by rw [hpaused]; decide), ?_, ?_⟩
  · rw [hcontrol]
    exact hbreakpoints
  · rw [hcontrol]
    rfl

/-- What a call with a budget does to a hart without breakpoints. -/
theorem Attended.spends_continueUntil (ha : d.Attended) (hsettled : d.Settled)
    (hbreakpoints : d.debugger.breakpoints = []) (hfuel : n ≤ fuel)
    (hquiet : ∀ t ∈ (d.atLarge false).turns n, ¬t.platform.Executes .ebreak) :
    Spends d n (d.continueUntil fuel n).2 := by
  by_cases hstill : d.state ≠ .paused ∨ n = 0
  · rw [continueUntil_of_still hstill]
    refine ⟨ha, hsettled, hbreakpoints, fun kept => ?_⟩
    rcases hstill with hover | rfl
    · exact ((hsettled.atLarge hover kept).run_eq n).symm
    · rfl
  · obtain ⟨hpaused, hpos⟩ := not_or.mp hstill
    have hpaused := not_not.mp hpaused
    obtain ⟨n, rfl⟩ := Nat.exists_eq_succ_of_ne_zero hpos
    obtain ⟨k, rfl⟩ := Nat.exists_eq_add_of_le hfuel
    have hask : d.ask (n + 1 + k) (.continueUntil (n + 1)) = _ := ha.ask_of_budget hpaused rfl
    have hafter : (d.continueUntil (n + 1 + k) (n + 1)).2 =
        (d.released (some (n + 1))).run (n + 1 + k) := congrArg Prod.snd hask
    have hlarge := ha.atLarge_released hpaused (some (n + 1))
    rw [← hlarge] at hquiet
    obtain ⟨hattended, hdone, hempty, hreached⟩ :=
      (ha.granted_released hpaused hbreakpoints (n + 1)).spends_run hquiet
    rw [hafter, run_add, hdone.run_eq]
    exact ⟨hattended, hdone, hempty, fun kept => by rw [hreached, hlarge]⟩

theorem Attended.quiet_continueUntil (ha : d.Attended) (hsettled : d.Settled)
    (hbreakpoints : d.debugger.breakpoints = []) (hfuel : n ≤ fuel)
    (hquiet : ∀ t ∈ d.turnsOf fuel (.continueUntil n), ¬t.platform.Executes .ebreak) :
    ∀ t ∈ (d.atLarge false).turns n, ¬t.platform.Executes .ebreak := by
  by_cases hpaused : d.state = .paused
  · cases n with
    | zero => exact List.forall_mem_nil _
    | succ n =>
      obtain ⟨k, rfl⟩ := Nat.exists_eq_add_of_le hfuel
      have hturns : d.turnsOf (n + 1 + k) (.continueUntil (n + 1)) =
          (d.released (some (n + 1))).turns (n + 1 + k) := by
        rw [turnsOf, notReady?_eq_none_iff.mpr hpaused]
        rfl
      rw [hturns, turns_add, List.forall_mem_append] at hquiet
      rw [← ha.atLarge_released hpaused (some (n + 1))]
      exact (ha.granted_released hpaused hbreakpoints (n + 1)).quiet_run hquiet.1
  · rw [(hsettled.atLarge hpaused false).turns_eq]
    exact List.forall_mem_nil _

theorem Attended.not_running_of_paused (hd : d.Attended) (hpaused : d.state = .paused)
    (hsettled : e.Settled) (hcrashed : d.crashed = e.crashed) : e.state ≠ .running := by
  have hgoing := hd.going (by rw [hpaused]; decide)
  refine hsettled.resolve_right ?_
  rw [← hcrashed, hgoing]
  decide

theorem Attended.monitor_eq_of_atLarge (hd : d.Attended) (he : e.Attended) (hsettled : d.Settled)
    (hsettled' : e.Settled) (hsame : d.atLarge true = e.atLarge true) : d.monitor = e.monitor := by
  have hcrashed : d.crashed = e.crashed := congrArg (fun h => h.crashed) hsame
  have hstate : (if d.state = .paused then .running else d.state) =
      if e.state = .paused then .running else e.state :=
    congrArg (fun h => h.monitor.state) hsame
  have hsame : d.state = e.state := by
    by_cases hpaused : d.state = .paused
    · by_cases hpaused' : e.state = .paused
      · rw [hpaused, hpaused']
      · rw [if_pos hpaused, if_neg hpaused'] at hstate
        exact absurd hstate.symm (hd.not_running_of_paused hpaused hsettled' hcrashed)
    · by_cases hpaused' : e.state = .paused
      · rw [if_neg hpaused, if_pos hpaused'] at hstate
        exact absurd hstate (he.not_running_of_paused hpaused' hsettled hcrashed.symm)
      · rwa [if_neg hpaused, if_neg hpaused'] at hstate
  rw [hd.monitor_eq, he.monitor_eq, hsame]

/-- Two debugged harts that are nowhere else at large are the same once they are
armed for a call. -/
theorem Attended.eq_of_atLarge (hd : d.Attended) (he : e.Attended) (hsettled : d.Settled)
    (hsettled' : e.Settled) (hbreakpoints : d.debugger.breakpoints = e.debugger.breakpoints)
    (hsame : d.atLarge true = e.atLarge true) :
    (d.modifyDebugger fun c => c.arm none) = e.modifyDebugger fun c => c.arm none := by
  obtain ⟨c, hc⟩ := Option.ne_none_iff_exists'.mp hd.attached
  obtain ⟨c', hc'⟩ := Option.ne_none_iff_exists'.mp he.attached
  have hcontrol : c.arm none = c'.arm none := by
    have hrecent := hd.recent_of_atLarge he hsame
    rw [debugger, debugger, hc, hc', Option.getD_some, Option.getD_some] at hbreakpoints hrecent
    rw [DebugControl.arm, DebugControl.arm, hbreakpoints, hrecent]
  have hdebugger : (d.watch.debugger.map fun c => c.arm none) =
      e.watch.debugger.map fun c => c.arm none := by
    rw [hc, hc', Option.map_some, Option.map_some, hcontrol]
  simp only [Hart.modifyDebugger, Hart.mk.injEq, Watch.mk.injEq]
  exact ⟨congrArg (fun h => h.platform) hsame, congrArg (fun h => h.config) hsame,
    hd.monitor_eq_of_atLarge he hsettled hsettled' hsame,
    ⟨congrArg (fun h => h.watch.schedule) hsame, hdebugger⟩,
    congrArg (fun h => h.listeners) hsame, congrArg (fun h => h.awaited) hsame,
    congrArg (fun h => h.crashed) hsame⟩

theorem Attended.continueUntil_add (ha : d.Attended) {a b : Nat}
    (hbreakpoints : d.debugger.breakpoints = []) (hfuel : a + b ≤ fuel)
    (hquiet : ∀ t ∈ d.turnsOf fuel (.continueUntil (a + b)), ¬t.platform.Executes .ebreak) :
    ((d.after fuel [.continueUntil a, .continueUntil b]).modifyDebugger fun c => c.arm none) =
      (d.after fuel [.continueUntil (a + b)]).modifyDebugger fun c => c.arm none := by
  show ((d.continueUntil fuel a).2.continueUntil fuel b).2.modifyDebugger _ =
    (d.continueUntil fuel (a + b)).2.modifyDebugger _
  by_cases hrunning : d.state = .running
  · have hstill : d.state ≠ .paused := by
      rw [hrunning]
      decide
    rw [continueUntil_of_still (Or.inl hstill), continueUntil_of_still (Or.inl hstill),
      continueUntil_of_still (Or.inl hstill)]
  · -- Both ways lead to where the hart at large is after as many turns as both budgets have.
    have hsettled : d.Settled := Or.inl hrunning
    have hlarge := ha.quiet_continueUntil hsettled hbreakpoints hfuel hquiet
    have hwhole := ha.spends_continueUntil hsettled hbreakpoints hfuel hlarge
    rw [turns_add, List.forall_mem_append] at hlarge
    have hfirst := ha.spends_continueUntil hsettled hbreakpoints (by omega : a ≤ fuel) hlarge.1
    rw [← hfirst.reached] at hlarge
    have hsecond := hfirst.attended.spends_continueUntil hfirst.settled hfirst.breakpoints
      (by omega : b ≤ fuel) hlarge.2
    refine hsecond.attended.eq_of_atLarge hwhole.attended hsecond.settled hwhole.settled
      (hsecond.breakpoints.trans hwhole.breakpoints.symm) ?_
    rw [hsecond.reached, hfirst.reached, hwhole.reached, run_add]

end Hart

end RiscvHart
