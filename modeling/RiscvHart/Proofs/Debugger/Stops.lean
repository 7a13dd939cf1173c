import RiscvHart.Proofs.Debugger.Turns
import RiscvHart.Proofs.Hart.Events
import RiscvHart.Proofs.Hart.Safety
import Mathlib.Data.List.DropRight

/-!
# Where debugged runs stop

A run under a debugger ends with the first step with which there is a reason to stop. Reasons can
come together: what is answered then goes by the one that counts first, and what the hart is left
as does not depend on the answer.
-/

namespace RiscvHart

open Exec

/-! ## Reasons to stop -/

namespace Platform

variable {σ : Type} {s t : Platform σ} {bs : List Word} {last : Prop} {budget : Option Nat}
  {n : Nat}

/-- The reasons for which a run goes no further than the step from a platform, which is the last
step of a budget or not. -/
inductive Stops (bs : List Word) (last : Prop) (s : Platform σ) : Prop where
  | fault {t : Platform σ} {f : Fault} : step s = (.error (.error f), t) → Stops bs last s
  | breakpoint {t : Platform σ} : step s = (.ok (), t) → t.machine.pc.current ∈ bs → Stops bs last s
  | instruction {t : Platform σ} : step s = (.ok (), t) → s.Executes .ebreak → Stops bs last s
  | halt {t : Platform σ} {r : HaltReason} : step s = (.ok (), t) →
    t.machine.haltReason? = some r → Stops bs last s
  | budget {t : Platform σ} : step s = (.ok (), t) → last → Stops bs last s

/-- There is a reason to stop with the `k`-th step. Steps count from one: a breakpoint where a
run starts is none. -/
def StopsAt (bs : List Word) (budget : Option Nat) (s : Platform σ) (k : Nat) : Prop :=
  ∃ n t, k = n + 1 ∧ steps n s = (.ok (), t) ∧ t.Stops bs (budget = some k)

/-- The number of steps up to the first one with which there is a reason to stop. -/
def FirstStop (bs : List Word) (budget : Option Nat) (s : Platform σ) (k : Nat) : Prop :=
  IsLeast {k | s.StopsAt bs budget k} k

theorem Stops.ne_crash (h : s.Stops bs last) (c : Crash) : (step s).1 ≠ .error (.crash c) := by
  intro hcrash
  cases h with
  | fault hstep | breakpoint hstep | instruction hstep | halt hstep | budget hstep =>
    rw [hstep] at hcrash
    cases hcrash

/-- As long as every step has an answer, a run comes to a reason to stop or
takes all its steps. -/
theorem exists_stopsAt_or_steps (hsound : s.Sound) (bs : List Word) (budget : Option Nat)
    (n : Nat) :
    (∃ k ≤ n, s.StopsAt bs budget k) ∨ ∃ t, steps n s = (.ok (), t) ∧ t.Sound := by
  induction n with
  | zero => exact Or.inr ⟨s, rfl, hsound⟩
  | succ n ih =>
    rcases ih with ⟨k, hk, hstops⟩ | ⟨t, hsteps, ht⟩
    · exact Or.inl ⟨k, Nat.le_succ_of_le hk, hstops⟩
    · rcases (step_safe ht).answers with hok | ⟨f, hfault⟩
      · refine Or.inr ⟨(step t).2, ?_, ht.step⟩
        rw [steps_succ_of_ok hsteps, ← hok]
      · exact Or.inl ⟨n + 1, le_refl _, n, t, rfl, hsteps, .fault (Prod.ext hfault rfl)⟩

/-- A budget is enough to come to a stop. -/
theorem exists_firstStop (hsound : s.Sound) (bs : List Word) (hpos : 0 < n) :
    ∃ k ≤ n, s.FirstStop bs (some n) k := by
  have hexists : ∃ k ≤ n, s.StopsAt bs (some n) k := by
    rcases exists_stopsAt_or_steps hsound bs (some n) n with hstops | ⟨u, hsteps, -⟩
    · exact hstops
    · obtain ⟨j, rfl⟩ := Nat.exists_eq_add_of_le' hpos
      obtain ⟨t, hbefore, hstep⟩ := steps_ok_of_succ hsteps
      exact ⟨j + 1, le_refl _, j, t, rfl, hbefore, .budget hstep rfl⟩
  classical
  obtain ⟨m, hm, hstops⟩ := hexists
  have hsome : ∃ k, s.StopsAt bs (some n) k := ⟨m, hstops⟩
  exact ⟨Nat.find hsome, (Nat.find_min' hsome hstops).trans hm, Nat.find_spec hsome,
    fun k hk => Nat.find_min' hsome hk⟩

end Platform

/-! ## What a debugger makes of them -/

namespace DebugControl

variable {c : DebugControl} {m : Machine} {pc : Word}

theorem stopAt_remember (c : DebugControl) (m : Machine) (pc : Word) :
    (c.remember m).stopAt pc = c.stopAt pc := by
  unfold remember
  cases m.last <;> rfl

theorem observe_eq (c : DebugControl) (m : Machine) :
    c.observe m =
      ({ c.remember m with
          budget := (c.stopAt m.pc.current).2
          stop := (c.stopAt m.pc.current).1.or (c.remember m).stop },
        if (c.stopAt m.pc.current).1 = none then [] else [.pause]) := by
  unfold observe
  dsimp only
  rw [stopAt_remember]
  split
  · next h => simp [h]
  · next h => simp [h]

theorem stopAt_of_mem (h : pc ∈ c.breakpoints) :
    c.stopAt pc = (some (.breakpointHit pc), none) := by
  rw [stopAt, if_pos (List.contains_iff_mem.mpr h)]

theorem stopAt_of_last (h : pc ∉ c.breakpoints) (hlast : c.budget = some 1) :
    c.stopAt pc = (some (.stepsCompleted pc), none) := by
  rw [stopAt, if_neg (fun hmem => h (List.contains_iff_mem.mp hmem)), hlast]
  rfl

theorem stopAt_of_more (h : pc ∉ c.breakpoints) (hleft : c.budget ≠ some 0)
    (hlast : c.budget ≠ some 1) : c.stopAt pc = (none, c.budget.map (· - 1)) := by
  rw [stopAt, if_neg (fun hmem => h (List.contains_iff_mem.mp hmem))]
  cases hbudget : c.budget with
  | none => rfl
  | some left =>
    have hmore : ¬left ≤ 1 := by
      rw [hbudget, ne_eq, Option.some.injEq] at hleft hlast
      omega
    dsimp only
    rw [if_neg hmore]
    rfl

theorem stopAt_eq_none_iff (hleft : c.budget ≠ some 0) :
    (c.stopAt pc).1 = none ↔ pc ∉ c.breakpoints ∧ c.budget ≠ some 1 := by
  constructor
  · intro hnone
    by_contra hstop
    rw [not_and_or, not_not, not_not] at hstop
    by_cases hmem : pc ∈ c.breakpoints
    · rw [stopAt_of_mem hmem] at hnone
      cases hnone
    · rw [stopAt_of_last hmem (hstop.resolve_left hmem)] at hnone
      cases hnone
  · rintro ⟨hmem, hlast⟩
    rw [stopAt_of_more hmem hleft hlast]

theorem stop_observe (h : c.stop = none) :
    (c.observe m).1.stop = (c.stopAt m.pc.current).1 := by
  have hremember : (c.remember m).stop = none := by
    rw [← h]
    unfold remember
    cases m.last <;> rfl
  rw [observe_eq, hremember, Option.or_none]

theorem observe_eq_nil_iff : (c.observe m).2 = [] ↔ (c.stopAt m.pc.current).1 = none := by
  rw [observe_eq, ite_eq_left_iff]
  simp

theorem budget_observe : (c.observe m).1.budget = (c.stopAt m.pc.current).2 := by
  rw [observe_eq]

end DebugControl

namespace Hart

open Platform

variable {σ : Type} {d e : Hart σ} {t u : Platform σ} {bs : List Word} {left budget : Option Nat}
  {last : Prop} {n k fuel : Nat} {call : DebugCall}

/-- What a call comes to whose run goes no further than the step from a platform. -/
structure StopsWith (bs : List Word) (last : Prop) (t : Platform σ) (x : DebugAnswer × Hart σ) :
    Prop where
  fault : ∀ f u, step t = (.error (.error f), u) →
    x.1 = .stop (.error (.targetFault f)) ∧ x.2.state = .invalid ∧
      x.2.platform = { u with
        machine := { u.machine.emit (.remarked (.hartFault f)) with fault := some f } }
  /-- A breakpoint counts before all other reasons. -/
  breakpoint : ∀ u, step t = (.ok (), u) → u.machine.pc.current ∈ bs →
    x.1 = .stop (.ok (.breakpointHit u.machine.pc.current))
  budget : ∀ u, step t = (.ok (), u) → u.machine.pc.current ∉ bs → last →
    x.1 = .stop (.ok (.stepsCompleted u.machine.pc.current))
  finished : ∀ u r, step t = (.ok (), u) → u.machine.pc.current ∉ bs → ¬last →
    u.machine.haltReason? = some r → x.1 = .stop (.error .finished)
  instruction : ∀ u, step t = (.ok (), u) → u.machine.pc.current ∉ bs → ¬last →
    u.machine.haltReason? = none → x.1 = .stop (.ok (.breakpointHit u.machine.pc.current))
  /-- A run that is over is over, whatever has been answered. -/
  stopped : ∀ u r, step t = (.ok (), u) → u.machine.haltReason? = some r →
    x.2.state = .stopped ∧
      x.2.platform = { u with machine := { u.machine with haltReason := some r } }
  paused : ∀ u, step t = (.ok (), u) → u.machine.haltReason? = none →
    x.2.state = .paused ∧
      x.2.platform = { u with machine := { u.machine with pauseRequested := false } }

theorem stopReached_of_stop {stop : DebugStop} (h : d.debugger.stop = some stop) :
    d.stopReached = .ok stop := by
  rw [stopReached, h]

theorem stopReached_of_stopped (h : d.debugger.stop = none) (hstate : d.state = .stopped) :
    d.stopReached = .error .finished := by
  rw [stopReached, h]
  dsimp only
  rw [hstate]

theorem stopReached_of_paused (h : d.debugger.stop = none) (hstate : d.state = .paused) :
    d.stopReached = .ok (.breakpointHit d.machine.pc.current) := by
  rw [stopReached, h]
  dsimp only
  rw [hstate]

theorem stopReached_of_invalid (h : d.debugger.stop = none) (hstate : d.state = .invalid) :
    d.stopReached = .error d.targetFault := by
  rw [stopReached, h]
  dsimp only
  rw [hstate]

/-! ## Turns of a run -/

/-- A running hart with some breakpoints and some steps left, whose debugger has
not stopped it. -/
structure Armed (bs : List Word) (left : Option Nat) (d : Hart σ) : Prop extends Attended d where
  running : d.state = .running
  uncrashed : d.crashed = false
  breakpoints : d.debugger.breakpoints = bs
  budget : d.debugger.budget = left
  unstopped : d.debugger.stop = none

theorem Armed.ready (ha : d.Armed bs left) : d.Ready true :=
  ha.toAttended.ready ha.running ha.uncrashed

theorem Attended.armed_released (ha : d.Attended) (hpaused : d.state = .paused)
    (budget : Option Nat) : (d.released budget).Armed d.debugger.breakpoints budget where
  toAttended := ha.released hpaused budget
  running := rfl
  uncrashed := ha.going (by rw [hpaused]; decide)
  breakpoints := by
    rw [ha.debugger_released]
    rfl
  budget := by
    rw [ha.debugger_released]
    rfl
  unstopped := by
    rw [ha.debugger_released]
    rfl

theorem Armed.cycle_of_goesOn (ha : d.Armed bs left) (hleft : left ≠ some 0)
    (hstep : step d.platform = (.ok (), t)) (hon : ¬d.platform.Stops bs (left = some 1)) :
    d.cycle.Armed bs (left.map (· - 1)) ∧ d.cycle.platform = t := by
  have hr := ha.ready
  have hreason : t.machine.haltReason? = none :=
    Option.eq_none_iff_forall_ne_some.mpr fun r hr => hon (.halt hstep hr)
  have hrequest : t.machine.pauseRequested = false :=
    Bool.eq_false_iff.mpr fun h => hon (.instruction hstep ((hr.pauseRequested_iff hstep).mp h))
  have hstopAt : d.debugger.stopAt t.machine.pc.current = (none, left.map (· - 1)) := by
    rw [← ha.budget]
    refine DebugControl.stopAt_of_more ?_ ?_ ?_
    · rw [ha.breakpoints]
      exact fun hmem => hon (.breakpoint hstep hmem)
    · rwa [ha.budget]
    · rw [ha.budget]
      exact fun hlast => hon (.budget hstep hlast)
  have hobserve := ha.toAttended.observe_debugger t.machine
  have hcontrol : (d.carriedOn t).debugger = (d.debugger.observe t.machine).1 := hobserve.1
  have hrunning : (d.carriedOn t).state = .running := by
    have hquiet : (d.debugger.observe t.machine).2 = [] := by
      rw [DebugControl.observe_eq_nil_iff, hstopAt]
    rw [state, carriedOn, hrequest, hobserve.2, hquiet]
    rfl
  rw [hr.cycle_of_on hstep hreason]
  refine ⟨⟨ha.toAttended.turn hr (.on hstep hreason), hrunning, ha.uncrashed, ?_, ?_, ?_⟩, ?_⟩
  · rw [hcontrol, DebugControl.breakpoints_observe, ha.breakpoints]
  · rw [hcontrol, DebugControl.budget_observe, hstopAt]
  · rw [hcontrol, DebugControl.stop_observe ha.unstopped, hstopAt]
  · rw [carriedOn, ← hrequest]

/-- The answer after a step that led somewhere, by what the debugger has found there and what the
hart is left as. -/
theorem Armed.stopsWith_of_ok (ha : d.Armed bs left) (hleft : left ≠ some 0)
    (hstep : step d.platform = (.ok (), t))
    (hcontrol : e.debugger = (d.debugger.observe t.machine).1)
    (hpc : e.machine.pc.current = t.machine.pc.current)
    (hstopped : ∀ r, t.machine.haltReason? = some r → e.state = .stopped ∧
      e.platform = { t with machine := { t.machine with haltReason := some r } })
    (hpaused : t.machine.haltReason? = none → e.state = .paused ∧
      e.platform = { t with machine := { t.machine with pauseRequested := false } }) :
    StopsWith bs (left = some 1) d.platform (.stop e.stopReached, e) := by
  have hstop : e.debugger.stop = (d.debugger.stopAt t.machine.pc.current).1 := by
    rw [hcontrol, DebugControl.stop_observe ha.unstopped]
  have hmore : t.machine.pc.current ∉ bs → left ≠ some 1 → e.debugger.stop = none := by
    intro hnot hlast
    rw [hstop, DebugControl.stopAt_of_more (by rwa [ha.breakpoints]) (by rwa [ha.budget])
      (by rwa [ha.budget])]
  have hsame : ∀ u, step d.platform = (.ok (), u) → u = t := by
    intro u hu
    exact congrArg Prod.snd (hu.symm.trans hstep)
  constructor
  · intro f u hfault
    rw [hstep] at hfault
    cases hfault
  · intro u hu hmem
    obtain rfl := hsame u hu
    rw [stopReached_of_stop (hstop.trans _)]
    rw [DebugControl.stopAt_of_mem (by rwa [ha.breakpoints])]
  · intro u hu hnot hlast
    obtain rfl := hsame u hu
    rw [stopReached_of_stop (hstop.trans _)]
    rw [DebugControl.stopAt_of_last (by rwa [ha.breakpoints]) (by rwa [ha.budget])]
  · intro u r hu hnot hlast hreason
    obtain rfl := hsame u hu
    rw [stopReached_of_stopped (hmore hnot hlast) (hstopped r hreason).1]
  · intro u hu hnot hlast hreason
    obtain rfl := hsame u hu
    rw [stopReached_of_paused (hmore hnot hlast) (hpaused hreason).1, hpc]
  · intro u r hu hreason
    obtain rfl := hsame u hu
    exact hstopped r hreason
  · intro u hu hreason
    obtain rfl := hsame u hu
    exact hpaused hreason

/-- With a reason to stop and none to end the run, somebody has asked for a pause. -/
theorem Armed.paused_carriedOn (ha : d.Armed bs left) (hleft : left ≠ some 0)
    (hstep : step d.platform = (.ok (), t)) (hreason : t.machine.haltReason? = none)
    (hstops : d.platform.Stops bs (left = some 1)) : (d.carriedOn t).state = .paused := by
  have hsame : ∀ {u}, step d.platform = (.ok (), u) → u = t := fun hu =>
    congrArg Prod.snd (hu.symm.trans hstep)
  have hasked : ¬((d.watch.observe t.machine).2 = [] ∧ t.machine.pauseRequested = false) := by
    rw [(ha.toAttended.observe_debugger t.machine).2, DebugControl.observe_eq_nil_iff,
      DebugControl.stopAt_eq_none_iff (by rwa [ha.budget]), ha.breakpoints, ha.budget]
    rintro ⟨⟨hnot, hmore⟩, hrequest⟩
    cases hstops with
    | fault hfault =>
      rw [hstep] at hfault
      cases hfault
    | breakpoint hu hmem => exact hnot (hsame hu ▸ hmem)
    | instruction hu hbreak =>
      rw [(ha.ready.pauseRequested_iff hstep).mpr hbreak] at hrequest
      cases hrequest
    | halt hu hr =>
      obtain rfl := hsame hu
      rw [hreason] at hr
      cases hr
    | budget hu hlast => exact hmore hlast
  rw [state, carriedOn]
  exact if_neg hasked

theorem Armed.stopsWith_of_fault {f : Fault} (ha : d.Armed bs left)
    (hstep : step d.platform = (.error (.error f), t)) :
    StopsWith bs (left = some 1) d.platform
      (.stop (d.concluded (.failed f) t).stopReached, d.concluded (.failed f) t) := by
  have hnowhere : ∀ u, step d.platform ≠ (.ok (), u) := by
    intro u hu
    rw [hstep] at hu
    cases hu
  constructor
  · intro f' u hfault
    rw [hstep] at hfault
    cases hfault
    rw [stopReached_of_invalid (d := d.concluded (.failed f) t) ha.unstopped rfl]
    exact ⟨rfl, rfl, rfl⟩
  · exact fun u hu => absurd hu (hnowhere u)
  · exact fun u hu => absurd hu (hnowhere u)
  · exact fun u _ hu => absurd hu (hnowhere u)
  · exact fun u hu => absurd hu (hnowhere u)
  · exact fun u _ hu => absurd hu (hnowhere u)
  · exact fun u hu => absurd hu (hnowhere u)

theorem Armed.cycle_of_stops (ha : d.Armed bs left) (hleft : left ≠ some 0)
    (hstops : d.platform.Stops bs (left = some 1)) :
    d.cycle.state ≠ .running ∧
      StopsWith bs (left = some 1) d.platform (.stop d.cycle.stopReached, d.cycle) := by
  have hr := ha.ready
  cases hstep : step d.platform with
  | mk result t =>
    obtain (f | c) | _ := result
    · rw [cycle_of_fault hstep]
      refine ⟨?_, ha.stopsWith_of_fault hstep⟩
      show ExecutionState.invalid ≠ .running
      decide
    · exact absurd (congrArg Prod.fst hstep) (hstops.ne_crash c)
    · have hcontrol := (ha.toAttended.observe_debugger t.machine).1
      cases hreason : t.machine.haltReason? with
      | none =>
        rw [hr.cycle_of_on hstep hreason]
        have hpaused := ha.paused_carriedOn hleft hstep hreason hstops
        refine ⟨?_, ha.stopsWith_of_ok hleft hstep hcontrol rfl ?_ ?_⟩
        · rw [hpaused]
          decide
        · intro r hr
          rw [hreason] at hr
          cases hr
        · exact fun _ => ⟨hpaused, rfl⟩
      | some r =>
        rw [hr.cycle_of_halt hstep hreason]
        refine ⟨?_, ha.stopsWith_of_ok hleft hstep hcontrol rfl ?_ ?_⟩
        · show ExecutionState.stopped ≠ .running
          decide
        · intro r' hr'
          rw [hreason] at hr'
          cases hr'
          exact ⟨rfl, rfl⟩
        · intro hnone
          rw [hreason] at hnone
          cases hnone

/-! ## Runs -/

theorem last_iff : left.map (· - n) = some 1 ↔ left = some (n + 1) := by
  cases left with
  | none => simp
  | some m =>
    rw [Option.map_some, Option.some.injEq, Option.some.injEq]
    omega

/-- A run has not stopped with any of its first `n` steps, which have led to a platform. -/
structure Underway (bs : List Word) (budget : Option Nat) (d : Hart σ) (n : Nat) (t : Platform σ) :
    Prop where
  armed : (d.run n).Armed bs (budget.map (· - n))
  left : budget.map (· - n) ≠ some 0
  platform : (d.run n).platform = t
  visited : (d.turns n).map (fun h => h.platform) = starts n d.platform

theorem Armed.turns_one (ha : d.Armed bs left) : d.turns 1 = [d] := by
  rw [ha.ready.turns_succ]
  rfl

theorem Underway.run_succ (h : Underway bs budget d n t) : d.run (n + 1) = (d.run n).cycle := by
  rw [run_add, h.armed.ready.run_succ]
  rfl

theorem Underway.visited_succ (h : Underway bs budget d n t)
    (hsteps : steps n d.platform = (.ok (), t)) :
    (d.turns (n + 1)).map (fun h => h.platform) = starts (n + 1) d.platform := by
  rw [turns_add, List.map_append, h.visited, h.armed.turns_one,
    starts_succ_of_ok hsteps, ← h.platform]
  rfl

theorem Armed.underway (ha : d.Armed bs budget) (hbudget : budget ≠ some 0)
    (hsteps : steps n d.platform = (.ok (), t))
    (hon : ∀ k ≤ n, ¬d.platform.StopsAt bs budget k) : Underway bs budget d n t := by
  have hunspent : budget.map (· - 0) = budget := by cases budget <;> rfl
  induction n generalizing t with
  | zero =>
    cases hsteps
    exact ⟨by rwa [hunspent], by rwa [hunspent], rfl, rfl⟩
  | succ n ih =>
    obtain ⟨u, hbefore, hstep⟩ := steps_ok_of_succ hsteps
    have hunderway := ih hbefore fun k hk => hon k (Nat.le_succ_of_le hk)
    have hvisited := hunderway.visited_succ hbefore
    have hrun := hunderway.run_succ
    obtain ⟨harmed, hleft, rfl, -⟩ := hunderway
    have hgoes : ¬(d.run n).platform.Stops bs (budget.map (· - n) = some 1) := by
      rw [last_iff]
      exact fun hstops => hon (n + 1) (le_refl _) ⟨n, _, rfl, hbefore, hstops⟩
    obtain ⟨hcycle, hplatform⟩ := harmed.cycle_of_goesOn hleft hstep hgoes
    have hspent : (budget.map (· - n)).map (· - 1) = budget.map (· - (n + 1)) := by
      rw [Option.map_map]
      rfl
    rw [hspent] at hcycle
    refine ⟨hrun ▸ hcycle, ?_, hrun ▸ hplatform, hvisited⟩
    -- A budget that was used up by now would have been a reason to stop.
    intro hzero
    have hlast : budget.map (· - n) = some 1 := by
      cases budget with
      | none => cases hzero
      | some m =>
        simp only [Option.map_some, Option.some.injEq, ne_eq] at hzero hleft ⊢
        omega
    exact hgoes (.budget hstep hlast)

/-- What the rest of the run is if the next step gives a reason to stop. -/
theorem Underway.stop (h : Underway bs budget d n t) (hsteps : steps n d.platform = (.ok (), t))
    (hstops : t.Stops bs (budget = some (n + 1))) (hfuel : n + 1 ≤ fuel) :
    (d.turns fuel).map (fun h => h.platform) = starts (n + 1) d.platform ∧
      StopsWith bs (budget = some (n + 1)) t (.stop (d.run fuel).stopReached, d.run fuel) := by
  have hvisited := h.visited_succ hsteps
  have hrun := h.run_succ
  obtain ⟨harmed, hleft, rfl, -⟩ := h
  obtain ⟨m, rfl⟩ := Nat.exists_eq_add_of_le hfuel
  rw [← last_iff] at hstops ⊢
  obtain ⟨hover, hstop⟩ := harmed.cycle_of_stops hleft hstops
  have hsettled : (d.run (n + 1)).Settled := Or.inl (hrun ▸ hover)
  constructor
  · rw [turns_add, hsettled.turns_eq, List.append_nil, hvisited]
  · rw [run_add, hsettled.run_eq, hrun]
    exact hstop

/-! ## Calls and sessions -/

/-- What a call makes of a paused hart whose run it lets take a number of
steps, or any number. -/
structure Obeys (call : DebugCall) (budget : Option Nat) (d : Hart σ) : Prop where
  /-- As long as there is no reason to stop, the run goes on. -/
  goesOn : ∀ n t, steps n d.platform = (.ok (), t) →
    (∀ k ≤ n, ¬d.platform.StopsAt d.debugger.breakpoints budget k) →
    (d.turnsOf n call).map (fun h => h.platform) = starts n d.platform ∧
      (d.ask n call).2.state = .running ∧ (d.ask n call).2.platform = t
  /-- The first step with which there is one is the last. -/
  stops : ∀ k, d.platform.FirstStop d.debugger.breakpoints budget k →
    ∃ n t, k = n + 1 ∧ steps n d.platform = (.ok (), t) ∧
      ∀ fuel, k ≤ fuel → (d.turnsOf fuel call).length = k ∧
        (d.turnsOf fuel call).map (fun h => h.platform) = starts k d.platform ∧
        StopsWith d.debugger.breakpoints (budget = some k) t (d.ask fuel call)

/-- How a session goes. -/
structure Conducted (d : Hart σ) (fuel : Nat) (calls : List DebugCall) : Prop where
  breakpoints : ∀ addr, addr ∈ (d.after fuel calls).debugger.breakpoints ↔ Standing addr calls
  history : (d.after fuel calls).debugger.history =
    (completed (d.sessionTurns fuel calls)).rtake DebugControl.historyLength
  obeys : (d.after fuel calls).state = .paused → ∀ call budget, call.budget? = some budget →
    (d.after fuel calls).Obeys call budget

theorem budget?_ne_zero : call.budget? ≠ some (some 0) := by
  unfold DebugCall.budget?
  split
  · decide
  · split
    · simp
    · next hsteps => simpa using hsteps
  · simp
  · simp

theorem turnsOf_of_budget (hpaused : d.state = .paused) (hbudget : call.budget? = some budget) :
    d.turnsOf fuel call = (d.released budget).turns fuel := by
  rw [turnsOf, notReady?_eq_none_iff.mpr hpaused, hbudget]

theorem Attended.obeys (ha : d.Attended) (hpaused : d.state = .paused)
    (hbudget : call.budget? = some budget) : d.Obeys call budget := by
  have harmed := ha.armed_released hpaused budget
  have hzero : budget ≠ some 0 := by
    rintro rfl
    exact budget?_ne_zero hbudget
  constructor
  · intro n t hsteps hon
    have hunderway := harmed.underway hzero hsteps hon
    rw [turnsOf_of_budget hpaused hbudget, ha.ask_of_budget hpaused hbudget]
    exact ⟨hunderway.visited, hunderway.armed.running, hunderway.platform⟩
  · rintro k ⟨⟨n, t, rfl, hsteps, hstops⟩, hleast⟩
    refine ⟨n, t, rfl, hsteps, fun fuel hfuel => ?_⟩
    have hunderway := harmed.underway hzero hsteps fun k hk hearlier =>
      absurd (hleast hearlier) (by omega)
    obtain ⟨hvisited, hstop⟩ := hunderway.stop hsteps hstops hfuel
    rw [turnsOf_of_budget hpaused hbudget, ha.ask_of_budget hpaused hbudget]
    refine ⟨?_, hvisited, hstop⟩
    rw [← List.length_map (fun h => h.platform), hvisited]
    exact length_starts_succ_of_ok hsteps

theorem conducted_of_recalls (h : Recalls [] d) (hnone : d.debugger.breakpoints = []) (fuel : Nat)
    (calls : List DebugCall) : Conducted d fuel calls where
  breakpoints _ := h.mem_breakpoints_after fuel hnone calls
  history := by
    rw [DebugControl.history, (h.after fuel calls).recent, List.nil_append,
      List.rtake_eq_reverse_take_reverse]
  obeys hpaused _ _ hbudget := (h.after fuel calls).toAttended.obeys hpaused hbudget

/-! ## Where no run breaks off -/

theorem Sturdy.initPaused {args : ProcessArgs} {result : Except Fault Unit} (hs : d.Sturdy)
    (hinit : d.initPaused args = .ok (result, e)) : e.Sturdy := by
  have hbudgeted : (d.machine.bootstrap args d.config).2.memory.Budgeted
      d.machine.memory.capacity :=
    Machine.budgeted_bootstrap args d.config d.machine ⟨hs.sound.wellFormed, rfl⟩
  have hsound : ∀ s : Platform σ, s.machine.memory = (d.machine.bootstrap args d.config).2.memory →
      s.kernel.host = d.platform.kernel.host → s.Sound := by
    intro s hmemory hhost
    rw [← hmemory] at hbudgeted
    refine ⟨hbudgeted.toWellFormed, ?_, ?_⟩
    · rw [hbudgeted.budget]
      exact hs.sound.affordable
    · rw [hhost]
      exact hs.sound.honest
  unfold Hart.initPaused Hart.start at hinit
  split at hinit
  · cases hinit
    exact hs
  · split at hinit
    · cases hinit
    · next hboot =>
      cases hinit
      exact ⟨hsound _ (by rw [hboot]; rfl) rfl, hs.going⟩
    · next hboot =>
      dsimp only at hinit
      split at hinit
      · cases hinit
        exact ⟨hsound _ (by rw [hboot]; rfl) rfl, hs.going⟩
      · cases hinit
        exact ⟨hsound _ (by rw [hboot]; rfl) rfl, hs.going⟩

theorem Sturdy.ask (hs : d.Sturdy) (ha : d.Attended) (fuel : Nat) (call : DebugCall) :
    (d.ask fuel call).2.Sturdy := by
  by_cases hgoes : ∃ budget, d.notReady? = none ∧ call.budget? = some budget
  · obtain ⟨budget, hready, hbudget⟩ := hgoes
    have hreleased : (d.released budget).Sturdy := hs.of_eq rfl rfl rfl
    rw [ha.ask_of_budget (notReady?_eq_none_iff.mp hready) hbudget]
    exact hreleased.run fuel
  · have hstill : Mirrored d [] (d.ask fuel call).2 :=
      ha.ask_of_still (still_of_other fun budget hready hbudget => hgoes ⟨budget, hready, hbudget⟩)
    have hsame := hstill.reached true
    exact hs.of_eq (congrArg (fun h => h.platform.machine.memory) hsame)
      (congrArg (fun h => h.platform.kernel.host) hsame) (congrArg (fun h => h.crashed) hsame)

theorem Recalls.sturdy_after {pcs : List Word} (h : Recalls pcs d) (hs : d.Sturdy) (fuel : Nat)
    (calls : List DebugCall) : (d.after fuel calls).Sturdy := by
  induction calls generalizing d pcs with
  | nil => exact hs
  | cons call rest ih => exact ih (h.ask fuel call) (hs.ask h.toAttended fuel call)

/-- Whatever has been asked of a debugger, its next call executes the instructions up to the
first reason to stop, and reports it. -/
theorem Fresh.conducted {h : Hart σ} (hf : h.Fresh) (args : ProcessArgs) :
    ∃ a, h.attachDebugger = .ok a ∧
      ∀ result d, a.initPaused args = .ok (result, d) → ∀ fuel calls,
        Conducted d fuel calls ∧
          (h.platform.Sound → ∀ n, 0 < n → ∃ k ≤ n, (d.after fuel calls).platform.FirstStop
            (d.after fuel calls).debugger.breakpoints (some n) k) := by
  refine ⟨h.withDebugger, hf.attachDebugger_eq, fun result d hinit fuel calls => ?_⟩
  obtain ⟨hrecalls, hnone⟩ := hf.recalls_of_initPaused hinit
  refine ⟨conducted_of_recalls hrecalls hnone fuel calls, fun hsound n hpos => ?_⟩
  have hdebugged : h.withDebugger.Sturdy := ⟨hsound.of_eq rfl rfl, hf.going⟩
  exact exists_firstStop
    (hrecalls.sturdy_after (hdebugged.initPaused hinit) fuel calls).sound _ hpos

/-- A hart with a program that has a breakpoint instruction and ends with a jump to itself. -/
def pausing : Hart Unit :=
  .new (MemoryRequest.performAll
    [.allocate 0x1000 0x100, .write .word 0x1000 0x00100513, .write .word 0x1004 0x00100073,
      .write .word 0x1008 0x00100513, .write .word 0x100C 0x0000006f]
    (.start (.empty 0x10000000) 0x1000)).memory 0x1000 .standard .unsupported ()

/-- A session in which reasons to stop come together: a breakpoint behind a breakpoint
instruction, and the end of the program at the last step of a budget. -/
def pausingSession : List DebugCall :=
  [.setBreakpoint 0x1000, .setBreakpoint 0x1008, .continueUntil 5, .continueUntil 2, .history,
    .stepOnce]

def pausingAnswers : List DebugAnswer :=
  [.changed true, .changed true, .stop (.ok (.breakpointHit 0x1008)),
    .stop (.ok (.stepsCompleted 0x100C)), .history [0x1000, 0x1004, 0x1008, 0x100C],
    .stop (.error .finished)]

theorem conducted_pausing : pausing.Fresh ∧ pausing.platform.Sound ∧
    ∃ a d, pausing.attachDebugger = .ok a ∧ a.initPaused ⟨[], []⟩ = .ok (.ok (), d) ∧
      (d.session 10 pausingSession).map (fun x => x.1) = pausingAnswers ∧
      Conducted d 10 (pausingSession.take 3) ∧
      (d.after 10 (pausingSession.take 3)).state = .paused ∧
      ∃ k ≤ 2, (d.after 10 (pausingSession.take 3)).platform.FirstStop
        (d.after 10 (pausingSession.take 3)).debugger.breakpoints (some 2) k := by
  have hwell : pausing.machine.memory.WellFormed :=
    MemoryRequest.wellFormed_performAll _ _ _ (.start (.empty 0x10000000) 0x1000)
  have hfresh : pausing.Fresh := fresh_new hwell _ _ _ _ []
  have hsound : pausing.platform.Sound := by
    refine ⟨hwell, by decide +kernel, fun _ bytes _ => ?_⟩
    show Errno.notImplemented.result ≤ _
    exact le_trans (by decide) (Int.natCast_nonneg bytes.length)
  obtain ⟨a, hattach, hconducted⟩ := hfresh.conducted ⟨[], []⟩
  have hdebugged : a = pausing.withDebugger :=
    Except.ok.inj (hattach.symm.trans hfresh.attachDebugger_eq)
  have hseen : (a.initPaused ⟨[], []⟩).map (fun x =>
      (x.1, (x.2.session 10 pausingSession).map (fun x => x.1),
        (x.2.after 10 (pausingSession.take 3)).state)) = .ok (.ok (), pausingAnswers, .paused) := by
    rw [hdebugged]
    decide +kernel
  obtain ⟨⟨result, d⟩, hinit, hall⟩ := Except.map_eq_ok_iff.mp hseen
  obtain ⟨rfl, hanswers, hpaused⟩ := by simpa only [Prod.mk.injEq] using hall
  obtain ⟨hsession, hbounded⟩ := hconducted _ _ hinit 10 (pausingSession.take 3)
  exact ⟨hfresh, hsound, a, d, hattach, hinit, hanswers, hsession, hpaused,
    hbounded hsound 2 (by decide)⟩

end Hart

end RiscvHart
