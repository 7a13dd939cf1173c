import RiscvHart.Proofs.Debugger.Retrace

/-!
# Turns of debugged harts

A breakpoint instruction pauses a debugged hart as a stop of the debugger does. Whatever its
turns are, the hart stays in order for the next call, its breakpoints are those that were asked
for, and the debugger remembers the last of the instructions that were completed.
-/

namespace RiscvHart

open Exec

/-! ## What a debugger sees -/

namespace DebugControl

variable {c : DebugControl} {m : Machine} {addr : Word}

theorem recent_remember {e : Executed} (h : m.last = some e) :
    (c.remember m).recent = (e.pc :: c.recent).take historyLength := by
  rw [remember, h]

theorem mem_insertBreakpoint {b : Word} (bs : List Word) :
    b ∈ (insertBreakpoint addr bs).2 ↔ b = addr ∨ b ∈ bs := by
  induction bs with
  | nil => rw [insertBreakpoint, List.mem_singleton, List.mem_nil_iff, or_false]
  | cons b' rest ih =>
    unfold insertBreakpoint
    split
    · rw [List.mem_cons]
    · split
      · next heq =>
        subst heq
        rw [List.mem_cons, ← or_assoc, or_self]
      · rw [List.mem_cons, ih, List.mem_cons, or_left_comm]

end DebugControl

namespace Hart

open Platform

variable {σ : Type} {d e : Hart σ} {t : Platform σ} {r : HaltReason} {fuel : Nat}
  {call : DebugCall} {calls : List DebugCall} {addr : Word}

/-! ## Turns -/

/-- The hart after a step that did not end its run, paused if the debugger or the guest has
asked for that. -/
def carriedOn (d : Hart σ) (t : Platform σ) : Hart σ :=
  { d with
    platform := { t with machine := { t.machine with pauseRequested := false } }
    watch := (d.watch.observe t.machine).1
    monitor :=
      ⟨if (d.watch.observe t.machine).2 = [] ∧ t.machine.pauseRequested = false then .running
        else .paused, true⟩ }

inductive Turn (d : Hart σ) : Hart σ → Prop where
  | on {t : Platform σ} : step d.platform = (.ok (), t) → t.machine.haltReason? = none →
    Turn d (d.carriedOn t)
  | halted {t : Platform σ} {r : HaltReason} : step d.platform = (.ok (), t) →
    t.machine.haltReason? = some r → Turn d (d.concluded (.halted r) t)
  | failed {t : Platform σ} {f : Fault} : step d.platform = (.error (.error f), t) →
    Turn d (d.concluded (.failed f) t)
  | broken {t : Platform σ} {c : Crash} : step d.platform = (.error (.crash c), t) →
    Turn d (d.concluded .broken t)

theorem settle_turned_of_none (hreason : t.machine.haltReason? = none) :
    (d.turned t).settle = d.carriedOn t := by
  rw [settle, show (d.turned t).machine = t.machine from rfl, hreason]
  dsimp only
  cases hrequest : t.machine.pauseRequested with
  | false =>
    have hsame : { t.machine with pauseRequested := false } = t.machine := by
      rw [← hrequest]
    rw [if_neg Bool.false_ne_true, carriedOn, hrequest, hsame]
    simp only [and_true]
    rfl
  | true =>
    -- A stop of the debugger has paused the hart already, and the guest's request
    -- is passed over.
    rw [if_pos rfl, carriedOn, hrequest, if_neg (by simp)]
    by_cases hon : (d.watch.observe t.machine).2 = []
    · simp [grant, modifyMachine, turned, hon, Monitor.pause, Monitor.transition]
    · simp [grant, modifyMachine, turned, hon, Monitor.pause, Monitor.transition]

theorem Ready.cycle_of_on (hr : d.Ready true) (hstep : step d.platform = (.ok (), t))
    (hreason : t.machine.haltReason? = none) : d.cycle = d.carriedOn t := by
  rw [hr.cycle_of_ok hstep, settle_turned_of_none hreason]

theorem Ready.turn (hr : d.Ready true) : Turn d d.cycle := by
  cases hstep : step d.platform with
  | mk result t =>
    obtain (f | c) | _ := result
    · rw [cycle_of_fault hstep]
      exact .failed hstep
    · rw [cycle_of_crash hstep]
      exact .broken hstep
    · cases hreason : t.machine.haltReason? with
      | none =>
        rw [hr.cycle_of_on hstep hreason]
        exact .on hstep hreason
      | some r =>
        rw [hr.cycle_of_halt hstep hreason]
        exact .halted hstep hreason

theorem Ready.flags_step (hr : d.Ready true) (hstep : step d.platform = (.ok (), t)) :
    t.machine.flags = d.platform.marking (.clear true) := by
  rw [← hr.clear, machine, ← Platform.flags_step, hstep]

/-- Only a breakpoint instruction asks for a pause. -/
theorem Ready.pauseRequested_iff (hr : d.Ready true) (hstep : step d.platform = (.ok (), t)) :
    t.machine.pauseRequested = true ↔ d.platform.Executes .ebreak := by
  have hrequest : t.machine.pauseRequested = (d.platform.marking (.clear true)).pauseRequested :=
    congrArg Flags.pauseRequested (hr.flags_step hstep)
  rw [hrequest, ← next?_eq_some_iff, marking]
  split
  · next hnext => simp [Flags.broken, Flags.clear, hnext]
  · next hnext =>
    rw [hnext]
    cases d.platform.exitCode? <;> simp [Flags.clear, Flags.exited]
  · next hother _ => simpa [Flags.clear] using hother

theorem Ready.clear_carriedOn (hr : d.Ready true) (hstep : step d.platform = (.ok (), t))
    (hreason : t.machine.haltReason? = none) : (d.carriedOn t).machine.flags = .clear true := by
  have hflags := hr.flags_step hstep
  have hcode : t.machine.flags.exitCode = none := by
    unfold Machine.haltReason? at hreason
    split at hreason
    · cases hreason
    · cases hreason
    · next hcode _ => exact hcode
  have hrest : { t.machine.flags with pauseRequested := false } = .clear true := by
    rw [hflags] at hcode ⊢
    unfold marking at hcode ⊢
    split
    · rfl
    · next hnext =>
      rw [hnext] at hcode
      dsimp only at hcode
      cases hexit : d.platform.exitCode? with
      | none => rfl
      | some code =>
        rw [hexit] at hcode
        cases hcode
    · rfl
  exact hrest

theorem Ready.verdict {result : Except (Failure Fault) Unit} (hr : d.Ready true)
    (hstep : step d.platform = (result, t)) :
    t.machine.haltReason = none ∧ t.machine.fault = none := by
  obtain ⟨hreason, hfault⟩ := verdict_step d.platform
  rw [show step d.platform = _ from hstep] at hreason hfault
  exact ⟨hreason.trans (congrArg Flags.haltReason hr.clear),
    hfault.trans (congrArg Flags.fault hr.clear)⟩

theorem Attended.turn (ha : d.Attended) (hr : d.Ready true) (hturn : Turn d e) : e.Attended := by
  cases hturn with
  | @on t hstep hreason =>
    have hwell := hr.wellFormed_of_step hstep
    have hstate : (d.carriedOn t).state ≠ .stopped ∧ (d.carriedOn t).state ≠ .invalid := by
      unfold state carriedOn
      dsimp only
      split <;> decide
    constructor
    · rfl
    · exact (hr.unscheduled.observe _).1
    · exact observe_attached ha.attached _
    · exact hwell
    · exact fun _ => hr.going
    · exact fun _ _ => hr.clear_carriedOn hstep hreason
    · exact fun h => absurd h hstate.1
    · exact fun h => absurd h hstate.2
  | @halted t r hstep hreason =>
    have hwell := hr.wellFormed_of_step hstep
    constructor
    · rfl
    · exact (hr.unscheduled.observe _).1
    · exact observe_attached ha.attached _
    · exact hwell
    · exact fun _ => hr.going
    · rintro (h | h) <;> cases h
    · exact fun _ => ⟨(hr.verdict hstep).2, Option.some_ne_none _⟩
    · exact fun h => by cases h
  | failed hstep => exact ha.concluded hr (.failed hstep)
  | broken hstep => exact ha.concluded hr (.broken hstep)

/-! ## Runs and sessions -/

theorem Attended.observe_debugger (ha : d.Attended) (m : Machine) :
    (d.watch.observe m).1.debugger.getD .new = (d.debugger.observe m).1 ∧
      (d.watch.observe m).2 = (d.debugger.observe m).2 := by
  obtain ⟨c, hc⟩ := Option.ne_none_iff_exists'.mp ha.attached
  obtain ⟨hobserved, hrequests⟩ := ha.unscheduled.observe_debugger hc m
  rw [hobserved, hrequests, Option.getD_some, debugger, hc, Option.getD_some]
  exact ⟨rfl, rfl⟩

/-- A turn shows the debugger a machine if its instruction was completed. -/
theorem Attended.debugger_turn (ha : d.Attended) (hturn : Turn d e) :
    (∃ t, step d.platform = (.ok (), t) ∧ e.debugger = (d.debugger.observe t.machine).1) ∨
      ∃ failure t, step d.platform = (.error failure, t) ∧ e.debugger = d.debugger := by
  cases hturn with
  | on hstep hreason => exact Or.inl ⟨_, hstep, (ha.observe_debugger _).1⟩
  | halted hstep hreason => exact Or.inl ⟨_, hstep, (ha.observe_debugger _).1⟩
  | failed hstep => exact Or.inr ⟨_, _, hstep, rfl⟩
  | broken hstep => exact Or.inr ⟨_, _, hstep, rfl⟩

def completed? (d : Hart σ) : Option Word :=
  match step d.platform with
  | (.ok (), _) => some d.machine.pc.current
  | (.error _, _) => none

def completed (ts : List (Hart σ)) : List Word := ts.filterMap completed?

/-- A debugged hart whose debugger remembers the last of some addresses. -/
structure Recalls (pcs : List Word) (d : Hart σ) : Prop extends Attended d where
  recent : d.debugger.recent = pcs.reverse.take DebugControl.historyLength

theorem Recalls.turn {pcs : List Word} (h : Recalls pcs d) (hr : d.Ready true)
    (hturn : Turn d e) : Recalls (pcs ++ completed [d]) e := by
  refine ⟨h.toAttended.turn hr hturn, ?_⟩
  rcases h.toAttended.debugger_turn hturn with ⟨t, hstep, hcontrol⟩ | ⟨failure, t, hstep, hcontrol⟩
  · obtain ⟨c, index, entry, -, -, hlast⟩ := exists_last_of_step hstep
    have hcompleted : completed [d] = [d.platform.machine.pc.current] := by
      simp [completed, completed?, hstep, machine]
    rw [hcontrol, DebugControl.recent_observe, DebugControl.recent_remember hlast, h.recent,
      hcompleted, List.reverse_append, List.reverse_singleton, List.singleton_append,
      DebugControl.historyLength, List.take_succ_cons, List.take_succ_cons, List.take_take]
    rfl
  · have hcompleted : completed [d] = [] := by
      simp [completed, completed?, hstep]
    rw [hcontrol, h.recent, hcompleted, List.append_nil]

theorem Recalls.run {pcs : List Word} (h : Recalls pcs d) (fuel : Nat) :
    Recalls (pcs ++ completed (d.turns fuel)) (d.run fuel) := by
  induction fuel generalizing d pcs with
  | zero =>
    show Recalls (pcs ++ []) d
    rwa [List.append_nil]
  | succ fuel ih =>
    rw [turns, Hart.run]
    split
    · next hrunning =>
      have hr := h.toAttended.ready hrunning.1 hrunning.2
      have hrest := ih (h.turn hr hr.turn)
      rwa [List.append_assoc, completed, completed, ← List.filterMap_append, List.singleton_append]
        at hrest
    · simpa [completed] using h

theorem still_of_other (hother : ∀ budget, d.notReady? = none → call.budget? ≠ some budget) :
    d.state ≠ .paused ∨ call.budget? = none := by
  by_cases hpaused : d.state = .paused
  · exact Or.inr (Option.eq_none_iff_forall_ne_some.mpr fun budget =>
      hother budget (notReady?_eq_none_iff.mpr hpaused))
  · exact Or.inl hpaused

theorem Recalls.ask {pcs : List Word} (h : Recalls pcs d) (fuel : Nat) (call : DebugCall) :
    Recalls (pcs ++ completed (d.turnsOf fuel call)) (d.ask fuel call).2 := by
  unfold turnsOf
  split
  · next budget hready hbudget =>
    have hpaused := notReady?_eq_none_iff.mp hready
    rw [h.toAttended.ask_of_budget hpaused hbudget]
    have hreleased : Recalls pcs (d.released budget) := by
      refine ⟨h.toAttended.released hpaused budget, ?_⟩
      rw [h.toAttended.debugger_released]
      exact h.recent
    exact hreleased.run fuel
  · next hother =>
    have hsame : Mirrored d [] (d.ask fuel call).2 :=
      h.toAttended.ask_of_still (still_of_other hother)
    have hrecent := hsame.attended.recent_of_atLarge h.toAttended (hsame.reached true)
    rw [completed, List.filterMap_nil, List.append_nil]
    exact ⟨hsame.attended, hrecent.trans h.recent⟩

theorem Recalls.after {pcs : List Word} (h : Recalls pcs d) (fuel : Nat) (calls : List DebugCall) :
    Recalls (pcs ++ completed (d.sessionTurns fuel calls)) (d.after fuel calls) := by
  induction calls generalizing d pcs with
  | nil =>
    show Recalls (pcs ++ []) d
    rwa [List.append_nil]
  | cons call rest ih =>
    have hrest := ih (h.ask fuel call)
    rwa [List.append_assoc, completed, completed, ← List.filterMap_append] at hrest

/-! ## Breakpoints -/

/-- A breakpoint has been asked for, and has not been taken away since. -/
def Standing (addr : Word) (calls : List DebugCall) : Prop :=
  ∃ before since, calls = before ++ .setBreakpoint addr :: since ∧ .clearBreakpoint addr ∉ since

theorem not_standing_nil : ¬Standing addr [] := by
  rintro ⟨before, since, heq, -⟩
  exact List.append_ne_nil_of_right_ne_nil _ (List.cons_ne_nil _ _) heq.symm

theorem standing_concat :
    Standing addr (calls ++ [call]) ↔
      call = .setBreakpoint addr ∨ Standing addr calls ∧ call ≠ .clearBreakpoint addr := by
  constructor
  · rintro ⟨before, since, heq, hsince⟩
    rcases List.eq_nil_or_concat since with rfl | ⟨since, last, rfl⟩
    · obtain ⟨-, hlast⟩ := List.append_inj' heq rfl
      exact Or.inl (List.singleton_inj.mp hlast)
    · rw [List.concat_eq_append, List.mem_append, List.mem_singleton, not_or] at hsince
      rw [List.concat_eq_append, ← List.cons_append, ← List.append_assoc] at heq
      obtain ⟨hcalls, hlast⟩ := List.append_inj' heq rfl
      refine Or.inr ⟨⟨before, since, hcalls, hsince.1⟩, ?_⟩
      rw [List.singleton_inj.mp hlast]
      exact Ne.symm hsince.2
  · rintro (rfl | ⟨⟨before, since, rfl, hsince⟩, hcall⟩)
    · exact ⟨calls, [], rfl, List.not_mem_nil⟩
    · refine ⟨before, since ++ [call], ?_, ?_⟩
      · rw [List.append_assoc, List.cons_append]
      · rw [List.mem_append, List.mem_singleton, not_or]
        exact ⟨hsince, Ne.symm hcall⟩

theorem Attended.breakpoints_turn (ha : d.Attended) (hturn : Turn d e) :
    e.debugger.breakpoints = d.debugger.breakpoints := by
  rcases ha.debugger_turn hturn with ⟨t, -, hcontrol⟩ | ⟨_, _, -, hcontrol⟩
  · rw [hcontrol, DebugControl.breakpoints_observe]
  · rw [hcontrol]

theorem Attended.breakpoints_run (ha : d.Attended) (fuel : Nat) :
    (d.run fuel).debugger.breakpoints = d.debugger.breakpoints := by
  induction fuel generalizing d with
  | zero => rfl
  | succ fuel ih =>
    rw [Hart.run]
    split
    · next hrunning =>
      have hr := ha.ready hrunning.1 hrunning.2
      rw [ih (ha.turn hr hr.turn), ha.breakpoints_turn hr.turn]
    · rfl

theorem Attended.mem_breakpoints_ask (ha : d.Attended) :
    addr ∈ (d.ask fuel call).2.debugger.breakpoints ↔
      call = .setBreakpoint addr ∨
        addr ∈ d.debugger.breakpoints ∧ call ≠ .clearBreakpoint addr := by
  by_cases hset : ∃ b, call = .setBreakpoint b
  · obtain ⟨b, rfl⟩ := hset
    show addr ∈ (d.modifyDebugger _).debugger.breakpoints ↔ _
    rw [ha.debugger_modifyDebugger]
    show addr ∈ (DebugControl.insertBreakpoint b _).2 ↔ _
    rw [DebugControl.mem_insertBreakpoint, DebugCall.setBreakpoint.injEq]
    simp [eq_comm]
  by_cases hclear : ∃ b, call = .clearBreakpoint b
  · obtain ⟨b, rfl⟩ := hclear
    show addr ∈ (d.modifyDebugger _).debugger.breakpoints ↔ _
    rw [ha.debugger_modifyDebugger]
    show addr ∈ List.filter _ _ ↔ _
    rw [List.mem_filter, decide_eq_true_eq]
    simp [eq_comm]
  · have hkept : (d.ask fuel call).2.debugger.breakpoints = d.debugger.breakpoints := by
      by_cases hgoes : ∃ budget, d.notReady? = none ∧ call.budget? = some budget
      · obtain ⟨budget, hready, hbudget⟩ := hgoes
        have hpaused := notReady?_eq_none_iff.mp hready
        rw [ha.ask_of_budget hpaused hbudget, (ha.released hpaused budget).breakpoints_run,
          ha.debugger_released]
        rfl
      · rw [ask_eq_self (not_exists.mp hset) (not_exists.mp hclear)
          (still_of_other fun budget hready hbudget => hgoes ⟨budget, hready, hbudget⟩)]
    rw [hkept]
    simp [not_exists.mp hset addr, not_exists.mp hclear addr]

/-- The breakpoints after a session are those that were asked for. -/
theorem Recalls.mem_breakpoints_after {pcs : List Word} (h : Recalls pcs d) (fuel : Nat)
    (hnone : d.debugger.breakpoints = []) (calls : List DebugCall) :
    addr ∈ (d.after fuel calls).debugger.breakpoints ↔ Standing addr calls := by
  induction calls using List.reverseRecOn with
  | nil =>
    show addr ∈ d.debugger.breakpoints ↔ _
    rw [hnone]
    exact iff_of_false List.not_mem_nil not_standing_nil
  | append_singleton calls call ih =>
    rw [after_append, standing_concat, ← ih]
    exact (h.after fuel calls).toAttended.mem_breakpoints_ask

/-! ## The start -/

theorem watch_of_start {args : ProcessArgs} {paused : Bool} {result : Except Fault Unit}
    (h : d.start args paused = .ok (result, e)) : e.watch = d.watch := by
  unfold start at h
  split at h
  · cases h
    rfl
  · split at h
    · cases h
    · cases h
      rfl
    · dsimp only at h
      split at h
      · cases h
        rfl
      · cases h
        rfl

theorem Fresh.recalls_of_initPaused {h : Hart σ} {args : ProcessArgs} {result : Except Fault Unit}
    (hf : h.Fresh) (hinit : h.withDebugger.initPaused args = .ok (result, d)) :
    Recalls [] d ∧ d.debugger.breakpoints = [] := by
  have hcontrol : d.debugger = .new := by
    rw [debugger, watch_of_start hinit]
    rfl
  refine ⟨⟨(hf.start_of_initPaused hinit).1, ?_⟩, ?_⟩
  · rw [hcontrol]
    rfl
  · rw [hcontrol]
    rfl

end Hart

end RiscvHart
