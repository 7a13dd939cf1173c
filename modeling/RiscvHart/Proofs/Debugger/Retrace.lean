import RiscvHart.Proofs.Debugger.Budget

/-!
# Sessions and whole runs

A hart that is started for a debugger retraces, call by call, what it would do without one.
-/

namespace RiscvHart

open Exec

namespace Hart

open Platform

variable {σ : Type} {h d e : Hart σ} {fuel : Nat} {args : ProcessArgs}

/-! ## Whole runs -/

/-- A hart without a debugger is through with its run after a number of turns, and where a
debugged one is. -/
structure OverAs (p : Hart σ) (n : Nat) (e : Hart σ) : Prop where
  still : ∀ k, p.run (n + k) = p.run n
  platform : (p.run n).platform = e.platform.plain
  state : (p.run n).state = e.state
  haltReason : (p.run n).machine.haltReason = e.machine.haltReason
  fault : (p.run n).machine.fault = e.machine.fault

theorem Mirrored.overAs {ts : List (Hart σ)} (hm : Mirrored d ts e) (hrunning : e.state ≠ .running)
    (hpaused : e.state ≠ .paused) : OverAs (d.atLarge false) ts.length e := by
  have hreached := hm.reached false
  constructor
  · intro k
    rw [run_add, ← hreached, (Settled.atLarge (Or.inl hrunning) hpaused false).run_eq]
  · rw [← hreached]
    rfl
  · rw [← hreached]
    exact if_neg hpaused
  · rw [← hreached]
    rfl
  · rw [← hreached]
    rfl

/-- What calls to a debugger make of the run that a hart would have without one. -/
structure Retraces (p d : Hart σ) (fuel : Nat) (calls : List DebugCall) : Prop where
  start : p.platform = d.platform.plain
  /-- Turn by turn, the calls go along the run. -/
  visited : ∀ n, (d.sessionTurns fuel calls).length ≤ n →
    (d.sessionTurns fuel calls).map (fun t => t.cycle.platform.plain) <+:
      (p.turns n).map fun t => t.cycle.platform
  reached : (p.run (d.sessionTurns fuel calls).length).platform =
    (d.after fuel calls).platform.plain
  /-- No call on the way leaves the hart anywhere else. -/
  seen : ∀ x ∈ d.session fuel calls, ∃ n, (p.run n).platform = x.2.platform.plain
  /-- A hart that still runs after a call has not come to the answer yet. -/
  finished : ∀ e, (.stop (.error .finished), e) ∈ d.session fuel calls → e.state ≠ .running →
    e.state = .stopped ∧ e.machine.haltReason ≠ none ∧ e.machine.fault = none ∧ ∃ n, OverAs p n e
  faulted : ∀ f e, (.stop (.error (.targetFault f)), e) ∈ d.session fuel calls →
    e.state = .invalid ∧ e.machine.haltReason = none ∧ e.machine.fault = some f ∧ ∃ n, OverAs p n e
  /-- Without breakpoints, a budget is used up unless the run is over before. -/
  spent : ∀ n ≤ fuel, (d.after fuel calls).state ≠ .running →
    (d.after fuel calls).debugger.breakpoints = [] →
    (∀ t ∈ (d.after fuel calls).turnsOf fuel (.continueUntil n), ¬t.platform.Executes .ebreak) →
    (p.run ((d.sessionTurns fuel calls).length + n)).platform =
      (d.after fuel (calls ++ [.continueUntil n])).platform.plain
  /-- Two budgets are as good as their sum. -/
  added : ∀ a b, a + b ≤ fuel → (d.after fuel calls).debugger.breakpoints = [] →
    (∀ t ∈ (d.after fuel calls).turnsOf fuel (.continueUntil (a + b)),
      ¬t.platform.Executes .ebreak) →
    (d.after fuel (calls ++ [.continueUntil a, .continueUntil b])).modifyDebugger
        (fun c => c.arm none) =
      (d.after fuel (calls ++ [.continueUntil (a + b)])).modifyDebugger fun c => c.arm none

theorem after_append (calls others : List DebugCall) (d : Hart σ) :
    d.after fuel (calls ++ others) = (d.after fuel calls).after fuel others := by
  induction calls generalizing d with
  | nil => rfl
  | cons call rest ih => exact ih _

theorem Attended.retraces (ha : d.Attended) (fuel : Nat) (calls : List DebugCall)
    (hquiet : ∀ t ∈ d.sessionTurns fuel calls, ¬t.platform.Executes .ebreak) :
    Retraces (d.atLarge false) d fuel calls := by
  obtain ⟨hwhole, hsession⟩ := ha.mirrored_session fuel calls hquiet
  have hstop : ∀ err e, (.stop (.error err), e) ∈ d.session fuel calls →
      ∃ ts, Mirrored d ts e ∧ e.NoStop err := by
    intro err e hmem
    obtain ⟨b, call, ts, hb, hask, hmirrored⟩ := hsession _ hmem
    have hanswer : (b.ask fuel call).1 = .stop (.error err) := congrArg Prod.fst hask.symm
    have hafter : (b.ask fuel call).2 = e := congrArg Prod.snd hask.symm
    have hno := hb.noStop_of_ask (hafter ▸ hmirrored.attended) hanswer
    exact ⟨ts, hmirrored, hafter ▸ hno⟩
  constructor
  · rfl
  · intro n hn
    obtain ⟨k, rfl⟩ := Nat.exists_eq_add_of_le hn
    rw [turns_add, List.map_append, hwhole.visited]
    exact List.prefix_append _ _
  · rw [← hwhole.reached]
    rfl
  · intro x hx
    obtain ⟨b, call, ts, hb, hask, hmirrored⟩ := hsession x hx
    exact ⟨ts.length, congrArg Hart.platform (hmirrored.reached false).symm⟩
  · intro e hmem hrunning
    obtain ⟨ts, hmirrored, hno⟩ := hstop _ e hmem
    cases hno with
    | running hstate => exact absurd hstate hrunning
    | finished hstate =>
      obtain ⟨hfault, hreason⟩ := hmirrored.attended.stopped hstate
      exact ⟨hstate, hreason, hfault, _, hmirrored.overAs hrunning (by rw [hstate]; decide)⟩
  · intro f e hmem
    obtain ⟨ts, hmirrored, hno⟩ := hstop _ e hmem
    cases hno with
    | fault hstate hfault =>
      refine ⟨hstate, (hmirrored.attended.invalid hstate).2, hfault, _, hmirrored.overAs ?_ ?_⟩
      · rw [hstate]
        decide
      · rw [hstate]
        decide
  · intro n hfuel hrunning hbreakpoints hstill
    have hlarge := hwhole.attended.quiet_continueUntil (Or.inl hrunning) hbreakpoints hfuel hstill
    have hspent := hwhole.attended.spends_continueUntil (Or.inl hrunning) hbreakpoints hfuel hlarge
    rw [run_add, ← hwhole.reached, ← hspent.reached, after_append]
    rfl
  · intro a b hfuel hbreakpoints hstill
    rw [after_append, after_append]
    exact hwhole.attended.continueUntil_add hbreakpoints hfuel hstill

/-! ## The start -/

def withDebugger (h : Hart σ) : Hart σ :=
  { h with
    platform := h.platform.withFlags (.clear true)
    watch := ⟨.none, some .new⟩ }

theorem Fresh.attachDebugger_eq (hf : h.Fresh) : h.attachDebugger = .ok h.withDebugger := by
  have hflags : h.machine.withFlags (.clear true) =
      { h.machine with pausesOnBreakpoint := true } := by
    rw [show Flags.clear true = { h.machine.flags with pausesOnBreakpoint := true } by
      rw [hf.clear]; rfl]
    rfl
  unfold attachDebugger pauseOnBreakpoint beforeStart
  rw [if_neg (by rw [hf.monitor]; decide)]
  unfold withDebugger Platform.withFlags
  rw [show h.platform.machine.withFlags (.clear true) = _ from hflags]
  simp only [Except.map, modifyMachine, hf.watch]
  rfl

/-- A process is prepared for a debugger as it is without one. -/
theorem bootstrap_withDebugger (h : Hart σ) (args : ProcessArgs) :
    h.withDebugger.machine.bootstrap args h.config =
      ((h.machine.bootstrap args h.config).1,
        (h.machine.bootstrap args h.config).2.withFlags (.clear true)) :=
  Machine.commutes_bootstrap args h.config h.machine

theorem Fresh.attended {m : Machine} (hf : h.Fresh)
    (hstarted : d = { h.withDebugger with
      platform := { h.platform with machine := m }
      monitor := ⟨d.state, true⟩
      awaited := true })
    (hwell : m.memory.WellFormed)
    (hstate : d.state = .paused ∧ m.flags = .clear true ∨
      d.state = .invalid ∧ m.fault ≠ none ∧ m.haltReason = none) : d.Attended where
  started := by rw [hstarted]
  unscheduled := by
    rw [hstarted]
    exact ⟨rfl, rfl⟩
  attached := by
    rw [hstarted]
    exact Option.some_ne_none _
  wellFormed := by
    rw [hstarted]
    exact hwell
  going _ := by
    rw [hstarted]
    exact hf.going
  clear h _ := by
    rcases hstate with ⟨-, hclear⟩ | ⟨hinvalid, -⟩
    · rw [hstarted]
      exact hclear
    · rw [hinvalid] at h
      rcases h with h | h <;> cases h
  stopped h := by
    rcases hstate with ⟨hpaused, -⟩ | ⟨hinvalid, -⟩
    · rw [hpaused] at h
      cases h
    · rw [hinvalid] at h
      cases h
  invalid h := by
    rcases hstate with ⟨hpaused, -⟩ | ⟨-, hfault, hreason⟩
    · rw [hpaused] at h
      cases h
    · rw [hstarted]
      exact ⟨hfault, hreason⟩

theorem Fresh.start_of_initPaused {result : Except Fault Unit} (hf : h.Fresh)
    (hinit : h.withDebugger.initPaused args = .ok (result, d)) :
    d.Attended ∧ h.start args false = .ok (result, d.atLarge false) := by
  have hdebugged := bootstrap_withDebugger h args
  have halone : h.withDebugger.watch.atLarge false = h.watch := by
    rw [hf.watch]
    rfl
  cases hboot : h.machine.bootstrap args h.config with
  | mk prepared m =>
    rw [hboot] at hdebugged
    have hwell := hf.wellFormed_of_bootstrap hboot
    have hflags := hf.flags_of_bootstrap hboot
    have hclear : m = m.withFlags (.clear false) := by
      rw [← hflags]
      rfl
    obtain (f | c) | _ := prepared
    · rw [initPaused, start_of_unprepared (h := h.withDebugger) hf.monitor true hdebugged] at hinit
      cases hinit
      constructor
      · exact hf.attended rfl hwell (Or.inr ⟨rfl, Option.some_ne_none f, rfl⟩)
      · rw [start_of_unprepared hf.monitor false hboot, atLarge]
        dsimp only
        rw [halone]
        conv_lhs => rw [hclear]
        rfl
    · rw [initPaused, start_of_broken (h := h.withDebugger) hf.monitor true hdebugged] at hinit
      cases hinit
    · rw [initPaused, start_of_prepared (h := h.withDebugger) hf.monitor true hdebugged] at hinit
      cases hinit
      constructor
      · exact hf.attended rfl hwell (Or.inl ⟨rfl, rfl⟩)
      · rw [start_of_prepared hf.monitor false hboot, atLarge]
        dsimp only
        rw [halone]
        conv_lhs => rw [hclear]
        rfl

theorem Fresh.start_of_initPaused_broken {c : Crash} (hf : h.Fresh)
    (hinit : h.withDebugger.initPaused args = .error c) (paused : Bool) :
    h.start args paused = .error c := by
  have hdebugged := bootstrap_withDebugger h args
  cases hboot : h.machine.bootstrap args h.config with
  | mk prepared m =>
    rw [hboot] at hdebugged
    obtain (f | c') | _ := prepared
    · rw [initPaused, start_of_unprepared (h := h.withDebugger) hf.monitor true hdebugged] at hinit
      cases hinit
    · rw [initPaused, start_of_broken (h := h.withDebugger) hf.monitor true hdebugged] at hinit
      cases hinit
      exact start_of_broken hf.monitor paused hboot
    · rw [initPaused, start_of_prepared (h := h.withDebugger) hf.monitor true hdebugged] at hinit
      cases hinit

/-- A run under a debugger is the run without it, cut into pieces. -/
theorem Fresh.retraced (hf : h.Fresh) (args : ProcessArgs) :
    ∃ a, h.attachDebugger = .ok a ∧
      (∀ c, a.initPaused args = .error c → ∀ n, h.init n args = .error c) ∧
      ∀ result d, a.initPaused args = .ok (result, d) →
        ∃ p : Hart σ, (∀ n, h.init n args = .ok (result, p.run n)) ∧
          ∀ fuel calls, (∀ t ∈ d.sessionTurns fuel calls, ¬t.platform.Executes .ebreak) →
            Retraces p d fuel calls := by
  refine ⟨h.withDebugger, hf.attachDebugger_eq, ?_, ?_⟩
  · intro c hinit n
    rw [init, hf.start_of_initPaused_broken hinit]
    rfl
  · intro result d hinit
    obtain ⟨hattended, hstart⟩ := hf.start_of_initPaused hinit
    refine ⟨d.atLarge false, fun n => ?_, hattended.retraces⟩
    rw [init, hstart]
    rfl

def writingSession : List DebugCall :=
  [.setBreakpoint 0x1018, .stepOnce, .continueUntil 3, .readPc, .continueRun, .continueRun,
    .stepOnce]

def writingAnswers : List DebugAnswer :=
  [.changed true, .stop (.ok (.stepsCompleted 0x1004)), .stop (.ok (.stepsCompleted 0x1010)),
    .word (.ok 0x1010), .stop (.ok (.breakpointHit 0x1018)), .stop (.error .finished),
    .stop (.error .finished)]

theorem retraced_writingTwice : (writingOn []).Fresh ∧
    ∃ a d p, (writingOn []).attachDebugger = .ok a ∧ a.initPaused ⟨["prog"], []⟩ = .ok (.ok (), d) ∧
      (∀ n, (writingOn []).init n ⟨["prog"], []⟩ = .ok (.ok (), p.run n)) ∧
      Retraces p d 10 writingSession ∧
      (d.session 10 writingSession).map (fun x => x.1) = writingAnswers := by
  have hwell : writingTwice.memory.WellFormed :=
    MemoryRequest.wellFormed_performAll _ _ _ (.start (.empty 0x10000000) 0x1000)
  have hfresh : (writingOn []).Fresh := fresh_new hwell _ _ _ _ []
  obtain ⟨a, hattach, -, hretraced⟩ := hfresh.retraced ⟨["prog"], []⟩
  have hdebugged : a = (writingOn []).withDebugger :=
    Except.ok.inj (hattach.symm.trans hfresh.attachDebugger_eq)
  have hseen : (a.initPaused ⟨["prog"], []⟩).map (fun x =>
      (x.1, (x.2.sessionTurns 10 writingSession).all (fun t => t.platform.next? ≠ some .ebreak),
        (x.2.session 10 writingSession).map fun x => x.1)) =
        .ok (.ok (), true, writingAnswers) := by
    rw [hdebugged]
    decide +kernel
  obtain ⟨⟨result, d⟩, hinit, hall⟩ := Except.map_eq_ok_iff.mp hseen
  obtain ⟨rfl, hquiet, hanswers⟩ := by simpa only [Prod.mk.injEq] using hall
  obtain ⟨p, hplain, hsession⟩ := hretraced _ _ hinit
  refine ⟨hfresh, a, d, p, hattach, hinit, hplain, hsession 10 writingSession ?_, hanswers⟩
  intro t ht hbreak
  exact of_decide_eq_true (List.all_eq_true.mp hquiet t ht) (next?_eq_some_iff.mpr hbreak)

def jumping : Hart Unit :=
  .new (MemoryRequest.performAll [.allocate 0x1000 0x100, .write .word 0x1000 0x0000006f]
    (.start (.empty 0x10000000) 0x1000)).memory 0x1000 .standard .unsupported ()

/-- A fault that is answered to a look at memory is none of the target's: the hart is paused, and
its run ends well. -/
theorem inspect_unmapped_of_paused :
    (jumping.attachDebugger.map fun a => (a.initPaused ⟨[], []⟩).map fun x =>
      ((x.2.ask 4 (.readMemory .word 0x10)).1, x.2.state, x.2.machine.fault)) =
        .ok (.ok (.word (.error (.targetFault (.outOfBounds 0x10))), .paused, none)) ∧
      ((jumping.init 4 ⟨[], []⟩).map fun x =>
        (x.2.state, x.2.machine.haltReason, x.2.machine.fault)) =
          .ok (.stopped, some (.selfJump 0x1000), none) := by
  decide +kernel

end Hart

end RiscvHart
