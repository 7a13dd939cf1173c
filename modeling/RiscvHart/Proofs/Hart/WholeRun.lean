import RiscvHart.Hart.Summary
import RiscvHart.Kernel.Script
import RiscvHart.Proofs.Hart.Cycle

/-!
# Outcomes of whole runs

A run takes step after step from the prepared process on, until the first step that fails or
after which the run is over, and what is answered tells which of the two it was. A hart has one
run only: nothing can be asked of it afterwards that would change it.
-/

namespace RiscvHart

open Exec

namespace HaltReason

def exitCode? : HaltReason → Option (BitVec 32)
  | exited code => some code
  | _ => none

theorem exitCode_of_haltReason? {m : Machine} {r : HaltReason} (h : m.haltReason? = some r) :
    m.exitCode = r.exitCode? := by
  unfold Machine.haltReason? at h
  split at h
  · next hcode =>
    cases h
    exact hcode
  · next hcode _ =>
    cases h
    exact hcode
  · next hcode _ =>
    dsimp only at h
    split at h
    · cases h
      exact hcode
    · split at h
      · cases h
      · cases h
        exact hcode

end HaltReason

namespace Platform

variable {σ : Type} {s t u : Platform σ} {n : Nat}

/-- A number of steps, none of which fails or ends the run. -/
inductive Continues : Nat → Platform σ → Platform σ → Prop where
  | refl {s : Platform σ} : Continues 0 s s
  | step {n : Nat} {s t u : Platform σ} : GoesOn s t → Continues n t u → Continues (n + 1) s u

/-- For any number of steps, a run either is not over after so many, or was over before. -/
theorem continues_or_concluded (n : Nat) (s : Platform σ) :
    (∃ t, Continues n s t) ∨ ∃ k < n, ∃ t o u, Continues k s t ∧ Concludes t o u := by
  induction n generalizing s with
  | zero => exact Or.inl ⟨s, .refl⟩
  | succ n ih =>
    rcases goesOn_or_concludes s with ⟨t, hgoes⟩ | ⟨o, t, hlast⟩
    · rcases ih t with ⟨u, hcontinues⟩ | ⟨k, hk, u, o, v, hcontinues, hlast⟩
      · exact Or.inl ⟨u, .step hgoes hcontinues⟩
      · exact Or.inr ⟨k + 1, by omega, u, o, v, .step hgoes hcontinues, hlast⟩
    · exact Or.inr ⟨0, by omega, s, o, t, .refl, hlast⟩

namespace Outcome

def answer (o : Outcome) (t : Platform σ) : Except Fault RunSummary :=
  match o with
  | halted r => .ok ⟨some r, r.exitCode?, t.machine.pc.current⟩
  | failed f => .error f
  | broken => .error .invalidState

def state : Outcome → ExecutionState
  | halted _ => .stopped
  | failed _ | broken => .invalid

def haltReason? : Outcome → Option HaltReason
  | halted r => some r
  | failed _ | broken => none

def fault? : Outcome → Option Fault
  | failed f => some f
  | halted _ | broken => none

end Outcome

end Platform

namespace Hart

open Platform

variable {σ : Type} {h h' : Hart σ} {s t : Platform σ} {n : Nat} {o : Outcome} {args : ProcessArgs}

/-- Nothing that is asked of the hart changes it. -/
structure Spent (h : Hart σ) : Prop where
  init : ∀ fuel args, h.init fuel args = .ok (.error .invalidState, h)
  initPaused : ∀ args, h.initPaused args = .ok (.error .invalidState, h)
  pause : h.pause = .error .invalidState
  resume : ∀ fuel, h.resume fuel = .error .invalidState
  stop : h.stop = .error .invalidState
  listen : ∀ kind, h.listen kind = .error .invalidState

structure Over (h : Hart σ) (o : Outcome) (t : Platform σ) : Prop where
  state : h.state = o.state
  haltReason : h.machine.haltReason = o.haltReason?
  fault : h.machine.fault = o.fault?
  kernel : h.platform.kernel = t.kernel
  /-- The guest left the machine like this. -/
  machine : h.machine = { t.machine with
    haltReason := h.machine.haltReason, fault := h.machine.fault, log := h.machine.log }
  spent : h.Spent

/-- What comes of running a program to its end. -/
structure WholeRun (h : Hart σ) (args : ProcessArgs) : Prop where
  /-- If the process cannot be prepared, no instruction is executed. -/
  unprepared : ∀ f m, h.machine.bootstrap args h.config = (.error (.error f), m) →
    ∀ fuel, ∃ h', h.runToEnd fuel args = .ok (.error f, h') ∧
      h'.Over (.failed f) { h.platform with machine := m }
  /-- As long as no step fails or ends it, a run goes on. -/
  continues : ∀ m n s, h.machine.bootstrap args h.config = (.ok (), m) →
    Continues n { h.platform with machine := m } s →
    ∃ h', h.init n args = .ok (.ok (), h') ∧ h'.state = .running ∧ h'.crashed = false ∧
      h'.platform = s
  /-- The first step that does is the last one. -/
  concludes : ∀ m n s o t, h.machine.bootstrap args h.config = (.ok (), m) →
    Continues n { h.platform with machine := m } s → Concludes s o t →
    ∀ fuel, n < fuel → ∃ h', h.runToEnd fuel args = .ok (o.answer t, h') ∧ h'.Over o t
  /-- There are no other runs. -/
  decided : ∀ m n, h.machine.bootstrap args h.config = (.ok (), m) →
    (∃ s, Continues n { h.platform with machine := m } s) ∨
      ∃ k < n, ∃ s o t, Continues k { h.platform with machine := m } s ∧ Concludes s o t

/-! ## The start -/

theorem start_of_prepared {m : Machine} (hnew : h.monitor = .new) (paused : Bool)
    (hboot : h.machine.bootstrap args h.config = (.ok (), m)) :
    h.start args paused = .ok (.ok (), { h with
      platform := { h.platform with machine := m }
      monitor := ⟨if paused then .paused else .running, true⟩
      awaited := true }) := by
  unfold start
  rw [hboot, if_neg (by rw [hnew]; decide)]
  simp only [modifyMachine, hnew]
  rfl

theorem start_of_unprepared {m : Machine} {f : Fault} (hnew : h.monitor = .new) (paused : Bool)
    (hboot : h.machine.bootstrap args h.config = (.error (.error f), m)) :
    h.start args paused = .ok (.error f, { h with
      platform := { h.platform with
        machine := { m.emit (.remarked (.bootstrapFailed f)) with fault := some f } }
      monitor := ⟨.invalid, true⟩
      awaited := true }) := by
  unfold start
  rw [hboot, if_neg (by rw [hnew]; decide)]
  rfl

theorem start_of_broken {m : Machine} {c : Crash} (hnew : h.monitor = .new) (paused : Bool)
    (hboot : h.machine.bootstrap args h.config = (.error (.crash c), m)) :
    h.start args paused = .error c := by
  unfold start
  rw [hboot, if_neg (by rw [hnew]; decide)]

theorem flags_bootstrap {m m' : Machine} {config : Config} {result : Except (Failure Fault) Unit}
    (h : m.bootstrap args config = (result, m')) : m'.flags = m.flags := by
  have hflags := Machine.flags_of_commutes (fun _ => Machine.commutes_bootstrap args config) m
  rw [h] at hflags
  exact hflags

/-! ## The run -/

/-- A hart that has come to a stop, or is broken off. -/
def Settled (h : Hart σ) : Prop := h.state ≠ .running ∨ h.crashed = true

theorem settled_iff : h.Settled ↔ ¬(h.state = .running ∧ h.crashed = false) := by
  rw [Settled, not_and_or, Bool.not_eq_false]

theorem Settled.run_eq (hs : h.Settled) (fuel : Nat) : h.run fuel = h := by
  cases fuel with
  | zero => rfl
  | succ fuel => rw [run, if_neg (settled_iff.mp hs)]

theorem Ready.run_succ {pauses : Bool} (hr : h.Ready pauses) (fuel : Nat) :
    h.run (fuel + 1) = h.cycle.run fuel := by
  rw [run, if_pos ⟨by rw [state, hr.monitor], hr.going⟩]

/-- A hart that runs without a debugger. -/
structure Unattended (h : Hart σ) : Prop extends Ready false h where
  alone : h.watch.debugger = none
  awaited : h.awaited = true

theorem Unattended.turned (hu : h.Unattended) (hgoes : GoesOn h.platform t) :
    (h.turned t).Unattended := by
  obtain ⟨halone, hnone⟩ := hu.unscheduled.observe_alone hu.alone t.machine
  exact ⟨hu.toReady.turned hgoes hnone, halone, hu.awaited⟩

theorem Unattended.run_of_continues (hu : h.Unattended) (hcontinues : Continues n h.platform s) :
    (h.run n).Unattended ∧ (h.run n).platform = s := by
  generalize hp : h.platform = p at hcontinues
  induction hcontinues generalizing h with
  | refl => exact ⟨hu, hp⟩
  | step hgoes _ ih =>
    subst hp
    rw [hu.run_succ, hu.cycle_of_goesOn (fun h => absurd h (by decide)) hgoes]
    exact ih (hu.turned hgoes) rfl

theorem run_add (h : Hart σ) (n k : Nat) : h.run (n + k) = (h.run n).run k := by
  induction n generalizing h with
  | zero => rw [Nat.zero_add, run]
  | succ n ih =>
    rw [Nat.succ_add_eq_add_succ, Nat.add_succ, run, run]
    split
    · exact ih h.cycle
    · next hdone =>
      exact ((settled_iff.mpr hdone).run_eq k).symm

theorem settled_concluded (h : Hart σ) (o : Outcome) (t : Platform σ) :
    (h.concluded o t).Settled := by
  cases o with
  | halted r =>
    left
    show ExecutionState.stopped ≠ .running
    decide
  | failed f =>
    left
    show ExecutionState.invalid ≠ .running
    decide
  | broken => exact Or.inr rfl

/-! ## The end -/

theorem spent_of_done (h : Hart σ)
    (hdone : h.monitor = ⟨.stopped, true⟩ ∨ h.monitor = ⟨.invalid, true⟩) : h.Spent := by
  have hstarted : h.monitor.started = true := by
    rcases hdone with hdone | hdone <;> rw [hdone]
  have hstate : h.state ≠ .running := by
    rcases hdone with hdone | hdone <;> rw [state, hdone] <;> decide
  have hstart : ∀ args paused, h.start args paused = .ok (.error .invalidState, h) := by
    intro args paused
    rw [start, if_pos hstarted]
  constructor
  · intro fuel args
    rw [init, hstart]
    show Except.ok (_, h.run fuel) = _
    rw [Settled.run_eq (Or.inl hstate)]
  · exact fun args => hstart args true
  · rcases hdone with hdone | hdone <;> (rw [pause, control, hdone]; rfl)
  · intro fuel
    rcases hdone with hdone | hdone <;> (rw [resume, control, hdone]; rfl)
  · rcases hdone with hdone | hdone <;> (rw [stop, control, hdone]; rfl)
  · intro kind
    rw [listen, beforeStart, if_pos hstarted]

theorem await_of_stopped (hawaited : h.awaited = true) (hgoing : h.crashed = false)
    (hmonitor : h.monitor = ⟨.stopped, true⟩) :
    h.await = (.ok h.summary, { h with awaited := false }) := by
  simp [await, waitTillDone, hawaited, hgoing, hmonitor, summary, machine, Except.map]

theorem await_of_invalid (hawaited : h.awaited = true)
    (hmonitor : h.crashed = true ∨ h.crashed = false ∧ h.monitor = ⟨.invalid, true⟩) :
    h.await = (.error (h.machine.fault.getD .invalidState),
      { h with monitor := ⟨.invalid, true⟩, awaited := false }) := by
  rcases hmonitor with hcrashed | ⟨hgoing, hinvalid⟩
  · simp [await, waitTillDone, hawaited, hcrashed, machine, Monitor.fail, Except.map]
  · simp [await, waitTillDone, hawaited, hgoing, hinvalid, machine, Except.map]

theorem Unattended.await_concluded (hu : h.Unattended) (hlast : Concludes h.platform o t) :
    ∃ h', (h.concluded o t).await = (o.answer t, h') ∧ h'.Over o t := by
  obtain ⟨hreason, hfault⟩ := hlast.verdict
  have hnoReason : t.machine.haltReason = none :=
    hreason.trans (congrArg Flags.haltReason hu.clear)
  have hnoFault : t.machine.fault = none := hfault.trans (congrArg Flags.fault hu.clear)
  cases hlast with
  | @halted _ r hstep hends =>
    have hcode := HaltReason.exitCode_of_haltReason?
      ((hu.haltReason?_eq_some_iff (fun h => absurd h (by decide)) hstep).mpr hends)
    refine ⟨{ h.concluded (.halted r) t with awaited := false }, ?_,
      ⟨rfl, rfl, hnoFault, rfl, rfl, spent_of_done _ (Or.inl rfl)⟩⟩
    rw [await_of_stopped (h := h.concluded (.halted r) t) hu.awaited hu.going rfl, Outcome.answer,
      ← hcode]
    rfl
  | @failed _ f hstep =>
    refine ⟨{ h.concluded (.failed f) t with awaited := false }, ?_,
      ⟨rfl, hnoReason, rfl, rfl, rfl, spent_of_done _ (Or.inr rfl)⟩⟩
    exact await_of_invalid (h := h.concluded (.failed f) t) hu.awaited (Or.inr ⟨hu.going, rfl⟩)
  | broken hstep =>
    refine ⟨{ h.concluded .broken t with monitor := ⟨.invalid, true⟩, awaited := false }, ?_,
      ⟨rfl, hnoReason, hnoFault, rfl, rfl, spent_of_done _ (Or.inr rfl)⟩⟩
    rw [await_of_invalid (h := h.concluded .broken t) hu.awaited (Or.inl rfl),
      show (h.concluded .broken t).machine.fault = none from hnoFault]
    rfl

/-- A hart that was not started, with nothing but listeners attached to it. -/
structure Fresh (h : Hart σ) : Prop where
  monitor : h.monitor = .new
  watch : h.watch = .none
  going : h.crashed = false
  clear : h.machine.flags = .clear false
  wellFormed : h.machine.memory.WellFormed

theorem fresh_new {memory : Memory} (hwell : memory.WellFormed) (entry : Word) (config : Config)
    (host : Host σ) (hostState : σ) (listeners : List EventKind) :
    Fresh { Hart.new memory entry config host hostState with listeners := listeners } :=
  ⟨rfl, rfl, rfl, rfl, hwell⟩

theorem Fresh.flags_of_bootstrap {m : Machine} {result : Except (Failure Fault) Unit}
    (hf : h.Fresh) (hboot : h.machine.bootstrap args h.config = (result, m)) :
    m.flags = .clear false :=
  (flags_bootstrap hboot).trans hf.clear

theorem Fresh.wellFormed_of_bootstrap {m : Machine} {result : Except (Failure Fault) Unit}
    (hf : h.Fresh) (hboot : h.machine.bootstrap args h.config = (result, m)) :
    m.memory.WellFormed := by
  have hbudgeted := Machine.budgeted_bootstrap args h.config h.machine ⟨hf.wellFormed, rfl⟩
  rw [hboot] at hbudgeted
  exact hbudgeted.toWellFormed

theorem Fresh.exists_unattended {m : Machine} (hf : h.Fresh)
    (hboot : h.machine.bootstrap args h.config = (.ok (), m)) : ∃ h₀ : Hart σ,
      h.start args false = .ok (.ok (), h₀) ∧ h₀.platform = { h.platform with machine := m } ∧
        h₀.Unattended := by
  refine ⟨_, start_of_prepared hf.monitor false hboot, rfl, ⟨⟨rfl, hf.going, ?_,
    hf.flags_of_bootstrap hboot, hf.wellFormed_of_bootstrap hboot⟩, ?_, rfl⟩⟩
  · rw [hf.watch]
    exact ⟨rfl, rfl⟩
  · rw [hf.watch]
    rfl

theorem Fresh.runToEnd_of_unprepared {m : Machine} {f : Fault} (hf : h.Fresh)
    (hboot : h.machine.bootstrap args h.config = (.error (.error f), m)) (fuel : Nat) :
    ∃ h', h.runToEnd fuel args = .ok (.error f, h') ∧
      h'.Over (.failed f) { h.platform with machine := m } := by
  have hnoReason : m.haltReason = none :=
    congrArg Flags.haltReason (hf.flags_of_bootstrap hboot)
  have hstart := start_of_unprepared hf.monitor false hboot
  generalize hfailed : { h with
    platform := { h.platform with
      machine := { m.emit (.remarked (.bootstrapFailed f)) with fault := some f } }
    monitor := ⟨.invalid, true⟩
    awaited := true } = h₀ at hstart
  have hinvalid : h₀.state = .invalid := by
    rw [← hfailed]
    rfl
  refine ⟨h₀, ?_, ?_⟩
  · rw [runToEnd, init, hstart]
    show Except.ok (_, h₀.run fuel) = _
    rw [Settled.run_eq]
    left
    rw [hinvalid]
    decide
  · subst hfailed
    exact ⟨rfl, hnoReason, rfl, rfl, rfl, spent_of_done _ (Or.inr rfl)⟩

theorem Unattended.run_of_concludes (hu : h.Unattended) (hcontinues : Continues n h.platform s)
    (hlast : Concludes s o t) (k : Nat) :
    h.run (n + (k + 1)) = (h.run n).concluded o t := by
  obtain ⟨hrun, rfl⟩ := hu.run_of_continues hcontinues
  rw [run_add, hrun.run_succ, hrun.cycle_of_concludes (fun h => absurd h (by decide)) hlast]
  exact (settled_concluded _ _ _).run_eq k

theorem Fresh.wholeRun (hf : h.Fresh) (args : ProcessArgs) : h.WholeRun args := by
  constructor
  · exact fun f m hboot => hf.runToEnd_of_unprepared hboot
  · intro m n s hboot hcontinues
    obtain ⟨h₀, hstart, hplatform, hu⟩ := hf.exists_unattended hboot
    rw [← hplatform] at hcontinues
    obtain ⟨hrun, hreached⟩ := hu.run_of_continues hcontinues
    refine ⟨h₀.run n, ?_, ?_, hrun.going, hreached⟩
    · rw [init, hstart]
      rfl
    · rw [state, hrun.monitor]
  · intro m n s o t hboot hcontinues hlast fuel hfuel
    obtain ⟨h₀, hstart, hplatform, hu⟩ := hf.exists_unattended hboot
    rw [← hplatform] at hcontinues
    obtain ⟨k, rfl⟩ : ∃ k, fuel = n + (k + 1) := ⟨fuel - n - 1, by omega⟩
    have hend := hu.run_of_concludes hcontinues hlast k
    obtain ⟨hrun, rfl⟩ := hu.run_of_continues hcontinues
    obtain ⟨h', hawait, hover⟩ := hrun.await_concluded hlast
    refine ⟨h', ?_, hover⟩
    rw [runToEnd, init, hstart, ← hawait, ← hend]
    rfl
  · exact fun m n _ => continues_or_concluded n _

theorem wholeRun_new (memory : Memory) (entry : Word) (config : Config) (host : Host σ)
    (hostState : σ) (listeners : List EventKind) (args : ProcessArgs) (hwell : memory.WellFormed) :
    WholeRun { Hart.new memory entry config host hostState with listeners := listeners } args :=
  (fresh_new hwell entry config host hostState listeners).wholeRun args

def writingTwice : Machine :=
  MemoryRequest.performAll
    [.allocate 0x1000 0x100, .write .word 0x1000 0x04200893, .write .word 0x1004 0x00100513,
      .write .word 0x1008 0x000015b7, .write .word 0x100C 0x08058593,
      .write .word 0x1010 0x00200613, .write .word 0x1014 0x00000073,
      .write .word 0x1018 0x05d00893, .write .word 0x101C 0x00000513,
      .write .word 0x1020 0x00000073]
    (.start (.empty 0x10000000) 0x1000)

def writingOn (writeResults : List Int) : Hart Script :=
  .new writingTwice.memory 0x1000 .standard .scripted ⟨none, 0, [], writeResults, 0, []⟩

theorem wholeRun_new_writingTwice :
    writingTwice.memory.WellFormed ∧ WholeRun (writingOn []) ⟨["prog"], []⟩ ∧
      ((writingOn []).runToEnd 10 ⟨["prog"], []⟩).map (fun x => (x.1, x.2.state)) =
        .ok (.ok ⟨some (.exited 0), some 0, 0x1024⟩, .stopped) := by
  have hwell : writingTwice.memory.WellFormed :=
    MemoryRequest.wellFormed_performAll _ _ _ (.start (.empty 0x10000000) 0x1000)
  exact ⟨hwell, wholeRun_new _ _ _ _ _ [] _ hwell, by decide +kernel⟩

/-- A host that says it has written more than it was given can break a run off, which is then
over without a fault and without a reason. -/
theorem runToEnd_misreported :
    ((writingOn [0x7FFFFFFFFFFFFFFF, 1]).init 10 ⟨[], []⟩).map (fun x => x.1) = .ok (.ok ()) ∧
      ((writingOn [0x7FFFFFFFFFFFFFFF, 1]).runToEnd 10 ⟨[], []⟩).map (fun x =>
        (x.1, x.2.state, x.2.machine.fault, x.2.machine.haltReason)) =
          .ok (.error .invalidState, .invalid, none, none) := by
  decide +kernel

end Hart

end RiscvHart
