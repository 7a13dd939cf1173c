import RiscvHart.Debugger.Control
import RiscvHart.Hart.Monitor
import RiscvHart.Hart.Step
import RiscvHart.Kernel.Bootstrap

/-!
# Harts

A hart is a platform with the controls around it. Once it is started or resumed it runs by
itself: it executes one instruction after the other until it is paused, stopped, at an end, or at
a fault. The number of instructions that a run may take is an argument of whatever lets a hart
run; a run that is not over after so many is left where it is, still running.
-/

namespace RiscvHart

/-- What looks at a hart between two instructions. -/
structure Watch where
  schedule : Schedule
  debugger : Option DebugControl

namespace Watch

def none : Watch := ⟨.none, .none⟩

/-- Looks at a machine after an instruction. What was scheduled comes before the debugger. -/
def observe (w : Watch) (m : Machine) : Watch × List Request :=
  let (schedule, requests) := w.schedule.advance
  match w.debugger with
  | .none => ({ w with schedule := schedule }, requests)
  | some control =>
    let (control, others) := control.observe m
    (⟨schedule, some control⟩, requests ++ others)

end Watch

/-- A hart on a host with states of type `σ`. -/
structure Hart (σ : Type) where
  platform : Platform σ
  config : Config
  monitor : Monitor
  watch : Watch
  /-- Those who listen, each to one kind of event. -/
  listeners : List EventKind
  /-- Whether there is an execution that nobody has waited for. -/
  awaited : Bool
  /-- Whether the execution broke off without an answer. -/
  crashed : Bool

namespace Hart

variable {σ : Type}

def new (memory : Memory) (entry : Word) (config : Config) (host : Host σ)
    (hostState : σ) : Hart σ where
  platform := ⟨.start memory entry, .start host hostState config.seed⟩
  config := config
  monitor := .new
  watch := .none
  listeners := []
  awaited := false
  crashed := false

def machine (h : Hart σ) : Machine := h.platform.machine

def state (h : Hart σ) : ExecutionState := h.monitor.state

def modifyMachine (f : Machine → Machine) (h : Hart σ) : Hart σ :=
  { h with platform := { h.platform with machine := f h.platform.machine } }

def beforeStart (h : Hart σ) (f : Hart σ → Hart σ) : Except Fault (Hart σ) :=
  if h.monitor.started then .error .invalidState else .ok (f h)

/-- Makes breakpoint instructions pause the hart and not end the run. -/
def pauseOnBreakpoint (h : Hart σ) : Except Fault (Hart σ) :=
  h.beforeStart (modifyMachine fun m => { m with pausesOnBreakpoint := true })

def listen (h : Hart σ) (kind : EventKind) : Except Fault (Hart σ) :=
  h.beforeStart fun h => { h with listeners := h.listeners ++ [kind] }

/-- The events that are heard of some: each once for every listener to its kind. -/
def heard (h : Hart σ) (events : List Event) : List Event :=
  events.flatMap fun e => (h.listeners.filter fun k => e.kind? = some k).map fun _ => e

/-- Does what was asked between two instructions. What does not fit the state is passed over. -/
def grant (h : Hart σ) : List Request → Hart σ
  | [] => h
  | r :: rest =>
    let next? :=
      match r with
      | .pause => h.monitor.pause
      | .stop => h.monitor.stop
    match next? with
    | .ok monitor => grant { h with monitor := monitor } rest
    | .error _ => grant h rest

def failWith (h : Hart σ) (fault : Fault) (remark : Remark) : Hart σ :=
  { h.modifyMachine (fun m => { m.emit (.remarked remark) with fault := some fault }) with
    monitor := h.monitor.fail }

/-- Ends the run if it has come to an end; pauses it if the machine asks for that. -/
def settle (h : Hart σ) : Hart σ :=
  match h.machine.haltReason? with
  | some reason =>
    { h.modifyMachine (fun m => { m with haltReason := some reason }) with
      monitor := h.monitor.halt }
  | none =>
    if h.machine.pauseRequested then
      (h.modifyMachine fun m => { m with pauseRequested := false }).grant [.pause]
    else h

/-- Executes one instruction, with all that goes on around it. -/
def cycle (h : Hart σ) : Hart σ :=
  match Platform.step h.platform with
  | (.ok (), platform) =>
    let (watch, requests) := h.watch.observe platform.machine
    ({ h with platform := platform, watch := watch }.grant requests).settle
  | (.error (.error fault), platform) =>
    { h with platform := platform }.failWith fault (.hartFault fault)
  | (.error (.crash _), platform) => { h with platform := platform, crashed := true }

/-- Runs until the hart does not run any more, for at most `fuel` instructions. -/
def run : (fuel : Nat) → Hart σ → Hart σ
  | 0, h => h
  | fuel + 1, h => if h.state = .running ∧ h.crashed = false then run fuel h.cycle else h

/-- Prepares the process and starts the hart. The answer says whether it was started; if the
process cannot be prepared, the hart has failed. -/
def start (h : Hart σ) (args : ProcessArgs) (paused : Bool) :
    Except Crash (Except Fault Unit × Hart σ) :=
  if h.monitor.started then .ok (.error .invalidState, h)
  else
    match h.machine.bootstrap args h.config with
    | (.error (.crash c), _) => .error c
    | (.error (.error fault), m) =>
      let h := { h.modifyMachine fun _ => m with awaited := true }
      .ok (.error fault, h.failWith fault (.bootstrapFailed fault))
    | (.ok (), m) =>
      let h := { h.modifyMachine fun _ => m with awaited := true }
      match h.monitor.start paused with
      | .ok monitor => .ok (.ok (), { h with monitor := monitor })
      | .error fault => .ok (.error fault, h)

def init (h : Hart σ) (fuel : Nat) (args : ProcessArgs) :
    Except Crash (Except Fault Unit × Hart σ) :=
  (h.start args false).map fun (result, h) => (result, h.run fuel)

def initPaused (h : Hart σ) (args : ProcessArgs) : Except Crash (Except Fault Unit × Hart σ) :=
  h.start args true

def control (h : Hart σ) (request : Monitor → Except Fault Monitor) : Except Fault (Hart σ) :=
  (request h.monitor).map fun monitor => { h with monitor := monitor }

def pause (h : Hart σ) : Except Fault (Hart σ) := h.control Monitor.pause

def stop (h : Hart σ) : Except Fault (Hart σ) := h.control Monitor.stop

def resume (h : Hart σ) (fuel : Nat) : Except Fault (Hart σ) :=
  (h.control Monitor.resume).map (run fuel)

/-- Waits for the execution to be over. Gives the fault that ended it, if one did. -/
def waitTillDone (h : Hart σ) : Except Fault Unit × Hart σ :=
  if h.awaited then
    let monitor := if h.crashed then h.monitor.fail else h.monitor
    let result :=
      if monitor.state = .invalid then .error (h.machine.fault.getD .invalidState) else .ok ()
    (result, { h with monitor := monitor, awaited := false })
  else (.error .invalidState, h)

end Hart

end RiscvHart
