import RiscvHart.Kernel.Bootstrap
import RiscvHart.Proofs.Machine.Perform
import RiscvHart.Proofs.Memory.InPlace

/-!
# Flags

Besides what a guest can see, a machine has flags for whoever runs it. No action and no part of
the preparation of a process looks at them or changes them.
-/

namespace RiscvHart

open Exec

/-- What a run is judged by at its end and paused by on its way. -/
structure Flags where
  pausesOnBreakpoint : Bool
  pauseRequested : Bool
  breakpoint : Option Word
  exitCode : Option (BitVec 32)
  haltReason : Option HaltReason
  fault : Option Fault
  deriving DecidableEq

namespace Machine

def flags (m : Machine) : Flags :=
  ⟨m.pausesOnBreakpoint, m.pauseRequested, m.breakpoint, m.exitCode, m.haltReason, m.fault⟩

def withFlags (f : Flags) (m : Machine) : Machine :=
  { m with
    pausesOnBreakpoint := f.pausesOnBreakpoint
    pauseRequested := f.pauseRequested
    breakpoint := f.breakpoint
    exitCode := f.exitCode
    haltReason := f.haltReason
    fault := f.fault }

variable {f : Flags} {α : Type} {x : Exec Machine α}

theorem withFlags_flags (m : Machine) : m.withFlags m.flags = m := rfl

theorem flags_withFlags (m : Machine) : (m.withFlags f).flags = f := rfl

/-- What commutes with every change of the flags keeps them. -/
theorem flags_of_commutes (h : ∀ f, Commutes (withFlags f) x) (m : Machine) :
    (x m).2.flags = m.flags := by
  have hrun := congrArg Prod.snd (h m.flags m)
  rw [withFlags_flags] at hrun
  rw [hrun, flags_withFlags]

/-! ## Operations on memory -/

theorem load_withFlags (m : Machine) (w : Width) (addr : Word) :
    (m.withFlags f).load w addr = (m.load w addr).map fun r => (r.1, r.2.withFlags f) := by
  show (m.memory.peek w addr).map _ = ((m.memory.peek w addr).map _).map _
  cases m.memory.peek w addr <;> rfl

theorem store_withFlags (m : Machine) (w : Width) (addr v : Word) :
    (m.withFlags f).store w addr v = (m.store w addr v).map (withFlags f) := by
  show (m.memory.peek w addr >>= fun old => m.memory.poke w addr (v.cut w) >>= fun _ => _) =
    (m.memory.peek w addr >>= fun old => m.memory.poke w addr (v.cut w) >>= fun _ => _).map _
  cases m.memory.peek w addr with
  | error e => rfl
  | ok old => cases m.memory.poke w addr (v.cut w) <;> rfl

theorem fill_withFlags (m : Machine) (addr : Word) (bs : List Byte) :
    (m.withFlags f).fill addr bs = (m.fill addr bs).map (withFlags f) := by
  show (m.memory.fill addr bs).map _ = ((m.memory.fill addr bs).map _).map _
  cases m.memory.fill addr bs <;> rfl

theorem allocate_withFlags (m : Machine) (addr : Word) (size : Nat) :
    (m.withFlags f).allocate addr size = (m.allocate addr size).map (withFlags f) := by
  show (m.memory.allocate addr size).map _ = ((m.memory.allocate addr size).map _).map _
  cases m.memory.allocate addr size with
  | error e => rfl
  | ok mapped =>
    dsimp only [Except.map]
    split <;> rfl

theorem resize_withFlags (m : Machine) (base : Word) (size : Nat) :
    (m.withFlags f).resize base size = (m.resize base size).map (withFlags f) := by
  rw [resize_eq_map, resize_eq_map]
  show (m.memory.resize base size).map _ = ((m.memory.resize base size).map _).map _
  cases m.memory.resize base size with
  | error e => rfl
  | ok resized =>
    dsimp only [Except.map, withFlags]
    cases m.memory.regionFrom? base with
    | none => rfl
    | some r =>
      dsimp only
      split <;> rfl

theorem release_withFlags (m : Machine) (base : Word) :
    (m.withFlags f).release base = (m.release base).map fun r => (r.1, r.2.withFlags f) := by
  show (m.memory.release base).map _ = ((m.memory.release base).map _).map _
  cases m.memory.release base <;> rfl

theorem growHeap_withFlags (m : Machine) (finish : Word) :
    (m.withFlags f).growHeap finish = (m.growHeap finish).map (withFlags f) := by
  cases hstart : m.landmarks.get? Landmarks.heapStart with
  | none => rw [growHeap_of_none hstart, growHeap_of_none (m := m.withFlags f) hstart, Except.map]
  | some start =>
    rw [growHeap_of_start hstart, growHeap_of_start (m := m.withFlags f) hstart, settled_backHeap,
      settled_backHeap, show (m.withFlags f).memory = m.memory from rfl, resize_withFlags,
      allocate_withFlags]
    cases m.memory.regionFrom? start with
    | none => cases m.allocate start (finish.toNat - start.toNat) <;> rfl
    | some r =>
      dsimp only
      split
      · rfl
      · cases m.resize start (finish.toNat - start.toNat) <;> rfl

/-! ## Actions -/

theorem suits_flags (f : Flags) : Suits fun _ x => Commutes (withFlags f) x where
  pure a := commutes_pure a
  bind hx hf := hx.bind hf
  read _ _ := rfl
  write _ _ _ := rfl
  here _ := rfl
  goTo _ _ := rfl
  goOn _ := rfl
  load w addr := commutes_attempt fun m => load_withFlags m w addr
  store w addr v := by
    refine commutes_attempt fun m => ?_
    rw [store_withFlags]
    cases m.store w addr v <;> rfl
  mismatch := commutes_fail _

/-! ## The preparation of a process -/

open Bootstrap

theorem commutes_takeHeap (length : Nat) : Commutes (withFlags f) (takeHeap length) := by
  refine commutes_get_bind (fun _ => rfl) fun m => ?_
  split
  · exact commutes_fail _
  · refine (commutes_checkedAdd _ _).bind fun finish => Commutes.bind ?_ fun _ => commutes_pure _
    rw [inPlace_growHeap]
    refine commutes_attempt fun m => ?_
    rw [growHeap_withFlags]
    cases m.growHeap finish <;> rfl

theorem commutes_put (addr : Word) (bs : List Byte) : Commutes (withFlags f) (put addr bs) := by
  refine commutes_attempt fun m => ?_
  rw [fill_withFlags]
  cases m.fill addr bs <;> rfl

theorem commutes_putTexts (texts : List (List Byte)) : Commutes (withFlags f) (putTexts texts) := by
  induction texts with
  | nil => exact commutes_pure _
  | cons bs rest ih =>
    have htext : Commutes (withFlags f) (putText bs) :=
      (commutes_takeHeap _).bind fun addr => (commutes_put addr bs).bind fun _ => commutes_pure _
    exact htext.bind fun addr => ih.bind fun others => commutes_pure _

theorem commutes_putWords (addr : Word) (i : Nat) (ws : List Word) :
    Commutes (withFlags f) (putWords addr i ws) := by
  induction ws generalizing i with
  | nil => exact commutes_pure _
  | cons w rest ih =>
    refine (commutes_checkedAdd _ _).bind fun place =>
      Commutes.bind (commutes_attempt fun m => ?_) fun _ => ih (i + 1)
    show (m.memory.poke .double place w).map _ = ((m.memory.poke .double place w).map _).map _
    cases m.memory.poke .double place w <;> rfl

theorem commutes_mapStack (config : Config) : Commutes (withFlags f) (mapStack config) := by
  refine (commutes_checkedAdd _ _).bind fun finish =>
    Commutes.bind (commutes_attempt fun m => ?_) fun _ => commutes_pure _
  rw [allocate_withFlags]
  cases m.allocate config.stackStart config.stackSize.toNat <;> rfl

theorem commutes_putBlock (config : Config) (stackEnd : Word) (block : List Word) :
    Commutes (withFlags f) (putBlock config stackEnd block) := by
  unfold putBlock
  split
  · exact commutes_fail _
  dsimp only
  split
  · exact commutes_fail _
  split
  · exact commutes_fail _
  · exact (commutes_checkedSub _ _).bind fun sp => (commutes_putWords sp 0 _).bind fun _ _ => rfl

theorem commutes_bootstrap (args : ProcessArgs) (config : Config) :
    Commutes (withFlags f) (bootstrap args config) := by
  refine Commutes.bind (fun _ => rfl) fun _ => ?_
  refine (commutes_mapStack config).bind fun stackEnd => (commutes_takeHeap _).bind fun random => ?_
  refine (commutes_put _ _).bind fun _ => (commutes_putTexts _).bind fun arguments => ?_
  exact (commutes_putTexts _).bind fun environment => commutes_putBlock _ _ _

end Machine
end RiscvHart
