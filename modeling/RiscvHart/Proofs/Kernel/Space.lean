import RiscvHart.Hart.Step
import RiscvHart.Proofs.Kernel.Serving
import RiscvHart.Proofs.Machine.Space

/-!
# Calls and the address space

Besides the three calls that are there to change it, no call changes the address space: calls
read and write memory that is mapped already, and ask the host for the rest. How a call can fail
is told with it, as both follow from the same computations.
-/

namespace RiscvHart

namespace Platform

open Exec

variable {σ α : Type}

def space (s : Platform σ) : AddressSpace × List (Word × Nat) × Host σ :=
  (s.machine.space, s.kernel.mappings, s.kernel.host)

theorem Keeps.onMachine {x : Exec Machine α} (hx : Keeps Machine.space x) :
    Keeps space (Platform.onMachine (σ := σ) x) :=
  Keeps.on hx fun t s h => by rw [space, space, ← h]

theorem keeps_modifyMachine {f : Machine → Machine} (hf : ∀ m, (f m).space = m.space) :
    Keeps space (modifyMachine (σ := σ) f) :=
  keeps_modify fun s => by rw [space, space, ← hf s.machine]

/-- A view that does not show what calls change on their way: bytes in memory, and what only the
kernel and the host know. -/
structure Indifferent {γ : Type} (view : Platform σ → γ) : Prop where
  fill : ∀ (s : Platform σ) addr bs m, s.machine.fill addr bs = .ok m →
    view { s with machine := m } = view s
  hostState : ∀ (s : Platform σ) state,
    view { s with kernel := { s.kernel with hostState := state } } = view s
  random : ∀ (s : Platform σ) g, view { s with kernel := { s.kernel with random := g } } = view s

theorem indifferent_space : Indifferent (space (σ := σ)) where
  fill s _ _ _ h := by rw [space, space, ← Machine.space_of_fill h]
  hostState _ _ := rfl
  random _ _ := rfl

theorem Indifferent.serves {γ : Type} {view : Platform σ → γ} (h : Indifferent view)
    (E : Failure Fault → Prop) : Serves (fun _ x => Contained view E x) E where
  pure a := contained_pure a
  bind hx hf := hx.bind hf
  look f _ hf := contained_get.bind hf
  consult f := ⟨fun s => h.hostState s _, fun _ _ herror => by cases herror⟩
  tryFill addr bs := by
    constructor
    · intro s
      unfold tryFill
      split
      · next m hfill => exact h.fill s addr bs m hfill
      · rfl
    · intro s e herror
      unfold tryFill at herror
      split at herror <;> cases herror
  setRandom g := contained_modify fun s => h.random s g
  fail e he := contained_fail he

/-- A call that is not there to map memory leaves alone what does not show bytes and the
knowledge of kernel and host. Only calls that add up addresses or counts can crash, and only
calls that are passed on can end in a fault. -/
theorem contained_serve {γ : Type} {view : Platform σ → γ} {E : Failure Fault → Prop}
    (hview : Indifferent view) {c : Syscall} (a : Arguments) (hc : ¬c.MapsMemory)
    (hexit : c.Exits → ∀ (s : Platform σ) code,
      view { s with machine := { s.machine with exitCode := some code } } = view s)
    (hsum : c ∈ Syscall.adding → E (.crash .sumTooLarge))
    (hnumber : c ∈ Syscall.passedOn →
      E (.error (.syscallUnimplemented (BitVec.ofNat 64 c.number)))) :
    Contained view E (serve (σ := σ) c a) :=
  (hview.serves E).serve a hc (fun hexits code => contained_modify fun s =>
    hexit hexits s code) hsum hnumber

/-! ## The rest of a step -/

theorem keeps_fetch : Keeps space (fetch (σ := σ)) := by
  refine Keeps.onMachine (keeps_attempt fun m c m' h => ?_)
  obtain ⟨code, -, heq⟩ := Except.map_eq_ok_iff.mp h
  cases heq
  rfl

theorem keeps_decode (c : Code) : Keeps space (decode (σ := σ) c) := by
  unfold decode
  split
  · exact keeps_pure _
  · exact keeps_fail _
  · refine keeps_get.bind fun s => Keeps.bind ?_ fun _ => keeps_fail _
    exact keeps_modifyMachine fun m => rfl

theorem keeps_complete (e : Executed) : Keeps space (complete (σ := σ) e) :=
  keeps_modifyMachine fun _ => rfl

/-! ## What outlasts every step -/

/-- A property of the address space that the calls which change it keep. -/
structure Lasting (P : Platform σ → Prop) : Prop where
  space : ∀ s s' : Platform σ, s'.space = s.space → P s → P s'
  brk : ∀ requested, Preserves P (brkCall requested)
  mmap : ∀ a, Preserves P (mmapCall a)
  munmap : ∀ a, Preserves P (munmapCall a)

namespace Lasting

variable {P : Platform σ → Prop}

theorem keeps (h : Lasting P) {x : Exec (Platform σ) α} (hx : Keeps Platform.space x) :
    Preserves P x := fun s hs => h.space s _ (hx s) hs

theorem serve (h : Lasting P) (c : Syscall) (a : Arguments) : Preserves P (serve c a) := by
  by_cases hc : c.MapsMemory
  · rcases hc with rfl | rfl | rfl
    · exact (h.brk a[0]).bind fun v => preserves_pure _
    · exact (h.mmap a).bind fun v => preserves_pure _
    · exact (h.munmap a).bind fun v => preserves_pure _
  · have hcontained : Contained Platform.space (fun _ => True) (Platform.serve (σ := σ) c a) :=
      contained_serve indifferent_space a hc (fun _ _ _ => rfl) (fun _ => trivial) fun _ => trivial
    exact h.keeps hcontained.keeps

theorem environmentCall (h : Lasting P) : Preserves P environmentCall := by
  refine (h.keeps keeps_get).bind fun s => ?_
  dsimp only
  split
  · refine Preserves.bind ?_ fun _ => h.keeps (keeps_fail _)
    exact h.keeps (keeps_modifyMachine fun _ => rfl)
  · refine (h.serve _ _).bind fun result => ?_
    split
    · exact h.keeps (keeps_modifyMachine fun _ => rfl)
    · exact preserves_pure ()

theorem serveTrap (h : Lasting P) (pc : Word) (t : Option Trap) : Preserves P (serveTrap pc t) := by
  unfold Platform.serveTrap
  split
  · exact preserves_pure ()
  · exact h.environmentCall
  · refine h.keeps (keeps_modifyMachine fun m => ?_)
    split <;> rfl

theorem step (h : Lasting P) : Preserves P step := by
  refine (h.keeps keeps_fetch).bind fun word => ?_
  refine (h.keeps keeps_get).bind fun s => ?_
  refine Preserves.bind (h.keeps (keeps_modifyMachine fun _ => rfl)) fun _ => ?_
  refine (h.keeps (keeps_decode word)).bind fun found => ?_
  refine (h.keeps (Keeps.onMachine (Action.keeps_perform _ _))).bind fun trap => ?_
  exact (h.serveTrap _ trap).bind fun _ => h.keeps (keeps_complete _)

end Lasting

end Platform

end RiscvHart
