import RiscvHart.Proofs.Kernel.Refusals
import RiscvHart.Proofs.Machine.Perform

/-!
# What every call respects

The calls that map memory ask for it, let a region grow, give one back, and name addresses. A
relation between machines that holds over this and over what the other calls do holds over every
call, whether it is answered or refused.
-/

namespace RiscvHart

open Exec

namespace Machine

/-- A relation holds over what an answer to a call is made up of, but for unmapping and for what
the calls that map nothing do on their way. -/
structure Answers (R : Machine → Machine → Prop) : Prop where
  writeRegister : ∀ m r v, R m (m.writeRegister r v)
  remark : ∀ m r, R m (m.emit (.remarked r))
  mark : ∀ m name addr, R m (m.mark name addr)
  allocate : ∀ m addr size m', m.allocate addr size = .ok m' → R m m'
  /-- Regions only ever grow. -/
  extend : ∀ m base size m' r, m.memory.regionFrom? base = some r → r.size < size →
    m.resize base size = .ok m' → R m m'

def Releases (R : Machine → Machine → Prop) : Prop :=
  ∀ m base size m', m.release base = .ok (size, m') → R m m'

end Machine

namespace Platform

variable {σ : Type} {s : Platform σ}

def Along (R : Machine → Machine → Prop) (s s' : Platform σ) : Prop := R s.machine s'.machine

variable {R : Machine → Machine → Prop} [IsPreorder Machine R]

instance : IsPreorder (Platform σ) (Along R) where
  refl s := refl_of R s.machine
  trans _ _ _ h h' := trans_of R h h'

theorem advances_growHeap (h : Machine.Answers R) {m m' : Machine} {finish : Word}
    (hgrow : m.growHeap finish = .ok m') : R m m' := by
  obtain ⟨start, grown, -, rfl, hrest⟩ := Machine.growHeap_cases hgrow
  have hmark := h.mark grown Landmarks.heapEnd finish
  rcases hrest with ⟨r, -, -, rfl⟩ | ⟨r, hr, hlt, hresize⟩ | ⟨-, hallocate⟩
  · exact hmark
  · exact trans_of R (h.extend _ _ _ _ r hr hlt hresize) hmark
  · exact trans_of R (h.allocate _ _ _ _ hallocate) hmark

theorem advances_brkCall (h : Machine.Answers R) (requested : Word) :
    Advances (Along (σ := σ) R) (brkCall requested) := by
  intro s
  rcases brkCall_cases s requested with ⟨hrun, -⟩ | ⟨_, _, -, -, ⟨hrun, -⟩ | ⟨m, -, hgrow, hrun⟩⟩
  · rw [hrun]
    exact refl_of _ s
  · rw [hrun]
    exact refl_of _ s
  · rw [hrun]
    exact advances_growHeap h hgrow

theorem advances_mmapCall (h : Machine.Answers R) (a : Arguments) :
    Advances (Along (σ := σ) R) (mmapCall a) := by
  intro s
  rcases mmapCall_cases a s with ⟨_, -, hrun⟩ | ⟨size, target, m, -, -, -, -, hok, hrun⟩
  · rw [hrun]
    exact refl_of _ s
  · rw [hrun]
    have hnote : R m (noteMapping a m target size) := by
      unfold noteMapping
      split
      · exact refl_of R m
      · exact h.mark m _ _
    exact trans_of R (h.allocate _ _ _ _ hok) hnote

theorem advances_munmapCall (h : Machine.Releases R) (a : Arguments) :
    Advances (Along (σ := σ) R) (munmapCall a) := by
  intro s
  rcases munmapCall_cases a s with hrun | ⟨_, -, -, -, ⟨_, m, hok, hrun⟩ | ⟨_, -, hrun⟩⟩
  · rw [hrun]
    exact refl_of _ s
  · rw [hrun]
    exact h _ _ _ _ hok
  · rw [hrun]
    exact refl_of R s.machine

theorem advances_environmentCall (h : Machine.Answers R)
    (hothers : ∀ c a, Syscall.ofNumber? s.callNumber = some c → ¬c.MapsMemory →
      Advances (Along (σ := σ) R) (serve c a))
    (hmunmap : Syscall.ofNumber? s.callNumber = some .munmap → Machine.Releases R) :
    Along R s (environmentCall s).2 := by
  cases hnumber : Syscall.ofNumber? s.callNumber with
  | none =>
    rw [environmentCall, get_bind_apply]
    simp only [show Syscall.ofNumber? (s.machine.registers.read Reg.a7) = none from hnumber]
    exact h.remark _ _
  | some c =>
    have hserve : Advances (Along (σ := σ) R) (serve c (arguments s.machine)) := by
      by_cases hc : c.MapsMemory
      · rcases hc with rfl | rfl | rfl
        · exact (advances_brkCall h _).bind fun v => advances_pure _
        · exact (advances_mmapCall h _).bind fun v => advances_pure _
        · exact (advances_munmapCall (hmunmap hnumber) _).bind fun v => advances_pure _
      · exact hothers c _ hnumber hc
    rw [environmentCall_of_known hnumber]
    refine hserve.bind (fun result => ?_) s
    unfold deliver
    split
    · exact fun t => h.writeRegister t.machine _ _
    · exact advances_pure ()

/-- A call that ends in a fault is refused before anything is done. -/
theorem advances_refusal (h : ∀ m r, R m (m.emit (.remarked r))) {f : Fault}
    (hfault : (environmentCall s).1 = .error (.error f)) : Along R s (environmentCall s).2 := by
  have hunserved : s.Unserved := by
    by_contra hserved
    exact environmentCall_ne_fault hserved hfault
  rcases hunserved with hunknown | ⟨c, hc, hknown, hremap⟩
  · rw [environmentCall, get_bind_apply]
    simp only [show Syscall.ofNumber? (s.machine.registers.read Reg.a7) = none from hunknown]
    exact h _ _
  · have hrefused : environmentCall s =
        (.error (.error (.syscallUnimplemented (BitVec.ofNat 64 c.number))), s) := by
      rw [environmentCall_of_known hknown, serve_of_passedOn hc]
      exact bind_error (bind_error (passOn_of_remap_none hremap))
    rw [hrefused]
    exact refl_of _ s

end Platform

end RiscvHart
