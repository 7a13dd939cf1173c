import RiscvHart.Proofs.Kernel.Footprint
import RiscvHart.Proofs.Kernel.GatheredWrites

/-!
# Calls that are given a bad address

A call that is to read or write memory is refused if that memory does not lie in one region. The
guest finds everything as it was, but for one call: a clock is written in two words, and the
first one is written before the place of the second one is looked at.
-/

namespace RiscvHart

open Exec

namespace Memory

/-- From a position on, mapped bytes without a zero lead to one that is not mapped. -/
def RunsOut (m : Memory) (pos left : Nat) : Prop :=
  ∃ k < left, m.byteMap (BitVec.ofNat 64 (pos + k)) = none ∧
    ∀ j < k, ∃ b, m.byteMap (BitVec.ofNat 64 (pos + j)) = some b ∧ b ≠ 0

variable {m : Memory} {addr : Word} {len pos left : Nat} {bs : List Byte}

theorem WellFormed.not_accessible (h : m.WellFormed) (hout : ¬m.Mapped addr len) :
    m.accessible addr len = false := by
  have hlen : len ≠ 0 := fun hzero => hout (Or.inl hzero)
  rcases h.mapped_cases addr hlen with ⟨hmapped, -⟩ | ⟨-, hnone⟩
  · exact absurd hmapped hout
  · simp [accessible, hlen, hnone]

theorem WellFormed.slice_of_unmapped (h : m.WellFormed) (hout : ¬m.Mapped addr len) :
    m.slice addr len = .error (.outOfBounds addr) :=
  (h.bounded_slice addr len).error_of_unmapped hout

theorem WellFormed.fill_of_unmapped (h : m.WellFormed) (hout : ¬m.Mapped addr bs.length) :
    m.fill addr bs = .error (.outOfBounds addr) :=
  (h.bounded_fill addr bs).error_of_unmapped hout

end Memory

/-- Some of the memory that the call is to read or write does not lie in one region. -/
inductive Syscall.Outside : Syscall → Platform.Arguments → Memory → Prop
  | read {a m} : ¬m.Mapped (a.get 1) (a.get 2).toNat → Outside .read a m
  | write {a m} : ¬m.Mapped (a.get 1) (a.get 2).toNat → Outside .write a m
  | writev {a m} : (m.buffers (a.get 1) (a.get 2)).length < (a.get 2).toNat → Outside .writev a m
  | openat {a m} : m.RunsOut (a.get 1).toNat Platform.longestPath → Outside .openat a m
  | fstat {a m} : (a.get 0).toNat ≤ 2 → ¬m.Mapped (a.get 1) 128 → Outside .fstat a m
  | uname {a m} : ¬m.Mapped (a.get 0) 390 → Outside .uname a m
  | clockGettime {a m} : ¬m.Mapped (a.get 1) 16 → Outside .clockGettime a m
  | getrandom {a m} : ¬m.Mapped (a.get 0) (a.get 1).toNat → Outside .getrandom a m

namespace Platform

variable {σ : Type} {s : Platform σ} {c : Syscall} {a : Arguments}

theorem pathFrom_of_runsOut {m : Memory} (h : m.WellFormed) {left pos : Nat}
    (hpos : pos < addressLimit) (hout : m.RunsOut pos left) :
    ∃ e, pathFrom m pos left = .error (.error e) := by
  induction left generalizing pos with
  | zero =>
    obtain ⟨k, hk, -⟩ := hout
    exact absurd hk (Nat.not_lt_zero k)
  | succ left ih =>
    obtain ⟨k, hk, hnone, hbytes⟩ := hout
    unfold pathFrom
    rw [if_neg hpos.not_ge]
    cases hpeek : m.peek .byte (BitVec.ofNat 64 pos) with
    | error e => exact ⟨e, rfl⟩
    | ok v =>
    -- The byte is mapped, so it is not the one where the path runs out.
    have hplace : (BitVec.ofNat 64 pos : Word).toNat = pos := by
      rw [BitVec.toNat_ofNat]
      exact Nat.mod_eq_of_lt hpos
    have hbyte := (h.byteMap_peek hpeek).2 (BitVec.ofNat 64 pos)
      ⟨le_rfl, Nat.lt_add_of_pos_right Nat.one_pos⟩
    cases k with
    | zero =>
      rw [Nat.add_zero, hbyte] at hnone
      cases hnone
    | succ k =>
      obtain ⟨b, hb, hzero⟩ := hbytes 0 (Nat.succ_pos k)
      have hv : v ≠ 0 := by
        rintro rfl
        rw [Nat.add_zero, hbyte] at hb
        exact hzero (by simpa using hb.symm)
      have hnext : pos + 1 < addressLimit := by
        have hend := h.finish_of_mapped (h.mapped_of_peek hpeek) (by decide)
        rwa [hplace] at hend
      have hrest : m.RunsOut (pos + 1) left := by
        refine ⟨k, by omega, ?_, fun j hj => ?_⟩
        · rwa [Nat.add_right_comm]
        · obtain ⟨b, hb, hzero⟩ := hbytes (j + 1) (by omega)
          exact ⟨b, by rwa [Nat.add_right_comm], hzero⟩
      obtain ⟨e, he⟩ := ih hnext hrest
      exact ⟨e, by simp only [if_neg hv, he, Except.map]⟩

theorem tryFill_of_unmapped (hwell : s.machine.memory.WellFormed) {addr : Word} {bs : List Byte}
    (hout : ¬s.machine.memory.Mapped addr bs.length) : tryFill addr bs s = (.ok false, s) := by
  unfold tryFill Machine.fill
  rw [hwell.fill_of_unmapped hout]
  rfl

/-- Most of the calls look at all of the memory before they do anything. -/
theorem serve_of_outside (hwell : s.machine.memory.WellFormed)
    (hout : c.Outside a s.machine.memory) (hwritev : c ≠ .writev) (hclock : c ≠ .clockGettime) :
    serve c a s = (.ok (some Errno.badAddress.result), s) := by
  have hmap : ∀ {x : Exec (Platform σ) Int}, x s = (.ok Errno.badAddress.result, s) →
      (some <$> x) s = (.ok (some Errno.badAddress.result), s) := by
    intro x hx
    rw [map_apply, hx]
    rfl
  cases hout with
  | read hout =>
    have hread : s.machine.memory.accessible a[1] a[2].toNat = false := hwell.not_accessible hout
    refine hmap (x := readCall a) ?_
    rw [readCall, get_bind_apply]
    simp only [hread]
    rfl
  | write hout =>
    have hslice : s.machine.memory.slice a[1] a[2].toNat = .error (.outOfBounds a[1]) :=
      hwell.slice_of_unmapped hout
    refine hmap (x := writeCall a) ?_
    rw [writeCall, get_bind_apply, hslice]
    rfl
  | openat hout =>
    refine hmap (x := openatCall a) ?_
    obtain ⟨e, he⟩ := pathFrom_of_runsOut hwell a[1].isLt hout
    rw [openatCall, get_bind_apply, he]
    rfl
  | fstat hlow hout =>
    have hnothigh : ¬2 < a[0].toNat := hlow.not_gt
    refine hmap (x := fstatCall a) ?_
    rw [fstatCall, if_neg hnothigh]
    exact bind_ok (tryFill_of_unmapped hwell hout)
  | uname hout =>
    refine hmap (x := unameCall a) ?_
    have hfill : ¬s.machine.memory.Mapped (a.get 0) utsname.length := by
      rw [length_utsname]
      exact hout
    exact bind_ok (tryFill_of_unmapped hwell hfill)
  | getrandom hout =>
    have hdraw : s.machine.memory.accessible a[0] a[1].toNat = false := hwell.not_accessible hout
    refine hmap (x := getrandomCall a) ?_
    rw [getrandomCall, get_bind_apply]
    simp only [hdraw]
    rfl
  | writev _ => exact absurd rfl hwritev
  | clockGettime _ => exact absurd rfl hclock

/-! ## The clock -/

def clockShown (s : Platform σ) (number : Word) : Word × Word :=
  s.kernel.host.clock (if number = 0 then .realtime else .elapsed) s.kernel.hostState

/-- If the clock cannot be written in full, its first word is written where there
is room for it. -/
theorem clockGettimeCall_of_refused (hwell : s.machine.memory.WellFormed)
    (hfault : (clockGettimeCall a s).1 = .ok Errno.badAddress.result) :
    (¬s.machine.memory.Mapped (a.get 1) 8 ∧ (clockGettimeCall a s).2 = s) ∨
      ∃ memory, s.machine.memory.Mapped (a.get 1) 8 ∧
        s.machine.memory.fill (a.get 1) ((s.clockShown (a.get 0)).1.toBytes .double) = .ok memory ∧
        (clockGettimeCall a s).2 = ⟨{ s.machine with memory := memory }, s.kernel⟩ := by
  generalize hshown : s.clockShown (a.get 0) = shown
  obtain ⟨first, second⟩ := shown
  have hwords : (s.clockShown (a.get 0)).1 = first ∧ (s.clockShown (a.get 0)).2 = second :=
    ⟨congrArg Prod.fst hshown, congrArg Prod.snd hshown⟩
  have hrun : clockGettimeCall a s = (tryFill (a.get 1) (first.toBytes .double) >>= fun done =>
      if done then
        checkedAdd (a.get 1) 8 >>= fun place =>
          tryFill place (second.toBytes .double) >>= fun done =>
            if done then Pure.pure 0 else Pure.pure Errno.badAddress.result
      else Pure.pure Errno.badAddress.result) s := by
    rw [← hwords.1, ← hwords.2]
    rfl
  have hlength : (first.toBytes .double).length = 8 := Word.length_toBytes _ _
  rw [hrun] at hfault ⊢
  rcases hwell.bounded_fill (a.get 1) (first.toBytes .double) with
    ⟨hmapped, memory, hmemory⟩ | ⟨hunmapped, -⟩
  · have hfirst : tryFill (a.get 1) (first.toBytes .double) s =
        (.ok true, ⟨{ s.machine with memory := memory }, s.kernel⟩) := by
      unfold tryFill Machine.fill
      rw [hmemory]
      rfl
    rw [hlength] at hmapped
    refine Or.inr ⟨memory, hmapped, hmemory, ?_⟩
    have hroom : (a.get 1).toNat + (8 : Word).toNat < addressLimit :=
      hwell.finish_of_mapped hmapped (by decide)
    rw [bind_ok hfirst, if_pos rfl, checkedAdd_bind_apply _ _ hroom] at hfault ⊢
    rcases tryFill_cases (a.get 1 + 8) (second.toBytes .double)
      ⟨{ s.machine with memory := memory }, s.kernel⟩ with ⟨m, -, hsecond⟩ | hsecond
    · rw [bind_ok hsecond, if_pos rfl] at hfault
      cases hfault
    · rw [bind_ok hsecond]
      rfl
  · rw [bind_ok (tryFill_of_unmapped hwell hunmapped)]
    rw [hlength] at hunmapped
    exact Or.inl ⟨hunmapped, rfl⟩

/-- What is written of a clock whose second word has no place. -/
structure HalfWritten (c : Syscall) (a : Arguments) (m : Memory) (x : Word) : Prop where
  isClock : c = .clockGettime
  mapped : m.Mapped (a.get 1) 8
  within : x.Within (a.get 1) 8

theorem clockGettimeCall_of_serve {v : Int} (h : (serve .clockGettime a s).1 = .ok (some v)) :
    (clockGettimeCall a s).1 = .ok v := by
  rw [serve, map_apply] at h
  obtain ⟨w, hw, heq⟩ := Except.map_eq_ok_iff.mp h
  cases heq
  exact hw

theorem spares_of_refused (hwell : s.machine.memory.WellFormed)
    (hfault : (clockGettimeCall a s).1 = .ok Errno.badAddress.result) :
    Spares (HalfWritten .clockGettime a s.machine.memory) False s (clockGettimeCall a s).2 := by
  rcases clockGettimeCall_of_refused hwell hfault with ⟨-, hsame⟩ | ⟨memory, hmapped, hfill, hrun⟩
  · rw [hsame]
    exact refl_of _ s
  · rw [hrun]
    refine ⟨rfl, ?_, fun _ x hx => ?_, fun _ => rfl⟩
    · exact indifferent_space.fill s (a.get 1) _ _ (by rw [Machine.fill, hfill]; rfl)
    · refine (hwell.byteMap_fill hfill x).trans (if_neg fun hin => hx ⟨rfl, hmapped, ?_⟩)
      rwa [Word.length_toBytes] at hin

theorem byteMap_of_halfWritten (hwell : s.machine.memory.WellFormed)
    (hfault : (clockGettimeCall a s).1 = .ok Errno.badAddress.result) {x : Word}
    (hx : HalfWritten .clockGettime a s.machine.memory x) :
    (clockGettimeCall a s).2.machine.memory.byteMap x =
      ((s.clockShown (a.get 0)).1.toBytes .double)[x.toNat - (a.get 1).toNat]? := by
  obtain ⟨-, hmapped, hin⟩ := hx
  rcases clockGettimeCall_of_refused hwell hfault with ⟨hunmapped, -⟩ | ⟨memory, -, hfill, hrun⟩
  · exact absurd hmapped hunmapped
  · rw [hrun]
    refine (hwell.byteMap_fill hfill x).trans (if_pos ?_)
    rwa [Word.length_toBytes]

theorem spares_of_outside (hwell : s.machine.memory.WellFormed)
    (hout : c.Outside a s.machine.memory)
    (hfault : (serve c a s).1 = .ok (some Errno.badAddress.result)) :
    Spares (HalfWritten c a s.machine.memory) False s (serve c a s).2 := by
  by_cases hclock : c = .clockGettime
  · subst hclock
    rw [serve, map_apply]
    exact spares_of_refused hwell (clockGettimeCall_of_serve hfault)
  by_cases hwritev : c = .writev
  · subst hwritev
    rw [serve, map_apply]
    exact spares_writeEntries _ _ _ _ s
  · rw [serve_of_outside hwell hout hwritev hclock]
    exact refl_of _ s

/-! ## Every call -/

/-- What a call leaves behind that was refused for a bad address. -/
structure Refusal (c : Syscall) (s : Platform σ) : Prop where
  answer : s.answer = BitVec.ofInt 64 Errno.badAddress.result
  frame : s.served.machine = { s.machine with
    registers := s.machine.registers.write Reg.a0 (BitVec.ofInt 64 Errno.badAddress.result)
    memory := s.served.machine.memory
    log := s.served.machine.log }
  /-- Regions and named addresses. -/
  space : s.served.machine.space = s.machine.space
  random : s.served.kernel.random = s.kernel.random
  bytes : ∀ x, ¬HalfWritten c (arguments s.machine) s.machine.memory x →
    s.served.machine.memory.byteMap x = s.machine.memory.byteMap x
  clock : ∀ x, HalfWritten c (arguments s.machine) s.machine.memory x →
    s.served.machine.memory.byteMap x =
      ((s.clockShown (s.argument 0)).1.toBytes .double)[x.toNat - (s.argument 1).toNat]?

theorem refusal_of_outside (hs : s.Reachable) (hcalled : s.called? = some c)
    (hout : c.Outside (arguments s.machine) s.machine.memory)
    (hfault : (serve c (arguments s.machine) s).1 = .ok (some Errno.badAddress.result)) :
    Refusal c s := by
  have hwell := hs.wellFormed
  have hspares := spares_of_outside hwell hout hfault
  obtain ⟨registers, log, hserved⟩ := served_eq hcalled
  have hmemory : s.served.machine.memory = (serve c (arguments s.machine) s).2.machine.memory := by
    rw [hserved]
  refine ⟨(environmentCall_of_serve hcalled hfault).2, ?_, ?_, ?_, fun x hx => ?_, fun x hx => ?_⟩
  · rcases environmentCall_cases hcalled with ⟨v, hv, -, hmachine⟩ | ⟨hnone, -⟩
    · rw [hfault] at hv
      cases hv
      rw [hmachine, hspares.frame]
      rfl
    · exact absurd hfault (hnone _)
  · rw [hserved]
    exact congrArg Prod.fst hspares.space
  · rw [hserved]
    exact hspares.random id
  · rw [hmemory]
    exact hspares.bytes hwell x hx
  · rw [hmemory]
    obtain ⟨rfl, -⟩ := id hx
    rw [serve, map_apply]
    exact byteMap_of_halfWritten hwell (clockGettimeCall_of_serve hfault) hx

def readingClock : Platform Nat :=
  calling .clockGettime [1, 0x1008] [.allocate 0x1000 16, .fill 0x1000 (List.replicate 16 0xFF)]
    .sink 0

theorem outside_readingClock :
    Syscall.clockGettime.Outside (arguments readingClock.machine) readingClock.machine.memory := by
  apply Syscall.Outside.clockGettime
  unfold Memory.Mapped
  decide +kernel

theorem refusal_readingClock :
    readingClock.Reachable ∧ readingClock.called? = some .clockGettime ∧
      Syscall.clockGettime.Outside (arguments readingClock.machine) readingClock.machine.memory ∧
      (serve .clockGettime (arguments readingClock.machine) readingClock).1 =
        .ok (some Errno.badAddress.result) ∧
      Refusal .clockGettime readingClock := by
  have hreachable : readingClock.Reachable := reachable_calling _ _ _ _ _
  have hcalled : readingClock.called? = some .clockGettime := by decide +kernel
  have hfault : (serve .clockGettime (arguments readingClock.machine) readingClock).1 =
      .ok (some Errno.badAddress.result) := by
    decide +kernel
  exact ⟨hreachable, hcalled, outside_readingClock, hfault,
    refusal_of_outside hreachable hcalled outside_readingClock hfault⟩

/-- The call is refused, and half of the buffer has changed. -/
theorem refused_clock_half_written :
    readingClock.Reachable ∧ readingClock.called? = some .clockGettime ∧
      Syscall.clockGettime.Outside (arguments readingClock.machine) readingClock.machine.memory ∧
      readingClock.answer = BitVec.ofInt 64 Errno.badAddress.result ∧
      readingClock.machine.memory.byteMap 0x1008 = some 0xFF ∧
      readingClock.served.machine.memory.byteMap 0x1008 = some 0 := by
  refine ⟨reachable_calling _ _ _ _ _, by decide +kernel, outside_readingClock, ?_⟩
  decide +kernel

end Platform

end RiscvHart
