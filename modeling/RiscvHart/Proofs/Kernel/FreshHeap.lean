import RiscvHart.Proofs.Kernel.Break
import RiscvHart.Proofs.Kernel.ProcessImage
import RiscvHart.Proofs.Machine.Access

/-!
# What a guest finds in the heap that it is given

The region of the heap grows by zeros and never shrinks. So where no break has been before, a
break that moves up uncovers zeros, if the guest has written no byte of the heap above its break.
Where a break has been before, it uncovers what was there when the break moved down.
-/

namespace RiscvHart

open Exec

namespace Memory

variable {m m' : Memory} {addr base : Word} {size : Nat}

def GainsZeros (base : Word) (m m' : Memory) : Prop :=
  ∀ a : Word, a.Within base (m'.sizeFrom base) → ¬a.Within base (m.sizeFrom base) →
    m'.byteMap a = some 0

theorem gainsZeros_of_le (hle : m'.sizeFrom base ≤ m.sizeFrom base) : GainsZeros base m m' := by
  intro a hin hout
  have hlow := hin.1
  have hhigh := hin.2
  exact absurd ⟨hlow, by omega⟩ hout

theorem WellFormed.gainsZeros_allocate (h : m.WellFormed) (hok : m.allocate addr size = .ok m') :
    GainsZeros base m m' := by
  rcases Nat.eq_zero_or_pos size with hzero | hpos
  · rcases allocate_cases hok with ⟨-, rfl⟩ | ⟨hpos, -⟩
    · exact gainsZeros_of_le (Nat.le_refl _)
    · omega
  intro a hin hout
  rw [h.sizeFrom_allocate hpos hok] at hin
  split at hin
  · next heq =>
    rw [heq] at hin
    rw [(h.byteMap_allocate hok a).2, if_pos hin]
  · exact absurd hin hout

theorem WellFormed.gainsZeros_resize (h : m.WellFormed) (hok : m.resize addr size = .ok m') :
    GainsZeros base m m' := by
  obtain ⟨r, hr, rfl, hbytes, -⟩ := h.byteMap_resize hok
  intro a hin hout
  rw [h.sizeFrom_resize hok] at hin
  split at hin
  · next heq =>
    rw [heq] at hin
    rw [heq, h.sizeFrom_of_mem hr] at hout
    rw [hbytes, if_pos hin, if_neg hout]
  · exact absurd hin hout

theorem WellFormed.gainsZeros_release (h : m.WellFormed) (hok : m.release addr = .ok (size, m')) :
    GainsZeros base m m' := by
  refine gainsZeros_of_le ?_
  rcases Nat.eq_zero_or_pos (m'.sizeFrom base) with hzero | hpos
  · rw [hzero]
    exact Nat.zero_le _
  · obtain ⟨r, hr, hbase, hsize⟩ := (h.release hok).exists_of_sizeFrom_pos hpos
    have hmem := (((h.layout_release hok).2 _).mp (mem_layout_of_mem hr)).1
    rw [hbase] at hmem
    rw [h.sizeFrom_of_mem_layout hmem, hsize]

end Memory

namespace Platform

variable {σ α β : Type} {s s' : Platform σ} {x : Exec (Platform σ) α}
  {f : α → Exec (Platform σ) β} {base : Word}

/-! ## Every move -/

def GainsZeros (base : Word) (s s' : Platform σ) : Prop :=
  s.machine.memory.WellFormed → Memory.GainsZeros base s.machine.memory s'.machine.memory

theorem sizeFrom_of_space_eq (heq : s'.space = s.space) (h : s.machine.memory.WellFormed) :
    s'.machine.memory.sizeFrom base = s.machine.memory.sizeFrom base := by
  have hspace : s'.machine.space = s.machine.space := congrArg Prod.fst heq
  have hlayout : s'.machine.memory.layout = s.machine.memory.layout :=
    congrArg AddressSpace.layout hspace
  exact h.sizeFrom_congr (Machine.wellFormed_of_space_eq hspace h) fun n => by rw [hlayout]

theorem gainsZeros_of_space_eq (heq : s'.space = s.space) : GainsZeros base s s' :=
  fun h => Memory.gainsZeros_of_le (Nat.le_of_eq (sizeFrom_of_space_eq heq h))

theorem gainsZeros_of_keeps (hx : Keeps space x) : Advances (GainsZeros base) x :=
  fun s => gainsZeros_of_space_eq (hx s)

/-- Whatever was done before to bytes that are mapped already does not count. -/
theorem gainsZeros_of_keeps_bind (hx : Keeps space x) (hf : ∀ a, Advances (GainsZeros base) (f a)) :
    Advances (GainsZeros base) (x >>= f) := by
  intro s
  have hfirst := hx s
  rw [bind_apply]
  cases hrun : x s with
  | mk result t =>
    rw [hrun] at hfirst
    cases result with
    | error e => exact gainsZeros_of_space_eq hfirst
    | ok a =>
      intro h
      have hlater := hf a t (Machine.wellFormed_of_space_eq (congrArg Prod.fst hfirst) h)
      rwa [Memory.GainsZeros, sizeFrom_of_space_eq hfirst h] at hlater

theorem gainsZeros_bind_of_keeps (hx : Advances (GainsZeros base) x)
    (hf : ∀ a, Keeps (fun s => s.machine.memory) (f a)) : Advances (GainsZeros base) (x >>= f) := by
  intro s
  have hfirst := hx s
  rw [bind_apply]
  cases hrun : x s with
  | mk result t =>
    rw [hrun] at hfirst
    cases result with
    | error e => exact hfirst
    | ok a =>
      intro h
      rw [show (f a t).2.machine.memory = t.machine.memory from hf a t]
      exact hfirst h

theorem gainsZeros_brkCall (requested : Word) :
    Advances (GainsZeros base) (brkCall (σ := σ) requested) := by
  intro s h
  rcases brkCall_cases s requested with
    ⟨hrun, -⟩ | ⟨start, _, hstart, -, ⟨hrun, -⟩ | ⟨m, -, hgrow, hrun⟩⟩
  · rw [hrun]
    exact Memory.gainsZeros_of_le (Nat.le_refl _)
  · rw [hrun]
    exact Memory.gainsZeros_of_le (Nat.le_refl _)
  · rw [hrun]
    obtain ⟨-, ⟨heq, -⟩ | ⟨-, hresize⟩ | hallocate⟩ := Machine.growHeap_memory_cases hstart hgrow
    · rw [heq]
      exact Memory.gainsZeros_of_le (Nat.le_refl _)
    · exact h.gainsZeros_resize hresize
    · exact h.gainsZeros_allocate hallocate

theorem gainsZeros_mmapCall (a : Arguments) :
    Advances (GainsZeros base) (mmapCall (σ := σ) a) := by
  intro s h
  rcases mmapCall_cases a s with ⟨_, -, hrun⟩ | ⟨size, target, m, -, -, -, -, hok, hrun⟩
  · rw [hrun]
    exact Memory.gainsZeros_of_le (Nat.le_refl _)
  · rw [hrun]
    show Memory.GainsZeros base s.machine.memory (noteMapping a m target size).memory
    rw [memory_noteMapping]
    exact h.gainsZeros_allocate (Machine.memory_of_allocate hok)

theorem gainsZeros_munmapCall (a : Arguments) :
    Advances (GainsZeros base) (munmapCall (σ := σ) a) := by
  intro s h
  rcases munmapCall_cases a s with hrun | ⟨_, -, -, -, ⟨_, m, hrelease, hrun⟩ | ⟨_, -, hrun⟩⟩
  · rw [hrun]
    exact Memory.gainsZeros_of_le (Nat.le_refl _)
  · rw [hrun]
    exact h.gainsZeros_release (Machine.memory_of_release hrelease)
  · rw [hrun]
    exact Memory.gainsZeros_of_le (Nat.le_refl _)

theorem gainsZeros_serve (c : Syscall) (a : Arguments) :
    Advances (GainsZeros base) (serve (σ := σ) c a) := by
  by_cases hc : c.MapsMemory
  · rcases hc with rfl | rfl | rfl
    · exact gainsZeros_bind_of_keeps (gainsZeros_brkCall a[0]) fun v => keeps_pure _
    · exact gainsZeros_bind_of_keeps (gainsZeros_mmapCall a) fun v => keeps_pure _
    · exact gainsZeros_bind_of_keeps (gainsZeros_munmapCall a) fun v => keeps_pure _
  · have hcontained : Contained space (fun _ => True) (serve (σ := σ) c a) :=
      contained_serve indifferent_space a hc (fun _ _ _ => rfl) (fun _ => trivial) fun _ => trivial
    exact gainsZeros_of_keeps hcontained.keeps

theorem gainsZeros_environmentCall : Advances (GainsZeros base) (environmentCall (σ := σ)) := by
  refine gainsZeros_of_keeps_bind keeps_get fun s => ?_
  dsimp only
  split
  · refine gainsZeros_of_keeps (Keeps.bind ?_ fun _ => keeps_fail _)
    exact keeps_modifyMachine fun _ => rfl
  · refine gainsZeros_bind_of_keeps (gainsZeros_serve _ _) fun result => ?_
    split
    · exact fun _ => rfl
    · exact keeps_pure ()

theorem gainsZeros_serveTrap (pc : Word) (t : Option Trap) :
    Advances (GainsZeros base) (serveTrap (σ := σ) pc t) := by
  unfold serveTrap
  split
  · exact gainsZeros_of_keeps (keeps_pure ())
  · exact gainsZeros_environmentCall
  · refine gainsZeros_of_keeps (keeps_modifyMachine fun m => ?_)
    split <;> rfl

theorem gainsZeros_step : Advances (GainsZeros base) (step (σ := σ)) := by
  refine gainsZeros_of_keeps_bind keeps_fetch fun word => ?_
  refine gainsZeros_of_keeps_bind keeps_get fun s => ?_
  refine gainsZeros_of_keeps_bind (keeps_modifyMachine fun _ => rfl) fun _ => ?_
  refine gainsZeros_of_keeps_bind (keeps_decode word) fun found => ?_
  refine gainsZeros_of_keeps_bind (Keeps.onMachine (Action.keeps_perform _ _)) fun trap => ?_
  exact gainsZeros_bind_of_keeps (gainsZeros_serveTrap _ trap) fun _ _ => rfl

theorem gainsZeros_move (s : Platform σ) (next : GuestMove) : GainsZeros base s (s.move next) := by
  cases next with
  | step => exact gainsZeros_step s
  | perform action operands =>
    exact gainsZeros_of_keeps (Keeps.onMachine (action.keeps_perform operands)) s
  | call registers => exact gainsZeros_environmentCall (s.facing registers)

/-! ## Runs that write below the break -/

variable {kept : List (Word × Nat)} {heap a : Word} {next : GuestMove} {moves : List GuestMove}

def BreakAtMost (s : Platform σ) (a : Word) : Prop :=
  ∀ finish, s.machine.landmarks.get? Landmarks.heapEnd = some finish → finish.toNat ≤ a.toNat

/-- A move does not change what the region of the heap has at the break and above. -/
def SparesAbove (heap : Word) (s : Platform σ) (next : GuestMove) : Prop :=
  ∀ a : Word, a.Within heap (s.machine.memory.sizeFrom heap) → s.BreakAtMost a →
    (s.move next).machine.memory.byteMap a = s.machine.memory.byteMap a

def StaysBelow (heap : Word) (s : Platform σ) (moves : List GuestMove) : Prop :=
  ∀ before next, before ++ [next] <+: moves → SparesAbove heap (s.after before) next

def Reached (s : Platform σ) (moves : List GuestMove) (a : Word) : Prop :=
  ∃ before, before <+: moves ∧ ¬(s.after before).BreakAtMost a

theorem after_concat (s : Platform σ) (moves : List GuestMove) (next : GuestMove) :
    s.after (moves ++ [next]) = (s.after moves).move next := List.foldl_concat ..

theorem breakAtMost_of_not_reached (h : ¬s.Reached moves a) : (s.after moves).BreakAtMost a := by
  by_contra hbreak
  exact h ⟨moves, List.prefix_rfl, hbreak⟩

/-- Above all breaks so far, the region of the heap has zeros only. -/
theorem Guarded.zero_above (h : s.Guarded kept heap) (hmoves : s.StaysBelow heap moves)
    (hstart : ∀ a : Word, a.Within heap (s.machine.memory.sizeFrom heap) → s.BreakAtMost a →
      s.machine.memory.byteMap a = some 0)
    (hfresh : ¬s.Reached moves a)
    (ha : a.Within heap ((s.after moves).machine.memory.sizeFrom heap)) :
    (s.after moves).machine.memory.byteMap a = some 0 := by
  induction moves using List.reverseRecOn with
  | nil => exact hstart a ha (breakAtMost_of_not_reached hfresh)
  | append_singleton moves next ih =>
    have hprefix : moves <+: moves ++ [next] := List.prefix_append _ _
    have hmoves' : s.StaysBelow heap moves := fun before next hpre =>
      hmoves before next (hpre.trans hprefix)
    have hfresh' : ¬s.Reached moves a := fun ⟨before, hpre, hbreak⟩ =>
      hfresh ⟨before, hpre.trans hprefix, hbreak⟩
    rw [after_concat] at ha ⊢
    -- A byte that was there has been spared, and one that was not is new.
    by_cases hold : a.Within heap ((s.after moves).machine.memory.sizeFrom heap)
    · rw [hmoves moves next List.prefix_rfl a hold (breakAtMost_of_not_reached hfresh')]
      exact ih hmoves' hfresh' hold
    · exact gainsZeros_move _ next (h.after moves).anchored.wellFormed a ha hold

/-! ## What keeps a run below the break -/

theorem Guarded.mapped_of_within (h : s.Guarded kept heap)
    (ha : a.Within heap (s.machine.memory.sizeFrom heap)) :
    ∃ b, s.machine.memory.byteMap a = some b := by
  have hwell := h.anchored.wellFormed
  obtain ⟨r, hr, hbase, hsize⟩ := hwell.exists_of_sizeFrom_pos ha.pos
  rw [← hsize, ← hbase] at ha
  rw [hwell.byteMap_of_mem hr ha]
  exact ⟨_, Region.byte?_of_within ha⟩

theorem Guarded.sparesAbove_of_brk (h : s.Guarded kept heap) {registers : Registers}
    (hc : (s.facing registers).called? = some .brk) : s.SparesAbove heap (.call registers) := by
  intro a ha _
  obtain ⟨b, hb⟩ := h.mapped_of_within ha
  exact ((h.facing registers).kept_of_brk hc hb).trans hb.symm

/-- A store whose bytes all lie below the break spares what lies above. -/
theorem sparesAbove_of_store (hwell : s.machine.memory.WellFormed) {w : Width} {rs1 rs2 : Reg}
    {imm : BitVec 12} {finish : Word}
    (hfinish : s.machine.landmarks.get? Landmarks.heapEnd = some finish)
    (hbelow : (s.machine.registers.read rs1 + imm.signExtend 64).toNat + w.bytes ≤ finish.toNat) :
    s.SparesAbove heap (.perform (.store w) (.s rs1 rs2 imm)) := by
  intro a _ hbreak
  have habove := hbreak finish hfinish
  show ((Action.store w).perform (.s rs1 rs2 imm) s.machine).2.memory.byteMap a = _
  cases hpeek : s.machine.memory.peek w (s.machine.registers.read rs1 + imm.signExtend 64) with
  | error e =>
    rw [Action.perform_store_of_error hpeek]
    rfl
  | ok old =>
    obtain ⟨bs, hslice, -⟩ := Except.map_eq_ok_iff.mp hpeek
    have hmapped := hwell.mapped_of_slice hslice
    obtain ⟨memory, hpoke⟩ :=
      (hwell.bounded_poke w _ ((s.machine.registers.read rs2).cut w)).ok_of_mapped hmapped
    obtain ⟨m', hrun, hm'⟩ := Action.perform_store_of_ok rs1 rs2 imm hpeek hpoke
    rw [hrun, hm']
    refine (hwell.byteMap_poke hpoke a).trans (if_neg fun hin => ?_)
    have hhigh := hin.2
    omega

theorem staysBelow_nil (heap : Word) (s : Platform σ) : s.StaysBelow heap [] := by
  intro before next hprefix
  simp at hprefix

theorem staysBelow_cons (hnext : s.SparesAbove heap next)
    (hrest : (s.move next).StaysBelow heap moves) : s.StaysBelow heap (next :: moves) := by
  intro before last hprefix
  cases before with
  | nil =>
    obtain ⟨rfl, -⟩ := List.cons_prefix_cons.mp hprefix
    exact hnext
  | cons first before =>
    obtain ⟨rfl, hlater⟩ := List.cons_prefix_cons.mp hprefix
    exact hrest before last hlater

/-! ## Moving the break up -/

theorem Guarded.narrow {size : Nat} (h : s.Guarded kept heap)
    (hmem : (heap, size) ∈ s.machine.memory.layout) : s.Guarded [(heap, size)] heap where
  anchored := by
    refine ⟨h.anchored.wellFormed, h.anchored.solid, h.anchored.heapStart, h.anchored.heapEnd, ?_⟩
    intro e he
    rw [List.mem_singleton.mp he]
    exact ⟨size, hmem, Nat.le_refl _, fun _ => rfl⟩
  heapKept := by simp
  mapped := h.mapped
  keyed := h.keyed
  foreign e he hbase := h.ne_heap he (by simpa using hbase)

/-- Where a break has been, the heap is mapped for good. -/
theorem Guarded.mapped_of_reached (h : s.Guarded kept heap) (hlow : heap.toNat ≤ a.toNat)
    (hreached : s.Reached moves a) : ∃ b, (s.after moves).machine.memory.byteMap a = some b := by
  obtain ⟨before, ⟨rest, rfl⟩, hbreak⟩ := hreached
  have hthen := h.after before
  obtain ⟨finish, hfinish, -, hroom⟩ := hthen.anchored.heapEnd
  have hbelow : a.toNat < finish.toNat := by
    by_contra hle
    refine hbreak fun finish' hfinish' => ?_
    rw [← Option.some.inj (hfinish.symm.trans hfinish')]
    omega
  rcases hroom with rfl | ⟨size, hsize, hroom⟩
  · omega
  have hnow := (hthen.narrow hsize).after rest
  obtain ⟨size', hsize', hle, -⟩ := hnow.anchored.kept _ (List.mem_singleton_self _)
  have hwell := hnow.anchored.wellFormed
  rw [show s.after (before ++ rest) = (s.after before).after rest from List.foldl_append ..]
  refine hnow.mapped_of_within ⟨hlow, ?_⟩
  rw [hwell.sizeFrom_of_mem_layout hsize']
  dsimp only at hle
  omega

def TakesBreak (s : Platform σ) (registers : Registers) (old new : Word) : Prop :=
  (s.facing registers).called? = some .brk ∧
    s.machine.landmarks.get? Landmarks.heapEnd = some old ∧
    (s.move (.call registers)).machine.landmarks.get? Landmarks.heapEnd = some new

/-- What a call that moves the break up after a run uncovers: zeros where no break has been
before, and what has been there before elsewhere. -/
structure Uncovers (start : Platform σ) (moves : List GuestMove) : Prop where
  zero : ∀ registers old new, (start.after moves).TakesBreak registers old new →
    ∀ a : Word, old.toNat ≤ a.toNat → a.toNat < new.toNat → ¬start.Reached moves a →
      ((start.after moves).move (.call registers)).machine.memory.byteMap a = some 0
  stale : ∀ registers old new, (start.after moves).TakesBreak registers old new →
    ∀ a : Word, old.toNat ≤ a.toNat → a.toNat < new.toNat → start.Reached moves a →
      ∃ b, (start.after moves).machine.memory.byteMap a = some b ∧
        ((start.after moves).move (.call registers)).machine.memory.byteMap a = some b

/-- A byte of the heap is zero once the break has moved above it, if it was
zero or not mapped. -/
theorem Guarded.zero_of_takesBreak (h : s.Guarded kept heap) {registers : Registers}
    {old new : Word}
    (hcall : s.TakesBreak registers old new) (hlow : old.toNat ≤ a.toNat)
    (hhigh : a.toNat < new.toNat)
    (hzero : a.Within heap (s.machine.memory.sizeFrom heap) → s.machine.memory.byteMap a = some 0) :
    (s.move (.call registers)).machine.memory.byteMap a = some 0 := by
  obtain ⟨hc, hold, hnew⟩ := hcall
  obtain ⟨finish, size, hfinish, hsize, hyes, hno⟩ := (h.facing registers).break_cases hc
  obtain ⟨finish', hfinish', hle, -⟩ := h.anchored.heapEnd
  obtain rfl : finish' = old := Option.some.inj (hfinish'.symm.trans hold)
  obtain rfl : finish = finish' := Option.some.inj (hfinish.symm.trans hfinish')
  by_cases hfits : (s.facing registers).HeapFits heap ((s.facing registers).argument 0) size
  · have hmoves := hyes hfits
    have hend : (s.facing registers).argument 0 = new := by
      rw [move_call, hmoves.machine] at hnew
      exact Option.some.inj ((Landmarks.get?_set_self _ _ _).symm.trans hnew)
    rw [move_call, hmoves.bytes, hend]
    split
    · rfl
    · next hout =>
      have hin : a.Within heap size := by
        by_contra hout'
        exact hout ⟨⟨by omega, by omega⟩, hout'⟩
      refine hzero ?_
      rwa [h.anchored.wellFormed.sizeFrom_of_mem_layout hsize]
  · -- A call that is refused leaves the break where it is.
    have hstays := (hno hfits).1
    rw [move_call, served, hstays] at hnew
    obtain rfl : finish = new := Option.some.inj (hfinish'.symm.trans hnew)
    omega

theorem Guarded.uncovers (h : s.Guarded kept heap) (hmoves : s.StaysBelow heap moves)
    (hstart : ∀ a : Word, a.Within heap (s.machine.memory.sizeFrom heap) → s.BreakAtMost a →
      s.machine.memory.byteMap a = some 0) : s.Uncovers moves where
  zero registers old new hcall a hlow hhigh hfresh :=
    (h.after moves).zero_of_takesBreak hcall hlow hhigh (h.zero_above hmoves hstart hfresh)
  stale registers old new hcall a hlow hhigh hreached := by
    obtain ⟨finish, hfinish, hle, -⟩ := (h.after moves).anchored.heapEnd
    obtain rfl : finish = old := Option.some.inj (hfinish.symm.trans hcall.2.1)
    obtain ⟨b, hb⟩ := h.mapped_of_reached (by omega) hreached
    exact ⟨b, hb, ((h.after moves).facing registers).kept_of_brk hcall.1 hb⟩

/-- Above its first break, the heap of a new process has zeros only. -/
theorem zero_above_of_bootstrap {before m : Machine} {args : ProcessArgs} {config : Config}
    (hwell : before.memory.WellFormed) (hfree : before.HeapFree config)
    (hne : config.heapStart ≠ config.stackStart)
    (hrun : before.bootstrap args config = (.ok (), m)) (k : Kernel σ)
    (ha : a.Within config.heapStart (m.memory.sizeFrom config.heapStart))
    (hbreak : BreakAtMost ⟨m, k⟩ a) : m.memory.byteMap a = some 0 := by
  obtain ⟨laidOut, sp, hlaid, hstarted⟩ :=
    (Machine.bootstrap_meets hwell hfree args).of_eq_ok rfl hrun
  have hlandmarks : m.landmarks = laidOut.landmarks := by
    rw [hstarted.others]
    rfl
  have hlow := ha.1
  have habove := hbreak _ (hlandmarks ▸ hlaid.preparing.heapEnd)
  rw [Word.toNat_add_ofNat hlaid.preparing.fits] at habove
  rw [(hstarted.filledFrom hlaid hne).bytes a ha, List.getElem?_eq_none (by omega)]
  rfl

/-- Whatever a guest does on memory without empty regions and without one for the heap, and as
long as it writes the heap below the break only. -/
theorem uncovers_after {args : ProcessArgs} {config : Config} {m m' : Machine} (host : Host σ)
    (hostState : σ) (seed : Word) (hwell : m.memory.WellFormed)
    (hfull : ∀ r ∈ m.memory.regions, 0 < r.size) (hfree : m.HeapFree config)
    (hne : config.heapStart ≠ config.stackStart)
    (hboot : m.bootstrap args config = (.ok (), m')) (moves : List GuestMove)
    (hmoves : StaysBelow config.heapStart ⟨m', Kernel.start host hostState seed⟩ moves) :
    Uncovers ⟨m', Kernel.start host hostState seed⟩ moves :=
  (guarded_after host hostState seed hwell hfull hboot []).uncovers hmoves fun _ ha hbreak =>
    zero_above_of_bootstrap hwell hfree hne hboot _ ha hbreak

/-- Moves the break up, writes a byte below it, and moves the break down again
below that byte. -/
def writeAndShrink : List GuestMove :=
  [.call (breakAt 0x2100), .perform (.store .byte) (.s Reg.a0 Reg.a7 (-0x80)),
    .call (breakAt 0x2020)]

theorem staysBelow_writeAndShrink : (atWork []).StaysBelow 0x2000 writeAndShrink := by
  have hguarded : ∀ moves, (atWork moves).Guarded smallProcess.2.memory.layout 0x2000 :=
    fun moves =>
    guarded_after (Host.unsupported (σ := Unit)) () 0 wellFormed_smallProgram size_pos_smallProgram
      smallProcess_eq moves
  have hbreak : (atWork (writeAndShrink.take 1)).machine.landmarks.get? Landmarks.heapEnd =
      some 0x2100 := by decide +kernel
  refine staysBelow_cons ((hguarded []).sparesAbove_of_brk (by decide +kernel)) ?_
  refine staysBelow_cons
    (sparesAbove_of_store (hguarded (writeAndShrink.take 1)).anchored.wellFormed
    hbreak (by decide +kernel)) ?_
  exact staysBelow_cons ((hguarded (writeAndShrink.take 2)).sparesAbove_of_brk (by decide +kernel))
    (staysBelow_nil _ _)

theorem heapFree_smallProgram : smallProgram.HeapFree smallConfig := by
  have hbases : smallProgram.memory.regions.map Region.base = [0x1000] := by decide +kernel
  exact Machine.heapFree_of_bases hbases (by decide)

theorem uncovers_writeAndShrink :
    smallProgram.memory.WellFormed ∧ (∀ r ∈ smallProgram.memory.regions, 0 < r.size) ∧
      smallProgram.HeapFree smallConfig ∧ smallConfig.heapStart ≠ smallConfig.stackStart ∧
      smallProcess = (.ok (), smallProcess.2) ∧
      (atWork []).StaysBelow smallConfig.heapStart writeAndShrink ∧
      (atWork writeAndShrink).TakesBreak (breakAt 0x2200) 0x2020 0x2200 ∧
      (atWork []).Uncovers writeAndShrink :=
  ⟨wellFormed_smallProgram, size_pos_smallProgram, heapFree_smallProgram, by decide,
   smallProcess_eq, staysBelow_writeAndShrink,
   ⟨by decide +kernel, by decide +kernel, by decide +kernel⟩,
    uncovers_after (Host.unsupported (σ := Unit)) () 0 wellFormed_smallProgram size_pos_smallProgram
      heapFree_smallProgram (by decide) smallProcess_eq writeAndShrink staysBelow_writeAndShrink⟩

/-- A break that comes back to where it has been uncovers the byte that was written then. -/
theorem written_byte_uncovered :
    (atWork []).StaysBelow smallConfig.heapStart writeAndShrink ∧
      (atWork writeAndShrink).TakesBreak (breakAt 0x2100) 0x2020 0x2100 ∧
      ((atWork writeAndShrink).move (.call (breakAt 0x2100))).machine.memory.byte? 0x2080 =
        some 214 :=
  ⟨staysBelow_writeAndShrink, ⟨by decide +kernel, by decide +kernel, by decide +kernel⟩,
    by decide +kernel⟩

end Platform

end RiscvHart
