import RiscvHart.Kernel.Script
import RiscvHart.Proofs.Kernel.Safety
import RiscvHart.Proofs.Kernel.Transcript

/-!
# What a call may touch

Bytes that stay mapped change only in the buffer that a call is given to write to. Regions, named
addresses, the exit code, the generator of random bytes and the host are each left to a few
calls. Of the registers a call changes at most the one for its result.
-/

namespace RiscvHart

open Exec

/-- The byte at `x` lies where the call writes its answer to. -/
inductive Syscall.Writes : Syscall → Platform.Arguments → Word → Prop
  | read {a x} : x.Within (a.get 1) (a.get 2).toNat → Writes .read a x
  | getrandom {a x} : x.Within (a.get 0) (a.get 1).toNat → Writes .getrandom a x
  | fstat {a x} : (a.get 0).toNat ≤ 2 → x.Within (a.get 1) 128 → Writes .fstat a x
  | uname {a x} : x.Within (a.get 0) 390 → Writes .uname a x
  | clockGettime {a x} : x.Within (a.get 1) 16 → Writes .clockGettime a x

namespace Platform

variable {σ α : Type} {s s' : Platform σ}

/-- The machine has changed in some bytes only, and the kernel only in what it knows of its host
and, where that is allowed, in its generator. -/
structure Spares (W : Word → Prop) (draws : Prop) (s s' : Platform σ) : Prop where
  frame : s'.machine = { s.machine with memory := s'.machine.memory }
  space : s'.space = s.space
  bytes : s.machine.memory.WellFormed → ∀ x, ¬W x →
    s'.machine.memory.byteMap x = s.machine.memory.byteMap x
  random : ¬draws → s'.kernel.random = s.kernel.random

namespace Spares

variable {W : Word → Prop} {draws : Prop}

theorem wellFormed (h : Spares W draws s s') (hs : s.machine.memory.WellFormed) :
    s'.machine.memory.WellFormed :=
  Machine.wellFormed_of_space_eq (congrArg Prod.fst h.space) hs

instance : IsPreorder (Platform σ) (Spares W draws) where
  refl _ := ⟨rfl, rfl, fun _ _ _ => rfl, fun _ => rfl⟩
  trans s t u h h' := by
    refine ⟨?_, h'.space.trans h.space, fun hs x hx => ?_, fun hdraws => ?_⟩
    · rw [h'.frame, h.frame]
    · calc
        u.machine.memory.byteMap x
        _ = t.machine.memory.byteMap x := h'.bytes (h.wellFormed hs) x hx
        _ = s.machine.memory.byteMap x := h.bytes hs x hx
    · calc
        u.kernel.random
        _ = t.kernel.random := h'.random hdraws
        _ = s.kernel.random := h.random hdraws

end Spares

section

variable {W : Word → Prop} {draws : Prop}

theorem spares_fail (e : Failure Fault) :
    Advances (Spares W draws) (fail (σ := Platform σ) (α := α) e) :=
  fun s => refl_of _ s

theorem spares_look {f : Platform σ → Exec (Platform σ) α}
    (h : ∀ s, Advances (Spares W draws) (f s)) : Advances (Spares W draws) (get >>= f) :=
  fun s => h s s

theorem spares_consult (f : Host σ → σ → α × σ) : Advances (Spares W draws) (consult f) :=
  fun _ => ⟨rfl, rfl, fun _ _ _ => rfl, fun _ => rfl⟩

theorem spares_setRandom (hdraws : draws) (g : ChaCha.Generator) :
    Advances (Spares W draws)
      (modify fun s : Platform σ => { s with kernel := { s.kernel with random := g } }) :=
  fun _ => ⟨rfl, rfl, fun _ _ _ => rfl, fun hnot => absurd hdraws hnot⟩

theorem spares_tryFill {addr : Word} {bs : List Byte}
    (h : ∀ x : Word, x.Within addr bs.length → W x) :
    Advances (Spares W draws) (tryFill (σ := σ) addr bs) := by
  intro s
  rcases tryFill_cases addr bs s with ⟨m, hfill, hrun⟩ | hrun
  · rw [hrun]
    obtain ⟨written, hwritten, rfl⟩ := Except.map_eq_ok_iff.mp hfill
    refine ⟨rfl, indifferent_space.fill s _ _ _ hfill, fun hs x hx => ?_, fun _ => rfl⟩
    exact (hs.byteMap_fill hwritten x).trans (if_neg fun hin => hx (h x hin))
  · rw [hrun]
    exact refl_of _ s

end

/-! ## Calls that map no memory -/

section

variable {W : Word → Prop} {draws : Prop} (a : Arguments)

theorem spares_readCall :
    Advances (Spares (Syscall.read.Writes a) draws) (readCall (σ := σ) a) := by
  refine spares_look fun s => ?_
  dsimp only
  split
  · refine (spares_consult _).bind fun outcome => ?_
    refine Advances.bind (spares_tryFill fun x hx => .read ⟨hx.1, hx.2.trans_le ?_⟩) fun _ =>
      advances_pure _
    exact Nat.add_le_add_left (List.length_take_le _ _) _
  · exact advances_pure _

theorem spares_writeCall : Advances (Spares W draws) (writeCall (σ := σ) a) := by
  refine spares_look fun s => ?_
  split
  · exact spares_consult _
  · exact advances_pure _

theorem spares_writeEntries (fd : BitVec 32) (left : Nat) :
    ∀ entry total, Advances (Spares W draws) (writeEntries (σ := σ) fd entry total left) := by
  induction left with
  | zero => exact fun _ _ => advances_pure _
  | succ left ih =>
    intro entry total
    unfold writeEntries
    refine spares_look fun s => ?_
    dsimp only
    split
    · exact spares_fail _
    split
    · exact advances_pure _
    split
    · exact spares_fail _
    split
    · exact advances_pure _
    split
    · exact advances_pure _
    refine (spares_consult _).bind fun result => ?_
    split
    · exact advances_pure _
    split
    · exact spares_fail _
    split
    · exact advances_pure _
    · exact ih _ _

theorem spares_openatCall : Advances (Spares W draws) (openatCall (σ := σ) a) := by
  refine spares_look fun s => ?_
  split
  · exact advances_pure _
  · exact spares_fail _
  · exact spares_consult _

theorem spares_passOn (c : Syscall) : Advances (Spares W draws) (passOn (σ := σ) c a) := by
  refine spares_look fun s => ?_
  split
  · exact spares_consult _
  · exact spares_fail _

theorem spares_fstatCall :
    Advances (Spares (Syscall.fstat.Writes a) draws) (fstatCall (σ := σ) a) := by
  unfold fstatCall
  split
  · exact advances_pure _
  · next hlow =>
    exact (spares_tryFill fun x hx => .fstat (Nat.le_of_not_lt hlow) hx).bind fun _ =>
      advances_pure _

theorem length_utsname : utsname.length = 390 := by decide +kernel

theorem spares_unameCall :
    Advances (Spares (Syscall.uname.Writes a) draws) (unameCall (σ := σ) a) := by
  refine (spares_tryFill fun x hx => .uname ?_).bind fun _ => advances_pure _
  rwa [length_utsname] at hx

theorem spares_getrandomCall (hdraws : draws) :
    Advances (Spares (Syscall.getrandom.Writes a) draws) (getrandomCall (σ := σ) a) := by
  refine spares_look fun s => ?_
  dsimp only
  split
  · refine Advances.bind (spares_setRandom hdraws _) fun _ => ?_
    refine (spares_tryFill fun x hx => .getrandom ?_).bind fun _ => advances_pure _
    rwa [ChaCha.Generator.length_bytes] at hx
  · exact advances_pure _

theorem spares_clockGettimeCall :
    Advances (Spares (Syscall.clockGettime.Writes a) draws) (clockGettimeCall (σ := σ) a) := by
  have hfirst : ∀ (v x : Word), x.Within a[1] (v.toBytes .double).length →
      Syscall.clockGettime.Writes a x := by
    intro v x hx
    rw [Word.length_toBytes] at hx
    have hhigh : x.toNat < (a.get 1).toNat + 8 := hx.2
    exact .clockGettime ⟨hx.1, by omega⟩
  refine spares_look fun s => Advances.bind (spares_tryFill (hfirst _)) fun done => ?_
  split
  · -- The second word has its place only if the sum of the addresses is one.
    intro t
    by_cases hroom : a[1].toNat + (8 : Word).toNat < addressLimit
    · have hsecond : ∀ (v x : Word), x.Within (a[1] + 8) (v.toBytes .double).length →
          Syscall.clockGettime.Writes a x := by
        intro v x hx
        have hplace : (a[1] + 8).toNat = a[1].toNat + 8 := Word.toNat_add_ofNat hroom
        rw [Word.length_toBytes, Word.Within, hplace] at hx
        exact .clockGettime ⟨(Nat.le_add_right _ _).trans hx.1, hx.2⟩
      rw [checkedAdd_bind_apply _ _ hroom]
      refine Advances.bind (spares_tryFill (hsecond _)) (fun done => ?_) t
      split
      · exact advances_pure _
      · exact advances_pure _
    · have hcrash : checkedAdd a[1] 8 t = (.error (.crash .sumTooLarge), t) :=
        congrFun (if_neg hroom) t
      rw [bind_error hcrash]
      exact refl_of _ t
  · exact advances_pure _

theorem spares_serve {c : Syscall} (hmaps : ¬c.MapsMemory) (hexits : ¬c.Exits) :
    Advances (Spares (c.Writes a) (c = .getrandom)) (serve (σ := σ) c a) := by
  cases c with
  | exit => exact absurd (Or.inl rfl) hexits
  | exitGroup => exact absurd (Or.inr rfl) hexits
  | brk => exact absurd (Or.inl rfl) hmaps
  | mmap => exact absurd (Or.inr (Or.inl rfl)) hmaps
  | munmap => exact absurd (Or.inr (Or.inr rfl)) hmaps
  | read => exact (spares_readCall a).map
  | write => exact (spares_writeCall a).map
  | writev => exact (spares_writeEntries _ _ _ _).map
  | openat => exact (spares_openatCall a).map
  | fstat => exact (spares_fstatCall a).map
  | uname => exact (spares_unameCall a).map
  | clockGettime => exact (spares_clockGettimeCall a).map
  | getrandom => exact (spares_getrandomCall a rfl).map
  | setTidAddress | ioctl | rtSigaction | rtSigprocmask => exact advances_pure _
  | _ => exact (spares_passOn a _).map

end

end Platform

/-! ## Calls that map memory -/

/-- Memory was mapped or unmapped, and what was mapped all along has kept its bytes. -/
structure Machine.Remaps (m m' : Machine) : Prop where
  frame : m' = { m with memory := m'.memory, log := m'.log }
  bytes : m.memory.WellFormed → ∀ x b b',
    m.memory.byteMap x = some b → m'.memory.byteMap x = some b' → b' = b

namespace Machine

variable {m m' : Machine} {addr finish : Word} {size : Nat}

theorem Remaps.refl (m : Machine) : m.Remaps m :=
  ⟨rfl, fun _ _ _ _ hb hb' => Option.some.inj (hb'.symm.trans hb)⟩

theorem remaps_of_allocate (h : m.allocate addr size = .ok m') : m.Remaps m' := by
  refine ⟨MemoryRequest.eq_of_serve (r := .allocate addr size) h, fun hm x b b' hb hb' => ?_⟩
  obtain ⟨hfree, hbytes⟩ := hm.byteMap_allocate (memory_of_allocate h) x
  have hout : ¬x.Within addr size := fun hin => by simp [hfree hin] at hb
  rw [hbytes, if_neg hout, hb] at hb'
  exact (Option.some.inj hb').symm

theorem remaps_of_resize (h : m.resize addr size = .ok m') : m.Remaps m' := by
  refine ⟨MemoryRequest.eq_of_serve (r := .resize addr size) h, fun hm x b b' hb hb' => ?_⟩
  obtain ⟨r, hr, hbase, hbytes, -⟩ := hm.byteMap_resize (memory_of_resize h)
  have hgrown : x.Within addr size → ¬x.Within addr r.size → m.memory.byteMap x = none :=
    hm.byteMap_of_growth (hm.regionFrom?_eq_some_iff.mpr ⟨hr, hbase⟩) (memory_of_resize h)
  rw [hbytes] at hb'
  split_ifs at hb' with hnew hold hold
  · exact Option.some.inj (hb'.symm.trans hb)
  · simp [hgrown hnew hold] at hb
  · exact Option.some.inj (hb'.symm.trans hb)

theorem remaps_of_release (h : m.release addr = .ok (size, m')) : m.Remaps m' := by
  have hserve : (MemoryRequest.release addr).serve m = .ok m' := by
    rw [MemoryRequest.serve, h]
    rfl
  refine ⟨MemoryRequest.eq_of_serve hserve, fun hm x b b' hb hb' => ?_⟩
  obtain ⟨r, -, -, -, hbytes, -⟩ := hm.byteMap_release (memory_of_release h)
  rw [hbytes] at hb'
  split at hb'
  · cases hb'
  · exact Option.some.inj (hb'.symm.trans hb)

theorem remaps_of_growHeap (h : m.growHeap finish = .ok m') :
    ∃ grown, m.Remaps grown ∧ m' = grown.mark Landmarks.heapEnd finish := by
  obtain ⟨start, grown, -, rfl, hrest⟩ := growHeap_cases h
  refine ⟨grown, ?_, rfl⟩
  rcases hrest with ⟨r, -, -, rfl⟩ | ⟨r, -, -, hresize⟩ | ⟨-, hallocate⟩
  · exact Remaps.refl _
  · exact remaps_of_resize hresize
  · exact remaps_of_allocate hallocate

end Machine

namespace Platform

variable {σ : Type} {s s' : Platform σ} {c : Syscall} {a : Arguments}

/-- What a call may do to the platform before its result is delivered. -/
structure Allowed (c : Syscall) (a : Arguments) (s s' : Platform σ) : Prop where
  pc : s'.machine.pc = s.machine.pc
  registers : s'.machine.registers = s.machine.registers
  bytes : s.machine.memory.WellFormed → ∀ x b b', s.machine.memory.byteMap x = some b →
    s'.machine.memory.byteMap x = some b' → b' ≠ b → c.Writes a x
  space : s'.machine.space ≠ s.machine.space → c.MapsMemory
  names : ∀ name, s'.machine.landmarks.get? name ≠ s.machine.landmarks.get? name →
    (c = .brk ∧ name = Landmarks.heapEnd) ∨
      (c = .mmap ∧ a.get 3 &&& mapFixed = 0 ∧ name = Landmarks.mmapNext)
  exits : c.Exits → s'.machine.exitCode = some (int32 (a.get 0))
  exitCode : s'.machine.exitCode ≠ s.machine.exitCode → c.Exits
  random : s'.kernel.random ≠ s.kernel.random → c = .getrandom

theorem Spares.allowed (hexits : ¬c.Exits) (h : Spares (c.Writes a) (c = .getrandom) s s') :
    Allowed c a s s' where
  pc := by rw [h.frame]
  registers := by rw [h.frame]
  bytes hs x b b' hb hb' hne := by
    by_contra hout
    rw [h.bytes hs x hout, hb] at hb'
    exact hne (Option.some.inj hb').symm
  space hne := absurd (congrArg Prod.fst h.space) hne
  names name hne := by
    rw [h.frame] at hne
    exact absurd rfl hne
  exits hc := absurd hc hexits
  exitCode hne := by
    rw [h.frame] at hne
    exact absurd rfl hne
  random hne := by
    by_contra hc
    exact hne (h.random hc)

/-- A call that maps memory may name one address when it has done so. -/
theorem allowed_of_remaps {m : Machine} (hc : c.MapsMemory) (h : s.machine.Remaps m)
    (hframe : s'.machine = { m with landmarks := s'.machine.landmarks })
    (hnames : ∀ name, s'.machine.landmarks.get? name ≠ m.landmarks.get? name →
      (c = .brk ∧ name = Landmarks.heapEnd) ∨
        (c = .mmap ∧ a.get 3 &&& mapFixed = 0 ∧ name = Landmarks.mmapNext))
    (hrandom : s'.kernel.random = s.kernel.random) : Allowed c a s s' where
  pc := by rw [hframe, h.frame]
  registers := by rw [hframe, h.frame]
  bytes hs x b b' hb hb' hne := by
    rw [hframe] at hb'
    exact absurd (h.bytes hs x b b' hb hb') hne
  space _ := hc
  names name hne := by
    refine hnames name fun heq => hne (heq.trans ?_)
    rw [h.frame]
  exits hexits := by
    rcases hc with rfl | rfl | rfl <;> rcases hexits with h | h <;> cases h
  exitCode hne := by
    rw [hframe, h.frame] at hne
    exact absurd rfl hne
  random hne := absurd hrandom hne

theorem Allowed.refl_of_mapsMemory (hc : c.MapsMemory) (a : Arguments) (s : Platform σ) :
    Allowed c a s s :=
  allowed_of_remaps hc (Machine.Remaps.refl _) rfl (fun _ hne => absurd rfl hne) rfl

theorem allowed_brkCall (requested : Word) :
    Allowed .brk a s (brkCall requested s).2 := by
  have hc : Syscall.brk.MapsMemory := Or.inl rfl
  rcases brkCall_cases s requested with ⟨hrun, -⟩ | ⟨_, _, -, -, ⟨hrun, -⟩ | ⟨m, -, hgrow, hrun⟩⟩
  · rw [hrun]
    exact .refl_of_mapsMemory hc a s
  · rw [hrun]
    exact .refl_of_mapsMemory hc a s
  · obtain ⟨grown, hremaps, rfl⟩ := Machine.remaps_of_growHeap hgrow
    rw [hrun]
    refine allowed_of_remaps hc hremaps rfl (fun name hne => Or.inl ⟨rfl, ?_⟩) rfl
    by_contra hname
    exact hne (Landmarks.get?_set_ne _ _ hname)

theorem allowed_mmapCall : Allowed .mmap a s (mmapCall a s).2 := by
  have hc : Syscall.mmap.MapsMemory := Or.inr (Or.inl rfl)
  rcases mmapCall_cases a s with ⟨_, -, hrun⟩ | ⟨size, target, m, -, -, -, -, hallocate, hrun⟩
  · rw [hrun]
    exact .refl_of_mapsMemory hc a s
  · rw [hrun]
    refine allowed_of_remaps hc (Machine.remaps_of_allocate hallocate) ?_ (fun name hne => ?_) rfl
    · show noteMapping a m target size = _
      unfold noteMapping
      split <;> rfl
    · replace hne : (noteMapping a m target size).landmarks.get? name ≠ m.landmarks.get? name := hne
      unfold noteMapping at hne
      split at hne
      · exact absurd rfl hne
      · next hfixed =>
        refine Or.inr ⟨rfl, not_not.mp hfixed, ?_⟩
        by_contra hname
        exact hne (Landmarks.get?_set_ne _ _ hname)

theorem allowed_munmapCall : Allowed .munmap a s (munmapCall a s).2 := by
  have hc : Syscall.munmap.MapsMemory := Or.inr (Or.inr rfl)
  rcases munmapCall_cases a s with hrun | ⟨_, -, -, -, ⟨_, m, hrelease, hrun⟩ | ⟨_, -, hrun⟩⟩
  · rw [hrun]
    exact .refl_of_mapsMemory hc a s
  · rw [hrun]
    exact allowed_of_remaps hc (Machine.remaps_of_release hrelease) rfl
      (fun _ hne => absurd rfl hne) rfl
  · rw [hrun]
    exact allowed_of_remaps hc (Machine.Remaps.refl _) rfl (fun _ hne => absurd rfl hne) rfl

theorem allowed_of_exits (hc : c.Exits) : Allowed c a s (serve c a s).2 := by
  have hrun : serve c a s =
      (.ok none, { s with machine := { s.machine with exitCode := some (int32 (a.get 0)) } }) := by
    rcases hc with rfl | rfl <;> rfl
  rw [hrun]
  refine ⟨rfl, rfl, fun _ x b b' hb hb' hne => ?_, fun hne => absurd rfl hne,
    fun _ hne => absurd rfl hne, fun _ => rfl, fun _ => hc, fun hne => absurd rfl hne⟩
  exact absurd (Option.some.inj (hb'.symm.trans hb)) hne

theorem allowed_serve (c : Syscall) (a : Arguments) (s : Platform σ) :
    Allowed c a s (serve c a s).2 := by
  by_cases hexits : c.Exits
  · exact allowed_of_exits hexits
  by_cases hmaps : c.MapsMemory
  · rcases hmaps with rfl | rfl | rfl
    · rw [serve, map_apply]
      exact allowed_brkCall (a.get 0)
    · rw [serve, map_apply]
      exact allowed_mmapCall
    · rw [serve, map_apply]
      exact allowed_munmapCall
  · exact (spares_serve a hmaps hexits s).allowed hexits

/-! ## The call that the registers describe -/

/-- What the call leaves behind, whichever it is and however it ends. -/
structure Footprint (s : Platform σ) : Prop where
  pc : s.served.machine.pc = s.machine.pc
  registers : ∀ r, r ≠ Reg.a0 →
    s.served.machine.registers.read r = s.machine.registers.read r
  /-- A call that returns leaves its result in the register for it, and any other call leaves
  that register alone. -/
  result :
    (∃ c v, s.called? = some c ∧ ¬c.Exits ∧ (environmentCall s).1 = .ok () ∧
      (serve c (arguments s.machine) s).1 = .ok (some v) ∧
      s.answer = BitVec.ofInt 64 v) ∨
    (((∃ c, s.called? = some c ∧ c.Exits) ∨ ∃ e, (environmentCall s).1 = .error e) ∧
      s.served.machine.registers = s.machine.registers)
  bytes : ∀ x b b', s.machine.memory.byteMap x = some b →
    s.served.machine.memory.byteMap x = some b' → b' ≠ b →
    ∃ c, s.called? = some c ∧ c.Writes (arguments s.machine) x
  /-- Where memory is mapped, how much of it, and which addresses have names. -/
  space : s.served.machine.space ≠ s.machine.space → ∃ c, s.called? = some c ∧ c.MapsMemory
  names : ∀ name, s.served.machine.landmarks.get? name ≠ s.machine.landmarks.get? name →
    (s.called? = some .brk ∧ name = Landmarks.heapEnd) ∨
      (s.called? = some .mmap ∧ s.argument 3 &&& mapFixed = 0 ∧ name = Landmarks.mmapNext)
  exits : ∀ c, s.called? = some c → c.Exits →
    s.served.machine.exitCode = some (int32 (s.argument 0))
  exitCode : s.served.machine.exitCode ≠ s.machine.exitCode →
    ∃ c, s.called? = some c ∧ c.Exits
  random : s.served.kernel.random ≠ s.kernel.random → s.called? = some .getrandom
  /-- The transcript of the host is that of this very call. -/
  transcript : environmentCall (s.transcribing []) =
    ((environmentCall s).1, s.served.transcribing s.asked)
  asked : ∀ e ∈ s.asked, ∃ c, s.called? = some c ∧ MayAsk c (arguments s.machine) e.1
  unasked : s.asked = [] → s.served.kernel.hostState = s.kernel.hostState
  passedOn : ∀ c number, s.called? = some c → c ∈ Syscall.passedOn →
    s.kernel.host.remap s.kernel.hostState c = some number →
    ∃ v, s.asked = [(.invoke number ((arguments s.machine).toList.map .value), v)] ∧
      s.answer = BitVec.ofInt 64 v

theorem exits_of_serve (h : (serve c a s).1 = .ok none) : c.Exits := by
  have hsome : ∀ {α : Type} (f : α → Int) (x : Exec (Platform σ) α),
      ((fun v => some (f v)) <$> x) s = serve c a s → c.Exits := by
    intro α f x hx
    rw [← hx, map_apply] at h
    obtain ⟨v, -, hv⟩ := Except.map_eq_ok_iff.mp h
    cases hv
  cases c with
  | exit => exact Or.inl rfl
  | exitGroup => exact Or.inr rfl
  | setTidAddress | ioctl | rtSigaction | rtSigprocmask => cases h
  | brk => exact hsome BitVec.toInt _ rfl
  | _ => exact hsome id _ rfl

/-- A call that nobody knows is remarked upon, and that is all. -/
theorem footprint_of_unknown (hcalled : s.called? = none) : Footprint s := by
  obtain ⟨htranscript, hasked, hunasked⟩ := environmentCall_transcribing s
  have hrun := environmentCall_of_unknown hcalled
  have hserved : s.served = _ := congrArg Prod.snd hrun
  refine
    { pc := by rw [hserved]; rfl
      registers := fun r _ => by rw [hserved]; rfl
      result := Or.inr ⟨Or.inr ⟨_, congrArg Prod.fst hrun⟩, by rw [hserved]; rfl⟩
      bytes := fun x b b' hb hb' hne => ?_
      space := fun hne => absurd (by rw [hserved]; rfl) hne
      names := fun name hne => absurd (by rw [hserved]; rfl) hne
      exits := fun c hc => ?_
      exitCode := fun hne => absurd (by rw [hserved]; rfl) hne
      random := fun hne => absurd (by rw [hserved]) hne
      transcript := htranscript
      asked := hasked
      unasked := hunasked
      passedOn := fun c number hc => ?_ }
  · rw [hserved] at hb'
    exact absurd (Option.some.inj (hb'.symm.trans hb)) hne
  · rw [hcalled] at hc
    cases hc
  · rw [hcalled] at hc
    cases hc

theorem footprint (hs : s.Reachable) : Footprint s := by
  cases hcalled : s.called? with
  | none => exact footprint_of_unknown hcalled
  | some c =>
  obtain ⟨htranscript, hasked, hunasked⟩ := environmentCall_transcribing s
  obtain ⟨registers, log, hserved⟩ := served_eq hcalled
  have hallowed := allowed_serve c (arguments s.machine) s
  have hending := environmentCall_cases hcalled
  have hsame : ∀ d, s.called? = some d → d = c := fun d hd =>
    Option.some.inj (hd.symm.trans hcalled)
  refine
    { pc := by rw [hserved]; exact hallowed.pc
      registers := fun r hr => ?_
      result := ?_
      bytes := fun x b b' hb hb' hne => ⟨c, hcalled, ?_⟩
      space := fun hne => ⟨c, hcalled, ?_⟩
      names := fun name hne => ?_
      exits := fun d hd hexits => ?_
      exitCode := fun hne => ⟨c, hcalled, ?_⟩
      random := fun hne => ?_
      transcript := htranscript
      asked := hasked
      unasked := hunasked
      passedOn := fun d number hd hpassed hremap => ?_ }
  · rcases hending with ⟨v, -, -, hmachine⟩ | ⟨-, -, hmachine⟩
    · rw [hmachine, read_writeRegister_of_ne _ _ hr, hallowed.registers]
    · rw [hmachine, hallowed.registers]
  · rcases hending with ⟨v, hv, hok, hmachine⟩ | ⟨-, hend, hmachine⟩
    · refine Or.inl ⟨c, v, hcalled, fun hexits => ?_, hok, hv, ?_⟩
      · rcases hexits with rfl | rfl <;> cases hv
      · rw [answer, hmachine, read_writeRegister_a0]
    · refine Or.inr ⟨?_, by rw [hmachine, hallowed.registers]⟩
      rcases hend with hnone | ⟨e, -, herror⟩
      · exact Or.inl ⟨c, hcalled, exits_of_serve hnone⟩
      · exact Or.inr ⟨e, herror⟩
  · rw [hserved] at hb'
    exact hallowed.bytes hs.wellFormed x b b' hb hb' hne
  · rw [hserved] at hne
    exact hallowed.space hne
  · rw [hserved] at hne
    rcases hallowed.names name hne with ⟨rfl, hname⟩ | ⟨rfl, hflags, hname⟩
    · exact Or.inl ⟨hcalled, hname⟩
    · exact Or.inr ⟨hcalled, hflags, hname⟩
  · rw [hserved]
    rw [hsame d hd] at hexits
    exact hallowed.exits hexits
  · rw [hserved] at hne
    exact hallowed.exitCode hne
  · rw [hserved] at hne
    rw [hcalled, hallowed.random hne]
  · obtain ⟨v, hv, hrequest⟩ := asked_of_passedOn hd hpassed hremap
    exact ⟨v, hrequest, (environmentCall_of_serve hd hv).2⟩

def reading : Platform Script :=
  calling .read [0, 0x1004, 4] [.allocate 0x1000 16, .fill 0x1000 (List.replicate 16 7)]
    .scripted ⟨none, 0, [0x68, 0x69], [], 0, []⟩

theorem footprint_reading :
    reading.Reachable ∧ Footprint reading ∧ reading.asked = [(.read 0 4, 2)] ∧
      reading.answer = 2 ∧
      reading.served.machine.memory.slice 0x1002 6 = .ok [7, 7, 0x68, 0x69, 7, 7] := by
  have hreachable : reading.Reachable := reachable_calling _ _ _ _ _
  exact ⟨hreachable, footprint hreachable, by decide +kernel, by decide +kernel, by decide +kernel⟩

end Platform

end RiscvHart
