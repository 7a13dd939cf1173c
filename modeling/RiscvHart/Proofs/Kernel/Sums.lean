import RiscvHart.Proofs.Kernel.ProcessImage

/-!
# The sums of a start

To prepare a process, addresses are summed: where the stack ends, where the heap ends after each
text, where the block starts on the stack, and where each of its words lies. The block is put
only where the stack was found to have room for it, so its sums are always right. The other two
are checked before memory is asked for the range: if such a sum is no word, the start does not
get as far as the refusal that memory has for it.
-/

namespace RiscvHart

open Exec

namespace Bootstrap

variable {config : Config} {block : List Word}

theorem toNat_le_of_alignUp? {v up : Word} (h : Word.alignUp? v stackAlign = some up) :
    v.toNat ≤ up.toNat := by
  have halign : stackAlign.toNat = 128 := rfl
  rw [Word.alignUp?, halign] at h
  split at h
  · next hfits =>
    obtain rfl := Option.some.inj h
    rw [BitVec.toNat_ofNat, Nat.mod_eq_of_lt hfits]
    omega
  · cases h

/-! ## The break and the failures -/

variable {e n : Nat} {m m' : Machine}

structure HeapEndsAt (e : Nat) (m : Machine) : Prop where
  wellFormed : m.memory.WellFormed
  heapEnd : ∃ finish, m.landmarks.get? Landmarks.heapEnd = some finish ∧ finish.toNat = e

theorem HeapEndsAt.lt (h : HeapEndsAt e m) : e < addressLimit := by
  obtain ⟨finish, -, rfl⟩ := h.heapEnd
  exact finish.isLt

/-- A failure is a fault, or it is a sum that is no word, and there is such a sum up to `n`. -/
def Stopped (n : Nat) (err : Failure Fault) (_ : Machine) : Prop :=
  (∃ f, err = .error f) ∨ err = .crash .sumTooLarge ∧ addressLimit ≤ n

theorem Stopped.mono {n' : Nat} {err : Failure Fault} (h : Stopped n err m) (hle : n ≤ n') :
    Stopped n' err m :=
  h.imp_right fun hcrash => ⟨hcrash.1, Nat.le_trans hcrash.2 hle⟩

section

variable {α : Type} {P : Machine → Prop} {Q : α → Machine → Prop}

theorem fault_sums (f : Fault) : Meets P (fault f) Q (Stopped n) :=
  fun m _ => Or.inr ⟨.error f, m, rfl, Or.inl ⟨f, rfl⟩⟩

theorem attempt_sums {f : Machine → Except MemoryError (α × Machine)}
    (h : ∀ m a m', P m → f m = .ok (a, m') → Q a m') : Meets P (attempt f) Q (Stopped n) := by
  intro m hm
  unfold attempt
  cases hrun : f m with
  | ok result => exact Or.inl ⟨result.1, result.2, rfl, h m _ _ hm hrun⟩
  | error err => exact Or.inr ⟨.error (.ofMemory err), m, rfl, Or.inl ⟨_, rfl⟩⟩

theorem checkedAdd_sums (a b : Word) :
    Meets P (checkedAdd a b)
      (fun sum m => (sum.toNat = a.toNat + b.toNat ∧ a.toNat + b.toNat < addressLimit) ∧ P m)
      (Stopped (a.toNat + b.toNat)) := by
  intro m hm
  by_cases hfits : a.toNat + b.toNat < addressLimit
  · rw [checkedAdd, if_pos hfits]
    exact Or.inl ⟨a + b, m, rfl, ⟨(BitVec.toNat_add a b).trans (Nat.mod_eq_of_lt hfits), hfits⟩, hm⟩
  · rw [checkedAdd, if_neg hfits]
    exact Or.inr ⟨_, m, rfl, Or.inr ⟨rfl, Nat.le_of_not_lt hfits⟩⟩

end

theorem takeHeap_sums (length : Nat) :
    Meets (HeapEndsAt e) (takeHeap length)
      (fun addr m => addr.toNat = e ∧ HeapEndsAt (e + length % 2 ^ 64) m)
      (Stopped (e + length)) := by
  intro m h
  obtain ⟨start, hstart, rfl⟩ := h.heapEnd
  have hlength : (BitVec.ofNat 64 length).toNat = length % 2 ^ 64 := BitVec.toNat_ofNat length 64
  have hsum : Meets (· = m) _ _ _ := checkedAdd_sums start (BitVec.ofNat 64 length)
  rw [hlength] at hsum
  rw [takeHeap_of_end hstart]
  refine ((hsum.weaken_error fun _ _ h => h.mono ?_).bind fun finish =>
    Meets.of_assumption fun hfinish => attempt_sums fun _ addr grown hm hgrow => ?_) m rfl
  · exact Nat.add_le_add_left (Nat.mod_le _ _) _
  · obtain rfl := hm
    obtain ⟨m', hgrow, heq⟩ := Except.map_eq_ok_iff.mp hgrow
    cases heq
    obtain ⟨_, _, -, hmark, -⟩ := Machine.growHeap_cases hgrow
    refine ⟨rfl, Machine.wellFormed_growHeap h.wellFormed hgrow, finish, ?_, hfinish.1⟩
    rw [hmark]
    exact Landmarks.get?_set_self _ _ _

/-- Bytes are put only where there are addresses for them. -/
theorem put_sums {addr : Word} (bs : List Byte) :
    Meets (HeapEndsAt e) (put addr bs)
      (fun _ m => (0 < bs.length → addr.toNat + bs.length < addressLimit) ∧ HeapEndsAt e m)
      (Stopped n) := by
  refine attempt_sums fun m _ m' h hput => ?_
  obtain ⟨filled, hfill, heq⟩ := Except.map_eq_ok_iff.mp hput
  cases heq
  have hmemory := Machine.memory_of_fill hfill
  have hmapped := h.wellFormed.mapped_of_fill hmemory
  have hothers := MemoryRequest.eq_of_serve (r := .fill addr bs) hfill
  refine ⟨h.wellFormed.finish_of_mapped hmapped, h.wellFormed.fill hmemory, ?_⟩
  rw [hothers]
  exact h.heapEnd

theorem putText_sums (hpos : 0 < e) (text : List Byte) :
    Meets (HeapEndsAt e) (putText text) (fun _ => HeapEndsAt (e + (text.length + 1)))
      (Stopped (e + (text.length + 1))) := by
  refine (takeHeap_sums (text.length + 1)).bind fun addr => Meets.of_assumption fun haddr => ?_
  refine (put_sums text).bind fun _ => Meets.of_assumption fun hroom => Meets.pure fun m h => ?_
  -- A length that is no word would be taken modulo 2 ^ 64, but then there is no
  -- place for the text.
  have hword : text.length + 1 < 2 ^ 64 := by
    rcases Nat.eq_zero_or_pos text.length with hzero | hsome
    · omega
    · have hfits := hroom hsome
      unfold addressLimit at hfits
      omega
  rwa [Nat.mod_eq_of_lt hword] at h

theorem putTexts_sums (hpos : 0 < e) (texts : List (List Byte)) :
    Meets (HeapEndsAt e) (putTexts texts)
      (fun addrs m => addrs.length = texts.length ∧ HeapEndsAt (e + (terminated texts).length) m)
      (Stopped (e + (terminated texts).length)) := by
  induction texts generalizing e with
  | nil => exact Meets.pure fun m h => ⟨rfl, h⟩
  | cons text rest ih =>
    have htotal : e + (terminated (text :: rest)).length =
        e + (text.length + 1) + (terminated rest).length := by
      rw [terminated_cons, List.length_append, List.length_append, List.length_singleton,
        ← Nat.add_assoc]
    rw [htotal]
    refine ((putText_sums hpos text).weaken_error fun _ _ h =>
      h.mono (Nat.le_add_right _ _)).bind fun addr => ?_
    refine (ih (Nat.add_pos_left hpos _)).bind fun others => Meets.of_assumption fun hlength => ?_
    exact Meets.pure fun m h => ⟨congrArg (· + 1) hlength, h⟩

/-- Words that end at an address lie at addresses. -/
theorem putWords_sums {addr : Word} {i : Nat} {ws : List Word}
    (hfits : addr.toNat + 8 * (i + ws.length) ≤ addressLimit) :
    Meets P (putWords addr i ws) (fun _ _ => True) (Stopped n) := by
  induction ws generalizing i P with
  | nil => exact Meets.pure fun _ _ => trivial
  | cons w rest ih =>
    rw [List.length_cons] at hfits
    have hoffset : (BitVec.ofNat 64 (8 * i)).toNat ≤ 8 * i := by
      rw [BitVec.toNat_ofNat]
      exact Nat.mod_le _ _
    intro m hm
    rw [putWords, checkedAdd_bind_apply _ _ (by omega)]
    refine Meets.bind (Q := fun _ _ => True) (attempt_sums fun _ _ _ _ _ => trivial) ?_ m hm
    exact fun _ => ih (by omega)

/-- The stack ends at an address and has room for the block, so the block starts at an address
and each of its words lies at one. -/
theorem putBlock_sums {stackEnd : Word} (hstack : config.stackSize.toNat ≤ stackEnd.toNat) :
    Meets P (putBlock config stackEnd block) (fun _ _ => True) (Stopped (8 * block.length)) := by
  unfold putBlock
  split
  · next hlarge => exact fun m _ => Or.inr ⟨_, m, rfl, Or.inr ⟨rfl, hlarge⟩⟩
  next hcount =>
  dsimp only
  cases hsize : Word.alignUp? (BitVec.ofNat 64 (8 * block.length)) stackAlign with
  | none => exact fault_sums _
  | some size =>
  dsimp only
  split
  · exact fault_sums _
  next hroom =>
  have hlength : (BitVec.ofNat 64 (8 * block.length)).toNat = 8 * block.length := by
    rw [BitVec.toNat_ofNat]
    exact Nat.mod_eq_of_lt (Nat.lt_of_not_le hcount)
  have hblock := toNat_le_of_alignUp? hsize
  have hsp : (stackEnd - size).toNat = stackEnd.toNat - size.toNat :=
    BitVec.toNat_sub_of_le (BitVec.le_def.mpr (by omega))
  have hlimit : stackEnd.toNat < addressLimit := stackEnd.isLt
  intro m hm
  rw [checkedSub_bind_apply _ _ (by omega)]
  have hwords : Meets P (putWords (stackEnd - size) 0 block) _ (Stopped (8 * block.length)) :=
    putWords_sums (by omega)
  exact hwords.bind (fun _ m _ => Or.inl ⟨(), _, rfl, trivial⟩) m hm

theorem mapStack_of_too_large
    (h : addressLimit ≤ config.stackStart.toNat + config.stackSize.toNat) :
    mapStack config m = (.error (.crash .sumTooLarge), m) := by
  rw [mapStack, checkedAdd_bind_of_too_large _ _ h]

theorem mapStack_sums :
    Meets (HeapEndsAt e) (mapStack config)
      (fun finish m => (finish.toNat = config.stackStart.toNat + config.stackSize.toNat ∧
        config.stackStart.toNat + config.stackSize.toNat < addressLimit) ∧ HeapEndsAt e m)
      (Stopped (config.stackStart.toNat + config.stackSize.toNat)) := by
  refine (checkedAdd_sums _ _).bind fun finish => Meets.of_assumption fun hfinish => ?_
  refine Meets.bind (attempt_sums fun m _ m' h hmap => ?_) fun _ => Meets.pure fun m h =>
    ⟨hfinish, h⟩
  obtain ⟨mapped, hallocate, heq⟩ := Except.map_eq_ok_iff.mp hmap
  cases heq
  have hmemory := Machine.memory_of_allocate hallocate
  have hothers := MemoryRequest.eq_of_serve (r := .allocate _ _) hallocate
  refine ⟨h.wellFormed.allocate hmemory, ?_⟩
  rw [Machine.mark, Machine.mark, hothers]
  dsimp only
  rw [Landmarks.get?_set_ne _ _ (by decide), Landmarks.get?_set_ne _ _ (by decide)]
  exact h.heapEnd

theorem length_initialBlock (args : ProcessArgs) (config : Config) :
    (initialBlock args config).length = args.texts.length + 9 := by
  simp [initialBlock, textPointers, ProcessArgs.texts, ProcessArgs.argumentTexts]
  omega

theorem length_words (arguments environment : List Word) (random : Word) :
    (words arguments environment random).length = arguments.length + environment.length + 9 := by
  simp [words]
  omega

end Bootstrap

namespace Machine

open Bootstrap

variable {m : Machine} {args : ProcessArgs} {config : Config}

/-! ## The whole start -/

/-- The texts and the block of a process are put where the break is, and on the stack. -/
theorem putTextsAndBlock_sums (args : ProcessArgs) {config : Config} {stackEnd : Word}
    (random : Word) {e n : Nat} (hstack : config.stackSize.toNat ≤ stackEnd.toNat) (hpos : 0 < e)
    (htexts : e + (terminated args.texts).length ≤ n)
    (hblock : 8 * (initialBlock args config).length ≤ n) :
    Meets (HeapEndsAt e)
      (do
        let arguments ← putTexts args.argumentTexts
        let environment ← putTexts args.settingTexts
        putBlock config stackEnd (words arguments environment random))
      (fun _ _ => e + (terminated args.texts).length < addressLimit) (Stopped n) := by
  rw [ProcessArgs.texts, terminated_append, List.length_append, ← Nat.add_assoc] at htexts ⊢
  refine ((putTexts_sums hpos args.argumentTexts).weaken_error fun _ _ h => h.mono (by omega)).bind
    fun arguments => Meets.of_assumption fun harguments => ?_
  refine ((putTexts_sums (Nat.add_pos_left hpos _) args.settingTexts).weaken_error fun _ _ h =>
    h.mono htexts).bind fun environment => Meets.of_assumption fun henvironment => ?_
  have hlength : (words arguments environment random).length =
      (initialBlock args config).length := by
    rw [length_words, length_initialBlock, harguments, henvironment, ProcessArgs.texts,
      List.length_append]
  intro m h
  rcases putBlock_sums (P := fun _ => True) hstack m trivial with ⟨u, m', hrun, -⟩ |
    ⟨err, m', hrun, hstopped⟩
  · exact Or.inl ⟨u, m', hrun, h.lt⟩
  · exact Or.inr ⟨err, m', hrun, hstopped.mono (hlength ▸ hblock)⟩

theorem bootstrap_sums (args : ProcessArgs) (config : Config) :
    Meets (fun m => m.memory.WellFormed) (bootstrap args config)
      (fun _ _ => reach args config < addressLimit)
      (Stopped (max (reach args config) (8 * (initialBlock args config).length))) := by
  intro m hwell
  have hstart : HeapEndsAt config.heapStart.toNat (m.named config) := by
    refine ⟨hwell, config.heapStart, ?_, rfl⟩
    rw [named, mark, mark, mark, Landmarks.get?_set_ne _ _ (by decide), Landmarks.get?_set_self]
  have hstack : config.stackStart.toNat + config.stackSize.toNat ≤ reach args config :=
    Nat.le_max_left _ _
  have hheap : config.heapStart.toNat + randomLength + (terminated args.texts).length ≤
      reach args config := Nat.le_max_right _ _
  have hreach := Nat.le_max_left (reach args config) (8 * (initialBlock args config).length)
  have hblock := Nat.le_max_right (reach args config) (8 * (initialBlock args config).length)
  have hrandom : randomLength % 2 ^ 64 = randomLength := rfl
  have hsome : 0 < randomLength := by decide
  rw [bootstrap, modify_bind_apply]
  refine ((mapStack_sums.weaken_error fun _ _ h => h.mono (by omega)).bind fun finish =>
    Meets.of_assumption fun hfits => ?_) _ hstart
  have hsize : config.stackSize.toNat ≤ finish.toNat := by omega
  refine ((takeHeap_sums _).weaken_error fun _ _ h => h.mono (by omega)).bind fun random =>
    Meets.of_assumption fun _ => ?_
  refine (put_sums _).bind fun _ => Meets.of_assumption fun _ => ?_
  rw [hrandom]
  intro m h
  have hlaid := putTextsAndBlock_sums args random hsize (by omega) (by omega) hblock m h
  rcases hlaid with ⟨u, m', hrun, hlast⟩ | herror
  · exact Or.inl ⟨u, m', hrun, max_lt hfits.2 hlast⟩
  · exact Or.inr herror

/-- What the sums of a start do to it. -/
structure Sums (m : Machine) (args : ProcessArgs) (config : Config) : Prop where
  /-- Where the stack ends at a word, so does everything that is put on it: no block of any
  length takes a difference or a sum that fails, whatever has become of the machine. -/
  block : config.stackStart.toNat + config.stackSize.toNat < addressLimit →
    ∀ (block : List Word) (m' : Machine), 8 * block.length < addressLimit →
      (putBlock config (config.stackStart + config.stackSize) block m').1 = .ok () ∨
        ∃ f, (putBlock config (config.stackStart + config.stackSize) block m').1 =
          .error (.error f)
  /-- The size of the block is never taken from an address below it. -/
  difference : (m.bootstrap args config).1 ≠ .error (.crash .differenceNegative)
  /-- If the stack and the texts end at words, and the block has a length, then no sum fails. -/
  answered : reach args config < addressLimit →
    8 * (initialBlock args config).length < addressLimit →
    (m.bootstrap args config).1 = .ok () ∨ ∃ f, (m.bootstrap args config).1 = .error (.error f)
  /-- If the stack does not end at a word, memory would refuse it, but its end is summed before
  memory is asked, with nothing changed but names. -/
  stack : addressLimit ≤ config.stackStart.toNat + config.stackSize.toNat →
    m.bootstrap args config = (.error (.crash .sumTooLarge), m.named config)
  /-- If the texts do not end at a word, the process does not start. -/
  heap : addressLimit ≤ config.heapStart.toNat + randomLength + (terminated args.texts).length →
    (m.bootstrap args config).1 = .error (.crash .sumTooLarge) ∨
      ∃ f, (m.bootstrap args config).1 = .error (.error f)

/-- A start takes no sum that is no word but the end of the stack and the ends of the texts. -/
theorem sums_bootstrap (hwell : m.memory.WellFormed) (args : ProcessArgs) (config : Config) :
    m.Sums args config where
  block hfits block m' hlength := by
    have hstack : config.stackSize.toNat ≤ (config.stackStart + config.stackSize).toNat := by
      rw [BitVec.toNat_add, Nat.mod_eq_of_lt hfits]
      omega
    rcases putBlock_sums (P := fun _ => True) hstack m' trivial with
      ⟨u, after, hrun, -⟩ | ⟨err, after, hrun, hstopped⟩
    · exact Or.inl (congrArg Prod.fst hrun)
    · obtain ⟨f, rfl⟩ := hstopped.resolve_right fun hcrash => Nat.not_lt.mpr hcrash.2 hlength
      exact Or.inr ⟨f, congrArg Prod.fst hrun⟩
  difference := by
    rcases bootstrap_sums args config m hwell with ⟨u, m', hrun, -⟩ | ⟨err, m', hrun, hstopped⟩
    · rw [hrun]
      exact nofun
    · rw [hrun]
      rintro heq
      rcases hstopped with ⟨f, rfl⟩ | ⟨rfl, -⟩ <;> cases heq
  answered hreach hblock := by
    rcases bootstrap_sums args config m hwell with ⟨u, m', hrun, -⟩ | ⟨err, m', hrun, hstopped⟩
    · exact Or.inl (congrArg Prod.fst hrun)
    · obtain ⟨f, rfl⟩ := hstopped.resolve_right fun hcrash =>
        Nat.not_lt.mpr hcrash.2 (max_lt hreach hblock)
      exact Or.inr ⟨f, congrArg Prod.fst hrun⟩
  stack h := by
    rw [bootstrap, modify_bind_apply, bind_error (mapStack_of_too_large h)]
    rfl
  heap h := by
    rcases bootstrap_sums args config m hwell with ⟨u, m', hrun, hfits⟩ | ⟨err, m', hrun, hstopped⟩
    · exact absurd hfits (Nat.not_lt.mpr (Nat.le_trans h (Nat.le_max_right _ _)))
    · rw [hrun]
      rcases hstopped with ⟨f, rfl⟩ | ⟨rfl, -⟩
      · exact Or.inr ⟨f, rfl⟩
      · exact Or.inl rfl

/-- A machine on which nothing is mapped. -/
def bare : Machine := .start (.empty 0x10000000) 0x1000

def stackAtTop : Config := { Config.standard with stackStart := 0xFFFFFFFFFFFFFFFF }

def heapAtTop : Config := { Config.standard with heapStart := 0xFFFFFFFFFFFFFFFF }

theorem sums_bootstrap_bare :
    bare.memory.WellFormed ∧
      ((bare.bootstrap ⟨["a"], [("b", "c")]⟩ Config.standard).1 = .ok () ∨
        ∃ f, (bare.bootstrap ⟨["a"], [("b", "c")]⟩ Config.standard).1 = .error (.error f)) ∧
      bare.bootstrap ⟨[], []⟩ stackAtTop =
        (.error (.crash .sumTooLarge), bare.named stackAtTop) := by
  have hwell : bare.memory.WellFormed := Memory.wellFormed_emptyOver _ _
  exact ⟨hwell,
    (sums_bootstrap hwell ⟨["a"], [("b", "c")]⟩ Config.standard).answered (by decide +kernel)
      (by decide +kernel),
    (sums_bootstrap hwell ⟨[], []⟩ stackAtTop).stack (by decide)⟩

/-- Memory refuses both ranges, but no start asks it: each fails where it sums the
end of the range. -/
theorem ends_summed_before_asking :
    bare.memory.allocate stackAtTop.stackStart stackAtTop.stackSize.toNat =
        .error (.regionOverlap 0xFFFFFFFFFFFFFFFF 0x10000) ∧
      (bare.bootstrap ⟨[], []⟩ stackAtTop).1 = .error (.crash .sumTooLarge) ∧
      bare.memory.allocate heapAtTop.heapStart randomLength =
        .error (.regionOverlap 0xFFFFFFFFFFFFFFFF 16) ∧
      (bare.bootstrap ⟨[], []⟩ heapAtTop).1 = .error (.crash .sumTooLarge) :=
  ⟨rfl, by decide +kernel, rfl, by decide +kernel⟩

end Machine

end RiscvHart
