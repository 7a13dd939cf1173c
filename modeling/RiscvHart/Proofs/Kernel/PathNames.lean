import RiscvHart.Proofs.Kernel.BadPointers

/-!
# Names of files

A guest names a file by an address: the name is made up of the bytes from there on up to the
first zero. A host that is asked to open a file is given these bytes and no others, whichever
regions they lie in, unless there are too many of them: then it is given as many as the longest
name may have.
-/

namespace RiscvHart

open Exec

theorem MemoryRequest.memory_perform_fill {m : Machine} {memory : Memory} {addr : Word}
    {bs : List Byte} (h : m.memory.fill addr bs = .ok memory) :
    ((MemoryRequest.fill addr bs).perform m).2.memory = memory := by
  rw [perform_eq_attempt, attempt, serve, Machine.fill, h]
  rfl

namespace Memory

/-- The bytes of a path lie one after the other from a position on, and none of them is zero. -/
def PathAt (m : Memory) (pos : Nat) (path : List Byte) : Prop :=
  ∀ k b, path[k]? = some b → m.byteMap (BitVec.ofNat 64 (pos + k)) = some b ∧ b ≠ 0

/-- A path lies from a position on, and a zero follows it. -/
def EndedPathAt (m : Memory) (pos : Nat) (path : List Byte) : Prop :=
  m.PathAt pos path ∧ m.byteMap (BitVec.ofNat 64 (pos + path.length)) = some 0

variable {m : Memory} {pos left : Nat} {path : List Byte} {b : Byte}

theorem pathAt_nil (m : Memory) (pos : Nat) : m.PathAt pos [] := by
  intro k b hb
  simp at hb

theorem pathAt_cons :
    m.PathAt pos (b :: path) ↔
      (m.byteMap (BitVec.ofNat 64 pos) = some b ∧ b ≠ 0) ∧ m.PathAt (pos + 1) path := by
  have hplace : ∀ k, pos + (k + 1) = pos + 1 + k := fun k => by omega
  constructor
  · intro h
    refine ⟨h 0 b rfl, fun k c hc => ?_⟩
    rw [← hplace]
    exact h (k + 1) c hc
  · rintro ⟨hfirst, hrest⟩ k c hc
    cases k with
    | zero =>
      obtain rfl : b = c := by simpa using hc
      exact hfirst
    | succ k =>
      rw [hplace]
      exact hrest k c hc

theorem endedPathAt_nil : m.EndedPathAt pos [] ↔ m.byteMap (BitVec.ofNat 64 pos) = some 0 := by
  simp [EndedPathAt, pathAt_nil]

theorem endedPathAt_cons :
    m.EndedPathAt pos (b :: path) ↔
      (m.byteMap (BitVec.ofNat 64 pos) = some b ∧ b ≠ 0) ∧ m.EndedPathAt (pos + 1) path := by
  have hplace : pos + (b :: path).length = pos + 1 + path.length := by
    rw [List.length_cons]
    omega
  rw [EndedPathAt, EndedPathAt, pathAt_cons, hplace, and_assoc]

theorem WellFormed.pathAt_fill {m' : Memory} {addr : Word} (h : m.WellFormed)
    (hok : m.fill addr path = .ok m') (hpath : ∀ b ∈ path, b ≠ 0) : m'.PathAt addr.toNat path := by
  intro k b hb
  obtain ⟨hk, rfl⟩ := List.getElem?_eq_some_iff.mp hb
  have hend : addr.toNat + path.length < 2 ^ 64 :=
    h.finish_of_mapped (h.mapped_of_fill hok) (by omega)
  have hplace : (BitVec.ofNat 64 (addr.toNat + k)).toNat = addr.toNat + k := by
    rw [BitVec.toNat_ofNat]
    omega
  have hin : Word.Within (BitVec.ofNat 64 (addr.toNat + k)) addr path.length := by
    rw [Word.Within, hplace]
    omega
  rw [h.byteMap_fill hok, if_pos hin, hplace, Nat.add_sub_cancel_left]
  exact ⟨hb, hpath _ (List.getElem_mem hk)⟩

theorem WellFormed.next_of_byteMap (h : m.WellFormed) (hpos : pos < addressLimit)
    (hb : m.byteMap (BitVec.ofNat 64 pos) = some b) : pos + 1 < addressLimit := by
  obtain ⟨r, hr, hbyte⟩ := List.exists_of_findSome?_eq_some hb
  have hin := (Region.byte?_eq_some_iff.mp hbyte).1.2
  have hend : r.base.toNat + r.size < addressLimit := h.bounded r hr
  rw [BitVec.toNat_ofNat, Nat.mod_eq_of_lt hpos] at hin
  omega

/-- To read one byte is to look it up. -/
theorem WellFormed.peek_byte (h : m.WellFormed) (addr : Word) :
    m.peek .byte addr =
      match m.byteMap addr with
      | some b => .ok (b.setWidth 64)
      | none => .error (.outOfBounds addr) := by
  have hself : addr.Within addr Width.byte.bytes := ⟨le_rfl, Nat.lt_add_of_pos_right Nat.one_pos⟩
  rcases h.bounded_peek .byte addr with ⟨-, v, hv⟩ | ⟨hunmapped, herror⟩
  · obtain ⟨hsmall, hbytes⟩ := h.byteMap_peek hv
    have hvalue : (v.extractLsb' 0 8).setWidth 64 = v := by
      apply BitVec.eq_of_toNat_eq
      have hlow : v.toNat < 256 := hsmall
      simp
      omega
    rw [hv, hbytes addr hself]
    simp [hvalue]
  · have hnone : m.byteMap addr = none := by
      refine byteMap_eq_none_iff.mpr fun r hr hin => hunmapped (Or.inr ⟨r, hr, ?_⟩)
      exact Region.covers_one_iff.mpr hin
    rw [herror, hnone]

end Memory

namespace Platform

variable {m : Memory} {pos left : Nat} {path : List Byte}

/-- One more byte of a path is looked at. -/
theorem pathFrom_succ (h : m.WellFormed) (hpos : pos < addressLimit) (left : Nat) :
    pathFrom m pos (left + 1) =
      match m.byteMap (BitVec.ofNat 64 pos) with
      | none => .error (.error (.outOfBounds (BitVec.ofNat 64 pos)))
      | some b => if b = 0 then .ok [] else (pathFrom m (pos + 1) left).map (b :: ·) := by
  rw [pathFrom, if_neg hpos.not_ge, h.peek_byte]
  cases m.byteMap (BitVec.ofNat 64 pos) with
  | none => rfl
  | some b =>
    dsimp only
    by_cases hzero : b = 0
    · subst hzero
      rfl
    · have hwide : ¬b.setWidth 64 = 0 := by
        intro hb
        apply hzero
        apply BitVec.eq_of_toNat_eq
        have hvalue := congrArg BitVec.toNat hb
        simp at hvalue
        simp
        omega
      rw [if_neg hzero, if_neg hwide]
      simp

/-- What is read of a path: all bytes up to a zero, or as many as may be read. -/
theorem pathFrom_eq_ok_iff (h : m.WellFormed) (hpos : pos < addressLimit) :
    pathFrom m pos left = .ok path ↔
      (m.EndedPathAt pos path ∧ path.length < left) ∨
        (m.PathAt pos path ∧ path.length = left) := by
  induction left generalizing pos path with
  | zero =>
    constructor
    · intro hpath
      cases hpath
      exact Or.inr ⟨m.pathAt_nil pos, rfl⟩
    · rintro (⟨-, hlength⟩ | ⟨-, hlength⟩)
      · omega
      · rw [List.eq_nil_of_length_eq_zero hlength]
        rfl
  | succ left ih =>
    rw [pathFrom_succ h hpos]
    cases hb : m.byteMap (BitVec.ofNat 64 pos) with
    | none =>
      cases path with
      | nil => simp [Memory.endedPathAt_nil, hb]
      | cons c rest => simp [Memory.endedPathAt_cons, Memory.pathAt_cons, hb]
    | some b =>
      have hnext := h.next_of_byteMap hpos hb
      by_cases hzero : b = 0
      · subst hzero
        cases path with
        | nil => simp [Memory.endedPathAt_nil, hb]
        | cons c rest =>
          have hfirst : ¬(m.byteMap (BitVec.ofNat 64 pos) = some c ∧ c ≠ 0) := by
            rw [hb]
            rintro ⟨heq, hne⟩
            exact hne (Option.some.inj heq).symm
          simp only [Memory.endedPathAt_cons, Memory.pathAt_cons, hfirst, false_and, or_self,
            iff_false]
          simp
      · simp only [if_neg hzero, Except.map_eq_ok_iff]
        cases path with
        | nil =>
          have hends : ¬m.EndedPathAt pos [] := by
            rw [Memory.endedPathAt_nil, hb]
            exact fun heq => hzero (Option.some.inj heq)
          simp [hends]
        | cons c rest =>
          have hfirst : (m.byteMap (BitVec.ofNat 64 pos) = some c ∧ c ≠ 0) ↔ b = c := by
            rw [hb, Option.some.injEq]
            exact ⟨And.left, fun heq => ⟨heq, heq ▸ hzero⟩⟩
          rw [Memory.endedPathAt_cons, Memory.pathAt_cons, hfirst]
          simp only [ih hnext, List.cons.injEq, List.length_cons, Nat.add_lt_add_iff_right,
            Nat.add_right_cancel_iff, existsAndEq]
          tauto

/-! ## The call -/

section

variable {σ : Type} {s : Platform σ}

/-- The host is asked once, to open a file of a given name, and its result is
that of the call. -/
structure OpensFile (s : Platform σ) (path : List Byte) (result : Int) : Prop where
  asked : s.asked = [(.openat (int32 (s.argument 0)) path (int32 (s.argument 2))
    (int32 (s.argument 3)), result)]
  reply : result = (s.kernel.host.openat (int32 (s.argument 0)) path (int32 (s.argument 2))
    (int32 (s.argument 3)) (s.kernel.host.hear s.machine.log s.kernel.hostState)).result
  answered : (environmentCall s).1 = .ok ()
  answer : s.answer = BitVec.ofInt 64 result

theorem opensFile_of_path (hcalled : s.called? = some .openat)
    (hpath : pathFrom s.machine.memory (s.argument 1).toNat longestPath = .ok path) :
    ∃ result, s.OpensFile path result := by
  have hpath' : pathFrom s.machine.memory (arguments s.machine)[1].toNat longestPath = .ok path :=
    hpath
  have hserve : (serve .openat (arguments s.machine) s).1 =
      .ok (some (s.kernel.host.openat (int32 (s.argument 0)) path (int32 (s.argument 2))
        (int32 (s.argument 3)) (s.kernel.host.hear s.machine.log s.kernel.hostState)).result) := by
    rw [serve, map_apply, openatCall, get_bind_apply, hpath']
    rfl
  obtain ⟨hanswered, hanswer⟩ := environmentCall_of_serve hcalled hserve
  refine ⟨_, ?_, rfl, hanswered, hanswer⟩
  rw [asked_eq hcalled, serve, map_apply, openatCall, get_bind_apply, machine_transcribing, hpath']
  rfl

theorem refused_of_unreadable_path {e : MemoryError} (hcalled : s.called? = some .openat)
    (hpath : pathFrom s.machine.memory (s.argument 1).toNat longestPath = .error (.error e)) :
    s.asked = [] ∧ (environmentCall s).1 = .ok () ∧
      s.answer = BitVec.ofInt 64 Errno.badAddress.result := by
  have hpath' : pathFrom s.machine.memory (arguments s.machine)[1].toNat longestPath =
      .error (.error e) := hpath
  constructor
  · rw [asked_eq hcalled, serve, map_apply, openatCall, get_bind_apply,
      machine_transcribing, hpath']
    rfl
  · apply environmentCall_of_serve hcalled
    rw [serve, map_apply, openatCall, get_bind_apply, hpath']
    rfl

structure Opens (s : Platform σ) : Prop where
  answered : (environmentCall s).1 = .ok ()
  /-- The host is asked for the name that the guest has given, or for the start of a name that
  does not end in time. -/
  asked : ∀ e ∈ s.asked, ∃ path,
    e.1 = .openat (int32 (s.argument 0)) path (int32 (s.argument 2)) (int32 (s.argument 3)) ∧
    ((s.machine.memory.EndedPathAt (s.argument 1).toNat path ∧ path.length < longestPath) ∨
      (s.machine.memory.PathAt (s.argument 1).toNat path ∧ path.length = longestPath))
  named : ∀ path, s.machine.memory.EndedPathAt (s.argument 1).toNat path →
    path.length < longestPath → ∃ result, s.OpensFile path result
  runsOut : s.machine.memory.RunsOut (s.argument 1).toNat longestPath →
    s.asked = [] ∧ s.answer = BitVec.ofInt 64 Errno.badAddress.result
  /-- A name that does not end in time is cut off. -/
  cut : ∀ path, s.machine.memory.PathAt (s.argument 1).toNat path →
    path.length = longestPath → ∃ result, s.OpensFile path result

theorem opens (hs : s.Reachable) (hcalled : s.called? = some .openat) : Opens s := by
  have hwell := hs.wellFormed
  have hstart : (s.argument 1).toNat < addressLimit := (s.argument 1).isLt
  have hread : ∀ path, pathFrom s.machine.memory (s.argument 1).toNat longestPath = .ok path ↔
      (s.machine.memory.EndedPathAt (s.argument 1).toNat path ∧ path.length < longestPath) ∨
        (s.machine.memory.PathAt (s.argument 1).toNat path ∧ path.length = longestPath) :=
    fun _ => pathFrom_eq_ok_iff hwell hstart
  -- Reading the name gives a name or fails; it does not crash.
  have hcases : (∃ path, pathFrom s.machine.memory (s.argument 1).toNat longestPath = .ok path) ∨
      ∃ e, pathFrom s.machine.memory (s.argument 1).toNat longestPath = .error (.error e) := by
    cases hpath : pathFrom s.machine.memory (s.argument 1).toNat longestPath with
    | ok path => exact Or.inl ⟨path, rfl⟩
    | error e =>
      cases e with
      | error e => exact Or.inr ⟨e, rfl⟩
      | crash c => exact absurd hpath (pathFrom_ne_crash hwell hstart _)
  constructor
  · rcases hcases with ⟨path, hpath⟩ | ⟨e, hpath⟩
    · obtain ⟨result, hopens⟩ := opensFile_of_path hcalled hpath
      exact hopens.answered
    · exact (refused_of_unreadable_path hcalled hpath).2.1
  · intro e he
    rcases hcases with ⟨path, hpath⟩ | ⟨e', hpath⟩
    · obtain ⟨result, hopens⟩ := opensFile_of_path hcalled hpath
      rw [hopens.asked, List.mem_singleton] at he
      exact ⟨path, congrArg Prod.fst he, (hread path).mp hpath⟩
    · rw [(refused_of_unreadable_path hcalled hpath).1] at he
      exact absurd he List.not_mem_nil
  · exact fun path hended hshort =>
      opensFile_of_path hcalled ((hread path).mpr (Or.inl ⟨hended, hshort⟩))
  · intro hout
    obtain ⟨e, hpath⟩ := pathFrom_of_runsOut hwell hstart hout
    obtain ⟨hasked, -, hanswer⟩ := refused_of_unreadable_path hcalled hpath
    exact ⟨hasked, hanswer⟩
  · exact fun path hlies hlong =>
      opensFile_of_path hcalled ((hread path).mpr (Or.inr ⟨hlies, hlong⟩))

def naming : Platform Script :=
  calling .openat [-100, 0x100E, 0x41, 0x1B6]
    [.allocate 0x1000 16, .allocate 0x1010 16, .fill 0x100E [0x61, 0x2F],
     .fill 0x1010 [0x62, 0, 0x63]]
    .scripted ⟨none, 0, [], [], 3, []⟩

theorem opens_naming :
    naming.Reachable ∧ naming.called? = some .openat ∧
      naming.asked = [(.openat (-100) [0x61, 0x2F, 0x62] 0x41 0x1B6, 3)] ∧ naming.answer = 3 ∧
      Opens naming := by
  have hreachable : naming.Reachable := reachable_calling _ _ _ _ _
  have hcalled : naming.called? = some .openat := by decide +kernel
  exact ⟨hreachable, hcalled, by decide +kernel, by decide +kernel, opens hreachable hcalled⟩

def onePage : Machine :=
  MemoryRequest.performAll [.allocate 0x1000 longestPath] (.start (.empty 0x10000) 0x1000)

def namingOnPage (path : List Byte) : Platform Script :=
  calling .openat [-100, 0x1000, 0, 0] [.allocate 0x1000 longestPath, .fill 0x1000 path] .scripted
    ⟨none, 0, [], [], 3, []⟩

theorem pathAt_namingOnPage (hlong : path.length ≤ longestPath) (hpath : ∀ b ∈ path, b ≠ 0) :
    (namingOnPage path).machine.memory.PathAt 0x1000 path := by
  have hwell : onePage.memory.WellFormed :=
    MemoryRequest.wellFormed_performAll _ _ _ (.start (.empty 0x10000) 0x1000)
  have hend : Region.finish (.zeros 0x1000 longestPath) = 0x1000 + longestPath := rfl
  have hmapped : onePage.memory.Mapped 0x1000 path.length := by
    refine Or.inr ⟨.zeros 0x1000 longestPath, List.mem_singleton.mpr rfl, Nat.le_refl _, ?_⟩
    exact hend ▸ Nat.add_le_add_left hlong _
  obtain ⟨memory, hfill⟩ := (hwell.bounded_fill 0x1000 path).ok_of_mapped hmapped
  have hmemory : (namingOnPage path).machine.memory = memory :=
    MemoryRequest.memory_perform_fill hfill
  rw [hmemory]
  exact hwell.pathAt_fill hfill hpath

theorem OpensFile.namingOnPage {result : Int} (h : (namingOnPage path).OpensFile path result) :
    (namingOnPage path).asked = [(.openat (-100) path 0 0, 3)] ∧
      (namingOnPage path).answer = 3 := by
  have hargument : ∀ i, (Platform.namingOnPage path).argument i =
      (Platform.namingOnPage []).argument i := fun _ => rfl
  have hdirectory : int32 ((Platform.namingOnPage []).argument 0) = -100 := by decide +kernel
  have hflags : int32 ((Platform.namingOnPage []).argument 2) = 0 := by decide +kernel
  have hmode : int32 ((Platform.namingOnPage []).argument 3) = 0 := by decide +kernel
  have hresult : result = 3 := h.reply
  have hasked := h.asked
  have hanswer := h.answer
  rw [hargument, hargument, hargument, hdirectory, hflags, hmode, hresult] at hasked
  rw [hresult] at hanswer
  exact ⟨hasked, hanswer⟩

def endless : Platform Script := namingOnPage (List.replicate longestPath 0x61)

/-- The start of a name that is too long is opened in its place. -/
theorem endless_name_opened :
    endless.Reachable ∧ endless.called? = some .openat ∧ endless.argument 1 = 0x1000 ∧
      (∀ k < longestPath,
        endless.machine.memory.byteMap (BitVec.ofNat 64 (0x1000 + k)) = some 0x61) ∧
      endless.asked = [(.openat (-100) (List.replicate longestPath 0x61) 0 0, 3)] ∧
      endless.answer = 3 := by
  have hreachable : endless.Reachable := reachable_calling _ _ _ _ _
  have hcalled : endless.called? = some .openat := by decide +kernel
  have hlies : endless.machine.memory.PathAt 0x1000 (List.replicate longestPath 0x61) :=
    pathAt_namingOnPage (Nat.le_of_eq List.length_replicate) (by simp)
  have hpath := (pathFrom_eq_ok_iff hreachable.wellFormed (by decide)).mpr
    (Or.inr ⟨hlies, List.length_replicate⟩)
  obtain ⟨result, hopens⟩ := opensFile_of_path hcalled hpath
  refine ⟨hreachable, hcalled, by decide +kernel, fun k hk => ?_, hopens.namingOnPage⟩
  exact (hlies k 0x61 (List.getElem?_replicate_of_lt hk)).1

end

end Platform

end RiscvHart
