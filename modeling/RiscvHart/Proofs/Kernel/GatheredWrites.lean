import RiscvHart.Proofs.Kernel.Safety
import RiscvHart.Proofs.Kernel.Transcript

/-!
# Writing from several buffers

A table in memory lists buffers that are to be written one after the other. The host takes an
initial segment of their concatenation, and the guest is told its length, unless an entry of the
table or its buffer cannot be read: then the guest is told so, whatever the host has taken by
then.
-/

namespace RiscvHart

open Exec

namespace Memory

/-- The buffer that an entry of a table describes, if it can be read. -/
def entryBuffer? (m : Memory) (entry : Nat) : Option (List Byte) :=
  match m.peek .double (BitVec.ofNat 64 entry), m.peek .double (BitVec.ofNat 64 (entry + 8)) with
  | .ok base, .ok length => (m.slice base length.toNat).toOption
  | _, _ => none

/-- The buffers of the entries from one on, up to the first one that cannot be read. -/
def buffersFrom (m : Memory) (entry : Nat) : (left : Nat) → List (List Byte)
  | 0 => []
  | left + 1 =>
    match m.entryBuffer? entry with
    | some bytes => bytes :: m.buffersFrom (entry + 16) left
    | none => []

def buffers (m : Memory) (table count : Word) : List (List Byte) :=
  m.buffersFrom table.toNat count.toNat

variable {m : Memory} {entry left : Nat} {bytes : List Byte}

theorem buffersFrom_of_some (h : m.entryBuffer? entry = some bytes) (left : Nat) :
    m.buffersFrom entry (left + 1) = bytes :: m.buffersFrom (entry + 16) left := by
  simp only [buffersFrom, h]

theorem buffersFrom_of_none (h : m.entryBuffer? entry = none) (left : Nat) :
    m.buffersFrom entry (left + 1) = [] := by
  simp only [buffersFrom, h]

end Memory

def Transcript.accepted (t : Transcript) : List Byte :=
  t.flatMap fun e =>
    match e.1 with
    | .write _ bytes => bytes.take e.2.toNat
    | _ => []

namespace Transcript

theorem accepted_cons (fd : BitVec 32) (bytes : List Byte) (v : Int) (t : Transcript) :
    accepted ((.write fd bytes, v) :: t) = bytes.take v.toNat ++ accepted t := by
  simp [accepted]

theorem accepted_singleton (fd : BitVec 32) (bytes : List Byte) (v : Int) :
    accepted [(.write fd bytes, v)] = bytes.take v.toNat := by
  simp [accepted]

end Transcript

inductive GatherEnding (m : Memory) (entry left : Nat) (total : Int) (t : Transcript) :
    Except (Failure Fault) Int → Prop
  | counted : t.accepted <+: (m.buffersFrom entry left).flatten →
    GatherEnding m entry left total t (.ok (total + t.accepted.length))
  /-- The host refuses to take anything. -/
  | refused (v : Int) : v < 0 → total = 0 → t.accepted = [] → (∃ e ∈ t, e.2 = v) →
    GatherEnding m entry left total t (.ok v)
  /-- An entry cannot be read, when all that comes before it is written. -/
  | unreadable : (m.buffersFrom entry left).length < left →
    t.accepted = (m.buffersFrom entry left).flatten →
    GatherEnding m entry left total t (.ok Errno.badAddress.result)
  | overflow : t.accepted <+: (m.buffersFrom entry left).flatten →
    Platform.largestResult < total + t.accepted.length →
    GatherEnding m entry left total t (.error (.crash .sumTooLarge))

theorem GatherEnding.initial {m : Memory} {entry left : Nat} {total : Int} {t : Transcript}
    {r : Except (Failure Fault) Int} (h : GatherEnding m entry left total t r) :
    t.accepted <+: (m.buffersFrom entry left).flatten := by
  cases h with
  | counted hinitial => exact hinitial
  | refused v hneg hzero hnone hresult =>
    rw [hnone]
    exact List.nil_prefix
  | unreadable hshort hall =>
    rw [hall]
  | overflow hinitial hlarge => exact hinitial

/-- One more buffer before the others, written in full. -/
theorem GatherEnding.cons {m : Memory} {entry left : Nat} {total : Int} {t : Transcript}
    {bytes : List Byte} {r : Except (Failure Fault) Int} (fd : BitVec 32) (htotal : 0 ≤ total)
    (hbuffer : m.entryBuffer? entry = some bytes)
    (h : GatherEnding m (entry + 16) left (total + bytes.length) t r) :
    GatherEnding m entry (left + 1) total ((.write fd bytes, bytes.length) :: t) r := by
  have haccepted : Transcript.accepted ((.write fd bytes, bytes.length) :: t) =
      bytes ++ t.accepted := by
    simp [Transcript.accepted_cons]
  have hflatten : (m.buffersFrom entry (left + 1)).flatten =
      bytes ++ (m.buffersFrom (entry + 16) left).flatten := by
    simp [Memory.buffersFrom_of_some hbuffer]
  cases h with
  | counted hinitial =>
    have hlength : total + bytes.length + t.accepted.length =
        total + (Transcript.accepted ((.write fd bytes, bytes.length) :: t)).length := by
      calc
        total + bytes.length + t.accepted.length
        _ = total + (bytes ++ t.accepted).length := by
          rw [List.length_append]
          omega
        _ = total + (Transcript.accepted ((.write fd bytes, bytes.length) :: t)).length := by
          rw [haccepted]
    rw [hlength]
    apply counted
    rwa [haccepted, hflatten, List.prefix_append_right_inj]
  | refused v hneg hzero hnone hresult =>
    have hempty : bytes = [] := List.eq_nil_of_length_eq_zero (by omega)
    obtain ⟨e, he, hv⟩ := hresult
    refine refused v hneg (by omega) ?_ ⟨e, List.mem_cons_of_mem _ he, hv⟩
    rw [haccepted, hempty, hnone, List.append_nil]
  | unreadable hshort hall =>
    apply unreadable
    · rw [Memory.buffersFrom_of_some hbuffer, List.length_cons]
      omega
    · rw [haccepted, hall, hflatten]
  | overflow hinitial hlarge =>
    apply overflow
    · rwa [haccepted, hflatten, List.prefix_append_right_inj]
    · rw [haccepted, List.length_append]
      omega

/-- The answer to the last request decides how the whole ends, if no other request follows. -/
theorem GatherEnding.last {m : Memory} {entry : Nat} {bytes : List Byte} {v : Int} (fd : BitVec 32)
    (hbuffer : m.entryBuffer? entry = some bytes) (hv : v ≤ (bytes.length : Int)) (left : Nat)
    (total : Int) :
    GatherEnding m entry (left + 1) total [(.write fd bytes, v)]
      (if v < 0 then .ok (if total = 0 then v else total)
        else if Platform.largestResult < total + v then .error (.crash .sumTooLarge)
        else .ok (total + v)) := by
  have htaken : Transcript.accepted [(.write fd bytes, v)] <+:
      (m.buffersFrom entry (left + 1)).flatten := by
    rw [Memory.buffersFrom_of_some hbuffer, List.flatten_cons, Transcript.accepted_singleton]
    exact (List.take_prefix _ _).trans (List.prefix_append _ _)
  have hcounted : GatherEnding m entry (left + 1) total [(.write fd bytes, v)]
      (.ok (total + (Transcript.accepted [(.write fd bytes, v)]).length)) := .counted htaken
  by_cases hnegative : v < 0
  · have hnothing : Transcript.accepted [(.write fd bytes, v)] = [] := by
      simp [Transcript.accepted_singleton, Int.toNat_of_nonpos hnegative.le]
    rw [if_pos hnegative]
    by_cases hzero : total = 0
    · rw [if_pos hzero]
      exact .refused v hnegative hzero hnothing ⟨_, List.mem_singleton_self _, rfl⟩
    · rw [hnothing] at hcounted
      simpa [hzero] using hcounted
  · have hlength : ((Transcript.accepted [(.write fd bytes, v)]).length : Int) = v := by
      rw [Transcript.accepted_singleton, List.length_take]
      omega
    rw [hlength] at hcounted
    rw [if_neg hnegative]
    split
    · next hlarge =>
      apply GatherEnding.overflow htaken
      rwa [hlength]
    · exact hcounted

namespace Platform

variable {σ : Type} {s : Platform σ} {entry : Nat}

def writeBuffer (fd : BitVec 32) (entry : Nat) (total : Int) (left : Nat) (bytes : List Byte) :
    Exec (Platform σ) Int :=
  askHost (fun host st => host.write fd bytes st) >>= fun result =>
    if result < 0 then Pure.pure (if total = 0 then result else total)
    else if largestResult < total + result then crash .sumTooLarge
    else if result < bytes.length then Pure.pure (total + result)
    else writeEntries fd (entry + 16) (total + result) left

/-- Entries lie in memory, so the next one has an address too. -/
theorem writeEntries_cases (hwell : s.machine.memory.WellFormed) (hentry : entry < addressLimit)
    (fd : BitVec 32) (total : Int) (left : Nat) :
    (s.machine.memory.entryBuffer? entry = none ∧
      writeEntries fd entry total (left + 1) s = (.ok Errno.badAddress.result, s)) ∨
    ∃ bytes, s.machine.memory.entryBuffer? entry = some bytes ∧ entry + 16 < addressLimit ∧
      writeEntries fd entry total (left + 1) s = writeBuffer fd entry total left bytes s := by
  unfold writeEntries Memory.entryBuffer?
  rw [get_bind_apply, if_neg (by omega)]
  cases hbase : s.machine.memory.peek .double (BitVec.ofNat 64 entry) with
  | error e => exact Or.inl ⟨rfl, rfl⟩
  | ok base =>
  have hnext : entry + 8 < addressLimit := by
    have hend := hwell.finish_of_mapped (hwell.mapped_of_peek hbase) (by decide)
    rwa [BitVec.toNat_ofNat, Nat.mod_eq_of_lt hentry] at hend
  dsimp only
  rw [if_neg (by omega)]
  cases hlength : s.machine.memory.peek .double (BitVec.ofNat 64 (entry + 8)) with
  | error e => exact Or.inl ⟨rfl, rfl⟩
  | ok length =>
  have hend : entry + 8 + 8 < addressLimit := by
    have hend := hwell.finish_of_mapped (hwell.mapped_of_peek hlength) (by decide)
    rwa [BitVec.toNat_ofNat, Nat.mod_eq_of_lt hnext] at hend
  dsimp only
  cases hslice : s.machine.memory.slice base length.toNat with
  | error e => exact Or.inl ⟨rfl, rfl⟩
  | ok bytes =>
    refine Or.inr ⟨bytes, rfl, hend, ?_⟩
    rw [writeBuffer, Memory.length_of_slice hslice]

/-- The host never says that it has written more than it was given. -/
def Honest (s : Platform σ) : Prop :=
  ∀ fd bytes state, (s.kernel.host.write fd bytes state).result ≤ (bytes.length : Int)

def withHostState (s : Platform σ) (st : σ) : Platform σ :=
  ⟨s.machine, { s.kernel with hostState := st }⟩

/-- How the rest goes on depends on the answer of the host, which is written down. -/
theorem writeBuffer_transcribing (honest : s.Honest) (fd : BitVec 32) (entry : Nat) (total : Int)
    (left : Nat) (bytes : List Byte) (st : σ) (log : Transcript) :
    ∃ v st', v ≤ (bytes.length : Int) ∧
      writeBuffer fd entry total left bytes ((s.withHostState st).transcribing log) =
        (if v < 0 then Pure.pure (if total = 0 then v else total)
          else if largestResult < total + v then crash .sumTooLarge
          else if v < bytes.length then Pure.pure (total + v)
          else writeEntries fd (entry + 16) (total + v) left : Exec _ Int)
          ((s.withHostState st').transcribing (log ++ [(HostRequest.write fd bytes, v)])) := by
  have hhonest := honest fd bytes (s.kernel.host.hear s.machine.log st)
  exact ⟨_, (s.kernel.host.write fd bytes (s.kernel.host.hear s.machine.log st)).state, hhonest,
    rfl⟩

theorem ending_writeEntries (hwell : s.machine.memory.WellFormed) (honest : s.Honest)
    (fd : BitVec 32) (left : Nat) : ∀ entry total st log, entry < addressLimit → 0 ≤ total →
    ∃ t r st', writeEntries fd entry total left ((s.withHostState st).transcribing log) =
        (r, (s.withHostState st').transcribing (log ++ t)) ∧
      GatherEnding s.machine.memory entry left total t r := by
  induction left with
  | zero =>
    intro entry total st log _ _
    refine ⟨[], .ok (total + 0), st, by rw [List.append_nil, Int.add_zero]; rfl, ?_⟩
    exact .counted List.nil_prefix
  | succ left ih =>
    intro entry total st log hentry htotal
    rcases writeEntries_cases (s := (s.withHostState st).transcribing log) hwell hentry fd total
      left with ⟨hnone, hrun⟩ | ⟨bytes, hsome, hnext, hrun⟩
    · replace hnone : s.machine.memory.entryBuffer? entry = none := hnone
      refine ⟨[], _, st, by rw [List.append_nil]; exact hrun, ?_⟩
      apply GatherEnding.unreadable
      · simp [Memory.buffersFrom_of_none hnone]
      · simp [Memory.buffersFrom_of_none hnone, Transcript.accepted]
    replace hsome : s.machine.memory.entryBuffer? entry = some bytes := hsome
    obtain ⟨v, st', hv, hstep⟩ := writeBuffer_transcribing honest fd entry total left bytes st log
    have hlast := GatherEnding.last fd hsome hv left total
    rw [hrun, hstep]
    by_cases hnegative : v < 0
    · rw [if_pos hnegative] at hlast ⊢
      exact ⟨_, _, st', rfl, hlast⟩
    rw [if_neg hnegative] at hlast ⊢
    by_cases hlarge : largestResult < total + v
    · rw [if_pos hlarge] at hlast ⊢
      exact ⟨_, _, st', rfl, hlast⟩
    rw [if_neg hlarge] at hlast ⊢
    by_cases hshort : v < bytes.length
    · rw [if_pos hshort]
      exact ⟨_, _, st', rfl, hlast⟩
    · rw [if_neg hshort]
      obtain rfl : v = bytes.length := by omega
      obtain ⟨t, r, st'', hrest, hending⟩ := ih (entry + 16) (total + bytes.length) st'
        (log ++ [(HostRequest.write fd bytes, (bytes.length : Int))]) hnext (by omega)
      refine ⟨(.write fd bytes, bytes.length) :: t, r, st'', ?_, hending.cons fd htotal hsome⟩
      rw [hrest, List.append_assoc]
      rfl

/-! ## The call -/

/-- What the host has taken of the buffers, and what the guest is told about it. -/
structure Gathers (s : Platform σ) : Prop where
  requests : ∀ e ∈ s.asked, ∃ bytes, e.1 = .write (int32 (s.argument 0)) bytes
  initial :
    s.asked.accepted <+: (s.machine.memory.buffers (s.argument 1) (s.argument 2)).flatten
  ending :
    ((environmentCall s).1 = .ok () ∧ s.answer = BitVec.ofInt 64 s.asked.accepted.length) ∨
    ((environmentCall s).1 = .ok () ∧ s.asked.accepted = [] ∧
      ∃ e ∈ s.asked, e.2 < 0 ∧ s.answer = BitVec.ofInt 64 e.2) ∨
    ((environmentCall s).1 = .ok () ∧ s.answer = BitVec.ofInt 64 Errno.badAddress.result ∧
      (s.machine.memory.buffers (s.argument 1) (s.argument 2)).length < (s.argument 2).toNat ∧
      s.asked.accepted = (s.machine.memory.buffers (s.argument 1) (s.argument 2)).flatten) ∨
    ((environmentCall s).1 = .error (.crash .sumTooLarge) ∧
      largestResult < s.asked.accepted.length)
  /-- If every entry can be read, the guest is told of all that was taken. -/
  whole :
    (s.machine.memory.buffers (s.argument 1) (s.argument 2)).length = (s.argument 2).toNat →
      (s.asked.accepted.length : Int) ≤ largestResult →
      (s.asked.accepted ≠ [] → s.answer = BitVec.ofInt 64 s.asked.accepted.length) ∧
        (s.answer.toInt < 0 → s.asked.accepted = [])

theorem ending_serve (hwell : s.machine.memory.WellFormed) (honest : s.Honest)
    (hcalled : s.called? = some .writev) :
    ∃ r, (serve .writev (arguments s.machine) s).1 = r.map some ∧
      GatherEnding s.machine.memory (s.argument 1).toNat (s.argument 2).toNat 0 s.asked r := by
  obtain ⟨t, r, st, hrun, hending⟩ := ending_writeEntries hwell honest (int32 (s.argument 0))
    (s.argument 2).toNat (s.argument 1).toNat 0 s.kernel.hostState [] (s.argument 1).isLt le_rfl
  have hwrites : writevCall (arguments s.machine) (s.transcribing []) =
      (r, (s.withHostState st).transcribing t) := hrun
  have hserve : serve .writev (arguments s.machine) (s.transcribing []) =
      (r.map some, (s.withHostState st).transcribing t) :=
    (map_apply some (writevCall _) _).trans (by rw [hwrites])
  have hasked : s.asked = t := by
    rw [asked_eq hcalled, hserve]
    rfl
  obtain ⟨_, hsame, -⟩ := asks_serve (arguments s.machine) .writev s []
  rw [hserve] at hsame
  rw [hasked]
  exact ⟨r, (congrArg Prod.fst hsame).symm, hending⟩

theorem toInt_ofInt_count {n : Nat} (h : (n : Int) ≤ largestResult) :
    (BitVec.ofInt 64 n).toInt = n := by
  rw [largestResult] at h
  rw [BitVec.toInt_ofInt]
  exact Int.bmod_eq_of_le (by omega) (by omega)

theorem gathers (hs : s.Reachable) (honest : s.Honest) (hcalled : s.called? = some .writev) :
    Gathers s := by
  obtain ⟨-, hasked, -⟩ := environmentCall_transcribing s
  obtain ⟨r, hserve, hending⟩ := ending_serve hs.wellFormed honest hcalled
  have hinitial := hending.initial
  have hrequests : ∀ e ∈ s.asked, ∃ bytes, e.1 = .write (int32 (s.argument 0)) bytes := by
    intro e he
    obtain ⟨c, hc, hmay⟩ := hasked e he
    obtain rfl : c = .writev := Option.some.inj (hc.symm.trans hcalled)
    generalize e.1 = q at hmay ⊢
    cases hmay with
    | write bytes => exact ⟨bytes, rfl⟩
    | invoke number hpassed => exact absurd hpassed (by decide)
    | read hread => cases hread
    | openat path hopenat => cases hopenat
  cases hending with
  | counted _ =>
    have htold := environmentCall_of_serve hcalled hserve
    rw [Int.zero_add] at htold
    refine ⟨hrequests, hinitial, Or.inl htold, fun _ hcount => ⟨fun _ => htold.2, fun hneg => ?_⟩⟩
    rw [htold.2, toInt_ofInt_count hcount] at hneg
    omega
  | refused v hneg _ hnone hresult =>
    obtain ⟨e, he, rfl⟩ := hresult
    have htold := environmentCall_of_serve hcalled hserve
    exact ⟨hrequests, hinitial, Or.inr (Or.inl ⟨htold.1, hnone, e, he, hneg, htold.2⟩),
      fun _ _ => ⟨fun hsome => absurd hnone hsome, fun _ => hnone⟩⟩
  | unreadable hshort hall =>
    have htold := environmentCall_of_serve hcalled hserve
    exact ⟨hrequests, hinitial, Or.inr (Or.inr (Or.inl ⟨htold.1, htold.2, hshort, hall⟩)),
      fun hwhole => absurd hwhole hshort.ne⟩
  | overflow _ hlarge =>
    rw [Int.zero_add] at hlarge
    exact ⟨hrequests, hinitial,
      Or.inr (Or.inr (Or.inr ⟨environmentCall_of_serve_error hcalled hserve, hlarge⟩)),
      fun _ hcount => absurd hlarge hcount.not_gt⟩

end Platform

def Host.sink : Host Nat :=
  { Host.unsupported with
    write := fun _ bytes room => ⟨min bytes.length room, room - bytes.length⟩ }

namespace Platform

theorem honest_sink (c : Syscall) (arguments : List Word) (requests : List MemoryRequest)
    (room : Nat) :
    (calling c arguments requests .sink room).Honest :=
  fun _ bytes state => min_le_left (bytes.length : Int) state

def gathering : Platform Nat :=
  calling .writev [1, 0x1000, 2]
    [.allocate 0x1000 0x40, .write .double 0x1000 0x1020, .write .double 0x1008 2,
      .write .double 0x1010 0x1022, .write .double 0x1018 2, .fill 0x1020 [0x68, 0x69, 0x6A, 0x6B]]
    .sink 3

theorem gathers_gathering :
    gathering.Reachable ∧ gathering.Honest ∧ gathering.called? = some .writev ∧ Gathers gathering ∧
      gathering.asked.accepted = [0x68, 0x69, 0x6A] ∧ gathering.answer = 3 := by
  have hreachable : gathering.Reachable := reachable_calling _ _ _ _ _
  have hhonest : gathering.Honest := honest_sink _ _ _ _
  have hcalled : gathering.called? = some .writev := by decide +kernel
  exact ⟨hreachable, hhonest, hcalled, gathers hreachable hhonest hcalled, by decide +kernel,
    by decide +kernel⟩

def gatheringOutside : Platform Nat :=
  calling .writev [1, 0x1000, 2]
    [.allocate 0x1000 0x40, .write .double 0x1000 0x1020, .write .double 0x1008 2,
      .write .double 0x1010 0x9000, .write .double 0x1018 2, .fill 0x1020 [0x68, 0x69]]
    .sink 3

/-- The host has taken two bytes, and the guest is told of a bad address. -/
theorem taken_bytes_unreported :
    gatheringOutside.Reachable ∧ gatheringOutside.Honest ∧
      gatheringOutside.called? = some .writev ∧
      gatheringOutside.asked.accepted = [0x68, 0x69] ∧
      gatheringOutside.answer = BitVec.ofInt 64 Errno.badAddress.result ∧
      gatheringOutside.answer ≠ BitVec.ofInt 64 gatheringOutside.asked.accepted.length ∧
      gatheringOutside.answer.toInt < 0 := by
  refine ⟨reachable_calling _ _ _ _ _, honest_sink _ _ _ _, ?_⟩
  decide +kernel

end Platform

end RiscvHart
