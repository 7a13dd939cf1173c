import RiscvHart.Proofs.Kernel.Refusals
import RiscvHart.Proofs.Memory.ByteMap

/-!
# Calls that add up addresses

Three calls add to numbers of the guest without looking at the sum. What bounds it is that memory
was found at the address before: a region ends where an address can stand, and all regions
together have no more bytes than the budget.
-/

namespace RiscvHart.Platform

open Exec

variable {σ : Type} {s s' : Platform σ} {a : Arguments} {c : Syscall} {crash : Crash}

/-- A budget of memory with which no total of results can be too large. -/
def largestBudget : Nat := 2 ^ 33

/-- What the engine relies on to have an answer to whatever its guest does. -/
structure Sound (s : Platform σ) : Prop where
  wellFormed : s.machine.memory.WellFormed
  affordable : s.machine.memory.capacity ≤ largestBudget
  /-- The host never says that it has written more than it was given. -/
  honest : ∀ fd bytes state, (s.kernel.host.write fd bytes state).result ≤ (bytes.length : Int)

namespace Sound

theorem of_eq (h : s.Sound) (hmemory : s'.machine.memory = s.machine.memory)
    (hhost : s'.kernel.host = s.kernel.host) : s'.Sound := by
  refine ⟨?_, ?_, ?_⟩
  · rw [hmemory]
    exact h.wellFormed
  · rw [hmemory]
    exact h.affordable
  · rw [hhost]
    exact h.honest

theorem len_le (h : s.Sound) {start len : Nat} (hspan : s.machine.memory.Spanned start len) :
    len ≤ largestBudget :=
  (h.wellFormed.len_le_used hspan).trans (h.wellFormed.affordable.trans h.affordable)

end Sound

/-! ## Paths -/

theorem pathFrom_ne_crash {m : Memory} (hwell : m.WellFormed) {pos : Nat}
    (hpos : pos < addressLimit)
    (left : Nat) : pathFrom m pos left ≠ .error (.crash crash) := by
  induction left generalizing pos with
  | zero =>
    intro h
    cases h
  | succ left ih =>
    intro h
    unfold pathFrom at h
    rw [if_neg (by omega)] at h
    cases hpeek : m.peek .byte (BitVec.ofNat 64 pos) with
    | error e =>
      rw [hpeek] at h
      cases h
    | ok b =>
      rw [hpeek] at h
      have hplace : (BitVec.ofNat 64 pos : Word).toNat = pos := by
        rw [BitVec.toNat_ofNat]
        exact Nat.mod_eq_of_lt hpos
      have hnext := hwell.finish_of_mapped (hwell.mapped_of_peek hpeek) (by decide)
      rw [hplace] at hnext
      dsimp only at h
      split at h
      · cases h
      · cases hrest : pathFrom m (pos + 1) left with
        | ok path =>
          rw [hrest] at h
          cases h
        | error e =>
          rw [hrest] at h
          cases h
          exact ih hnext hrest

theorem openatCall_answers (hwell : s.machine.memory.WellFormed) (a : Arguments) :
    ∃ result s', openatCall a s = (.ok result, s') := by
  rw [openatCall, get_bind_apply]
  cases hpath : pathFrom s.machine.memory a[1].toNat longestPath with
  | ok path => exact ⟨_, _, rfl⟩
  | error e =>
    cases e with
    | error e => exact ⟨_, _, rfl⟩
    | crash crash => exact absurd hpath (pathFrom_ne_crash hwell a[1].isLt _)

/-! ## Clocks -/

theorem tryFill_cases (addr : Word) (bs : List Byte) (s : Platform σ) :
    (∃ m, s.machine.fill addr bs = .ok m ∧
        tryFill addr bs s = (.ok true, { s with machine := m })) ∨
      tryFill addr bs s = (.ok false, s) := by
  unfold tryFill
  cases hfill : s.machine.fill addr bs with
  | ok m => exact Or.inl ⟨m, rfl, rfl⟩
  | error e => exact Or.inr rfl

theorem clockGettimeCall_answers (hwell : s.machine.memory.WellFormed) (a : Arguments) :
    ∃ result s', clockGettimeCall a s = (.ok result, s') := by
  rw [clockGettimeCall, get_bind_apply]
  dsimp only
  rcases tryFill_cases a[1] (Word.toBytes (s.kernel.host.clock
    (if a[0] = 0 then Clock.realtime else Clock.elapsed) s.kernel.hostState).1 .double) s with
    ⟨m, hfill, hrun⟩ | hrun
  · have hmapped := hwell.mapped_of_fill (Machine.memory_of_fill hfill)
    rw [Word.length_toBytes] at hmapped
    have hroom : a[1].toNat + (8 : Word).toNat < addressLimit :=
      hwell.finish_of_mapped hmapped (by decide)
    rw [bind_ok hrun, if_pos rfl, checkedAdd_bind_apply _ _ hroom]
    rcases tryFill_cases (a[1] + 8) (Word.toBytes (s.kernel.host.clock
      (if a[0] = 0 then Clock.realtime else Clock.elapsed) s.kernel.hostState).2 .double)
      { s with machine := m } with ⟨m', -, hrun'⟩ | hrun'
    · rw [bind_ok hrun']
      exact ⟨_, _, rfl⟩
    · rw [bind_ok hrun']
      exact ⟨_, _, rfl⟩
  · rw [bind_ok hrun]
    exact ⟨_, _, rfl⟩

/-! ## Buffers, one after the other -/

theorem askHost_bind_apply {α : Type} (f : Host σ → σ → Reply σ) (g : Int → Exec (Platform σ) α)
    (s : Platform σ) :
    (askHost f >>= g) s =
      let reply := f s.kernel.host (s.kernel.host.hear s.machine.log s.kernel.hostState)
      g reply.result { s with kernel := { s.kernel with hostState := reply.state } } := rfl

/-- What is read of the entry at a position, when both of its words are there. -/
theorem mapped_of_entry {m : Memory} (hwell : m.WellFormed) {pos : Nat} {base length : Word}
    (hpos : pos < addressLimit) (hbase : m.peek .double (BitVec.ofNat 64 pos) = .ok base)
    (hnext : pos + 8 < addressLimit)
    (hlength : m.peek .double (BitVec.ofNat 64 (pos + 8)) = .ok length)
    {start n : Nat} (hspan : m.Spanned start n) (hstart : pos = start + n) :
    pos + 16 < addressLimit ∧ m.Spanned start (n + 16) := by
  have hplace : (BitVec.ofNat 64 pos : Word).toNat = pos := by
    rw [BitVec.toNat_ofNat]
    exact Nat.mod_eq_of_lt hpos
  have hplace' : (BitVec.ofNat 64 (pos + 8) : Word).toNat = pos + 8 := by
    rw [BitVec.toNat_ofNat]
    exact Nat.mod_eq_of_lt hnext
  have hfirst := hspan.append (hwell.mapped_of_peek hbase) (by rw [hplace, hstart])
  have hsecond := hfirst.append (hwell.mapped_of_peek hlength) (by
    rw [hplace', hstart]
    rfl)
  have hend := hwell.finish_of_mapped (hwell.mapped_of_peek hlength) (by decide)
  rw [hplace'] at hend
  exact ⟨hend, hsecond⟩

/-- The entries read so far lie one after the other in memory, so there are no more than the
budget has room for, and each of them adds no more than one buffer. -/
theorem writeEntries_answers (fd : BitVec 32) (left : Nat) {s : Platform σ} (hs : s.Sound)
    {start k : Nat} {total : Int} (hentry : start + 16 * k < addressLimit)
    (hspan : s.machine.memory.Spanned start (16 * k)) (htotal : total ≤ k * largestBudget) :
    ∃ result s', writeEntries fd (start + 16 * k) total left s = (.ok result, s') := by
  induction left generalizing s k total with
  | zero => exact ⟨_, _, rfl⟩
  | succ left ih =>
    unfold writeEntries
    rw [get_bind_apply, if_neg (by omega)]
    cases hbase : s.machine.memory.peek .double (BitVec.ofNat 64 (start + 16 * k)) with
    | error e => exact ⟨_, _, rfl⟩
    | ok base =>
    have hnext : start + 16 * k + 8 < addressLimit := by
      have hend := hs.wellFormed.finish_of_mapped (hs.wellFormed.mapped_of_peek hbase) (by decide)
      rwa [BitVec.toNat_ofNat, Nat.mod_eq_of_lt hentry] at hend
    dsimp only
    rw [if_neg (by omega)]
    cases hlength : s.machine.memory.peek .double (BitVec.ofNat 64 (start + 16 * k + 8)) with
    | error e => exact ⟨_, _, rfl⟩
    | ok length =>
    dsimp only
    cases hslice : s.machine.memory.slice base length.toNat with
    | error e => exact ⟨_, _, rfl⟩
    | ok bytes =>
    obtain ⟨hend, hspan'⟩ := mapped_of_entry hs.wellFormed hentry hbase hnext hlength hspan rfl
    have hcount : 16 * k + 16 ≤ 2 ^ 33 := hs.len_le hspan'
    have hbuffer : length.toNat ≤ 2 ^ 33 := hs.len_le (hs.wellFormed.mapped_of_slice hslice).spanned
    have hlen : bytes.length = length.toNat := Memory.length_of_slice hslice
    have hresult := hs.honest fd bytes (s.kernel.host.hear s.machine.log s.kernel.hostState)
    rw [largestBudget] at htotal
    dsimp only
    rw [askHost_bind_apply]
    dsimp only
    generalize s.kernel.host.write fd bytes _ = reply at hresult ⊢
    by_cases hnegative : reply.result < 0
    · rw [if_pos hnegative]
      exact ⟨_, _, rfl⟩
    rw [if_neg hnegative, if_neg (by rw [largestResult]; omega)]
    by_cases hshort : reply.result < length.toNat
    · rw [if_pos hshort]
      exact ⟨_, _, rfl⟩
    rw [if_neg hshort]
    have hfollowing : start + 16 * k + 16 = start + 16 * (k + 1) := by omega
    have htotal' : total + reply.result ≤ (k + 1 : Nat) * largestBudget := by
      rw [largestBudget]
      push_cast
      omega
    rw [hfollowing]
    exact ih (s := ⟨s.machine, { s.kernel with hostState := reply.state }⟩) (hs.of_eq rfl rfl) hend
      hspan' htotal'

theorem writevCall_answers (hs : s.Sound) (a : Arguments) :
    ∃ result s', writevCall a s = (.ok result, s') := by
  have hnone : s.machine.memory.Spanned a[1].toNat (16 * 0) := fun n hlow hhigh => by omega
  have hstart : a[1].toNat + 16 * 0 < addressLimit := a[1].isLt
  exact writeEntries_answers (int32 a[0]) a[2].toNat hs hstart hnone (by simp)

/-! ## All calls -/

theorem serve_ne_crash (hs : s.Sound) : (serve c a s).1 ≠ .error (.crash crash) := by
  intro hcrash
  by_cases hmaps : c.MapsMemory
  · obtain ⟨result, s', hrun⟩ := serve_of_mapsMemory hmaps a s
    rw [hrun] at hcrash
    cases hcrash
  by_cases hadding : c ∈ Syscall.adding
  · obtain ⟨result, s', hrun⟩ : ∃ result s', serve c a s = (.ok result, s') := by
      fin_cases hadding
      · obtain ⟨result, s', hrun⟩ := writevCall_answers hs a
        exact ⟨_, _, bind_ok hrun⟩
      · obtain ⟨result, s', hrun⟩ := openatCall_answers hs.wellFormed a
        exact ⟨_, _, bind_ok hrun⟩
      · obtain ⟨result, s', hrun⟩ := clockGettimeCall_answers hs.wellFormed a
        exact ⟨_, _, bind_ok hrun⟩
    rw [hrun] at hcrash
    cases hcrash
  · have hcontained : Contained space (fun e => ∃ f, e = .error f) (serve (σ := σ) c a) :=
      contained_serve indifferent_space a hmaps (fun _ _ _ => rfl) (fun hmem => absurd hmem hadding)
        fun _ => ⟨_, rfl⟩
    obtain ⟨f, hf⟩ := hcontained.fails s _ hcrash
    cases hf

theorem environmentCall_ne_crash (hs : s.Sound) (crash : Crash) :
    (environmentCall s).1 ≠ .error (.crash crash) := by
  intro hcrash
  cases hnumber : Syscall.ofNumber? s.callNumber with
  | none =>
    obtain ⟨m, hrun, -⟩ := environmentCall_of_unserved (s := s) (Or.inl hnumber)
    rw [hrun] at hcrash
    cases hcrash
  | some c => exact serve_ne_crash hs (serve_of_environmentCall_error hnumber hcrash)

end RiscvHart.Platform
