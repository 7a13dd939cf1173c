import RiscvHart.Proofs.Kernel.Bootstrap
import RiscvHart.Proofs.Memory.Persistence

/-!
# The heap of a new process

While a process is prepared its heap only grows at its end, and what grows is zero. So the heap
is at all times the list of bytes that were put there so far, and a text that is put there goes
at the end of this list. What was mapped before the process is not written.
-/

namespace RiscvHart

open Exec

namespace ProcessArgs

def argumentTexts (args : ProcessArgs) : List (List Byte) := args.arguments.map Text.utf8

def settingTexts (args : ProcessArgs) : List (List Byte) :=
  args.environment.map fun (k, v) => Text.utf8 (k ++ "=" ++ v)

def texts (args : ProcessArgs) : List (List Byte) := args.argumentTexts ++ args.settingTexts

end ProcessArgs

namespace Bootstrap

def terminated (texts : List (List Byte)) : List Byte := texts.flatMap (· ++ [0])

@[simp] theorem terminated_nil : terminated [] = [] := rfl

@[simp] theorem terminated_cons (text : List Byte) (rest : List (List Byte)) :
    terminated (text :: rest) = text ++ [0] ++ terminated rest := by
  simp [terminated]

theorem terminated_append (xs ys : List (List Byte)) :
    terminated (xs ++ ys) = terminated xs ++ terminated ys := by
  simp [terminated]

/-- The addresses of texts that are put one after the other, each with a zero after it. -/
def places : Nat → List (List Byte) → List Word
  | _, [] => []
  | pos, text :: rest => BitVec.ofNat 64 pos :: places (pos + (text.length + 1)) rest

def randomBytes (config : Config) : List Byte :=
  ((ChaCha.Generator.ofSeed config.seed).bytes randomLength).1

def names (config : Config) (l : Landmarks) : Landmarks :=
  ((((l.set Landmarks.heapStart config.heapStart).set Landmarks.heapEnd config.heapStart).set
    Landmarks.mmapNext config.mmapBase).set Landmarks.stackStart config.stackStart).set
    Landmarks.stackEnd (config.stackStart + config.stackSize)

section

variable (config : Config) (l : Landmarks)

theorem names_heapStart : (names config l).get? Landmarks.heapStart = some config.heapStart := by
  rw [names, Landmarks.get?_set_ne _ _ (by decide), Landmarks.get?_set_ne _ _ (by decide),
    Landmarks.get?_set_ne _ _ (by decide), Landmarks.get?_set_ne _ _ (by decide),
    Landmarks.get?_set_self]

theorem names_mmapNext : (names config l).get? Landmarks.mmapNext = some config.mmapBase := by
  rw [names, Landmarks.get?_set_ne _ _ (by decide), Landmarks.get?_set_ne _ _ (by decide),
    Landmarks.get?_set_self]

theorem names_stackStart : (names config l).get? Landmarks.stackStart = some config.stackStart := by
  rw [names, Landmarks.get?_set_ne _ _ (by decide), Landmarks.get?_set_self]

theorem names_stackEnd : (names config l).get? Landmarks.stackEnd =
    some (config.stackStart + config.stackSize) := by
  rw [names, Landmarks.get?_set_self]

theorem names_of_not_mem {name : String} (h : name ∉ [Landmarks.heapStart, Landmarks.heapEnd,
    Landmarks.stackStart, Landmarks.stackEnd, Landmarks.mmapNext]) :
    (names config l).get? name = l.get? name := by
  simp only [List.mem_cons, List.not_mem_nil, or_false, not_or] at h
  obtain ⟨hheapStart, hheapEnd, hstackStart, hstackEnd, hmmapNext⟩ := h
  rw [names, Landmarks.get?_set_ne _ _ hstackEnd, Landmarks.get?_set_ne _ _ hstackStart,
    Landmarks.get?_set_ne _ _ hmmapNext, Landmarks.get?_set_ne _ _ hheapEnd,
    Landmarks.get?_set_ne _ _ hheapStart]

end

end Bootstrap

namespace Machine

open Bootstrap

variable {m m' : Machine} {heap newEnd : Word} {bs : List Byte} {k : Nat}

/-! ## Moving the break -/

/-- Moving the break changes memory in one of three ways, and nothing else but a
name and the log. -/
theorem growHeap_memory_cases (hstart : m.landmarks.get? Landmarks.heapStart = some heap)
    (hok : m.growHeap newEnd = .ok m') :
    m' = { m with
      memory := m'.memory, landmarks := m.landmarks.set Landmarks.heapEnd newEnd, log := m'.log } ∧
    ((m'.memory = m.memory ∧ newEnd.toNat - heap.toNat ≤ m.memory.sizeFrom heap) ∨
      (m.memory.sizeFrom heap < newEnd.toNat - heap.toNat ∧
        m.memory.resize heap (newEnd.toNat - heap.toNat) = .ok m'.memory) ∨
      m.memory.allocate heap (newEnd.toNat - heap.toNat) = .ok m'.memory) := by
  obtain ⟨start, grown, hstart', rfl, hgrown⟩ := growHeap_cases hok
  obtain rfl : start = heap := Option.some.inj (hstart'.symm.trans hstart)
  rcases hgrown with ⟨r, hr, hfits, rfl⟩ | ⟨r, hr, hgrow, hresize⟩ | ⟨-, hallocate⟩
  · refine ⟨rfl, Or.inl ⟨rfl, ?_⟩⟩
    rw [Memory.sizeFrom, hr]
    exact hfits
  · have hmemory : m.memory.resize start _ = .ok grown.memory := memory_of_resize hresize
    have hothers := MemoryRequest.eq_of_serve (r := .resize start _) hresize
    refine ⟨?_, Or.inr (Or.inl ⟨?_, hmemory⟩)⟩
    · rw [Machine.mark, hothers]
    · rw [Memory.sizeFrom, hr]
      exact hgrow
  · have hmemory : m.memory.allocate start _ = .ok grown.memory := memory_of_allocate hallocate
    have hothers := MemoryRequest.eq_of_serve (r := .allocate start _) hallocate
    refine ⟨?_, Or.inr (Or.inr hmemory)⟩
    rw [Machine.mark, hothers]

theorem wellFormed_growHeap (h : m.memory.WellFormed) (hok : m.growHeap newEnd = .ok m') :
    m'.memory.WellFormed :=
  (budgeted_growHeap ⟨h, rfl⟩ hok).toWellFormed

theorem sizeFrom_le_of_growHeap (h : m.memory.WellFormed)
    (hstart : m.landmarks.get? Landmarks.heapStart = some heap)
    (hok : m.growHeap newEnd = .ok m') (b : Word) :
    m.memory.sizeFrom b ≤ m'.memory.sizeFrom b := by
  obtain ⟨-, ⟨heq, -⟩ | ⟨hgrow, hresize⟩ | hallocate⟩ := growHeap_memory_cases hstart hok
  · rw [heq]
  · rw [h.sizeFrom_resize hresize]
    split
    · next hb =>
      rw [hb]
      exact Nat.le_of_lt hgrow
    · exact Nat.le_refl _
  · exact h.sizeFrom_le_of_allocate hallocate b

theorem mem_of_growHeap {r : Region} (h : m.memory.WellFormed)
    (hstart : m.landmarks.get? Landmarks.heapStart = some heap)
    (hok : m.growHeap newEnd = .ok m') (hr : r ∈ m.memory.regions) (hfull : 0 < r.size)
    (hne : r.base ≠ heap) : r ∈ m'.memory.regions := by
  obtain ⟨-, ⟨heq, -⟩ | ⟨-, hresize⟩ | hallocate⟩ := growHeap_memory_cases hstart hok
  · rw [heq]
    exact hr
  · exact h.mem_of_resize hresize hr hne
  · exact h.mem_of_allocate hallocate hr hfull

/-- The bytes that the heap gains are zero. -/
theorem filledFrom_growHeap (h : m.memory.WellFormed)
    (hstart : m.landmarks.get? Landmarks.heapStart = some heap)
    (hfilled : m.memory.FilledFrom heap bs) (hend : newEnd.toNat = heap.toNat + (bs.length + k))
    (hok : m.growHeap newEnd = .ok m') :
    m'.memory.FilledFrom heap (bs ++ List.replicate k 0) := by
  have hsize : newEnd.toNat - heap.toNat = bs.length + k := by omega
  obtain ⟨-, hcases⟩ := growHeap_memory_cases hstart hok
  rw [hsize] at hcases
  rcases hcases with ⟨heq, hfits⟩ | ⟨hgrow, hresize⟩ | hallocate
  · rw [heq]
    exact hfilled.append_zeros hfits
  · refine (hfilled.resize h (Nat.le_of_lt hgrow) hresize).append_zeros ?_
    rw [h.sizeFrom_resize hresize, if_pos rfl]
  · refine (hfilled.allocate h hallocate).append_zeros ?_
    rcases Nat.eq_zero_or_pos (bs.length + k) with hzero | hpos
    · rw [hzero]
      exact Nat.zero_le _
    · rw [h.sizeFrom_allocate hpos hallocate, if_pos rfl]

/-! ## What holds while a process is prepared -/

/-- The process that `config` describes is being prepared on the machine that was `before`; its
stack is mapped and its heap has the bytes `bs`. -/
structure Preparing (before : Machine) (config : Config) (bs : List Byte) (m : Machine) : Prop where
  wellFormed : m.memory.WellFormed
  others : m = { before with memory := m.memory, landmarks := m.landmarks, log := m.log }
  names : ∀ name, name ≠ Landmarks.heapEnd →
    m.landmarks.get? name = (names config before.landmarks).get? name
  heapEnd : m.landmarks.get? Landmarks.heapEnd = some (config.heapStart + BitVec.ofNat 64 bs.length)
  fits : config.heapStart.toNat + bs.length < addressLimit
  heap : m.memory.FilledFrom config.heapStart bs
  stack : config.stackSize.toNat ≤ m.memory.sizeFrom config.stackStart
  kept : ∀ r ∈ before.memory.regions, 0 < r.size → r ∈ m.memory.regions

/-- Preparing a process has failed with what was there before in place. The failure is a fault,
or there are no `reach` addresses. -/
structure Refused (before : Machine) (reach : Nat) (e : Failure Fault) (m : Machine) : Prop where
  kept : ∀ r ∈ before.memory.regions, 0 < r.size → r ∈ m.memory.regions
  cause : (∃ f, e = .error f) ∨ addressLimit ≤ reach

theorem Refused.mono {before : Machine} {n n' : Nat} {e : Failure Fault} {m : Machine}
    (h : Refused before n e m) (hle : n ≤ n') : Refused before n' e m :=
  ⟨h.kept, h.cause.imp_right fun hreach => Nat.le_trans hreach hle⟩

/-- No region with bytes starts where the heap is to start. -/
def HeapFree (m : Machine) (config : Config) : Prop :=
  ∀ r ∈ m.memory.regions, 0 < r.size → r.base ≠ config.heapStart

variable {before : Machine} {config : Config} {text : List Byte}

theorem heapFree_of_bases {bases : List Word} (hbases : m.memory.regions.map Region.base = bases)
    (hnot : config.heapStart ∉ bases) : m.HeapFree config := by
  intro r hr _ hbase
  rw [← hbases, ← hbase] at hnot
  exact hnot (List.mem_map_of_mem hr)

theorem Preparing.heapStart (h : Preparing before config bs m) :
    m.landmarks.get? Landmarks.heapStart = some config.heapStart := by
  rw [h.names _ (by decide), names_heapStart]

theorem Preparing.growHeap (h : Preparing before config bs m) (hfree : before.HeapFree config)
    (hend : newEnd.toNat = config.heapStart.toNat + (bs.length + k))
    (hok : m.growHeap newEnd = .ok m') :
    Preparing before config (bs ++ List.replicate k 0) m' := by
  have hothers := (growHeap_memory_cases h.heapStart hok).1
  have hlandmarks : m'.landmarks = m.landmarks.set Landmarks.heapEnd newEnd := by rw [hothers]
  have hlength : (bs ++ List.replicate k (0 : Byte)).length = bs.length + k := by simp
  have hlimit : config.heapStart.toNat + (bs.length + k) < addressLimit := hend ▸ newEnd.isLt
  constructor
  · exact wellFormed_growHeap h.wellFormed hok
  · rw [hothers, h.others]
  · intro name hname
    rw [hlandmarks, Landmarks.get?_set_ne _ _ hname]
    exact h.names name hname
  · rw [hlandmarks, Landmarks.get?_set_self, hlength]
    refine congrArg some (BitVec.eq_of_toNat_eq ?_)
    rw [hend, Word.toNat_add_ofNat hlimit]
  · rw [hlength]
    exact hlimit
  · exact filledFrom_growHeap h.wellFormed h.heapStart h.heap hend hok
  · exact Nat.le_trans h.stack (sizeFrom_le_of_growHeap h.wellFormed h.heapStart hok _)
  · intro r hr hfull
    exact mem_of_growHeap h.wellFormed h.heapStart hok (h.kept r hr hfull) hfull (hfree r hr hfull)

end Machine

namespace Bootstrap

open Machine

variable {before m : Machine} {config : Config} {bs text : List Byte} {addr : Word} {k : Nat}

/-! ## Putting texts on the heap -/

theorem takeHeap_refused {length : Nat} {addr : Word} {e : Failure Fault} {m' : Machine}
    (hend : m.landmarks.get? Landmarks.heapEnd = some addr)
    (hrun : takeHeap length m = (.error e, m')) :
    (∃ f, e = .error f) ∨ addressLimit ≤ addr.toNat + length := by
  rw [takeHeap_of_end hend] at hrun
  by_cases hroom : addr.toNat + (BitVec.ofNat 64 length).toNat < addressLimit
  · rw [checkedAdd_bind_apply _ _ hroom, attempt] at hrun
    split at hrun
    · cases hrun
    · cases hrun
      exact Or.inl ⟨_, rfl⟩
  · rw [BitVec.toNat_ofNat] at hroom
    have hmod := Nat.mod_le length (2 ^ 64)
    exact Or.inr (by omega)

theorem takeHeap_meets (hfree : before.HeapFree config) (length : Nat) :
    Meets (Preparing before config bs) (takeHeap length)
      (fun addr m => addr = config.heapStart + BitVec.ofNat 64 bs.length ∧
        Preparing before config (bs ++ List.replicate (length % 2 ^ 64) 0) m)
      (Refused before (config.heapStart.toNat + bs.length + length)) := by
  intro m h
  have haddr := Word.toNat_add_ofNat h.fits
  cases hrun : takeHeap length m with
  | mk result m' =>
    cases result with
    | ok addr =>
      obtain ⟨hend, hroom, hgrow⟩ := takeHeap_cases hrun
      obtain rfl := Option.some.inj (h.heapEnd.symm.trans hend)
      refine Or.inl ⟨_, m', rfl, rfl, h.growHeap hfree ?_ hgrow⟩
      rw [haddr, BitVec.toNat_ofNat] at hroom
      have hlimit : config.heapStart.toNat + bs.length + length % 2 ^ 64 < 2 ^ 64 := hroom
      rw [BitVec.toNat_add, haddr, BitVec.toNat_ofNat]
      omega
    | error e =>
      refine Or.inr ⟨e, m', rfl, ?_⟩
      have hcause := takeHeap_refused h.heapEnd hrun
      rw [haddr] at hcause
      rw [takeHeap_error hrun]
      exact ⟨h.kept, hcause⟩

theorem put_meets (hfree : before.HeapFree config) (hle : text.length ≤ k) :
    Meets (Preparing before config (bs ++ List.replicate k 0))
      (put (config.heapStart + BitVec.ofNat 64 bs.length) text)
      (fun _ => Preparing before config (bs ++ text ++ List.replicate (k - text.length) 0))
      (fun _ _ => False) := by
  intro m h
  have hold := h.heap.of_append_zeros
  have hfits := h.fits
  have hroom := h.heap.room
  rw [List.length_append, List.length_replicate] at hfits hroom
  have haddr : (config.heapStart + BitVec.ofNat 64 bs.length).toNat =
      config.heapStart.toNat + bs.length := Word.toNat_add_ofNat (by omega)
  have hmapped : m.memory.Mapped _ text.length := h.wellFormed.mapped_of_sizeFrom haddr (by omega)
  obtain ⟨memory, hfill⟩ := (h.wellFormed.bounded_fill _ text).ok_of_mapped hmapped
  have hrun : put (config.heapStart + BitVec.ofNat 64 bs.length) text m =
      (.ok (), { m with memory := memory }) := by
    rw [put, attempt_eq_ok_iff, Machine.fill, hfill]
    rfl
  have hlength : (bs ++ text ++ List.replicate (k - text.length) (0 : Byte)).length =
      (bs ++ List.replicate k (0 : Byte)).length := by
    simp
    omega
  have hsize := h.wellFormed.sizeFrom_fill hfill
  refine Or.inl ⟨(), _, hrun, ?_⟩
  constructor
  · exact h.wellFormed.fill hfill
  · rw [h.others]
  · exact h.names
  · rw [hlength]
    exact h.heapEnd
  · rw [hlength]
    exact h.fits
  · refine (hold.fill_append h.wellFormed haddr (by omega) hfill).append_zeros ?_
    rw [hsize, List.length_append]
    omega
  · rw [hsize]
    exact h.stack
  · intro r hr hfull
    refine h.wellFormed.mem_of_fill hfill (h.kept r hr hfull) fun hpos => ?_
    refine h.wellFormed.not_within_of_base_ne (h.kept r hr hfull) (hfree r hr hfull) ?_
    exact ⟨by omega, by omega⟩

/-- There is no room for so many bytes that their count with one more is no word. -/
theorem put_meets_of_long (haddr : 0 < addr.toNat) (hlong : 2 ^ 64 ≤ text.length + 1) :
    Meets (Preparing before config bs) (put addr text) (fun _ _ => False)
      (fun _ => Preparing before config bs) := by
  intro m h
  cases hrun : put addr text m with
  | mk result m' =>
    cases result with
    | ok u =>
      unfold put at hrun
      have hmap := attempt_eq_ok_iff.mp hrun
      obtain ⟨filled, hfill, -⟩ := Except.map_eq_ok_iff.mp hmap
      have hmapped := h.wellFormed.mapped_of_fill (memory_of_fill hfill)
      have hend : addr.toNat + text.length < 2 ^ 64 :=
        h.wellFormed.finish_of_mapped hmapped (by omega)
      omega
    | error e =>
      have hsame : m' = m := attempt_eq_error hrun
      exact Or.inr ⟨e, m', rfl, hsame ▸ h⟩

/-- A text is put with a zero after it at the end of what the heap has. -/
theorem putText_meets (hfree : before.HeapFree config) (hpos : 0 < bs.length) (text : List Byte) :
    Meets (Preparing before config bs) (putText text)
      (fun addr m => addr = config.heapStart + BitVec.ofNat 64 bs.length ∧
        Preparing before config (bs ++ (text ++ [0])) m)
      (Refused before (config.heapStart.toNat + bs.length + (text.length + 1))) := by
  refine (takeHeap_meets hfree (text.length + 1)).bind fun addr => Meets.of_assumption ?_
  rintro rfl
  by_cases hlong : 2 ^ 64 ≤ text.length + 1
  · intro m h
    have hfits := h.fits
    rw [List.length_append] at hfits
    have haddr : (config.heapStart + BitVec.ofNat 64 bs.length).toNat =
        config.heapStart.toNat + bs.length := Word.toNat_add_ofNat (by omega)
    have hsome : 0 < (config.heapStart + BitVec.ofNat 64 bs.length).toNat := by omega
    rcases put_meets_of_long hsome hlong m h with ⟨-, -, -, hfalse⟩ | ⟨e, m', hrun, h'⟩
    · exact hfalse.elim
    · have hreach := Nat.le_trans hlong (Nat.le_add_left _ (config.heapStart.toNat + bs.length))
      exact Or.inr ⟨e, m', bind_error hrun, h'.kept, Or.inr hreach⟩
  · rw [Nat.mod_eq_of_lt (Nat.lt_of_not_le hlong)]
    have hput := @put_meets before config bs text _ hfree (Nat.le_succ text.length)
    refine (hput.weaken_error fun _ _ hfalse => hfalse.elim).bind fun _ => Meets.pure fun m h => ?_
    have hone : text.length + 1 - text.length = 1 := by omega
    rw [hone, List.append_assoc] at h
    exact ⟨rfl, h⟩

theorem putTexts_meets (hfree : before.HeapFree config) (hpos : 0 < bs.length)
    (texts : List (List Byte)) :
    Meets (Preparing before config bs) (putTexts texts)
      (fun addrs m => addrs = places (config.heapStart.toNat + bs.length) texts ∧
        Preparing before config (bs ++ terminated texts) m)
      (Refused before (config.heapStart.toNat + bs.length + (terminated texts).length)) := by
  induction texts generalizing bs with
  | nil =>
    refine Meets.pure fun m h => ⟨rfl, ?_⟩
    rwa [terminated_nil, List.append_nil]
  | cons text rest ih =>
    have hlength : (bs ++ (text ++ [0])).length = bs.length + (text.length + 1) := by simp
    have htotal : (terminated (text :: rest)).length =
        text.length + 1 + (terminated rest).length := by
      rw [terminated_cons, List.length_append, List.length_append]
      rfl
    have hrest := @ih (bs ++ (text ++ [0])) (by omega)
    rw [hlength] at hrest
    refine ((putText_meets hfree hpos text).weaken_error fun e m h => h.mono (by omega)).bind
      fun addr => Meets.of_assumption ?_
    rintro rfl
    refine (hrest.weaken_error fun e m h => h.mono (by omega)).bind
      fun others => Meets.of_assumption ?_
    rintro rfl
    refine Meets.pure fun m h => ⟨?_, ?_⟩
    · rw [places, BitVec.ofNat_add, BitVec.ofNat_toNat, BitVec.setWidth_eq, Nat.add_assoc]
    · rwa [terminated_cons, ← List.append_assoc]

end Bootstrap

end RiscvHart
