import RiscvHart.Kernel.Bootstrap
import RiscvHart.Proofs.Kernel.Anchored

/-!
# The address space of a new process

Preparing a process maps its stack and its heap. Both are regions of the memory that the process
starts with, and so is every region that was there before.
-/

namespace RiscvHart

open Exec

namespace Bootstrap

variable {kept : List (Word × Nat)} {heap : Word}

theorem spatial_anchored : Machine.Spatial (Machine.Anchored kept heap) :=
  fun _ _ heq h => h.of_space_eq heq

/-- As a heap that cannot grow is left alone, taking memory at its end succeeds or
changes nothing. -/
theorem takeHeap_of_end {length : Nat} {addr : Word} {m : Machine}
    (hend : m.landmarks.get? Landmarks.heapEnd = some addr) :
    takeHeap length m =
      (checkedAdd addr (BitVec.ofNat 64 length) >>= fun finish =>
        attempt fun m => (m.growHeap finish).map fun m' => (addr, m')) m := by
  have hgrow : ∀ finish, ((inPlace fun m : Machine => m.growHeapInPlace finish) >>= fun _ =>
      Pure.pure addr) = attempt fun m => (m.growHeap finish).map fun m' => (addr, m') := by
    intro finish
    funext m
    rw [Machine.inPlace_growHeap, bind_apply, attempt, attempt]
    cases m.growHeap finish <;> rfl
  rw [takeHeap, get_bind_apply, hend]
  simp only [hgrow]

theorem takeHeap_cases {length : Nat} {addr : Word} {m m' : Machine}
    (h : takeHeap length m = (.ok addr, m')) :
    m.landmarks.get? Landmarks.heapEnd = some addr ∧
      addr.toNat + (BitVec.ofNat 64 length).toNat < addressLimit ∧
      m.growHeap (addr + BitVec.ofNat 64 length) = .ok m' := by
  cases hend : m.landmarks.get? Landmarks.heapEnd with
  | none =>
    rw [takeHeap, get_bind_apply, hend] at h
    cases h
  | some start =>
    rw [takeHeap_of_end hend] at h
    obtain ⟨finish, t, hsum, htake⟩ := bind_eq_ok h
    obtain ⟨rfl, rfl, hroom⟩ := checkedAdd_eq_ok hsum
    have hmap := attempt_eq_ok_iff.mp htake
    obtain ⟨grown, hgrow, heq⟩ := Except.map_eq_ok_iff.mp hmap
    cases heq
    exact ⟨rfl, hroom, hgrow⟩

theorem takeHeap_error {length : Nat} {e : Failure Fault} {m m' : Machine}
    (h : takeHeap length m = (.error e, m')) : m' = m := by
  cases hend : m.landmarks.get? Landmarks.heapEnd with
  | none =>
    rw [takeHeap, get_bind_apply, hend] at h
    exact (congrArg Prod.snd h).symm
  | some start =>
    rw [takeHeap_of_end hend] at h
    by_cases hroom : start.toNat + (BitVec.ofNat 64 length).toNat < addressLimit
    · rw [checkedAdd_bind_apply _ _ hroom] at h
      exact attempt_eq_error h
    · rw [checkedAdd_bind_of_too_large _ _ (Nat.le_of_not_lt hroom)] at h
      exact (congrArg Prod.snd h).symm

theorem anchored_of_takeHeap {length : Nat} {addr : Word} {m m' : Machine}
    (h : m.Anchored kept heap) (hrun : takeHeap length m = (.ok addr, m')) :
    m'.Anchored kept heap ∧ addr.toNat + (BitVec.ofNat 64 length).toNat < addressLimit ∧
      heap.toNat ≤ addr.toNat ∧
      m'.landmarks.get? Landmarks.heapEnd = some (addr + BitVec.ofNat 64 length) := by
  obtain ⟨haddr, hroom, hgrow⟩ := takeHeap_cases hrun
  obtain ⟨finish, hfinish, hle, -⟩ := h.heapEnd
  obtain rfl : finish = addr := Option.some.inj (hfinish.symm.trans haddr)
  have hsum : (finish + BitVec.ofNat 64 length).toNat =
      finish.toNat + (BitVec.ofNat 64 length).toNat := by
    rw [BitVec.toNat_add]
    exact Nat.mod_eq_of_lt hroom
  obtain ⟨hanchored, hend⟩ := h.growHeap (by omega) hgrow
  exact ⟨hanchored, hroom, hle, hend⟩

theorem preserves_takeHeap (length : Nat) :
    Preserves (Machine.Anchored kept heap) (takeHeap length) := by
  intro m h
  cases hrun : takeHeap length m with
  | mk result m' =>
    cases result with
    | ok addr => exact (anchored_of_takeHeap h hrun).1
    | error e =>
      rw [takeHeap_error hrun]
      exact h

theorem keeps_put (addr : Word) (bs : List Byte) : Keeps Machine.space (put addr bs) := by
  refine keeps_attempt fun m _ m' h => ?_
  obtain ⟨after, hfill, heq⟩ := Except.map_eq_ok_iff.mp h
  cases heq
  exact Machine.space_of_fill hfill

theorem preserves_putTexts {P : Machine → Prop} (hspace : Machine.Spatial P)
    (htake : ∀ length, Preserves P (takeHeap length)) (texts : List (List Byte)) :
    Preserves P (putTexts texts) := by
  have hone : ∀ bs, Preserves P (putText bs) := fun bs =>
    (htake _).bind fun addr =>
      (hspace.preserves (keeps_put addr bs)).bind fun _ => preserves_pure addr
  induction texts with
  | nil => exact preserves_pure []
  | cons bs rest ih =>
    exact (hone bs).bind fun addr => ih.bind fun others => preserves_pure (addr :: others)

theorem keeps_putWords (addr : Word) (i : Nat) (ws : List Word) :
    Keeps Machine.space (putWords addr i ws) := by
  induction ws generalizing i with
  | nil => exact keeps_pure ()
  | cons w rest ih =>
    refine (keeps_checkedAdd _ _).bind fun place =>
      Keeps.bind (keeps_attempt fun m _ m' h => ?_) fun _ => ih (i + 1)
    obtain ⟨written, hpoke, heq⟩ := Except.map_eq_ok_iff.mp h
    cases heq
    exact Machine.space_of_memory_fill hpoke

theorem keeps_putBlock (config : Config) (stackEnd : Word) (block : List Word) :
    Keeps Machine.space (putBlock config stackEnd block) := by
  unfold putBlock
  dsimp only
  split
  · exact keeps_fail _
  split
  · exact keeps_fail _
  split
  · exact keeps_fail _
  exact (keeps_checkedSub _ _).bind fun sp =>
    (keeps_putWords sp 0 block).bind fun _ => keeps_modify fun m => rfl

theorem preserves_putTextsAndBlock {P : Machine → Prop} (hspace : Machine.Spatial P)
    (htake : ∀ length, Preserves P (takeHeap length)) (args : ProcessArgs) (config : Config)
    (stackEnd random : Word) :
    Preserves P (do
      put random ((ChaCha.Generator.ofSeed config.seed).bytes randomLength).1
      let arguments ← putTexts (args.arguments.map Text.utf8)
      let environment ← putTexts (args.environment.map fun (k, v) => Text.utf8 (k ++ "=" ++ v))
      putBlock config stackEnd (words arguments environment random)) :=
  (hspace.preserves (keeps_put random _)).bind fun _ =>
    (preserves_putTexts hspace htake _).bind fun _ =>
      (preserves_putTexts hspace htake _).bind fun _ =>
        hspace.preserves (keeps_putBlock config stackEnd _)

theorem mapStack_cases {config : Config} {m m' : Machine} {finish : Word}
    (h : mapStack config m = (.ok finish, m')) :
    ∃ mapped, m.allocate config.stackStart config.stackSize.toNat = .ok mapped ∧
      m' = (mapped.mark Landmarks.stackStart config.stackStart).mark Landmarks.stackEnd finish := by
  obtain ⟨sum, t, hsum, hrest⟩ := bind_eq_ok h
  obtain ⟨rfl, rfl, -⟩ := checkedAdd_eq_ok hsum
  obtain ⟨_, t', hattempt, hpure⟩ := bind_eq_ok hrest
  have hmap := attempt_eq_ok_iff.mp hattempt
  obtain ⟨mapped, hmapped, heq⟩ := Except.map_eq_ok_iff.mp hmap
  cases heq
  cases hpure
  exact ⟨mapped, hmapped, rfl⟩

theorem anchored_of_mapStack {config : Config} {m m' : Machine} {finish : Word}
    (h : m.Anchored kept heap) (hrun : mapStack config m = (.ok finish, m')) :
    m'.Anchored kept heap ∧ (0 < config.stackSize.toNat →
      (config.stackStart, config.stackSize.toNat) ∈ m'.memory.layout) := by
  obtain ⟨mapped, hallocate, rfl⟩ := mapStack_cases hrun
  refine ⟨((h.allocate hallocate).mark ?_ ?_).mark ?_ ?_, fun hpos => ?_⟩
  any_goals decide
  have hlayout :=
    (h.wellFormed.layout_allocate h.solid hpos (Machine.memory_of_allocate hallocate)).2
  exact (hlayout _).mpr (Or.inl rfl)

end Bootstrap

namespace Machine

open Bootstrap

variable {args : ProcessArgs} {config : Config} {m m' : Machine}

/-- A machine on which a process has been named but nothing mapped for it yet. -/
theorem anchored_of_marks (config : Config) (hwell : m.memory.WellFormed)
    (hsolid : m.memory.Solid) :
    (((m.mark Landmarks.heapStart config.heapStart).mark Landmarks.heapEnd config.heapStart).mark
      Landmarks.mmapNext config.mmapBase).Anchored m.memory.layout config.heapStart where
  wellFormed := hwell
  solid := hsolid
  heapStart := by
    rw [mark, mark, mark, Landmarks.get?_set_ne _ _ (by decide),
      Landmarks.get?_set_ne _ _ (by decide), Landmarks.get?_set_self]
  heapEnd := by
    refine ⟨config.heapStart, ?_, Nat.le_refl _, Or.inl rfl⟩
    rw [mark, mark, mark, Landmarks.get?_set_ne _ _ (by decide), Landmarks.get?_set_self]
  kept e he := ⟨e.2, he, Nat.le_refl _, fun _ => rfl⟩

/-- At least `size` bytes are mapped from `base` on, where their region starts. -/
def Holds (m : Machine) (base : Word) (size : Nat) : Prop :=
  ∃ n, (base, n) ∈ m.memory.layout ∧ size ≤ n

theorem Anchored.holds {kept : List (Word × Nat)} {heap base : Word} {size : Nat}
    (h : m.Anchored kept heap) (hmem : (base, size) ∈ kept) : m.Holds base size := by
  obtain ⟨n, hn, hle, -⟩ := h.kept _ hmem
  exact ⟨n, hn, hle⟩

/-- A process that was prepared has its stack and its heap, and what was mapped before. -/
theorem anchored_bootstrap (hwell : m.memory.WellFormed) (hsolid : m.memory.Solid)
    (hrun : m.bootstrap args config = (.ok (), m')) :
    m'.Anchored m.memory.layout config.heapStart ∧ m'.Holds config.heapStart 1 ∧
      (0 < config.stackSize.toNat → m'.Holds config.stackStart config.stackSize.toNat) := by
  rw [bootstrap, modify_bind_apply] at hrun
  obtain ⟨stackEnd, m₁, hstack, hheap⟩ := bind_eq_ok hrun
  obtain ⟨random, m₂, htake, hrest⟩ := bind_eq_ok hheap
  obtain ⟨hanchored₁, hstackMapped⟩ := anchored_of_mapStack
    (anchored_of_marks config hwell hsolid) hstack
  -- What comes after the stack and the first bytes of the heap keeps them.
  have hfinal : ∀ kept, m₂.Anchored kept config.heapStart → m'.Anchored kept config.heapStart := by
    intro kept h
    have hpreserves := preserves_putTextsAndBlock spatial_anchored preserves_takeHeap args config
      stackEnd random m₂ h
    rw [hrest] at hpreserves
    exact hpreserves
  have htaken : ∀ kept, m₁.Anchored kept config.heapStart → m₂.Anchored kept config.heapStart :=
    fun kept h => (anchored_of_takeHeap h htake).1
  refine ⟨hfinal _ (htaken _ hanchored₁), ?_, fun hpos => ?_⟩
  · obtain ⟨hanchored₂, hroom, hle, hend⟩ := anchored_of_takeHeap hanchored₁ htake
    obtain ⟨finish, hfinish, -, hmapped⟩ := hanchored₂.heapEnd
    obtain rfl : finish = random + BitVec.ofNat 64 randomLength :=
      Option.some.inj (hfinish.symm.trans hend)
    have hsum : (random + BitVec.ofNat 64 randomLength).toNat = random.toNat + 16 := by
      rw [BitVec.toNat_add]
      exact Nat.mod_eq_of_lt hroom
    rcases hmapped with heq | ⟨size, hmem, -⟩
    · rw [← heq] at hle
      omega
    · obtain ⟨n, hn, hsize⟩ := (hfinal _ hanchored₂.rebase).holds hmem
      have := hanchored₂.solid _ hmem
      exact ⟨n, hn, by omega⟩
  · exact (hfinal _ (htaken _ hanchored₁.rebase)).holds (hstackMapped hpos)

end Machine

end RiscvHart
