import RiscvHart.Kernel.Bootstrap
import RiscvHart.Observe.Stats
import RiscvHart.Proofs.Hart.Events
import RiscvHart.Proofs.Kernel.Bootstrap

/-!
# Accesses to memory that can be seen

An instruction that loads or stores shows one access if it succeeds and none if it fails; no
other instruction shows any, and neither does a call, whatever it moves, nor the preparation of a
process.
-/

namespace RiscvHart

open Exec

/-- Events that no instruction is complete by, with so many reads and writes of memory. -/
structure AccessCount (es : List Event) (reads writes : Nat) : Prop where
  kinds : ∀ e ∈ es, e.kind? ≠ some .after
  reads : es.countP (fun e => e.kind? = some .memoryRead) = reads
  writes : es.countP (fun e => e.kind? = some .memoryWrite) = writes

namespace AccessCount

variable {es fs : List Event} {reads writes reads' writes' : Nat} {e : Event}

theorem nil : AccessCount [] 0 0 := ⟨by simp, rfl, rfl⟩

theorem append (h : AccessCount es reads writes) (h' : AccessCount fs reads' writes') :
    AccessCount (es ++ fs) (reads + reads') (writes + writes') where
  kinds := by
    intro e he
    rcases List.mem_append.mp he with he | he
    · exact h.kinds e he
    · exact h'.kinds e he
  reads := by rw [List.countP_append, h.reads, h'.reads]
  writes := by rw [List.countP_append, h.writes, h'.writes]

theorem singleton (h : e.kind? ≠ some .after) :
    AccessCount [e] (if e.kind? = some .memoryRead then 1 else 0)
      (if e.kind? = some .memoryWrite then 1 else 0) where
  kinds := List.forall_mem_singleton.mpr h
  reads := by simp [List.countP_cons]
  writes := by simp [List.countP_cons]

end AccessCount

namespace Machine

def Shows (reads writes : Nat) (m m' : Machine) : Prop :=
  ∃ es, m'.events = m.events ++ es ∧ AccessCount es reads writes

theorem Shows.trans {m m' m'' : Machine} {reads writes reads' writes' : Nat}
    (h : Shows reads writes m m') (h' : Shows reads' writes' m' m'') :
    Shows (reads + reads') (writes + writes') m m'' := by
  obtain ⟨es, hes, haccesses⟩ := h
  obtain ⟨fs, hfs, haccesses'⟩ := h'
  refine ⟨es ++ fs, ?_, haccesses.append haccesses'⟩
  rw [hfs, hes, List.append_assoc]

structure Adds (reads writes : Nat) (m m' : Machine) : Prop where
  pc : m'.pc = m.pc
  shows : Shows reads writes m m'

namespace Adds

variable {m m' m'' : Machine} {reads writes reads' writes' : Nat} {e : Event}

theorem of_quiet (hpc : m'.pc = m.pc) (hlog : m'.log = m.log) : Adds 0 0 m m' :=
  ⟨hpc, [], by rw [Machine.events, Machine.events, hlog, List.append_nil], .nil⟩

theorem of_event (hpc : m'.pc = m.pc) (hlog : m'.log = m.log.add e) (he : e.kind? ≠ some .after) :
    Adds (if e.kind? = some .memoryRead then 1 else 0)
      (if e.kind? = some .memoryWrite then 1 else 0) m m' := by
  refine ⟨hpc, [e], ?_, .singleton he⟩
  rw [Machine.events, Machine.events, hlog, EventLog.toList_add]

theorem trans (h : Adds reads writes m m') (h' : Adds reads' writes' m' m'') :
    Adds (reads + reads') (writes + writes') m m'' :=
  ⟨h'.pc.trans h.pc, h.shows.trans h'.shows⟩

instance : IsPreorder Machine (Adds 0 0) where
  refl _ := of_quiet rfl rfl
  trans _ _ _ h h' := h.trans h'

theorem readRegister (h : Adds reads writes m m') (r : Reg) :
    Adds reads writes m (m'.readRegister r).2 := by
  have hread : Adds 0 0 m' (m'.readRegister r).2 :=
    of_event (e := .registerRead r (m'.registers.read r)) rfl rfl (by simp [Event.kind?])
  exact h.trans hread

theorem writeRegister (h : Adds reads writes m m') (r : Reg) (v : Word) :
    Adds reads writes m (m'.writeRegister r v) := by
  have hwrite : Adds 0 0 m' (m'.writeRegister r v) :=
    of_event (e := .registerWrite r v (m'.registers.read r)) rfl rfl (by simp [Event.kind?])
  exact h.trans hwrite

theorem load {w : Width} {addr v : Word} (h : Adds 0 0 m m')
    (hload : m'.load w addr = .ok (v, m'')) : Adds 1 0 m m'' := by
  obtain ⟨rfl, -⟩ := events_of_load hload
  have hread : Adds 1 0 m' (m'.emit (.memoryRead addr v w)) :=
    of_event (e := .memoryRead addr v w) rfl rfl (by simp [Event.kind?])
  exact h.trans hread

theorem store {w : Width} {addr v : Word} (h : Adds 0 0 m m')
    (hstore : m'.store w addr v = .ok m'') : Adds 0 1 m m'' := by
  obtain ⟨old, memory, -, -, rfl⟩ := events_of_store hstore
  have hwrite : Adds 0 1 m'
      ({ m' with memory := memory }.emit (.memoryWrite addr (v.cut w) old w)) :=
    of_event (e := .memoryWrite addr (v.cut w) old w) rfl rfl (by simp [Event.kind?])
  exact h.trans hwrite

end Adds

end Machine

/-! ## Actions -/

namespace Action

open Machine

def reads : Action → Nat
  | load _ _ => 1
  | _ => 0

def writes : Action → Nat
  | store _ => 1
  | _ => 0

def transfers : Action → Bool
  | branch _ | jump | jumpRegister => true
  | _ => false

variable {a : Action} {o : Operands} {m : Machine}

/-- What an action shows: nothing that counts if it fails; else its accesses, after which it
moves the program counter, to the next instruction unless it is one that transfers control. -/
theorem perform_cases (a : Action) (o : Operands) (m : Machine) :
    (∃ failure m', a.perform o m = (.error failure, m') ∧ m.Adds 0 0 m') ∨
      ∃ t m' target, a.perform o m = (.ok t, m'.jump target) ∧ m.Adds a.reads a.writes m' ∧
        (a.transfers = true ∨ target = m.pc.current + 4) := by
  have hnone : m.Adds 0 0 m := refl_of (Adds 0 0) m
  unfold perform
  split
  -- Computations and shifts.
  · exact Or.inr ⟨none, _, _, rfl, ((hnone.readRegister _).readRegister _).writeRegister _ _,
      Or.inr rfl⟩
  · exact Or.inr ⟨none, _, _, rfl, (hnone.readRegister _).writeRegister _ _, Or.inr rfl⟩
  · exact Or.inr ⟨none, _, _, rfl, (hnone.readRegister _).writeRegister _ _, Or.inr rfl⟩
  · exact Or.inr ⟨none, _, _, rfl, (hnone.readRegister _).writeRegister _ _, Or.inr rfl⟩
  -- Branches.
  · exact Or.inr ⟨none, _, _, perform_branch _ _ _ _ m, (hnone.readRegister _).readRegister _,
      Or.inl rfl⟩
  -- Accesses to memory.
  · next w sign rs1 rd imm =>
    have hread := hnone.readRegister rs1
    cases hrun : attempt (fun m' => m'.load w (m.registers.read rs1 + imm.signExtend 64))
        (m.readRegister rs1).2 with
    | mk result m' =>
      cases result with
      | error e =>
        obtain rfl := attempt_eq_error hrun
        refine Or.inl ⟨e, _, ?_, hread⟩
        show (attempt _ >>= _) (m.readRegister rs1).2 = _
        exact bind_error hrun
      | ok v =>
        have hload := (hread.load (attempt_eq_ok_iff.mp hrun)).writeRegister rd
          (if sign then v.signExtendLow w.bits else v)
        have hnext := congrArg (fun pc => pc.current + 4) hload.pc
        refine Or.inr ⟨none, _, _, ?_, hload, Or.inr hnext⟩
        show (attempt _ >>= _) (m.readRegister rs1).2 = _
        exact bind_ok hrun
  · next w rs1 rs2 imm =>
    have hread := (hnone.readRegister rs1).readRegister rs2
    cases hrun : attempt (fun m' => (m'.store w (m.registers.read rs1 + imm.signExtend 64)
        (m.registers.read rs2)).map fun m'' => ((), m''))
        ((m.readRegister rs1).2.readRegister rs2).2 with
    | mk result m' =>
      cases result with
      | error e =>
        obtain rfl := attempt_eq_error hrun
        refine Or.inl ⟨e, _, ?_, hread⟩
        show (attempt _ >>= _) ((m.readRegister rs1).2.readRegister rs2).2 = _
        exact bind_error hrun
      | ok _ =>
        have hmap := attempt_eq_ok_iff.mp hrun
        obtain ⟨after, hok, heq⟩ := Except.map_eq_ok_iff.mp hmap
        cases heq
        have hstore := hread.store hok
        have hnext := congrArg (fun pc => pc.current + 4) hstore.pc
        refine Or.inr ⟨none, _, _, ?_, hstore, Or.inr hnext⟩
        show (attempt _ >>= _) ((m.readRegister rs1).2.readRegister rs2).2 = _
        exact bind_ok hrun
  -- Upper immediates.
  · exact Or.inr ⟨none, _, _, rfl, hnone.writeRegister _ _, Or.inr rfl⟩
  · exact Or.inr ⟨none, _, _, rfl, hnone.writeRegister _ _, Or.inr rfl⟩
  -- Jumps.
  · exact Or.inr ⟨none, _, _, rfl, hnone.writeRegister _ _, Or.inl rfl⟩
  · exact Or.inr ⟨none, _, _, rfl, (hnone.readRegister _).writeRegister _ _, Or.inl rfl⟩
  -- Fences, traps, and operands of another format.
  · exact Or.inr ⟨none, _, _, rfl, hnone, Or.inr rfl⟩
  · exact Or.inr ⟨some _, _, _, rfl, hnone, Or.inr rfl⟩
  · exact Or.inl ⟨_, _, rfl, hnone⟩

end Action

/-! ## Calls and the preparation of a process -/

namespace Machine

theorem answers_adds : Answers (Adds 0 0) where
  writeRegister m r v := (refl_of (Adds 0 0) m).writeRegister r v
  remark m r := .of_event (e := .remarked r) rfl rfl (by simp [Event.kind?])
  mark m name addr := .of_quiet rfl rfl
  allocate m addr size m' h := by
    have hpc : m'.pc = m.pc := by
      obtain ⟨mapped, -, rfl⟩ := Except.map_eq_ok_iff.mp h
      dsimp only
      split <;> rfl
    obtain ⟨-, hlog⟩ := events_of_allocate h
    by_cases hsize : size = 0
    · rw [if_pos hsize] at hlog
      exact .of_quiet hpc hlog
    · rw [if_neg hsize] at hlog
      exact .of_event (e := .allocated addr size) hpc hlog (by simp [Event.kind?])
  extend m base size m' r hr hlt h := by
    have hpc : m'.pc = m.pc := by
      rw [resize_eq_map] at h
      obtain ⟨resized, -, rfl⟩ := Except.map_eq_ok_iff.mp h
      simp only [hr, hlt, if_true]
      rfl
    obtain ⟨-, hlog⟩ := events_of_extend hr hlt h
    exact .of_event (e := .allocated _ _) hpc hlog (by simp [Event.kind?])

theorem releases_adds : Releases (Adds 0 0) := by
  intro m base size m' h
  obtain ⟨⟨released, rest⟩, -, heq⟩ := Except.map_eq_ok_iff.mp h
  cases heq
  exact .of_quiet rfl rfl

end Machine

namespace Platform

variable {σ : Type}

theorem indifferent_position : Indifferent fun s : Platform σ => (s.machine.pc, s.machine.log) where
  fill s addr bs m h := by
    obtain ⟨memory, -, rfl⟩ := Except.map_eq_ok_iff.mp h
    rfl
  hostState _ _ := rfl
  random _ _ := rfl

theorem adds_environmentCall (s : Platform σ) :
    s.machine.Adds 0 0 (environmentCall s).2.machine := by
  refine advances_environmentCall Machine.answers_adds (fun c a _ hc => ?_) fun _ =>
    Machine.releases_adds
  have hcontained : Contained _ (fun _ => True) (serve (σ := σ) c a) :=
    contained_serve indifferent_position a hc (fun _ _ _ => rfl) (fun _ => trivial) fun _ => trivial
  intro t
  have hsame := hcontained.keeps t
  exact .of_quiet (congrArg Prod.fst hsame) (congrArg Prod.snd hsame)

end Platform

namespace Bootstrap

variable {R : Machine → Machine → Prop} [IsPreorder Machine R]

theorem advances_takeHeap (h : Machine.Answers R) (length : Nat) :
    Advances R (takeHeap length) := by
  intro m
  cases hrun : takeHeap length m with
  | mk result m' =>
    cases result with
    | ok addr => exact Platform.advances_growHeap h (takeHeap_cases hrun).2.2
    | error e =>
      rw [takeHeap_error hrun]
      exact refl_of R m

theorem advances_mapStack (h : Machine.Answers R) (config : Config) :
    Advances R (mapStack config) := by
  refine (keeps_checkedAdd _ _).advances.bind fun finish =>
    Advances.bind ?_ fun _ => advances_pure finish
  refine advances_attempt fun m _ m' hmap => ?_
  obtain ⟨mapped, hallocate, heq⟩ := Except.map_eq_ok_iff.mp hmap
  cases heq
  exact trans_of R (h.allocate _ _ _ _ hallocate)
    (trans_of R (h.mark _ _ _) (h.mark _ _ _))

section

variable (hbytes : ∀ (m : Machine) memory, R m { m with memory := memory })
include hbytes

theorem advances_put (addr : Word) (bs : List Byte) : Advances R (put addr bs) := by
  refine advances_attempt fun m _ m' hmap => ?_
  obtain ⟨after, hfill, heq⟩ := Except.map_eq_ok_iff.mp hmap
  cases heq
  obtain ⟨memory, -, rfl⟩ := Except.map_eq_ok_iff.mp hfill
  exact hbytes m memory

theorem advances_putTexts (h : Machine.Answers R) (texts : List (List Byte)) :
    Advances R (putTexts texts) := by
  have hone : ∀ bs, Advances R (putText bs) := fun bs =>
    (advances_takeHeap h _).bind fun addr =>
      (advances_put hbytes addr bs).bind fun _ => advances_pure addr
  induction texts with
  | nil => exact advances_pure []
  | cons bs rest ih =>
    exact (hone bs).bind fun addr => ih.bind fun others => advances_pure (addr :: others)

theorem advances_putWords (addr : Word) (i : Nat) (ws : List Word) :
    Advances R (putWords addr i ws) := by
  induction ws generalizing i with
  | nil => exact advances_pure ()
  | cons w rest ih =>
    refine (keeps_checkedAdd _ _).advances.bind fun place =>
      Advances.bind (advances_attempt fun m _ m' hmap => ?_) fun _ => ih (i + 1)
    obtain ⟨memory, -, heq⟩ := Except.map_eq_ok_iff.mp hmap
    cases heq
    exact hbytes m memory

theorem advances_putBlock (hregister : ∀ (m : Machine) r v, R m (m.setRegister r v))
    (config : Config) (stackEnd : Word) (block : List Word) :
    Advances R (putBlock config stackEnd block) := by
  unfold putBlock
  dsimp only
  split
  · exact (keeps_fail _).advances
  split
  · exact (keeps_fail _).advances
  split
  · exact (keeps_fail _).advances
  exact (keeps_checkedSub _ _).advances.bind fun sp =>
    (advances_putWords hbytes sp 0 block).bind fun _ m => hregister m _ _

/-- What holds over the pieces of the preparation of a process holds over all of it. -/
theorem advances_bootstrap (h : Machine.Answers R)
    (hregister : ∀ (m : Machine) r v, R m (m.setRegister r v)) (args : ProcessArgs)
    (config : Config) : Advances R (Machine.bootstrap args config) := by
  have hmarks : Advances R (Exec.modify fun m =>
      ((m.mark Landmarks.heapStart config.heapStart).mark Landmarks.heapEnd config.heapStart).mark
        Landmarks.mmapNext config.mmapBase) := fun m =>
    trans_of R (h.mark _ _ _) (trans_of R (h.mark _ _ _) (h.mark _ _ _))
  refine hmarks.bind fun _ => (advances_mapStack h config).bind fun stackEnd => ?_
  refine (advances_takeHeap h _).bind fun random => (advances_put hbytes random _).bind fun _ => ?_
  refine (advances_putTexts hbytes h _).bind fun _ =>
    (advances_putTexts hbytes h _).bind fun _ => ?_
  exact advances_putBlock hbytes hregister config stackEnd _

end

end Bootstrap

theorem Machine.adds_bootstrap (args : ProcessArgs) (config : Config) (m : Machine) :
    m.Adds 0 0 (m.bootstrap args config).2 :=
  Bootstrap.advances_bootstrap (fun _ _ => .of_quiet rfl rfl) Machine.answers_adds
    (fun _ _ _ => .of_quiet rfl rfl) args config m

end RiscvHart
