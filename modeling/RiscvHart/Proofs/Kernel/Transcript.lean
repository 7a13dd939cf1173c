import RiscvHart.Proofs.Kernel.Reachable
import RiscvHart.Proofs.Kernel.Refusals
import RiscvHart.Proofs.Register.Bank

/-!
# What the host is asked

A host that writes down what it is asked, and how it answers, serves a guest just as it would
otherwise. So what a call asks of its host can be read off the run on the host that writes it
down.
-/

namespace RiscvHart

inductive HostRequest where
  | invoke (number : Int) (arguments : List HostArgument)
  | read (fd : BitVec 32) (length : Nat)
  | write (fd : BitVec 32) (bytes : List Byte)
  | openat (dirfd : BitVec 32) (path : List Byte) (flags mode : BitVec 32)
  deriving DecidableEq, Repr

abbrev Transcript := List (HostRequest × Int)

namespace Host

variable {σ : Type}

def noting (q : HostRequest) (log : Transcript) (r : Reply σ) : Reply (σ × Transcript) :=
  ⟨r.result, (r.state, log ++ [(q, r.result)])⟩

/-- The same host, writing down what it is asked. -/
def transcribed (host : Host σ) : Host (σ × Transcript) where
  hear events s := (host.hear events s.1, s.2)
  remap s c := host.remap s.1 c
  invoke number arguments s :=
    noting (.invoke number arguments) s.2 (host.invoke number arguments s.1)
  read fd length s :=
    let (reply, data) := host.read fd length s.1
    (noting (.read fd length) s.2 reply, data)
  write fd bytes s := noting (.write fd bytes) s.2 (host.write fd bytes s.1)
  openat dirfd path flags mode s :=
    noting (.openat dirfd path flags mode) s.2 (host.openat dirfd path flags mode s.1)
  clock c s := host.clock c s.1

end Host

namespace Platform

open Exec

variable {σ α β : Type}

def transcribing (s : Platform σ) (log : Transcript) : Platform (σ × Transcript) :=
  ⟨s.machine, ⟨s.kernel.host.transcribed, (s.kernel.hostState, log), s.kernel.random,
    s.kernel.mappings⟩⟩

@[simp] theorem machine_transcribing (s : Platform σ) (log : Transcript) :
    (s.transcribing log).machine = s.machine := rfl

@[simp] theorem remap_transcribing (s : Platform σ) (log : Transcript) (c : Syscall) :
    (s.transcribing log).kernel.host.remap (s.transcribing log).kernel.hostState c =
      s.kernel.host.remap s.kernel.hostState c := rfl

/-- Two computations do the same, and the first one writes down requests of certain kinds.
Without a request the host knows nothing of it. -/
def Asks (A : HostRequest → Prop) (x : Exec (Platform (σ × Transcript)) α)
    (y : Exec (Platform σ) α) : Prop :=
  ∀ s log, ∃ asked, x (s.transcribing log) = ((y s).1, (y s).2.transcribing (log ++ asked)) ∧
    (∀ e ∈ asked, A e.1) ∧ (asked = [] → (y s).2.kernel.hostState = s.kernel.hostState)

section

variable {A : HostRequest → Prop}

theorem asks_of_silent {x : Exec (Platform (σ × Transcript)) α} {y : Exec (Platform σ) α}
    (h : ∀ s log, x (s.transcribing log) = ((y s).1, (y s).2.transcribing log) ∧
      (y s).2.kernel.hostState = s.kernel.hostState) : Asks A x y := by
  intro s log
  obtain ⟨hrun, hstate⟩ := h s log
  refine ⟨[], ?_, fun _ he => absurd he List.not_mem_nil, fun _ => hstate⟩
  rw [List.append_nil]
  exact hrun

theorem asks_pure (a : α) : Asks A (σ := σ) (Pure.pure a) (Pure.pure a) :=
  asks_of_silent fun _ _ => ⟨rfl, rfl⟩

theorem asks_fail (e : Failure Fault) : Asks A (σ := σ) (α := α) (fail e) (fail e) :=
  asks_of_silent fun _ _ => ⟨rfl, rfl⟩

theorem asks_modify {f : Platform (σ × Transcript) → Platform (σ × Transcript)}
    {g : Platform σ → Platform σ} (h : ∀ s log, f (s.transcribing log) = (g s).transcribing log)
    (hstate : ∀ s, (g s).kernel.hostState = s.kernel.hostState) :
    Asks A (modify f) (modify g) :=
  asks_of_silent fun s log => ⟨congrArg (Prod.mk (Except.ok ())) (h s log), hstate s⟩

theorem asks_modifyMachine (f : Machine → Machine) :
    Asks A (σ := σ) (modifyMachine f) (modifyMachine f) := asks_modify (fun _ _ => rfl) fun _ => rfl

theorem asks_checkedAdd (v w : Word) : Asks A (σ := σ) (checkedAdd v w) (checkedAdd v w) := by
  unfold checkedAdd
  split
  · exact asks_pure _
  · exact asks_fail _

theorem asks_tryFill (addr : Word) (bs : List Byte) :
    Asks A (σ := σ) (tryFill addr bs) (tryFill addr bs) := by
  refine asks_of_silent fun s log => ?_
  unfold tryFill
  rw [machine_transcribing]
  cases s.machine.fill addr bs <;> exact ⟨rfl, rfl⟩

theorem asks_tryInPlace (f : Machine → Except MemoryError Unit × Machine) :
    Asks A (σ := σ) (tryInPlace f) (tryInPlace f) := by
  refine asks_of_silent fun s log => ?_
  unfold tryInPlace
  rw [machine_transcribing]
  cases f s.machine with
  | mk result m => cases result <;> exact ⟨rfl, rfl⟩

theorem Asks.bind {x : Exec (Platform (σ × Transcript)) α} {y : Exec (Platform σ) α}
    {f : α → Exec (Platform (σ × Transcript)) β} {g : α → Exec (Platform σ) β} (hx : Asks A x y)
    (hf : ∀ a, Asks A (f a) (g a)) : Asks A (x >>= f) (y >>= g) := by
  intro s log
  obtain ⟨asked, hrun, hasked, hstate⟩ := hx s log
  rw [bind_apply, bind_apply, hrun]
  cases hy : y s with
  | mk result t =>
    rw [hy] at hstate
    cases result with
    | error e => exact ⟨asked, rfl, hasked, hstate⟩
    | ok a =>
      obtain ⟨more, hrun', hmore, hstate'⟩ := hf a t (log ++ asked)
      refine ⟨asked ++ more, by rw [← List.append_assoc]; exact hrun', fun e he => ?_, fun h => ?_⟩
      · rcases List.mem_append.mp he with he | he
        · exact hasked e he
        · exact hmore e he
      · obtain ⟨hnone, hnone'⟩ := List.append_eq_nil_iff.mp h
        exact (hstate' hnone').trans (hstate hnone)

theorem Asks.map {x : Exec (Platform (σ × Transcript)) α} {y : Exec (Platform σ) α} {f : α → β}
    (hx : Asks A x y) : Asks A (f <$> x) (f <$> y) := hx.bind fun a => asks_pure (f a)

theorem asks_ite {p : Prop} [Decidable p] {x x' : Exec (Platform (σ × Transcript)) α}
    {y y' : Exec (Platform σ) α} (h : Asks A x y) (h' : Asks A x' y') :
    Asks A (if p then x else x') (if p then y else y') := by
  split
  · exact h
  · exact h'

/-- Neither computation sees more of its platform than the other. -/
theorem asks_look {f : Platform (σ × Transcript) → Exec (Platform (σ × Transcript)) α}
    {g : Platform σ → Exec (Platform σ) α} (h : ∀ s log, Asks A (f (s.transcribing log)) (g s)) :
    Asks A (get >>= f) (get >>= g) := fun s log => h s log s log

theorem asks_askHost {f : Host (σ × Transcript) → σ × Transcript → Reply (σ × Transcript)}
    {g : Host σ → σ → Reply σ} {q : HostRequest} (hq : A q)
    (h : ∀ host state log, f host.transcribed (state, log) = Host.noting q log (g host state)) :
    Asks A (askHost f) (askHost g) := by
  intro s log
  have hreply := h s.kernel.host (s.kernel.host.hear s.machine.log s.kernel.hostState) log
  have hrun : askHost f (s.transcribing log) =
      (.ok (f s.kernel.host.transcribed
          (s.kernel.host.hear s.machine.log s.kernel.hostState, log)).result,
        ⟨s.machine, { (s.transcribing log).kernel with
          hostState := (f s.kernel.host.transcribed
            (s.kernel.host.hear s.machine.log s.kernel.hostState, log)).state }⟩) := rfl
  rw [hrun, hreply]
  refine ⟨[(q, _)], rfl, fun e he => ?_, fun he => absurd he (List.cons_ne_nil _ _)⟩
  obtain rfl := List.mem_singleton.mp he
  exact hq

end

/-! ## Each call -/

section

variable {A : HostRequest → Prop} (a : Arguments)

theorem asks_readCall (hA : A (.read (int32 (a.get 0)) (a.get 2).toNat)) :
    Asks A (σ := σ) (readCall a) (readCall a) := by
  refine asks_look fun s log => ?_
  refine asks_ite (Asks.bind (fun t log => ?_) fun _ => ?_) (asks_pure _)
  · refine ⟨[(.read (int32 (a.get 0)) (a.get 2).toNat, _)], rfl, fun e he => ?_,
      fun he => absurd he (List.cons_ne_nil _ _)⟩
    obtain rfl := List.mem_singleton.mp he
    exact hA
  · exact (asks_tryFill _ _).bind fun _ => asks_pure _

theorem asks_writeCall (hA : ∀ bytes, A (.write (int32 (a.get 0)) bytes)) :
    Asks A (σ := σ) (writeCall a) (writeCall a) := by
  refine asks_look fun s log => ?_
  rw [machine_transcribing]
  cases s.machine.memory.slice a[1] a[2].toNat with
  | error e => exact asks_pure _
  | ok bytes => exact asks_askHost (hA bytes) fun _ _ _ => rfl

theorem asks_writeEntries {fd : BitVec 32} (hA : ∀ bytes, A (.write fd bytes)) (left : Nat) :
    ∀ entry total,
      Asks A (σ := σ) (writeEntries fd entry total left) (writeEntries fd entry total left) := by
  induction left with
  | zero => exact fun _ total => asks_pure total
  | succ left ih =>
    intro entry total
    unfold writeEntries
    refine asks_look fun s log => ?_
    refine asks_ite (asks_fail _) ?_
    rw [machine_transcribing]
    cases s.machine.memory.peek .double (BitVec.ofNat 64 entry) with
    | error e => exact asks_pure _
    | ok base =>
    refine asks_ite (asks_fail _) ?_
    cases s.machine.memory.peek .double (BitVec.ofNat 64 (entry + 8)) with
    | error e => exact asks_pure _
    | ok length =>
    dsimp only
    cases s.machine.memory.slice base length.toNat with
    | error e => exact asks_pure _
    | ok bytes =>
    refine (asks_askHost (hA bytes) fun _ _ _ => rfl).bind fun result => ?_
    exact asks_ite (asks_pure _)
      (asks_ite (asks_fail _) (asks_ite (asks_pure _) (ih _ _)))

theorem asks_openatCall
    (hA : ∀ path, A (.openat (int32 (a.get 0)) path (int32 (a.get 2)) (int32 (a.get 3)))) :
    Asks A (σ := σ) (openatCall a) (openatCall a) := by
  refine asks_look fun s log => ?_
  rw [machine_transcribing]
  cases pathFrom s.machine.memory a[1].toNat longestPath with
  | ok path => exact asks_askHost (hA path) fun _ _ _ => rfl
  | error e =>
    cases e with
    | error e => exact asks_pure _
    | crash c => exact asks_fail _

theorem asks_fstatCall : Asks A (σ := σ) (fstatCall a) (fstatCall a) :=
  asks_ite (asks_pure _) ((asks_tryFill _ _).bind fun _ => asks_pure _)

theorem asks_unameCall : Asks A (σ := σ) (unameCall a) (unameCall a) :=
  (asks_tryFill _ _).bind fun _ => asks_pure _

theorem asks_clockGettimeCall : Asks A (σ := σ) (clockGettimeCall a) (clockGettimeCall a) := by
  refine asks_look fun s log => Asks.bind (asks_tryFill _ _) fun done => ?_
  refine asks_ite ((asks_checkedAdd _ _).bind fun _ => ?_) (asks_pure _)
  exact (asks_tryFill _ _).bind fun done => asks_ite (asks_pure _) (asks_pure _)

theorem asks_getrandomCall : Asks A (σ := σ) (getrandomCall a) (getrandomCall a) := by
  refine asks_look fun s log => ?_
  refine asks_ite (Asks.bind ?_ fun _ => (asks_tryFill _ _).bind fun _ => asks_pure _) (asks_pure _)
  exact asks_modify (fun _ _ => rfl) fun _ => rfl

theorem asks_passOn {c : Syscall} (hA : ∀ number, A (.invoke number (a.toList.map .value))) :
    Asks A (σ := σ) (passOn c a) (passOn c a) := by
  refine asks_look fun s log => ?_
  rw [remap_transcribing]
  cases s.kernel.host.remap s.kernel.hostState c with
  | none => exact asks_fail _
  | some number => exact asks_askHost (hA number) fun _ _ _ => rfl

theorem asks_brkCall (requested : Word) :
    Asks A (σ := σ) (brkCall requested) (brkCall requested) := by
  refine asks_look fun s log => ?_
  rw [machine_transcribing]
  cases s.machine.landmarks.get? Landmarks.heapStart with
  | none => exact asks_pure _
  | some start =>
  cases s.machine.landmarks.get? Landmarks.heapEnd with
  | none => exact asks_pure _
  | some finish =>
  exact asks_ite (asks_pure _) ((asks_tryInPlace _).bind fun _ => asks_pure _)

theorem asks_mmapCall : Asks A (σ := σ) (mmapCall a) (mmapCall a) := by
  refine asks_ite (asks_pure _) ?_
  cases Word.alignUp? a[1] (BitVec.ofNat 64 Span.pageSize) with
  | none => exact asks_pure _
  | some size =>
  refine asks_look fun s log => ?_
  dsimp only [machine_transcribing]
  cases (if a[3] &&& mapFixed ≠ 0 then some a[0]
    else s.machine.landmarks.get? Landmarks.mmapNext) with
  | none => exact asks_pure _
  | some target =>
  dsimp only
  cases s.machine.allocate target size.toNat with
  | error e => cases e <;> exact asks_pure _
  | ok m =>
    refine (asks_modifyMachine _).bind fun _ => ?_
    refine asks_ite ((asks_checkedAdd _ _).bind fun _ => (asks_modifyMachine _).bind fun _ => ?_) ?_
    all_goals exact Asks.bind (asks_modify (fun _ _ => rfl) fun _ => rfl) fun _ => asks_pure _

theorem asks_munmapCall : Asks A (σ := σ) (munmapCall a) (munmapCall a) := by
  refine asks_look fun s log => asks_ite (asks_pure _) ?_
  refine Asks.bind (asks_modify (fun _ _ => rfl) fun _ => rfl) fun _ => ?_
  rw [machine_transcribing]
  cases s.machine.release a[0] with
  | error e => exact asks_pure _
  | ok released => exact (asks_modifyMachine _).bind fun _ => asks_pure _

/-! ## Every call -/

inductive MayAsk (c : Syscall) (a : Arguments) : HostRequest → Prop
  | invoke (number : Int) : c ∈ Syscall.passedOn → MayAsk c a (.invoke number (a.toList.map .value))
  | read : c = .read → MayAsk c a (.read (int32 (a.get 0)) (a.get 2).toNat)
  | write (bytes : List Byte) : c = .write ∨ c = .writev →
    MayAsk c a (.write (int32 (a.get 0)) bytes)
  | openat (path : List Byte) : c = .openat →
    MayAsk c a (.openat (int32 (a.get 0)) path (int32 (a.get 2)) (int32 (a.get 3)))

theorem asks_serve (c : Syscall) : Asks (MayAsk c a) (σ := σ) (serve c a) (serve c a) := by
  by_cases hpassed : c ∈ Syscall.passedOn
  · rw [serve_of_passedOn hpassed, serve_of_passedOn hpassed]
    exact (asks_passOn a fun number => .invoke number hpassed).map
  cases c with
  | exit => exact (asks_modifyMachine _).bind fun _ => asks_pure _
  | exitGroup => exact (asks_modifyMachine _).bind fun _ => asks_pure _
  | read => exact (asks_readCall a (.read rfl)).map
  | write => exact (asks_writeCall a fun bytes => .write bytes (Or.inl rfl)).map
  | writev => exact (asks_writeEntries (fun bytes => .write bytes (Or.inr rfl)) _ _ _).map
  | openat => exact (asks_openatCall a fun path => .openat path rfl).map
  | fstat => exact (asks_fstatCall a).map
  | brk => exact (asks_brkCall _).map
  | mmap => exact (asks_mmapCall a).map
  | munmap => exact (asks_munmapCall a).map
  | uname => exact (asks_unameCall a).map
  | clockGettime => exact (asks_clockGettimeCall a).map
  | getrandom => exact (asks_getrandomCall a).map
  | setTidAddress | ioctl | rtSigaction | rtSigprocmask => exact asks_pure _
  | _ => exact absurd (by decide) hpassed

end

theorem asks_deliver {A : HostRequest → Prop} (result : Option Int) :
    Asks A (σ := σ) (deliver result) (deliver result) := by
  unfold deliver
  split
  · exact asks_modifyMachine _
  · exact asks_pure ()

/-! ## The call that the registers describe -/

section

variable {s : Platform σ} {c : Syscall}

def argument (s : Platform σ) (i : Fin 6) : Word := (arguments s.machine).get i

def called? (s : Platform σ) : Option Syscall := Syscall.ofNumber? s.callNumber

def served (s : Platform σ) : Platform σ := (environmentCall s).2

def answer (s : Platform σ) : Word := s.served.machine.registers.read Reg.a0

def asked (s : Platform σ) : Transcript := (s.transcribing []).served.kernel.hostState.2

theorem read_writeRegister_a0 (m : Machine) (v : Word) :
    (m.writeRegister Reg.a0 v).registers.read Reg.a0 = v :=
  (Registers.read_write m.registers).trans (if_pos ⟨rfl, by decide⟩)

theorem read_writeRegister_of_ne (m : Machine) (v : Word) {r : Reg} (hr : r ≠ Reg.a0) :
    (m.writeRegister Reg.a0 v).registers.read r = m.registers.read r :=
  (Registers.read_write m.registers).trans (if_neg fun h => hr h.1)

theorem environmentCall_of_unknown (h : s.called? = none) :
    environmentCall s = (.error (.error (.syscallUnimplemented s.callNumber)),
      ⟨s.machine.emit (.remarked (.unknownSyscall s.callNumber (arguments s.machine).toList)),
        s.kernel⟩) := by
  rw [environmentCall, get_bind_apply]
  simp only [show Syscall.ofNumber? (s.machine.registers.read Reg.a7) = none from h]
  rfl

/-- What is left of a call when it has been served: to deliver its result. -/
theorem environmentCall_cases (hc : s.called? = some c) :
    (∃ v, (serve c (arguments s.machine) s).1 = .ok (some v) ∧ (environmentCall s).1 = .ok () ∧
      s.served.machine = (serve c (arguments s.machine) s).2.machine.writeRegister Reg.a0
        (BitVec.ofInt 64 v)) ∨
    ((∀ v, (serve c (arguments s.machine) s).1 ≠ .ok (some v)) ∧
      ((serve c (arguments s.machine) s).1 = .ok none ∨
        ∃ e, (serve c (arguments s.machine) s).1 = .error e ∧ (environmentCall s).1 = .error e) ∧
      s.served.machine = (serve c (arguments s.machine) s).2.machine) := by
  rw [served, environmentCall_of_known hc, bind_apply]
  cases serve c (arguments s.machine) s with
  | mk result t =>
    rcases result with e | _ | v
    · exact Or.inr ⟨fun v h => (by cases h), Or.inr ⟨e, rfl, rfl⟩, rfl⟩
    · exact Or.inr ⟨fun v h => (by cases h), Or.inl rfl, rfl⟩
    · exact Or.inl ⟨v, rfl, rfl, rfl⟩

theorem environmentCall_of_serve {v : Int} (hc : s.called? = some c)
    (h : (serve c (arguments s.machine) s).1 = .ok (some v)) :
    (environmentCall s).1 = .ok () ∧ s.answer = BitVec.ofInt 64 v := by
  rcases environmentCall_cases hc with ⟨w, hw, hok, hmachine⟩ | ⟨hnone, -⟩
  · rw [hw] at h
    cases h
    exact ⟨hok, by rw [answer, hmachine, read_writeRegister_a0]⟩
  · exact absurd h (hnone v)

theorem environmentCall_of_serve_error {e : Failure Fault} (hc : s.called? = some c)
    (h : (serve c (arguments s.machine) s).1 = .error e) : (environmentCall s).1 = .error e := by
  rcases environmentCall_cases hc with ⟨w, hw, -⟩ | ⟨-, hnone | ⟨e', he', herror⟩, -⟩
  · rw [hw] at h
    cases h
  · rw [hnone] at h
    cases h
  · rw [he'] at h
    cases h
    exact herror

/-- Delivering the result changes nothing but a register and the log. -/
theorem served_eq (hc : s.called? = some c) :
    ∃ registers log, s.served = { (serve c (arguments s.machine) s).2 with
      machine := { (serve c (arguments s.machine) s).2.machine with
        registers := registers, log := log } } := by
  rw [served, environmentCall_of_known hc, bind_apply]
  cases serve c (arguments s.machine) s with
  | mk result t => rcases result with e | _ | v <;> exact ⟨_, _, rfl⟩

theorem asked_eq (hc : s.called? = some c) :
    s.asked = (serve c (arguments s.machine) (s.transcribing [])).2.kernel.hostState.2 := by
  obtain ⟨registers, log, hserved⟩ := served_eq (s := s.transcribing []) hc
  exact congrArg (fun t => t.kernel.hostState.2) hserved

/-- Writing down what is asked makes no difference, and only what the call may ask is asked. -/
theorem environmentCall_transcribing (s : Platform σ) :
    environmentCall (s.transcribing []) = ((environmentCall s).1, s.served.transcribing s.asked) ∧
      (∀ e ∈ s.asked, ∃ c, s.called? = some c ∧ MayAsk c (arguments s.machine) e.1) ∧
      (s.asked = [] → s.served.kernel.hostState = s.kernel.hostState) := by
  unfold asked served
  cases hcalled : s.called? with
  | none =>
    rw [environmentCall_of_unknown (s := s.transcribing []) hcalled,
      environmentCall_of_unknown hcalled]
    exact ⟨rfl, fun e he => absurd he List.not_mem_nil, fun _ => rfl⟩
  | some c =>
    have hasks := (asks_serve (σ := σ) (arguments s.machine) c).bind asks_deliver
    obtain ⟨asked, hrun, hasked, hstate⟩ := hasks s []
    rw [environmentCall_of_known (s := s.transcribing []) hcalled, environmentCall_of_known hcalled,
      machine_transcribing, hrun]
    exact ⟨rfl, fun e he => ⟨c, rfl, hasked e he⟩, hstate⟩

theorem serve_of_remap {a : Arguments} {number : Int} (hc : c ∈ Syscall.passedOn)
    (h : s.kernel.host.remap s.kernel.hostState c = some number) :
    serve c a s =
      (some <$> askHost fun host st => host.invoke number (a.toList.map .value) st) s := by
  rw [serve_of_passedOn hc]
  show (passOn c a >>= fun v => Pure.pure (some v)) s = _
  rw [bind_apply, passOn, get_bind_apply, h]
  rfl

/-- A call that is passed on makes one request, and its result is that of the request. -/
theorem asked_of_passedOn {number : Int} (hcalled : s.called? = some c)
    (hc : c ∈ Syscall.passedOn) (hremap : s.kernel.host.remap s.kernel.hostState c = some number) :
    ∃ v, (serve c (arguments s.machine) s).1 = .ok (some v) ∧
      s.asked = [(.invoke number ((arguments s.machine).toList.map .value), v)] := by
  rw [asked_eq hcalled, serve_of_remap hc hremap, serve_of_remap (s := s.transcribing []) hc hremap]
  exact ⟨_, rfl, rfl⟩

end

/-! ## A call on its own -/

def calling (c : Syscall) (arguments : List Word) (requests : List MemoryRequest) (host : Host σ)
    (hostState : σ) : Platform σ where
  machine :=
    { MemoryRequest.performAll requests (.start (.empty 0x10000) 0x1000) with
      registers := arguments.zipIdx.foldl (fun x v => x.write (Reg.a0 + BitVec.ofNat 5 v.2) v.1)
        (Registers.write (.zero gpr) Reg.a7 (BitVec.ofNat 64 c.number)) }
  kernel := .start host hostState 0

theorem reachable_calling (c : Syscall) (arguments : List Word) (requests : List MemoryRequest)
    (host : Host σ) (hostState : σ) :
    (calling c arguments requests host hostState).Reachable :=
  reachable_of_memory_eq 0x10000 0x1000 requests rfl

end Platform

end RiscvHart
