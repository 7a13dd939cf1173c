import RiscvHart.Proofs.Debugger.AtLarge
import RiscvHart.Proofs.Observe.Accesses

/-!
# Statistics agree with the run

Counts are taken from events of several kinds, some of which come before the instruction that
they belong to can still fail. At the end of every turn they are those of the instructions
completed so far, which are found without looking at events.
-/

namespace RiscvHart

open Exec

namespace Isa

def transfers : List Instr := [.jal, .jalr, .beq, .bne, .blt, .bge, .bltu, .bgeu]

theorem reads_action (i : Instr) : i.action.reads = if i ∈ loads then 1 else 0 := by
  cases i <;> rfl

theorem writes_action (i : Instr) : i.action.writes = if i ∈ stores then 1 else 0 := by
  cases i <;> rfl

theorem transfers_action (i : Instr) : i.action.transfers = decide (i ∈ transfers) := by
  cases i <;> rfl

end Isa

/-- An instruction that was completed: where it lay, and where the program goes on. -/
structure Completion where
  pc : Word
  instr : Instr
  next : Word
  deriving DecidableEq, Repr

namespace Platform

variable {σ : Type}

def completion? (s : Platform σ) : Option Completion :=
  match s.next?, step s with
  | some i, (.ok _, t) => some ⟨s.machine.pc.current, i, t.machine.pc.current⟩
  | _, _ => none

def completions (ss : List (Platform σ)) : List Completion := ss.filterMap completion?

end Platform

namespace Stats

/-- The counts of accesses and transfers, and for every instruction how often
it was completed. -/
def counts (st : Stats) : Nat × Nat × Nat × Nat × (Instr → Nat) :=
  (st.instructions, st.loads, st.stores, st.transfers, st.perInstr)

structure Agrees (st : Stats) (cs : List Completion) : Prop where
  instructions : st.instructions = cs.length
  perInstr : ∀ i, st.perInstr i = cs.countP (fun c => c.instr = i)
  loads : st.loads = cs.countP (fun c => c.instr ∈ Isa.loads)
  stores : st.stores = cs.countP (fun c => c.instr ∈ Isa.stores)
  transfers : st.transfers = cs.countP (fun c => c.next ≠ c.pc + 4)

/-! ## Counting events -/

instance : Add Stats where
  add a b :=
    ⟨a.instructions + b.instructions, a.loads + b.loads, a.stores + b.stores,
      a.registerReads + b.registerReads, a.registerWrites + b.registerWrites,
      a.transfers + b.transfers, fun i => a.perInstr i + b.perInstr i⟩

theorem countWhere_append (xs ys : List Event) (p : Event → Bool) :
    countWhere (xs ++ ys) p = countWhere xs p + countWhere ys p := by
  rw [countWhere, List.filter_append, List.length_append]
  rfl

theorem ofEvents_append (xs ys : List Event) : ofEvents (xs ++ ys) = ofEvents xs + ofEvents ys := by
  simp only [ofEvents, countWhere_append]
  rfl

theorem countWhere_eq_countP {es : List Event} {p q : Event → Bool} (h : ∀ e, p e = q e) :
    countWhere es p = es.countP q := by
  rw [countWhere, ← List.countP_eq_length_filter, funext h]

theorem loads_ofEvents (es : List Event) :
    (ofEvents es).loads = es.countP (fun e => e.kind? = some .memoryRead) :=
  countWhere_eq_countP fun e => by cases e <;> rfl

theorem stores_ofEvents (es : List Event) :
    (ofEvents es).stores = es.countP (fun e => e.kind? = some .memoryWrite) :=
  countWhere_eq_countP fun e => by cases e <;> rfl

section

variable {es : List Event} {reads writes : Nat} (h : AccessCount es reads writes)
include h

theorem countWhere_of_accesses {p : Event → Bool}
    (hp : ∀ e, p e = true → e.kind? = some .after) : countWhere es p = 0 := by
  rw [countWhere, List.length_eq_zero_iff, List.filter_eq_nil_iff]
  intro e he hcounted
  exact h.kinds e he (hp e hcounted)

theorem instructions_of_accesses : (ofEvents es).instructions = 0 :=
  countWhere_of_accesses h fun e he => by cases e <;> first | rfl | cases he

theorem perInstr_of_accesses (i : Instr) : (ofEvents es).perInstr i = 0 :=
  countWhere_of_accesses h fun e he => by cases e <;> first | rfl | cases he

theorem transfers_of_accesses : (ofEvents es).transfers = 0 :=
  countWhere_of_accesses h fun e he => by cases e <;> first | rfl | cases he

end

theorem Agrees.add {a b : Stats} {cs ds : List Completion} (h : a.Agrees cs) (h' : b.Agrees ds) :
    (a + b).Agrees (cs ++ ds) where
  instructions := by
    rw [List.length_append, ← h.instructions, ← h'.instructions]
    rfl
  perInstr i := by
    rw [List.countP_append, ← h.perInstr, ← h'.perInstr]
    rfl
  loads := by
    rw [List.countP_append, ← h.loads, ← h'.loads]
    rfl
  stores := by
    rw [List.countP_append, ← h.stores, ← h'.stores]
    rfl
  transfers := by
    rw [List.countP_append, ← h.transfers, ← h'.transfers]
    rfl

theorem Agrees.counts_add {a b : Stats} (h : b.Agrees []) : (a + b).counts = a.counts := by
  have hinstr : ∀ i, b.perInstr i = 0 := h.perInstr
  show (a.instructions + b.instructions, a.loads + b.loads, a.stores + b.stores,
    a.transfers + b.transfers, fun i => a.perInstr i + b.perInstr i) = _
  simp [counts, h.instructions, h.loads, h.stores, h.transfers, hinstr]

/-- Events without an access and without the end of an instruction are not counted. -/
theorem agrees_nil {es : List Event} (h : AccessCount es 0 0) : (ofEvents es).Agrees [] where
  instructions := instructions_of_accesses h
  perInstr := perInstr_of_accesses h
  loads := (loads_ofEvents es).trans h.reads
  stores := (stores_ofEvents es).trans h.writes
  transfers := transfers_of_accesses h

/-- The end of an instruction is counted once, with the accesses before it. -/
theorem agrees_singleton {es : List Event} {x : Executed} {next : Word}
    (h : AccessCount es (if x.instr ∈ Isa.loads then 1 else 0)
      (if x.instr ∈ Isa.stores then 1 else 0)) :
    (ofEvents (es ++ [.after x next])).Agrees [⟨x.pc, x.instr, next⟩] := by
  rw [ofEvents_append]
  constructor
  · show (ofEvents es).instructions + _ = _
    rw [instructions_of_accesses h]
    rfl
  · intro i
    show (ofEvents es).perInstr i + _ = _
    rw [perInstr_of_accesses h]
    by_cases hi : x.instr = i <;> simp [ofEvents, countWhere, hi]
  · show (ofEvents es).loads + _ = _
    rw [loads_ofEvents, h.reads]
    simp [ofEvents, countWhere, List.countP_cons]
  · show (ofEvents es).stores + _ = _
    rw [stores_ofEvents, h.writes]
    simp [ofEvents, countWhere, List.countP_cons]
  · show (ofEvents es).transfers + _ = _
    rw [transfers_of_accesses h]
    by_cases hnext : next = x.pc + 4#64 <;> simp [ofEvents, countWhere, hnext]

end Stats

/-! ## Steps -/

namespace Platform

variable {σ : Type} {s t : Platform σ} {c : Code} {index : Nat} {e : Entry}

theorem adds_serveTrap (s : Platform σ) (pc : Word) (t : Option Trap) :
    s.machine.Adds 0 0 (serveTrap pc t s).2.machine := by
  cases t with
  | none => exact refl_of (Machine.Adds 0 0) s.machine
  | some trap =>
    cases trap with
    | environmentCall => exact adds_environmentCall s
    | breakpoint =>
      show s.machine.Adds 0 0 (if s.machine.pausesOnBreakpoint then
        { s.machine with pauseRequested := true } else { s.machine with breakpoint := some pc })
      split <;> exact .of_quiet rfl rfl

/-- What an instruction shows before it is noted as complete. -/
theorem carryOut_cases (s : Platform σ) (pc : Word) (c : Code) (e : Entry) :
    (∃ failure t, carryOut pc c e s = (.error failure, t) ∧ s.machine.Shows 0 0 t.machine) ∨
      ∃ t, carryOut pc c e s = (.ok (), t) ∧
        s.machine.Shows e.instr.action.reads e.instr.action.writes t.machine ∧
        (e.instr.action.transfers = true ∨ t.machine.pc.current = s.machine.pc.current + 4) := by
  rw [carryOut, bind_apply, onMachine, Exec.on]
  rcases Action.perform_cases e.instr.action (e.read c).operands s.machine with
    ⟨failure, m, hperform, hadds⟩ | ⟨trap, m, target, hperform, hadds, hnext⟩
  · rw [hperform]
    exact Or.inl ⟨failure, _, rfl, hadds.shows⟩
  · rw [hperform]
    have htrap := adds_serveTrap { s with machine := m.jump target } pc trap
    have hshows := hadds.shows.trans htrap.shows
    cases hrun : serveTrap pc trap { s with machine := m.jump target } with
    | mk result t =>
      rw [hrun] at htrap hshows
      cases result with
      | ok _ =>
        refine Or.inr ⟨t, hrun, hshows, hnext.imp_right fun hnext => ?_⟩
        rw [htrap.pc, ← hnext]
        rfl
      | error failure =>
        -- Only a trap can be refused, and an action that raises one shows no access.
        cases trap with
        | none => cases hrun
        | some trap =>
          rw [Action.trap_of_perform hperform] at hshows
          exact Or.inl ⟨failure, t, hrun, hshows⟩

theorem completion?_of_ok {i : Instr} (hnext : s.next? = some i) (hstep : step s = (.ok (), t)) :
    s.completion? = some ⟨s.machine.pc.current, i, t.machine.pc.current⟩ := by
  simp only [completion?, hnext, hstep]

theorem completion?_of_error {failure : Failure Fault} (hstep : step s = (.error failure, t)) :
    s.completion? = none := by
  unfold completion?
  rw [hstep]
  cases s.next? <;> rfl

theorem agrees_step_of_error {failure : Failure Fault} (hstep : step s = (.error failure, t))
    (hshows : s.machine.Shows 0 0 t.machine) :
    ∃ es, (step s).2.machine.events = s.machine.events ++ es ∧
      (Stats.ofEvents es).Agrees s.completion?.toList := by
  obtain ⟨es, hes, haccesses⟩ := hshows
  rw [hstep, completion?_of_error hstep]
  exact ⟨es, hes, Stats.agrees_nil haccesses⟩

/-- The counts of what a step shows are those of the instruction that it
completes, if it does. -/
theorem agrees_step (s : Platform σ) :
    ∃ es, (step s).2.machine.events = s.machine.events ++ es ∧
      (Stats.ofEvents es).Agrees s.completion?.toList := by
  cases hfetch : s.machine.memory.fetch s.machine.pc.current with
  | error error =>
    exact agrees_step_of_error (step_of_fetch_error hfetch) ⟨[], (List.append_nil _).symm, .nil⟩
  | ok c =>
    have hbefore : s.machine.Adds 0 0 (s.started c).machine :=
      .of_event (e := .before s.machine.pc.current c) rfl rfl (by simp [Event.kind?])
    cases hselect : Decoder.select table c with
    | ambiguous => exact absurd hselect (Isa.select_ne_ambiguous c)
    | unknown =>
      have hremark : s.machine.Adds 0 0 (step s).2.machine := by
        rw [step_of_unknown hfetch hselect]
        exact trans_of (Machine.Adds 0 0) hbefore (Machine.answers_adds.remark _ _)
      have hstep := step_of_unknown hfetch hselect
      rw [hstep] at hremark
      exact agrees_step_of_error hstep hremark.shows
    | known index e =>
      have hstep := step_eq_carryOut hfetch hselect
      rcases carryOut_cases (s.started c) s.machine.pc.current c e with
        ⟨failure, t, hrun, hshows⟩ | ⟨t, hrun, hshows, -⟩
      · rw [bind_error hrun] at hstep
        exact agrees_step_of_error hstep (hbefore.shows.trans hshows)
      · rw [bind_ok hrun] at hstep
        obtain ⟨es, hes, haccesses⟩ := hbefore.shows.trans hshows
        rw [Isa.reads_action, Isa.writes_action, Nat.zero_add, Nat.zero_add] at haccesses
        have hnext := next?_of_known hfetch hselect
        have hafter := events_complete ⟨s.machine.pc.current, c, index, e.instr⟩ t
        refine ⟨es ++ [.after ⟨s.machine.pc.current, c, index, e.instr⟩ t.machine.pc.current],
          ?_, ?_⟩
        · rw [hstep, hafter, hes, List.append_assoc]
          rfl
        · rw [completion?_of_ok hnext hstep]
          exact Stats.agrees_singleton
            (x := ⟨s.machine.pc.current, c, index, e.instr⟩) haccesses

theorem completion?_eq_some_iff {x : Completion} :
    s.completion? = some x ↔
      ∃ i t, s.next? = some i ∧ step s = (.ok (), t) ∧
        x = ⟨s.machine.pc.current, i, t.machine.pc.current⟩ := by
  constructor
  · intro h
    unfold completion? at h
    split at h
    · next i _ t hnext hstep =>
      cases h
      exact ⟨i, t, hnext, hstep, rfl⟩
    · cases h
  · rintro ⟨i, t, hnext, hstep, rfl⟩
    exact completion?_of_ok hnext hstep

/-- Every step that does not fail completes an instruction. -/
theorem isSome_completion? (s : Platform σ) : s.completion?.isSome = (step s).1.isOk := by
  cases hstep : step s with
  | mk result t =>
    cases result with
    | error failure =>
      rw [completion?_of_error hstep]
      rfl
    | ok _ =>
      obtain ⟨c, index, e, hfetch, hselect, -⟩ := exists_last_of_step hstep
      rw [completion?_of_ok (next?_of_known hfetch hselect) hstep]
      rfl

theorem length_completions (ss : List (Platform σ)) :
    (completions ss).length = ss.countP fun s => (step s).1.isOk := by
  rw [completions, List.length_filterMap_eq_countP]
  simp only [isSome_completion?]

/-- Only branches and jumps go on elsewhere than at the next instruction. -/
theorem mem_transfers_of_completion? {x : Completion} (h : s.completion? = some x)
    (hmoved : x.next ≠ x.pc + 4) : x.instr ∈ Isa.transfers := by
  obtain ⟨i, t, hnext, hstep, rfl⟩ := completion?_eq_some_iff.mp h
  obtain ⟨c, index, e, hfetch, hselect, -⟩ := exists_last_of_step hstep
  obtain rfl : e.instr = i := Option.some.inj ((next?_of_known hfetch hselect).symm.trans hnext)
  have hrun := step_eq_carryOut hfetch hselect
  rw [hstep] at hrun
  obtain ⟨_, u, hcarry, hcomplete⟩ := bind_eq_ok hrun.symm
  have hpc : t.machine.pc = u.machine.pc := by
    cases hcomplete
    rfl
  rcases carryOut_cases (s.started c) s.machine.pc.current c e with
    ⟨failure, v, hfail, -⟩ | ⟨v, hok, -, htransfers | hadvanced⟩
  · rw [hcarry] at hfail
    cases hfail
  · rw [Isa.transfers_action] at htransfers
    exact of_decide_eq_true htransfers
  · rw [hcarry] at hok
    cases hok
    exact absurd ((congrArg ProgramCounter.current hpc).trans hadvanced) hmoved

end Platform

/-! ## Sums of counts -/

theorem countP_instr_cons {i : Instr} {is : List Instr} (hi : i ∉ is) (cs : List Completion) :
    cs.countP (fun c => c.instr = i) + cs.countP (fun c => c.instr ∈ is) =
      cs.countP (fun c => c.instr ∈ i :: is) := by
  induction cs with
  | nil => rfl
  | cons c cs ih =>
    rw [List.countP_cons, List.countP_cons, List.countP_cons, ← ih]
    by_cases hc : c.instr = i
    · have hother : c.instr ∉ is := hc ▸ hi
      simp [hc, hi]
      omega
    · by_cases hmem : c.instr ∈ is
      · simp [hc, hmem]
        omega
      · simp [hc, hmem]

theorem sum_countP_instr {is : List Instr} (hnodup : is.Nodup) (cs : List Completion) :
    (is.map fun i => cs.countP (fun c => c.instr = i)).sum = cs.countP (fun c => c.instr ∈ is) := by
  induction is with
  | nil => simp
  | cons i is ih =>
    obtain ⟨hi, hrest⟩ := List.nodup_cons.mp hnodup
    rw [List.map_cons, List.sum_cons, ih hrest, countP_instr_cons hi]

namespace Stats

/-- The counts of a run agree with each other and with the instructions that
the run completed. -/
structure Consistent (st : Stats) (cs : List Completion) : Prop where
  completed : st.instructions = cs.length
  perInstr : ∀ i, st.perInstr i = cs.countP (fun c => c.instr = i)
  total : st.instructions = (Instr.all.map st.perInstr).sum
  loads : st.loads = (Isa.loads.map st.perInstr).sum
  stores : st.stores = (Isa.stores.map st.perInstr).sum
  transfers : st.transfers = cs.countP (fun c => c.next ≠ c.pc + 4)
  transferring : ∀ c ∈ cs, c.next ≠ c.pc + 4 → c.instr ∈ Isa.transfers

theorem Agrees.consistent {st : Stats} {cs : List Completion} (h : st.Agrees cs)
    (htransfers : ∀ c ∈ cs, c.next ≠ c.pc + 4 → c.instr ∈ Isa.transfers) : st.Consistent cs := by
  have hsum : ∀ {is : List Instr}, is.Nodup →
      (is.map st.perInstr).sum = cs.countP (fun c => c.instr ∈ is) := by
    intro is hnodup
    rw [← sum_countP_instr hnodup, funext h.perInstr]
  constructor
  case completed => exact h.instructions
  case perInstr => exact h.perInstr
  case total =>
    have hall : cs.countP (fun c => c.instr ∈ Instr.all) = cs.length := by
      simp [Instr.mem_all]
    rw [hsum (by decide), hall, h.instructions]
  case loads => rw [hsum (by decide), h.loads]
  case stores => rw [hsum (by decide), h.stores]
  case transfers => exact h.transfers
  case transferring => exact htransfers

end Stats

/-! ## Runs -/

namespace Hart

variable {σ : Type} {h h' h'' h₀ : Hart σ} {ss : List (Platform σ)}

/-- What becomes of a hart by turns, which start from these platforms, and by whatever else
is done with it that leaves its platform alone: pauses and stops, the requests of
debuggers, and waiting. -/
inductive Life (h : Hart σ) : List (Platform σ) → Hart σ → Prop where
  | rest : Life h [] h
  | turn {ss : List (Platform σ)} {h' : Hart σ} : Life h ss h' → h'.state = .running →
    h'.crashed = false → Life h (ss ++ [h'.platform]) h'.cycle
  | control {ss : List (Platform σ)} {h' h'' : Hart σ} : Life h ss h' →
    h''.platform = h'.platform → Life h ss h''

theorem life_run (hlife : Life h ss h') (fuel : Nat) :
    Life h (ss ++ (h'.turns fuel).map Hart.platform) (h'.run fuel) := by
  induction fuel generalizing ss h' with
  | zero => simpa [turns, run] using hlife
  | succ fuel ih =>
    rw [turns, run]
    split
    · next hgoing =>
      have hrest := ih (hlife.turn hgoing.1 hgoing.2)
      rwa [List.append_assoc] at hrest
    · simpa using hlife

theorem platform_grant (h : Hart σ) (requests : List Request) :
    (h.grant requests).platform = h.platform := by
  induction requests generalizing h with
  | nil => rfl
  | cons r rest ih =>
    unfold grant
    dsimp only
    split
    · exact ih _
    · exact ih _

theorem events_settle (h : Hart σ) : h.settle.machine.events = h.machine.events := by
  unfold settle
  split
  · rfl
  · split
    · rw [machine, platform_grant]
      rfl
    · rfl

/-- A turn shows what its step shows, and at most a remark besides. -/
theorem shows_cycle (h : Hart σ) :
    (Platform.step h.platform).2.machine.Shows 0 0 h.cycle.machine := by
  unfold cycle
  split
  · next t hstep =>
    refine ⟨[], ?_, .nil⟩
    rw [List.append_nil, events_settle, machine, platform_grant, hstep]
  · next f t hstep =>
    refine ⟨[.remarked (.hartFault f)], ?_, .singleton (by simp [Event.kind?])⟩
    rw [hstep]
    exact EventLog.toList_add _ _
  · next t hstep =>
    refine ⟨[], ?_, .nil⟩
    rw [List.append_nil, hstep]
    rfl

def stats (h : Hart σ) : Stats := .ofEvents h.machine.events

/-- A turn adds the counts of the instruction that it completes. -/
theorem stats_cycle (h : Hart σ) :
    ∃ st : Stats, h.cycle.stats = h.stats + st ∧ st.Agrees h.platform.completion?.toList := by
  obtain ⟨es, hes, hagrees⟩ := Platform.agrees_step h.platform
  obtain ⟨fs, hfs, haccesses⟩ := h.shows_cycle
  have hevents : h.cycle.machine.events = h.machine.events ++ (es ++ fs) := by
    rw [hfs, hes, List.append_assoc]
    rfl
  refine ⟨.ofEvents (es ++ fs), ?_, ?_⟩
  · rw [stats, stats, hevents, Stats.ofEvents_append]
  · have hboth := hagrees.add (Stats.agrees_nil haccesses)
    rwa [List.append_nil, ← Stats.ofEvents_append] at hboth

theorem agrees_of_life (hlife : Life h ss h') (hbefore : h.stats.Agrees []) :
    h'.stats.Agrees (Platform.completions ss) := by
  induction hlife with
  | rest => exact hbefore
  | @turn ss h' _ _ _ ih =>
    obtain ⟨st, hst, hagrees⟩ := h'.stats_cycle
    have hboth := ih.add hagrees
    rw [← hst] at hboth
    rw [Platform.completions, List.filterMap_append]
    cases hcompletion : h'.platform.completion? with
    | none => simpa [Platform.completions, hcompletion] using hboth
    | some x => simpa [Platform.completions, hcompletion] using hboth
  | control _ hsame ih =>
    rw [stats, machine, hsame]
    exact ih

/-- Preparing a process shows no access and no instruction. -/
theorem shows_start {args : ProcessArgs} {paused : Bool} {answer : Except Fault Unit}
    (hstart : h.start args paused = .ok (answer, h₀)) : h.machine.Shows 0 0 h₀.machine := by
  have hboot := (Machine.adds_bootstrap args h.config h.machine).shows
  unfold start at hstart
  split at hstart
  · cases hstart
    exact ⟨[], (List.append_nil _).symm, .nil⟩
  split at hstart
  · cases hstart
  · next f m hrun =>
    rw [hrun] at hboot
    cases hstart
    have hremark : m.Adds 0 0 (m.emit (.remarked (.bootstrapFailed f))) :=
      Machine.answers_adds.remark m _
    exact hboot.trans hremark.shows
  · next m hrun =>
    rw [hrun] at hboot
    dsimp only at hstart
    split at hstart
    · cases hstart
      exact hboot
    · cases hstart
      exact hboot

/-- At the end of every turn of a hart, and after its start, the counts are those of the
instructions completed so far, and agree with each other. A step that fails is not counted at
all, and a call to the kernel not among the accesses. -/
theorem consistent_stats {args : ProcessArgs} {paused : Bool} {answer : Except Fault Unit}
    (hnone : h.machine.events = []) (hstart : h.start args paused = .ok (answer, h₀))
    (hlife : h₀.Life ss h') :
    h'.stats.Consistent (Platform.completions ss) ∧
      h'.stats.instructions = ss.countP (fun s => (Platform.step s).1.isOk) ∧
      (∀ failure, (Platform.step h'.platform).1 = .error failure →
        h'.cycle.stats.counts = h'.stats.counts) ∧
      (h'.platform.Executes .ecall →
        h'.cycle.stats.loads = h'.stats.loads ∧ h'.cycle.stats.stores = h'.stats.stores) := by
  obtain ⟨es, hes, haccesses⟩ := shows_start hstart
  rw [hnone, List.nil_append] at hes
  have hbefore : h₀.stats.Agrees [] := by
    rw [stats, hes]
    exact Stats.agrees_nil haccesses
  obtain ⟨st, hst, hagrees⟩ := h'.stats_cycle
  have hafter := agrees_of_life hlife hbefore
  refine ⟨hafter.consistent ?_, ?_, ?_, ?_⟩
  · intro c hc
    obtain ⟨s, -, hcompletion⟩ := List.mem_filterMap.mp hc
    exact Platform.mem_transfers_of_completion? hcompletion
  · rw [hafter.instructions, Platform.length_completions]
  · intro failure hfailure
    have hnothing : h'.platform.completion? = none := Platform.completion?_of_error
      (t := (Platform.step h'.platform).2) (Prod.ext hfailure rfl)
    rw [hnothing] at hagrees
    rw [hst, hagrees.counts_add]
  · intro hcall
    have hecall : ∀ c ∈ h'.platform.completion?.toList, c.instr = .ecall := by
      intro c hc
      obtain ⟨i, t, hnext, -, rfl⟩ := Platform.completion?_eq_some_iff.mp (Option.mem_toList.mp hc)
      exact Option.some.inj (hnext.symm.trans (Platform.next?_eq_some_iff.mpr hcall))
    have hnone : ∀ is : List Instr, .ecall ∉ is →
        h'.platform.completion?.toList.countP (fun c => c.instr ∈ is) = 0 := by
      intro is his
      rw [List.countP_eq_zero]
      intro c hc
      rw [hecall c hc]
      simpa using his
    rw [hst]
    constructor
    · show h'.stats.loads + st.loads = _
      rw [hagrees.loads, hnone _ (by decide), Nat.add_zero]
    · show h'.stats.stores + st.stores = _
      rw [hagrees.stores, hnone _ (by decide), Nat.add_zero]

/-- A hart whose program stores and loads next to its stack pointer, jumps, and loads from where
there is no memory. -/
def accessing : Hart Unit :=
  let program := MemoryRequest.performAll
    [.allocate 0x1000 0x100, .write .word 0x1000 0xFE213C23, .write .word 0x1004 0xFF813283,
      .write .word 0x1008 0x0080006F, .write .word 0x1010 0x00003283]
    (.start (.empty 0x10000000) 0x1000)
  .new program.memory 0x1000 .standard .unsupported ()

theorem consistent_stats_accessing :
    ∃ h₀, accessing.start ⟨["prog"], []⟩ false = .ok (.ok (), h₀) ∧
      (h₀.run 10).stats.Consistent (Platform.completions ((h₀.turns 10).map Hart.platform)) ∧
      (h₀.run 10).machine.fault = some (.outOfBounds 0) ∧
      (h₀.run 10).stats.instructions = 3 ∧ (h₀.run 10).stats.loads = 1 ∧
      (h₀.run 10).stats.stores = 1 ∧ (h₀.run 10).stats.transfers = 1 := by
  have hinit : (accessing.init 10 ⟨["prog"], []⟩).map (fun x => (x.1, x.2.machine.fault,
      x.2.stats.instructions, x.2.stats.loads, x.2.stats.stores, x.2.stats.transfers)) =
        .ok (.ok (), some (.outOfBounds 0), 3, 1, 1, 1) := by
    decide +kernel
  cases hstart : accessing.start ⟨["prog"], []⟩ false with
  | error c =>
    rw [init, hstart] at hinit
    cases hinit
  | ok started =>
    obtain ⟨answer, h₀⟩ := started
    rw [init, hstart] at hinit
    have hcounts := Except.ok.inj hinit
    simp only [Prod.mk.injEq] at hcounts
    obtain ⟨rfl, hfault, hinstructions, hloads, hstores, htransfers⟩ := hcounts
    have hnone : accessing.machine.events = [] := by decide +kernel
    have hlife := life_run (.rest (h := h₀)) 10
    rw [List.nil_append] at hlife
    exact ⟨h₀, rfl, (consistent_stats hnone hstart hlife).1, hfault, hinstructions, hloads, hstores,
      htransfers⟩

end Hart

end RiscvHart
