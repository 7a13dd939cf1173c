import RiscvHart.Proofs.Hart.Faults
import RiscvHart.Proofs.Machine.Account

/-!
# Events tell what steps do

Nothing that an instruction or the answer to a call does to registers goes past the events,
nothing that an instruction does to memory does, and new memory is always announced. So someone
who only sees the events of a run, of any length, can say at its end what the registers hold, and
within limits what memory holds and where there is any.
-/

namespace RiscvHart

open Exec

namespace Platform

variable {σ : Type} {s s' : Platform σ} {c : Code} {index : Nat} {e : Entry}

variable {R : Machine → Machine → Prop} [IsPreorder Machine R]

theorem indifferent_footing : Indifferent fun s : Platform σ => s.machine.footing where
  fill s addr bs m h := by
    obtain ⟨memory, hfill, rfl⟩ := Except.map_eq_ok_iff.mp h
    obtain ⟨hlayout, hused, hcapacity, -⟩ := Memory.frame_fill hfill
    simp only [Machine.footing, hlayout, hused, hcapacity]
  hostState _ _ := rfl
  random _ _ := rfl

theorem advances_call (h : Machine.Serves R)
    (hmunmap : Syscall.ofNumber? s.callNumber = some .munmap → Machine.Releases R) :
    Along R s (environmentCall s).2 := by
  refine advances_environmentCall h.answers (fun c a _ hc => ?_) hmunmap
  have hcontained : Contained _ (fun _ => True) (serve (σ := σ) c a) :=
    contained_serve indifferent_footing a hc (fun _ _ _ => rfl) (fun _ => trivial) fun _ => trivial
  exact fun t => h.still _ _ (hcontained.keeps t)

/-! ## Steps -/

theorem advances_carryOut (h : Machine.Notes R) (pc : Word)
    (hcall : e.instr = .ecall → Along R (s.advanced c) (environmentCall (s.advanced c)).2) :
    Along R (s.started c) (carryOut pc c e (s.started c)).2 := by
  by_cases hi : e.instr = .ecall
  · have hjump : Along R (s.started c) (s.advanced c) := h.jump _ _
    have hrun : carryOut pc c e (s.started c) = environmentCall (s.advanced c) := by
      rw [carryOut, hi]
      rfl
    rw [hrun]
    exact trans_of _ hjump (hcall hi)
  · have haction := Action.advances_perform h.toFollows e.instr.action (e.read c).operands
      (s.started c).machine
    rw [carryOut, bind_apply, onMachine, Exec.on]
    cases hperform : e.instr.action.perform (e.read c).operands (s.started c).machine with
    | mk result m =>
      rw [hperform] at haction
      obtain failure | _ | trap := result
      · exact haction
      · exact haction
      · cases trap with
        | environmentCall =>
          exact absurd (action_eq_environmentCall (Action.trap_of_perform hperform)) hi
        | breakpoint =>
          refine trans_of R haction ?_
          show R m (if m.pausesOnBreakpoint then { m with pauseRequested := true }
            else { m with breakpoint := some pc })
          split
          · exact h.quiet _ _ rfl rfl rfl
          · exact h.quiet _ _ rfl rfl rfl

/-- The events of an instruction lie between one at its start and one at its end, which is
missing if the step ends early; a word that cannot be fetched has none. -/
inductive Bracketed (s : Platform σ) : List Event → Prop where
  | unfetched {error : MemoryError} :
    s.machine.memory.fetch s.machine.pc.current = .error error → Bracketed s []
  | stopped {c : Code} {failure : Failure Fault} {inner : List Event} :
    s.machine.memory.fetch s.machine.pc.current = .ok c → (step s).1 = .error failure →
    (∀ e ∈ inner, Machine.Inner e) → Bracketed s (.before s.machine.pc.current c :: inner)
  | completed {c : Code} {index : Nat} {e : Entry} {inner : List Event} :
    s.machine.memory.fetch s.machine.pc.current = .ok c → (step s).1 = .ok () →
    Decoder.select table c = .known index e → (∀ e ∈ inner, Machine.Inner e) →
    Bracketed s (.before s.machine.pc.current c :: inner ++
      [.after ⟨s.machine.pc.current, c, index, e.instr⟩ (step s).2.machine.pc.current])

theorem events_complete (x : Executed) (s : Platform σ) :
    (complete x s).2.machine.events =
      s.machine.events ++ [.after x (complete x s).2.machine.pc.current] := EventLog.toList_add _ _

theorem advances_step (h : Machine.Notes R) (hmarks : Machine.Marks R)
    (hcall : ∀ c, s.machine.memory.fetch s.machine.pc.current = .ok c → s.Calls →
      Along R (s.advanced c) (environmentCall (s.advanced c)).2) :
    Along R s (step s).2 := by
  cases hfetch : s.machine.memory.fetch s.machine.pc.current with
  | error error =>
    rw [step_of_fetch_error hfetch]
    exact refl_of _ s
  | ok c =>
    have hstarted : Along R s (s.started c) := hmarks _ _ (Machine.not_inner_before _ _)
    cases hselect : Decoder.select table c with
    | ambiguous => exact absurd hselect (Isa.select_ne_ambiguous c)
    | unknown =>
      rw [step_of_unknown hfetch hselect]
      exact trans_of R hstarted (h.remark _ _)
    | known index e =>
      have hcarried := advances_carryOut (e := e) h s.machine.pc.current fun hi =>
        hcall c hfetch ⟨c, hfetch, hi ▸ Isa.encodes_of_select hselect⟩
      rw [step_eq_carryOut hfetch hselect]
      refine trans_of _ hstarted ?_
      rw [bind_apply]
      cases hrun : carryOut s.machine.pc.current c e (s.started c) with
      | mk result t =>
        rw [hrun] at hcarried
        cases result with
        | error failure => exact hcarried
        | ok _ =>
          have hlast : R t.machine { t.machine with
              last := some ⟨s.machine.pc.current, c, index, e.instr⟩ } := h.quiet _ _ rfl rfl rfl
          refine trans_of _ hcarried (trans_of R hlast ?_)
          exact hmarks _ (.after _ _) (Machine.not_inner_after _ _)

def newEvents (s : Platform σ) : List Event :=
  (step s).2.machine.events.drop s.machine.events.length

theorem newEvents_eq {es : List Event} (h : (step s).2.machine.events = s.machine.events ++ es) :
    s.newEvents = es := by
  rw [newEvents, h, List.drop_left]

theorem bracketed_step (s : Platform σ) :
    (step s).2.machine.events = s.machine.events ++ s.newEvents ∧ s.Bracketed s.newEvents := by
  suffices hevents : ∃ es, (step s).2.machine.events = s.machine.events ++ es ∧ s.Bracketed es by
    obtain ⟨es, hes, hbracketed⟩ := hevents
    rw [newEvents_eq hes]
    exact ⟨hes, hbracketed⟩
  cases hfetch : s.machine.memory.fetch s.machine.pc.current with
  | error error =>
    refine ⟨[], ?_, .unfetched hfetch⟩
    rw [step_of_fetch_error hfetch, List.append_nil]
  | ok c =>
    have hstarted : (s.started c).machine.events =
        s.machine.events ++ [.before s.machine.pc.current c] := EventLog.toList_add _ _
    cases hselect : Decoder.select table c with
    | ambiguous => exact absurd hselect (Isa.select_ne_ambiguous c)
    | unknown =>
      have hstep := step_of_unknown hfetch hselect
      have hremark : Machine.Inner (.remarked (.illegalInstruction c s.machine.pc.current)) := by
        simp [Machine.Inner, Event.kind?]
      refine ⟨_, ?_, .stopped hfetch (congrArg Prod.fst hstep)
        (List.forall_mem_singleton.mpr hremark)⟩
      rw [hstep, List.append_cons, ← hstarted]
      exact EventLog.toList_add _ _
    | known index e =>
      obtain ⟨inner, hinner, htold⟩ := advances_carryOut (s := s) (c := c) (e := e)
        Machine.serves_inner.toNotes s.machine.pc.current fun _ =>
          advances_call Machine.serves_inner fun _ => Machine.releases_inner
      have hkinds := Account.told_only_iff.mp htold
      rw [hstarted] at hinner
      have hrun := step_eq_carryOut hfetch hselect
      rw [bind_apply] at hrun
      cases hcarry : carryOut s.machine.pc.current c e (s.started c) with
      | mk result t =>
        rw [hcarry] at hinner hrun
        cases result with
        | error failure =>
          refine ⟨_, ?_, .stopped hfetch (congrArg Prod.fst hrun) hkinds⟩
          rw [hrun, hinner, List.append_assoc]
          rfl
        | ok _ =>
          refine ⟨_, ?_, .completed hfetch (congrArg Prod.fst hrun) hselect hkinds⟩
          rw [hrun]
          dsimp only
          rw [events_complete, hinner, List.append_assoc]
          simp

/-! ## Runs -/

def steps : Nat → Exec (Platform σ) Unit
  | 0 => return ()
  | n + 1 => do
    step
    steps n

def starts : Nat → Platform σ → List (Platform σ)
  | 0, _ => []
  | n + 1, s =>
    s :: match step s with
      | (.ok _, t) => starts n t
      | (.error _, _) => []

/-- The last step can be taken by itself. -/
theorem steps_succ_apply (n : Nat) (s : Platform σ) :
    steps (n + 1) s = (steps n >>= fun _ => step) s := by
  induction n generalizing s with
  | zero =>
    show (step >>= fun _ => steps 0) s = step s
    rw [bind_apply]
    cases step s with
    | mk result t => cases result <;> rfl
  | succ n ih =>
    show (step >>= fun _ => steps (n + 1)) s = ((step >>= fun _ => steps n) >>= fun _ => step) s
    rw [bind_assoc, bind_apply, bind_apply]
    cases step s with
    | mk result t =>
      cases result with
      | error failure => rfl
      | ok _ => exact ih t

theorem steps_succ_of_ok {n : Nat} {t : Platform σ} (h : steps n s = (.ok (), t)) :
    steps (n + 1) s = step t := by
  rw [steps_succ_apply, bind_ok h]

theorem steps_ok_of_succ {n : Nat} {u : Platform σ} (h : steps (n + 1) s = (.ok (), u)) :
    ∃ t, steps n s = (.ok (), t) ∧ step t = (.ok (), u) := by
  rw [steps_succ_apply] at h
  obtain ⟨_, t, hsteps, hstep⟩ := bind_eq_ok h
  exact ⟨t, hsteps, hstep⟩

theorem starts_succ_of_ok {n : Nat} {t : Platform σ} (h : steps n s = (.ok (), t)) :
    starts (n + 1) s = starts n s ++ [t] := by
  induction n generalizing s with
  | zero =>
    cases h
    cases hstep : step t with
    | mk result u => cases result <;> simp [starts, hstep]
  | succ n ih =>
    obtain ⟨_, u, hstep, hsteps⟩ := bind_eq_ok h
    rw [starts, starts, hstep]
    dsimp only
    rw [ih hsteps, List.cons_append]

theorem length_starts_of_ok {n : Nat} {t : Platform σ} (h : steps n s = (.ok (), t)) :
    (starts n s).length = n := by
  induction n generalizing s with
  | zero => rfl
  | succ n ih =>
    obtain ⟨_, u, hstep, hsteps⟩ := bind_eq_ok h
    rw [starts, hstep]
    dsimp only
    rw [List.length_cons, ih hsteps]

theorem length_starts_succ_of_ok {n : Nat} {t : Platform σ} (h : steps n s = (.ok (), t)) :
    (starts (n + 1) s).length = n + 1 := by
  rw [starts_succ_of_ok h, List.length_append, length_starts_of_ok h, List.length_singleton]

theorem advances_steps {n : Nat} (h : ∀ t ∈ starts n s, Along R t (step t).2) :
    Along R s (steps n s).2 := by
  induction n generalizing s with
  | zero => exact refl_of _ s
  | succ n ih =>
    rw [starts, List.forall_mem_cons] at h
    obtain ⟨hfirst, hrest⟩ := h
    rw [steps, bind_apply]
    cases hstep : step s with
    | mk result t =>
      rw [hstep] at hfirst hrest
      cases result with
      | error failure => exact hfirst
      | ok _ => exact trans_of _ hfirst (ih hrest)

theorem events_steps (n : Nat) (s : Platform σ) :
    (steps n s).2.machine.events = s.machine.events ++ (starts n s).flatMap newEvents := by
  induction n generalizing s with
  | zero => exact (List.append_nil _).symm
  | succ n ih =>
    have hfirst := (bracketed_step s).1
    rw [steps, bind_apply, starts, List.flatMap_cons]
    cases hstep : step s with
    | mk result t =>
      rw [hstep] at hfirst
      cases result with
      | error failure => rw [List.flatMap_nil, List.append_nil, ← hfirst]
      | ok _ => rw [← List.append_assoc, ← hfirst]; exact ih t

def MakesCall (s : Platform σ) : Prop := s.Calls ∧ ∀ f, (step s).1 ≠ .error (.error f)

/-- What the events of up to `n` steps tell. -/
structure Truthful (n : Nat) (s : Platform σ) : Prop where
  events : (steps n s).2.machine.events = s.machine.events ++ (starts n s).flatMap newEvents
  bracketed : ∀ t ∈ starts n s, t.Bracketed t.newEvents
  registers : Account.registers.Told s.machine.registers.read ((starts n s).flatMap newEvents)
    (steps n s).2.machine.registers.read
  bytes : (∀ t ∈ starts n s, ¬t.MakesCall) →
    Account.bytes.Told s.machine.memory.byteMap ((starts n s).flatMap newEvents)
      (steps n s).2.machine.memory.byteMap
  mapped : (∀ t ∈ starts n s, t.MakesCall → Syscall.ofNumber? t.callNumber ≠ some .munmap) →
    Account.mapped.Told (fun x => s.machine.memory.byteMap x ≠ none)
      ((starts n s).flatMap newEvents) fun x => (steps n s).2.machine.memory.byteMap x ≠ none

theorem refused_of_not_makesCall (hcalls : s.Calls) (h : ¬s.MakesCall) :
    ∃ f, ∀ c, s.machine.memory.fetch s.machine.pc.current = .ok c →
      (environmentCall (s.advanced c)).1 = .error (.error f) := by
  obtain ⟨f, hf⟩ : ∃ f, (step s).1 = .error (.error f) := by
    by_contra hnone
    exact h ⟨hcalls, fun f hf => hnone ⟨f, hf⟩⟩
  refine ⟨f, fun c hfetch => ?_⟩
  obtain ⟨c', hfetch', hencodes⟩ := hcalls
  obtain rfl : c' = c := Except.ok.inj (hfetch'.symm.trans hfetch)
  obtain ⟨index, e, hselect, hi⟩ := (Isa.encodes_iff_select _ _).mp hencodes
  rw [step_of_call hfetch hselect hi] at hf
  exact error_of_bind hf fun _ _ hok => by cases hok

theorem truthful_steps (hs : s.Reachable) (n : Nat) : Truthful n s where
  events := events_steps n s
  bracketed t _ := (bracketed_step t).2
  registers := by
    have hadvances : Along (Machine.Tells .registers Machine.held) s (steps n s).2 := by
      refine advances_steps fun t _ => advances_step Machine.serves_held.toNotes
        Machine.marks_held ?_
      exact fun c _ _ => advances_call Machine.serves_held fun _ => Machine.releases_held
    exact hadvances.told (events_steps n s)
  bytes hquiet := by
    have hadvances : Along (Machine.InOrder (Machine.Tells .bytes fun m => m.memory.byteMap)) s
        (steps n s).2 := by
      refine advances_steps fun t ht => advances_step Machine.notes_bytes Machine.marks_bytes ?_
      intro c hfetch hcalls
      obtain ⟨f, hf⟩ := refused_of_not_makesCall hcalls (hquiet t ht)
      exact advances_refusal Machine.notes_bytes.remark (hf c hfetch)
    exact (hadvances hs.wellFormed).2.told (events_steps n s)
  mapped hkeep := by
    have hadvances : Along (Machine.InOrder (Machine.Tells .mapped Machine.Maps)) s
        (steps n s).2 := by
      refine advances_steps fun t ht => advances_step Machine.serves_maps.toNotes
        Machine.marks_maps ?_
      intro c hfetch hcalls
      by_cases hmakes : t.MakesCall
      · exact advances_call Machine.serves_maps fun hmunmap =>
          absurd hmunmap (hkeep t ht hmakes)
      · obtain ⟨f, hf⟩ := refused_of_not_makesCall hcalls hmakes
        exact advances_refusal Machine.serves_maps.remark (hf c hfetch)
    exact (hadvances hs.wellFormed).2.told (events_steps n s)

/-- A store, a load of what was stored, and a word that is no instruction. -/
theorem truthful_steps_storing :
    storing.Reachable ∧ (steps 3 storing).1 = .error (.error (.illegalInstruction 0 0x1008)) ∧
      Truthful 3 storing ∧
      Account.bytes.Told storing.machine.memory.byteMap ((starts 3 storing).flatMap newEvents)
        (steps 3 storing).2.machine.memory.byteMap := by
  have hreachable : storing.Reachable := reachable_of_memory_eq 0x2000 0x1000
    [.allocate 0x1000 16, .write .word 0x1000 0x0062A223] (by simp only [storing])
  have hwords : (starts 3 storing).map (fun t => t.machine.memory.fetch t.machine.pc.current) =
      [.ok 0x0062A223, .ok 0x0042A383, .ok 0] := by
    decide +kernel
  have hquiet : ∀ t ∈ starts 3 storing, ¬t.MakesCall := by
    rintro t ht ⟨⟨c, hfetch, hencodes⟩, -⟩
    obtain rfl : c = 0x00000073 := BitVec.eq_of_toNat_eq hencodes
    have hmem := List.mem_map_of_mem (f := fun t => t.machine.memory.fetch t.machine.pc.current) ht
    rw [hwords, hfetch] at hmem
    simp at hmem
  have htruthful := truthful_steps hreachable 3
  exact ⟨hreachable, by decide +kernel, htruthful, htruthful.bytes hquiet⟩

end Platform

end RiscvHart
