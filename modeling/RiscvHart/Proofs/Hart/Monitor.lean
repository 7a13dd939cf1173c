import RiscvHart.Hart.Monitor
import Mathlib.Algebra.Order.Ring.Nat

/-!
# The life of a hart

Controllers, hooks and the execution itself send requests to one monitor, which handles one after
the other. Whatever comes in whatever order, a hart is started at most once, and a run that is
over stays over, so nobody who waits for a paused hart is told that a finished one runs.
-/

namespace RiscvHart

/-- What a monitor can be asked for. -/
inductive MonitorRequest where
  | start (paused : Bool)
  | pause
  | resume
  | stop
  | halt
  | fail
  deriving DecidableEq, Repr

namespace MonitorRequest

def isStart : MonitorRequest → Bool
  | start _ => true
  | _ => false

def begins : MonitorRequest → Bool
  | start _ | fail => true
  | _ => false

def target (state : ExecutionState) : MonitorRequest → ExecutionState
  | start paused => if paused then .paused else .running
  | pause => .paused
  | resume => .running
  | stop => .stopped
  | halt => if state = .invalid then .invalid else .stopped
  | fail => .invalid

end MonitorRequest

namespace Monitor

open MonitorRequest

variable {m : Monitor} {r : MonitorRequest} {rs later : List MonitorRequest}

def respond (m : Monitor) : MonitorRequest → Except Fault Monitor
  | .start paused => m.start paused
  | .pause => m.pause
  | .resume => m.resume
  | .stop => m.stop
  | .halt => .ok m.halt
  | .fail => .ok m.fail

def handle (m : Monitor) (r : MonitorRequest) : Except Fault Unit × Monitor :=
  match m.respond r with
  | .ok m' => (.ok (), m')
  | .error f => (.error f, m)

def after (m : Monitor) (rs : List MonitorRequest) : Monitor :=
  rs.foldl (fun m r => (m.handle r).2) m

def granted (m : Monitor) : List MonitorRequest → List MonitorRequest
  | [] => []
  | r :: rest =>
    if (m.handle r).1 = .ok () then r :: (m.handle r).2.granted rest
    else (m.handle r).2.granted rest

/-- The states in which a request is granted. -/
def Admits (m : Monitor) : MonitorRequest → Prop
  | .start _ => m.started = false ∧ m.state = .stopped
  | .pause => m.started = true ∧ m.state = .running
  | .resume => m.started = true ∧ m.state = .paused
  | .stop => m.started = true ∧ (m.state = .running ∨ m.state = .paused)
  | .halt | .fail => True

def Finished (m : Monitor) : Prop := m.started = true ∧ (m.state = .stopped ∨ m.state = .invalid)

/-! ## One request -/

theorem transition_of_mem {sources : List ExecutionState} {target : ExecutionState}
    (hstarted : m.started = true) (hmem : m.state ∈ sources) :
    m.transition sources target = .ok ⟨target, true⟩ := by
  rw [transition, if_pos ⟨hstarted, hmem⟩, hstarted]

theorem transition_of_not_mem {sources : List ExecutionState} {target : ExecutionState}
    (h : ¬(m.started = true ∧ m.state ∈ sources)) :
    m.transition sources target = .error .invalidState := by
  rw [transition, if_neg h]

theorem handle_of_admits (h : m.Admits r) :
    m.handle r = (.ok (), ⟨r.target m.state, m.started || r.begins⟩) := by
  cases r with
  | start paused =>
    obtain ⟨hfresh, hstopped⟩ := h
    simp [handle, respond, start, target, begins, hfresh, hstopped]
  | pause =>
    obtain ⟨hstarted, hstate⟩ := h
    rw [handle, respond, pause, transition_of_mem hstarted (by simp [hstate]), hstarted]
    rfl
  | resume =>
    obtain ⟨hstarted, hstate⟩ := h
    rw [handle, respond, resume, transition_of_mem hstarted (by simp [hstate]), hstarted]
    rfl
  | stop =>
    obtain ⟨hstarted, hstate⟩ := h
    rw [handle, respond, stop, transition_of_mem hstarted (by simpa using hstate), hstarted]
    rfl
  | halt =>
    obtain ⟨state, started⟩ := m
    by_cases hinvalid : state = .invalid <;> simp [handle, respond, halt, target, begins, hinvalid]
  | fail => simp [handle, respond, fail, target, begins]

theorem handle_of_not_admits (h : ¬m.Admits r) : m.handle r = (.error .invalidState, m) := by
  cases r with
  | start paused =>
    have hrefused : m.started = true ∨ m.state ≠ .stopped := by
      by_contra hfresh
      rw [not_or, Bool.not_eq_true, not_not] at hfresh
      exact h hfresh
    rw [handle, respond, start, if_pos hrefused]
  | pause => rw [handle, respond, pause, transition_of_not_mem (by simpa [Admits] using h)]
  | resume => rw [handle, respond, resume, transition_of_not_mem (by simpa [Admits] using h)]
  | stop => rw [handle, respond, stop, transition_of_not_mem (by simpa [Admits] using h)]
  | halt => exact absurd trivial h
  | fail => exact absurd trivial h

theorem handle_ok_iff : (m.handle r).1 = .ok () ↔ m.Admits r := by
  by_cases h : m.Admits r
  · simp [handle_of_admits h, h]
  · simp [handle_of_not_admits h, h]

theorem started_handle (m : Monitor) (r : MonitorRequest) :
    (m.handle r).2.started = true ↔ m.started = true ∨ (m.Admits r ∧ r.begins = true) := by
  by_cases h : m.Admits r
  · simp [handle_of_admits h, h]
  · simp [handle_of_not_admits h, h]

theorem invalid_handle (h : m.state = .invalid) (r : MonitorRequest) :
    (m.handle r).2.state = .invalid := by
  by_cases hr : m.Admits r
  · rw [handle_of_admits hr]
    cases r <;> simp_all [Admits, target]
  · rw [handle_of_not_admits hr]
    exact h

theorem Finished.handle (h : m.Finished) (r : MonitorRequest) : (m.handle r).2.Finished := by
  obtain ⟨hstarted, hover⟩ := h
  by_cases hr : m.Admits r
  · rw [handle_of_admits hr]
    refine ⟨by simp [hstarted], ?_⟩
    rcases hover with hstate | hstate <;> cases r <;> simp_all [Admits, target]
  · rw [handle_of_not_admits hr]
    exact ⟨hstarted, hover⟩

theorem Finished.not_running (h : m.Finished) : m.state ≠ .running ∧ m.state ≠ .paused := by
  rcases h.2 with hstate | hstate <;> simp [hstate]

/-! ## Requests in order -/

theorem after_append (m : Monitor) (rs later : List MonitorRequest) :
    m.after (rs ++ later) = (m.after rs).after later := List.foldl_append

theorem invalid_after (h : m.state = .invalid) (rs : List MonitorRequest) :
    (m.after rs).state = .invalid := by
  induction rs generalizing m with
  | nil => exact h
  | cons r rest ih => exact ih (invalid_handle h r)

theorem Finished.after (h : m.Finished) (rs : List MonitorRequest) : (m.after rs).Finished := by
  induction rs generalizing m with
  | nil => exact h
  | cons r rest ih => exact ih (h.handle r)

theorem mem_granted_cons (m : Monitor) (r q : MonitorRequest) (rs : List MonitorRequest) :
    q ∈ m.granted (r :: rs) ↔ (q = r ∧ m.Admits r) ∨ q ∈ (m.handle r).2.granted rs := by
  by_cases h : m.Admits r
  · simp [granted, handle_ok_iff, h]
  · simp [granted, handle_ok_iff, h]

/-- A hart counts as started from the first granted request on that begins something. -/
theorem started_after (m : Monitor) (rs : List MonitorRequest) :
    (m.after rs).started = true ↔ m.started = true ∨ ∃ r ∈ m.granted rs, r.begins = true := by
  induction rs generalizing m with
  | nil => simp [after, granted]
  | cons r rest ih =>
    have hrest := ih (m.handle r).2
    rw [started_handle] at hrest
    refine hrest.trans ?_
    simp only [mem_granted_cons]
    constructor
    · rintro ((hstarted | ⟨hadmits, hbegins⟩) | ⟨q, hq, hbegins⟩)
      · exact Or.inl hstarted
      · exact Or.inr ⟨r, Or.inl ⟨rfl, hadmits⟩, hbegins⟩
      · exact Or.inr ⟨q, Or.inr hq, hbegins⟩
    · rintro (hstarted | ⟨q, ⟨rfl, hadmits⟩ | hq, hbegins⟩)
      · exact Or.inl (Or.inl hstarted)
      · exact Or.inl (Or.inr ⟨hadmits, hbegins⟩)
      · exact Or.inr ⟨q, hq, hbegins⟩

theorem countP_granted_of_started (h : m.started = true) (rs : List MonitorRequest) :
    (m.granted rs).countP isStart = 0 := by
  rw [List.countP_eq_zero]
  induction rs generalizing m with
  | nil => simp [granted]
  | cons r rest ih =>
    intro q hq
    rcases (mem_granted_cons m r q rest).mp hq with ⟨rfl, hadmits⟩ | hq
    · cases q <;> simp_all [Admits, isStart]
    · exact ih ((started_handle m r).mpr (Or.inl h)) q hq

theorem countP_granted_le_one (m : Monitor) (rs : List MonitorRequest) :
    (m.granted rs).countP isStart ≤ 1 := by
  induction rs generalizing m with
  | nil => simp [granted]
  | cons r rest ih =>
    rw [granted]
    split
    · next hok =>
      cases hr : r.isStart with
      | false => simpa [List.countP_cons, hr] using ih _
      | true =>
        have hbegins : r.begins = true := by
          cases r <;> simp_all [isStart, begins]
        have hstarted := (started_handle m r).mpr (Or.inr ⟨handle_ok_iff.mp hok, hbegins⟩)
        simp [hr, countP_granted_of_started hstarted]
    · exact ih _

/-! ## Waiting -/

/-- Someone looks at a monitor, and as long as one state holds him up he looks again when more
requests have been handled. -/
def waitWhile (blocking : ExecutionState) (m : Monitor) :
    List (List MonitorRequest) → Option ExecutionState
  | [] => m.passed? blocking
  | rs :: rest => (m.passed? blocking).or ((m.after rs).waitWhile blocking rest)

theorem passed?_eq_some_iff {blocking state : ExecutionState} :
    m.passed? blocking = some state ↔ m.state = state ∧ state ≠ blocking := by
  unfold passed?
  split
  · next h =>
    simp only [reduceCtorEq, false_iff, not_and, not_not]
    rintro rfl
    exact h
  · next h =>
    simp only [Option.some.injEq]
    constructor
    · rintro rfl
      exact ⟨rfl, h⟩
    · exact And.left

/-- What a waiter is told is the state at one of his looks. -/
theorem waitWhile_eq_some {blocking state : ExecutionState} {looks : List (List MonitorRequest)}
    (h : m.waitWhile blocking looks = some state) :
    ∃ seen rest, looks = seen ++ rest ∧ (m.after seen.flatten).state = state ∧
      state ≠ blocking := by
  induction looks generalizing m with
  | nil => exact ⟨[], [], rfl, passed?_eq_some_iff.mp h⟩
  | cons rs rest ih =>
    rw [waitWhile, Option.or_eq_some_iff] at h
    rcases h with hnow | ⟨-, hlater⟩
    · exact ⟨[], rs :: rest, rfl, passed?_eq_some_iff.mp hnow⟩
    · obtain ⟨seen, others, rfl, hstate, hne⟩ := ih hlater
      refine ⟨rs :: seen, others, rfl, ?_, hne⟩
      rw [List.flatten_cons, after_append]
      exact hstate

theorem Finished.waitWhile (h : m.Finished) (looks : List (List MonitorRequest)) :
    m.waitWhile .paused looks = some m.state := by
  have hpassed : m.passed? .paused = some m.state :=
    passed?_eq_some_iff.mpr ⟨rfl, h.not_running.2⟩
  cases looks with
  | nil => exact hpassed
  | cons rs rest => rw [Monitor.waitWhile, hpassed, Option.some_or]

/-! ## Any requests in any order -/

/-- What holds after requests to a new monitor, whatever is asked for later. -/
structure Orderly (rs later : List MonitorRequest) : Prop where
  granted : ∀ r, (new.after rs).Admits r → (new.after rs).handle r =
    (.ok (), ⟨r.target (new.after rs).state, (new.after rs).started || r.begins⟩)
  refused : ∀ r, ¬(new.after rs).Admits r →
    (new.after rs).handle r = (.error .invalidState, new.after rs)
  started : (new.after rs).started = true ↔ ∃ r ∈ new.granted rs, r.begins = true
  startsOnce : (new.granted rs).countP isStart ≤ 1
  staysInvalid : (new.after rs).state = .invalid → (new.after (rs ++ later)).state = .invalid
  staysOver : (new.after rs).Finished →
    (new.after (rs ++ later)).Finished ∧ (new.after (rs ++ later)).state ≠ .running ∧
      (new.after (rs ++ later)).state ≠ .paused
  /-- Nobody waits for a run that is over. -/
  noWait : (new.after rs).Finished → ∀ looks,
    (new.after rs).waitWhile .paused looks = some (new.after rs).state
  /-- Where the run was over at or before the last look, the waiter is not told
  that it goes on. -/
  told : ∀ looks state, (new.after rs).waitWhile .paused looks = some state →
    ∃ seen rest, looks = seen ++ rest ∧ (new.after (rs ++ seen.flatten)).state = state ∧
      state ≠ .paused ∧
      ∀ early, early <+: seen → (new.after (rs ++ early.flatten)).Finished → state ≠ .running

theorem orderly_after (rs later : List MonitorRequest) : Orderly rs later where
  granted r h := handle_of_admits h
  refused r h := handle_of_not_admits h
  started := by
    rw [started_after]
    simp [new]
  startsOnce := countP_granted_le_one new rs
  staysInvalid h := by
    rw [after_append]
    exact invalid_after h later
  staysOver h := by
    rw [after_append]
    exact ⟨h.after later, (h.after later).not_running⟩
  noWait h looks := h.waitWhile looks
  told looks state h := by
    obtain ⟨seen, rest, rfl, hstate, hne⟩ := waitWhile_eq_some h
    rw [← after_append] at hstate
    refine ⟨seen, rest, rfl, hstate, hne, ?_⟩
    rintro early ⟨unseen, rfl⟩ hover
    rw [List.flatten_append, ← List.append_assoc, after_append] at hstate
    rw [← hstate]
    exact (hover.after _).not_running.1

end Monitor

end RiscvHart
