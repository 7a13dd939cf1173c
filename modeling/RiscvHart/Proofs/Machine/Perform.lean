import RiscvHart.Machine.Perform
import RiscvHart.Proofs.Machine.Exec

/-!
# What every action is made up of

An action reads and writes registers, moves the program counter, loads and stores. Whatever holds
of these and goes through sequences holds of every action, whether it succeeds or not.
-/

namespace RiscvHart

open Exec

namespace Machine

/-- A property of computations on a machine that holds of what actions are made up of. -/
structure Suits (P : (α : Type) → Exec Machine α → Prop) : Prop extends Modular P where
  read : ∀ r, P _ (read r)
  write : ∀ r v, P _ (write r v)
  here : P _ here
  goTo : ∀ target, P _ (goTo target)
  goOn : P _ goOn
  load : ∀ w addr, P _ (attempt fun m => m.load w addr)
  store : ∀ w addr v, P _ (attempt fun m => (m.store w addr v).map fun m' => ((), m'))
  mismatch : P (Option Trap) (crash .operandsMismatch)

end Machine

namespace Action

theorem perform_of_suits {P : (α : Type) → Exec Machine α → Prop} (h : Machine.Suits P) (a : Action)
    (o : Operands) : P _ (a.perform o) := by
  unfold perform
  have hend : ∀ t : Option Trap, P _ (Machine.goOn >>= fun _ => Pure.pure t) := fun t =>
    h.bind h.goOn fun _ => h.pure t
  have hgoTo : ∀ target, P _ (Machine.goTo target >>= fun _ => Pure.pure (none : Option Trap)) :=
    fun target => h.bind (h.goTo target) fun _ => h.pure none
  have hwrite : ∀ rd v (t : Option Trap),
      P _ (Machine.write rd v >>= fun _ => Machine.goOn >>= fun _ => Pure.pure t) :=
    fun rd v t => h.bind (h.write rd v) fun _ => hend t
  split
  -- Computations and shifts.
  · exact h.bind (h.read _) fun _ => h.bind (h.read _) fun _ => hwrite _ _ none
  · exact h.bind (h.read _) fun _ => hwrite _ _ none
  · exact h.bind (h.read _) fun _ => hwrite _ _ none
  · exact h.bind (h.read _) fun _ => hwrite _ _ none
  -- Branches.
  · refine h.bind (h.read _) fun x => h.bind (h.read _) fun y => ?_
    split
    · exact h.bind h.here fun _ => hgoTo _
    · exact hend none
  -- Accesses to memory.
  · exact h.bind (h.read _) fun _ => h.bind (h.load _ _) fun _ => hwrite _ _ none
  · exact h.bind (h.read _) fun _ => h.bind (h.read _) fun _ => h.bind (h.store _ _ _) fun _ =>
      hend none
  -- Upper immediates.
  · exact hwrite _ _ none
  · exact h.bind h.here fun _ => hwrite _ _ none
  -- Jumps.
  · exact h.bind h.here fun _ => h.bind (h.write _ _) fun _ => hgoTo _
  · exact h.bind h.here fun _ => h.bind (h.read _) fun _ => h.bind (h.write _ _) fun _ => hgoTo _
  -- Fences, traps, and operands of another format.
  · exact hend none
  · exact hend (some _)
  · exact h.mismatch

theorem trap_of_perform {a : Action} {o : Operands} {m m' : Machine} {t : Trap}
    (h : a.perform o m = (.ok (some t), m')) : a = .trap t := by
  unfold perform at h
  split at h
  all_goals first | cases h | skip
  -- What is left: branches, loads, stores, and traps.
  · obtain ⟨_, _, -, h⟩ := bind_eq_ok h
    obtain ⟨_, _, -, h⟩ := bind_eq_ok h
    split at h <;> cases h
  · obtain ⟨_, _, -, h⟩ := bind_eq_ok h
    obtain ⟨_, _, -, h⟩ := bind_eq_ok h
    cases h
  · obtain ⟨_, _, -, h⟩ := bind_eq_ok h
    obtain ⟨_, _, -, h⟩ := bind_eq_ok h
    obtain ⟨_, _, -, h⟩ := bind_eq_ok h
    cases h
  · rfl

end Action

/-! ## Relations between the machines before and after -/

namespace Machine

/-- A relation holds over everything that actions are made up of. -/
structure Follows (R : Machine → Machine → Prop) : Prop where
  readRegister : ∀ m r, R m (m.readRegister r).2
  writeRegister : ∀ m r v, R m (m.writeRegister r v)
  jump : ∀ m target, R m (m.jump target)
  load : ∀ m w addr v m', m.load w addr = .ok (v, m') → R m m'
  store : ∀ m w addr v m', m.store w addr v = .ok m' → R m m'

theorem Follows.suits {R : Machine → Machine → Prop} [IsPreorder Machine R] (h : Follows R) :
    Suits fun _ x => Advances R x where
  pure a := advances_pure a
  bind hx hf := hx.bind hf
  read r m := h.readRegister m r
  write r v m := h.writeRegister m r v
  here m := refl_of R m
  goTo target m := h.jump m target
  goOn m := h.jump m _
  load w addr := by
    refine advances_attempt fun m v m' hload => ?_
    exact h.load m w addr v m' hload
  store w addr v := by
    refine advances_attempt fun m _ m' hmap => ?_
    obtain ⟨after, hstore, heq⟩ := Except.map_eq_ok_iff.mp hmap
    cases heq
    exact h.store m w addr v _ hstore
  mismatch m := refl_of R m

end Machine

theorem Action.advances_perform {R : Machine → Machine → Prop} [IsPreorder Machine R]
    (h : Machine.Follows R) (a : Action) (o : Operands) : Advances R (a.perform o) :=
  a.perform_of_suits h.suits o

end RiscvHart
