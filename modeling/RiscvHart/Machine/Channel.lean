import RiscvHart.Text.Numeral

/-!
# Channels

A channel delivers each value to all of its listeners, in the order in which they subscribed. A
listener that subscribed twice hears a value twice.
-/

namespace RiscvHart

/-- The listeners of a channel, in the order of their subscriptions. -/
structure Channel (α : Type) where
  listeners : List α
  deriving DecidableEq, Repr

namespace Channel

variable {α β : Type}

def empty : Channel α := ⟨[]⟩

def subscribe (c : Channel α) (listener : α) : Channel α := ⟨c.listeners ++ [listener]⟩

def deliver (c : Channel α) (value : β) : List (α × β) :=
  c.listeners.map fun listener => (listener, value)

def size (c : Channel α) : Nat := c.listeners.length

def isEmpty (c : Channel α) : Bool := c.listeners.isEmpty

def render (c : Channel α) : String := "Event(" ++ Numeral.decimal c.size ++ " listeners)"

end Channel

end RiscvHart
