import RiscvHart.Machine.Event

/-!
# Logs of events

A log is only ever added to, so whoever has seen its first `n` events finds what is new to him as
the events since `n`.
-/

namespace RiscvHart

structure EventLog where
  newestFirst : List Event
  size : Nat
  size_eq : size = newestFirst.length

namespace EventLog

def empty : EventLog := ⟨[], 0, rfl⟩

def add (l : EventLog) (e : Event) : EventLog :=
  ⟨e :: l.newestFirst, l.size + 1, by rw [l.size_eq, List.length_cons]⟩

def toList (l : EventLog) : List Event := l.newestFirst.reverse

def since (l : EventLog) (n : Nat) : List Event := (l.newestFirst.take (l.size - n)).reverse

@[simp] theorem toList_add (l : EventLog) (e : Event) : (l.add e).toList = l.toList ++ [e] := by
  simp [add, toList]

end EventLog

end RiscvHart
