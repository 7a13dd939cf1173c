/-!
# Failures

An operation can fail with an error, which is an answer about the guest or its files, or crash,
which is the lack of an answer: the engine has met a case that it gives up on.
-/

namespace RiscvHart

/-- The cases that the engine gives up on. -/
inductive Crash where
  /-- A header of an executable is cut short, or lies outside its file or across its grain. -/
  | unreadableHeader
  /-- A sum of addresses, sizes or counts is too large for its type. -/
  | sumTooLarge
  /-- More is to be taken from an address than it is. -/
  | differenceNegative
  /-- An instruction has operands of a format that it does not take. -/
  | operandsMismatch
  /-- Two entries of an instruction table claim a word with equal right. -/
  | ambiguousEntry
  /-- A character would be cut in two. -/
  | characterCut
  deriving DecidableEq, Repr

/-- Why an operation has no result. -/
inductive Failure (ε : Type) where
  | error (e : ε)
  | crash (c : Crash)
  deriving DecidableEq, Repr

end RiscvHart
