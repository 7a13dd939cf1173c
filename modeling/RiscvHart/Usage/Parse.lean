import RiscvHart.Usage.Grammar

/-!
# Reading command lines

Words are read from the left. The value of an argument is checked when the next argument begins,
or the words end; a word that fits nowhere is reported before a bad value in front of it. After a
double dash no word is a switch or a subcommand.
-/

namespace RiscvHart.Usage

structure Pending where
  key : String
  accepts : String → Bool
  repeats : Bool
  value : Option String

structure Progress where
  values : List (String × String)
  pending : Option Pending
  /-- The number of operands so far. -/
  operands : Nat

namespace Progress

def start : Progress := ⟨[], none, 0⟩

def enter (p : Progress) (a : Pending) : Except Rejection Progress :=
  match a.value with
  | none => .error .missingValue
  | some v =>
    if ¬a.repeats ∧ p.values.any fun e => e.1 = a.key then .error .repeatedSwitch
    else if a.accepts v then .ok { p with values := p.values ++ [(a.key, v)] }
    else .error .invalidValue

def settle (p : Progress) : Except Rejection Progress :=
  match p.pending with
  | none => .ok p
  | some a => { p with pending := none }.enter a

def begin (p : Progress) (a : Pending) : Except Rejection Progress :=
  p.settle.map fun p => { p with pending := some a }

def awaitsValue (p : Progress) : Bool := p.pending.any fun a => a.value.isNone

def supply (p : Progress) (v : String) : Progress :=
  { p with pending := p.pending.map fun a => { a with value := some v } }

def takeSwitch (p : Progress) (s : Switch) (attached : Option String) : Except Rejection Progress :=
  match s.effect, attached with
  | .value accepts repeats, none => p.begin ⟨s.key, accepts, repeats, none⟩
  | .value accepts repeats, some v => do (← p.settle).enter ⟨s.key, accepts, repeats, some v⟩
  | _, some _ => .error .surplusValue
  | .help, none => do
    let _ ← p.settle
    .error .help
  | .version, none => do
    let _ ← p.settle
    .error .version
  | .mark, none => do (← p.settle).enter ⟨s.key, fun _ => true, false, some ""⟩

def takeOperand (p : Progress) (c : Command) (word : String) : Except Rejection Progress :=
  match c.operands[p.operands]? with
  | some o =>
    { p with operands := p.operands + 1 }.begin ⟨o.key, o.accepts, false, some word⟩
  | none => if c.subcommands = [] then .error .unknownArgument else .error .unknownSubcommand

/-- Takes a word after a double dash. A subcommand there is a word too many. -/
def takeTrailing (p : Progress) (c : Command) (word : String) : Except Rejection Progress :=
  match c.tail with
  | some key => do (← p.settle).enter ⟨key, fun _ => true, true, some word⟩
  | none =>
    if p.operands < c.operands.length then p.takeOperand c word
    else if (c.find? word).isSome ∨ word = helpName then .error .unknownArgument
    else p.takeOperand c word

end Progress

namespace Command

/-- Takes the switches of a cluster: their letters stand together behind one dash. A letter that
takes a value takes the rest of the cluster for it. -/
def takeCluster (c : Command) (p : Progress) : List Char → Except Rejection Progress
  | [] => .ok p
  | letter :: rest =>
    match c.switches.find? fun s => s.short = some letter with
    | none => .error .unknownArgument
    | some s =>
      match s.effect, rest with
      | .value .., [] => p.takeSwitch s none
      | .value .., '=' :: v => p.takeSwitch s (some (String.ofList v))
      | .value .., v => p.takeSwitch s (some (String.ofList v))
      | _, rest => do takeCluster c (← p.takeSwitch s none) rest

/-- Takes a switch by its long name; a value may be attached with an equals sign. -/
def takeLong (c : Command) (p : Progress) (text : List Char) : Except Rejection Progress :=
  let name := String.ofList (text.takeWhile (· ≠ '='))
  let attached :=
    match text.dropWhile (· ≠ '=') with
    | [] => none
    | _ :: v => some (String.ofList v)
  match c.switches.find? fun s => s.long = some name with
  | none => .error .unknownArgument
  | some s => p.takeSwitch s attached

def rejectForHelp (c : Command) : List String → Rejection
  | [] => .help
  | word :: rest =>
    match c.find? word with
    | some sub => rejectForHelp sub rest
    | none => if word = helpName ∧ c.subcommands ≠ [] ∧ rest = [] then .help else .unknownSubcommand

def conclude (c : Command) (p : Progress) : Except Rejection Parsed := do
  let p ← p.settle
  if c.subcommands ≠ [] then .error .missingSubcommand
  else if c.operands.all fun o => !o.required || p.values.any fun e => e.1 = o.key then
    .ok ⟨[], p.values⟩
  else .error .missingArgument

/-- Reads words after `p`; `trailing` tells whether a double dash was among those. -/
def parseFrom (c : Command) (p : Progress) (trailing : Bool) : List String → Except Rejection Parsed
  | [] => c.conclude p
  | word :: rest =>
    if trailing then do parseFrom c (← p.takeTrailing c word) true rest
    else
      match if p.awaitsValue then none else c.find? word with
      | some sub =>
        (parseFrom sub .start false rest).map fun r => { r with path := sub.name :: r.path }
      | none =>
        if word = helpName ∧ c.subcommands ≠ [] then .error (c.rejectForHelp rest)
        else
          match word.toList with
          | ['-', '-'] => parseFrom c p true rest
          | '-' :: '-' :: text => do parseFrom c (← c.takeLong p text) false rest
          | '-' :: letter :: letters => do
              parseFrom c (← c.takeCluster p (letter :: letters)) false rest
          | _ =>
            if p.awaitsValue then parseFrom c (p.supply word) false rest
            else do parseFrom c (← p.takeOperand c word) false rest

def parse (c : Command) (words : List String) : Except Rejection Parsed :=
  c.parseFrom .start false words

end Command

end RiscvHart.Usage
