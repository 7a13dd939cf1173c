import RiscvHart.Text.Numeral

/-!
# Error numbers

Why a system call fails. The result of a call that fails is the negative of a number.
-/

namespace RiscvHart

inductive Errno where
  | missingFile | missingDevice | badDescriptor | outOfMemory | accessDenied | badAddress
  | fileExists | notFolder | isFolder | invalidArgument | notTerminal | fileTooLarge | noSpace
  | notSeekable | nameTooLong | notImplemented | linkRefused | notSupported
  deriving DecidableEq, Repr

namespace Errno

def number : Errno → Nat
  | missingFile => 2
  | missingDevice => 6
  | badDescriptor => 9
  | outOfMemory => 12
  | accessDenied => 13
  | badAddress => 14
  | fileExists => 17
  | notFolder => 20
  | isFolder => 21
  | invalidArgument => 22
  | notTerminal => 25
  | fileTooLarge => 27
  | noSpace => 28
  | notSeekable => 29
  | nameTooLong => 36
  | notImplemented => 38
  | linkRefused => 40
  | notSupported => 95

def result (e : Errno) : Int := -(e.number : Int)

def description : Errno → String
  | missingFile => "No such file or directory"
  | missingDevice => "No such device or address"
  | badDescriptor => "Bad file descriptor"
  | outOfMemory => "Cannot allocate memory"
  | accessDenied => "Permission denied"
  | badAddress => "Bad address"
  | fileExists => "File exists"
  | notFolder => "Not a directory"
  | isFolder => "Is a directory"
  | invalidArgument => "Invalid argument"
  | notTerminal => "Inappropriate ioctl for device"
  | fileTooLarge => "File too large"
  | noSpace => "No space left on device"
  | notSeekable => "Illegal seek"
  | nameTooLong => "File name too long"
  | notImplemented => "Function not implemented"
  | linkRefused => "Too many levels of symbolic links"
  | notSupported => "Operation not supported"

def message (e : Errno) : String :=
  e.description ++ " (os error " ++ Numeral.decimal e.number ++ ")"

end Errno

end RiscvHart
