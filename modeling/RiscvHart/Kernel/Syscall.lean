import RiscvHart.Word.Basic

/-!
# System calls

The calls that a guest can make, with their numbers on RISC-V Linux.
-/

namespace RiscvHart

inductive Syscall where
  | ioctl | openat | close | lseek | read | write | writev | fstat | exit | exitGroup
  | setTidAddress | clockGettime | rtSigaction | rtSigprocmask | uname | getpid | getppid
  | getuid | geteuid | getgid | getegid | brk | munmap | mmap | getrandom
  deriving DecidableEq, Repr

namespace Syscall

def number : Syscall → Nat
  | ioctl => 29
  | openat => 56
  | close => 57
  | lseek => 62
  | read => 63
  | write => 64
  | writev => 66
  | fstat => 80
  | exit => 93
  | exitGroup => 94
  | setTidAddress => 96
  | clockGettime => 113
  | rtSigaction => 134
  | rtSigprocmask => 135
  | uname => 160
  | getpid => 172
  | getppid => 173
  | getuid => 174
  | geteuid => 175
  | getgid => 176
  | getegid => 177
  | brk => 214
  | munmap => 215
  | mmap => 222
  | getrandom => 278

def name : Syscall → String
  | ioctl => "Ioctl"
  | openat => "Openat"
  | close => "Close"
  | lseek => "Lseek"
  | read => "Read"
  | write => "Write"
  | writev => "Writev"
  | fstat => "Fstat"
  | exit => "Exit"
  | exitGroup => "ExitGroup"
  | setTidAddress => "SetTidAddress"
  | clockGettime => "ClockGettime"
  | rtSigaction => "RtSigaction"
  | rtSigprocmask => "RtSigprocmask"
  | uname => "Uname"
  | getpid => "Getpid"
  | getppid => "Getppid"
  | getuid => "Getuid"
  | geteuid => "Geteuid"
  | getgid => "Getgid"
  | getegid => "Getegid"
  | brk => "Brk"
  | munmap => "Munmap"
  | mmap => "Mmap"
  | getrandom => "Getrandom"

def all : List Syscall :=
  [ioctl, openat, close, lseek, read, write, writev, fstat, exit, exitGroup, setTidAddress,
    clockGettime, rtSigaction, rtSigprocmask, uname, getpid, getppid, getuid, geteuid, getgid,
    getegid, brk, munmap, mmap, getrandom]

/-- The call with a given number. All 64 bits of the number count. -/
def ofNumber? (n : Word) : Option Syscall := all.find? fun c => c.number = n.toNat

end Syscall

end RiscvHart
