/-! The error numbers the code tells apart, and what a system call returns. -/
namespace Leanet

/-- `errno`; on Linux `EWOULDBLOCK` is `EAGAIN`. -/
inductive Errno where
  | EINPROGRESS
  | EINTR
  | EISCONN
  | EAGAIN
  | EADDRINUSE
  | EADDRNOTAVAIL
  | ECONNREFUSED
  | ENETUNREACH
  | EHOSTUNREACH
  | ETIMEDOUT
  | EACCES
  | EPERM
  | EAFNOSUPPORT
  | EALREADY
  | EBADF
  | EFAULT
  | ENOTSOCK
  | EPIPE
  | ECONNRESET
  /-- Any value the code has no name for. -/
  | other (code : Nat)
  deriving DecidableEq, Repr

abbrev Errno.EWOULDBLOCK : Errno := .EAGAIN

/-- A read(2) or write(2) that fails: the `errno` it sets, and the one that is found there after
`LOG_SYSERR`, whose own output may set it again. -/
structure Failure where
  errno : Errno
  logged : Errno
  deriving DecidableEq, Repr

/-- What read(2) or write(2) returns: a count, or -1. -/
abbrev Transfer := Except Failure Nat

instance : DecidableEq Transfer := fun
  | .ok a, .ok b => if h : a = b then isTrue (h ▸ rfl) else isFalse fun e => h (Except.ok.inj e)
  | .error a, .error b =>
    if h : a = b then isTrue (h ▸ rfl) else isFalse fun e => h (Except.error.inj e)
  | .ok _, .error _ => isFalse nofun
  | .error _, .ok _ => isFalse nofun

end Leanet
