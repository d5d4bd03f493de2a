/-
# Shared kernel vocabulary

The error numbers the modelled functions return, and the word types they pass around.  A C
function that returns `0` or a negative errno is a Lean function into `Except Errno _`.
-/
import YukiZygisk.Lib.Lts

namespace YukiZygisk

/-- The error numbers that occur under `kernel/`, plus any other the kernel hands through. -/
inductive Errno
  | EPERM | ENOENT | ESRCH | EIO | EAGAIN | ENOMEM | EFAULT | EINVAL | ENODEV | ENOSPC
  | EOVERFLOW | EOPNOTSUPP | ECANCELED
  | other (code : Nat)
  deriving DecidableEq, Repr

/-- `unsigned long` on the 64-bit target. -/
abbrev ULong := BitVec 64

end YukiZygisk
