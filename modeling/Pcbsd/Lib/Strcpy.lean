import Pcbsd.Lib.Bytes

/-! strcpy within one buffer, byte by byte from the front. -/

namespace Pcbsd.Lib
open List

/-- Bytes are copied until a NUL has been, or the copy leaves the buffer. -/
def strcpyLoop : Nat → Bytes → Nat → Nat → Option Bytes
  | 0, _, _, _ => none
  | fuel + 1, buf, dst, src =>
    match buf[src]? with
    | none => none
    | some c =>
      if dst < buf.length then
        if c = 0 then some (buf.set dst c) else strcpyLoop fuel (buf.set dst c) (dst + 1) (src + 1)
      else none

/-- Every turn writes a byte, so that there are not more turns than bytes. -/
def strcpy (buf : Bytes) (dst src : Nat) : Option Bytes := strcpyLoop (buf.length + 1) buf dst src

section

variable {fuel dst src : Nat} {buf text : Bytes}

variable {c : UInt8}

end

end Pcbsd.Lib
