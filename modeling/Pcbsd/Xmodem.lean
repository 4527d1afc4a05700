import Pcbsd.Lib.Memory

/-! The XMODEM receiver of the AT91 boot loader, boot/arm/at91/libat91/xmodem.c. A char is unsigned on this processor,
and an address does not wrap. -/

namespace Pcbsd.Xmodem
open Lib Memory

def PACKET_SIZE : Nat := 128
def SOH : UInt8 := 0x01
def ACK : UInt8 := 0x06
def CAN : UInt8 := 0x18
def EOT : UInt8 := 0x04

/-- What one getc after the other finds on the line, a byte or nothing in its time; behind the end of the list the
line is silent. -/
abbrev Line := List (Option UInt8)

/-- What is still to come on the line, the memory of the board, and what putchar sent. -/
structure Port where
  line : Line
  memory : Mem
  sent : Bytes

namespace Port
variable (s : Port)

def getc : Option UInt8 × Port := (s.line.head?.join, { s with line := s.line.tail })

def putchar (c : UInt8) : Port := { s with sent := s.sent ++ [c] }

/-- The body of the loop over the bits of a byte. -/
def chkBit (chk : BitVec 32) : BitVec 32 := if chk.getLsbD 15 then chk <<< 1 ^^^ 0x1021 else chk <<< 1

def chkByte (chk : BitVec 32) (ch : UInt8) : BitVec 32 := chkBit^[8] (chk ^^^ ch.toBitVec.setWidth 32 <<< 8)

/-- The loop of GetRecord over the `n` bytes that are missing. -/
def getData : Nat → Nat → BitVec 32 → Port → Option (BitVec 32) × Port
  | 0, _, chk, s => (some chk, s)
  | n + 1, dest, chk, s =>
    match s.getc with
    | (none, s) => (none, s)
    | (some ch, s) => getData n (dest + 1) (chkByte chk ch) { s with memory := write s.memory dest [ch] }

def getRecord (blocknum : UInt8) (dest : Nat) : Bool × Port :=
  let err (s : Port) := (false, s.putchar CAN)
  let (ch, s) := s.getc
  if ch ≠ some blocknum then err s
  else
    let (ch, s) := s.getc
    if ch ≠ some (~~~blocknum) then err s
    else
      let (chk, s) := s.getData PACKET_SIZE dest 0
      match chk with
      | none => err s
      | some chk =>
        let (ch, s) := s.getc
        if ch ≠ some (UInt8.ofNat (chk >>> 8).toNat) then err s
        else
          let (ch, s) := s.getc
          if ch ≠ some (UInt8.ofNat chk.toNat) then err s else (true, s.putchar ACK)

/-- The loop of xmodem_rx; without a result it is still in its loop after these turns. -/
def rxLoop (startAddress : Nat) : Nat → Bool → UInt8 → Nat → Port → Option Int × Port
  | 0, _, _, _, s => (none, s)
  | fuel + 1, starting, packetNumber, dest, s =>
    let s := if starting then s.putchar 'C'.toUInt8 else s
    let (ch, s) := s.getc
    if ch ≠ some SOH ∧ ch ≠ some EOT then rxLoop startAddress fuel starting packetNumber dest s
    else if ch = some EOT then (some (dest - startAddress), s.putchar ACK)
    else
      let (received, s) := s.getRecord packetNumber dest
      if received then rxLoop startAddress fuel false (packetNumber + 1) (dest + PACKET_SIZE) s else (some (-1), s)

/-- xmodem_rx until the line is silent; every turn before takes something off the line. -/
def xmodemRx (dest : Nat) : Option Int × Port := rxLoop dest s.line.length true 1 dest s

end Port

end Pcbsd.Xmodem
