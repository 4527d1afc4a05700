import Pcbsd.Lib.Bytes

/-! The resource data of an ISA Plug and Play card, boot/common/isapnp.c, and the identifiers of a device,
boot/common/pnp.c. A string is its bytes, without the zero at the end. -/

namespace Pcbsd.Isapnp
open Lib

def compDeviceId : Nat := 0x3
def endTag : Nat := 0xF
def idStringAnsi : Nat := 0x2

def pnpResType (tag : UInt8) : Nat := tag.toNat / 128
def pnpSresNum (tag : UInt8) : Nat := tag.toNat / 8
def pnpSresLen (tag : UInt8) : Nat := tag.toNat % 8
def pnpLresNum (tag : UInt8) : Nat := tag.toNat % 128

/-- A card: the bytes of its resource data that are not read yet, each with the number of times that its status is
still read as not ready. -/
abbrev Card := List (Nat × UInt8)

/-- The STATUS register is read up to `polls` times, until it says that there is a byte. -/
def waitReady : Nat → Card → Option Card
  | 0, _ => none
  | _ + 1, [] => none
  | _ + 1, (0, byte) :: rest => some ((0, byte) :: rest)
  | polls + 1, (wait + 1, byte) :: rest => waitReady polls ((wait, byte) :: rest)

def readByte (card : Card) : Option (UInt8 × Card) :=
  (waitReady 100 card).bind fun ready => ready.head?.map fun next => (next.2, ready.tail)

/-- isapnp_get_resource_info; `none` when the card fails to report. -/
def getResourceInfo : Nat → Card → Option (Bytes × Card)
  | 0, card => some ([], card)
  | len + 1, card => (readByte card).bind fun next => (getResourceInfo len next.2).map fun more => (next.1 :: more.1, more.2)

structure Pnpinfo where
  desc : Option Bytes := none
  ident : List Bytes := []
  deriving DecidableEq

def addident (idents : List Bytes) (ident : Bytes) : List Bytes := if ident ∈ idents then idents else idents ++ [ident]

def pnpAddident (pi : Pnpinfo) (ident : Bytes) : Pnpinfo := { pi with ident := addident pi.ident ident }

def hextoascii (n : UInt8) : UInt8 := if n < 10 then 0x30 + n else 0x61 + (n - 10)

/-- The identifier in the format AAAIIRR, without the zero behind it. -/
def pnpEisaformat (data : Bytes) : Bytes :=
  let d0 := data.getD 0 0
  let d1 := data.getD 1 0
  let d2 := data.getD 2 0
  let d3 := data.getD 3 0
  let letter (n : UInt8) : UInt8 := 0x40 + n
  [letter ((d0 &&& 0x7C) >>> 2), letter (((d0 &&& 0x3) <<< 3) + ((d1 &&& 0xE0) >>> 5)), letter (d1 &&& 0x1F),
    hextoascii (d2 >>> 4), hextoascii (d2 &&& 0xF), hextoascii (d3 >>> 4), hextoascii (d3 &&& 0xF)]

/-- The loop of isapnp_scan_resdata, with the rounds that are left and the buffer resinfo: the value returned, and
what has been found. -/
@[grind =] def scanLoop : Nat → Bytes → Card → Pnpinfo → Nat × Pnpinfo
  | 0, _, _, pi => (1, pi)
  | limit + 1, resinfo, card, pi =>
    match readByte card with
    | none => (1, pi)
    | some (tag, card) =>
      if pnpResType tag = 0 then
        if pnpSresNum tag = compDeviceId then
          match getResourceInfo (pnpSresLen tag) card with
          | none => (1, pi)
          -- no break stands behind this case: it goes on into that of END_TAG
          | some (data, _) => (0, pnpAddident pi (pnpEisaformat (data ++ resinfo.drop data.length)))
        else if pnpSresNum tag = endTag then (0, pi)
        else
          match getResourceInfo (pnpSresLen tag) card with
          | none => (1, pi)
          | some (_, card) => scanLoop limit resinfo card pi
      else
        match getResourceInfo 2 card with
        | none => (1, pi)
        | some (lengths, card) =>
          match getResourceInfo (leNat lengths) card with
          | none => (1, pi)
          | some (data, card) =>
            let pi := if pnpLresNum tag = idStringAnsi ∧ pi.desc = none then { pi with desc := some data } else pi
            scanLoop limit (lengths ++ resinfo.drop 2) card pi

def scanResdata (resinfo : Bytes) (card : Card) (pi : Pnpinfo) : Nat × Pnpinfo := scanLoop 1000 resinfo card pi

end Pcbsd.Isapnp
