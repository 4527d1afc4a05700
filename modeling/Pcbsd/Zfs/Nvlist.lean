import Pcbsd.Lib.Bytes

/-! Looking up values in an XDR-encoded nvlist, boot/zfs/zfsimpl.c. Pointers are offsets into the
buffer that holds the list. A loop gets as many turns as the buffer has bytes, which no list of
pairs that lies in it can use up; on pairs that lead back to themselves the program hangs. -/

namespace Pcbsd.Zfs
open Lib

inductive DataType where
  | uint64
  | string
  | nvlist
  | nvlistArray
  deriving DecidableEq

def DataType.code : DataType → Nat
  | uint64 => 8
  | string => 9
  | nvlist => 19
  | nvlistArray => 20

def xdrUInt (bs : Bytes) (p : Nat) : Nat :=
  (bs.getD p 0).toNat * 2 ^ 24 + (bs.getD (p + 1) 0).toNat * 2 ^ 16 + (bs.getD (p + 2) 0).toNat * 2 ^ 8 +
    (bs.getD (p + 3) 0).toNat

def xdrInt (bs : Bytes) (p : Nat) : Int :=
  if xdrUInt bs p < 2 ^ 31 then xdrUInt bs p else (xdrUInt bs p : Int) - 2 ^ 32

def xdrUint64 (bs : Bytes) (p : Nat) : Nat := xdrUInt bs p * 2 ^ 32 + xdrUInt bs (p + 4)

def cString (bs : Bytes) (p : Nat) : Bytes := (bs.drop p).takeWhile (· ≠ 0)

/-- memcmp of a key with its terminating zero and the `namelen` bytes at `p`. A name that goes on
behind the zero differs from whatever follows the key in memory. -/
def sameName (bs : Bytes) (p : Nat) (namelen : Int) (name : Bytes) : Bool :=
  0 ≤ namelen && namelen ≤ name.length + 1 && slice p namelen.toNat bs == (name ++ [0]).take namelen.toNat

def roundup4 (n : Int) : Int := (n + 3).tdiv 4 * 4

def pairTypeAt (bs : Bytes) (pair : Nat) : Nat := (pair + 12 + roundup4 (xdrInt bs (pair + 8))).toNat

def pairEnd (bs : Bytes) (pair : Nat) : Bool := xdrInt bs pair = 0 || xdrInt bs (pair + 4) = 0

def nextPair (bs : Bytes) (pair : Nat) : Nat := (pair + xdrInt bs pair).toNat

def nvlistFindLoop (bs : Bytes) (name : Bytes) (type : DataType) : Nat → Nat → Option (Int × Nat)
  | 0, _ => none
  | fuel + 1, pair =>
    if pairEnd bs pair then none
    else
      let p := pairTypeAt bs pair
      if sameName bs (pair + 12) (xdrInt bs (pair + 8)) name ∧ xdrInt bs p = type.code then
        some (xdrInt bs (p + 4), p + 8)
      else nvlistFindLoop bs name type fuel (nextPair bs pair)

/-- nvlist_find up to the value: the number of elements and where the value stands, or none
for EIO. -/
def nvlistFind (bs : Bytes) (nvlist : Nat) (name : Bytes) (type : DataType) : Option (Int × Nat) :=
  nvlistFindLoop bs name type bs.length (nvlist + 8)

def nvlistFindUint64 (bs : Bytes) (nvlist : Nat) (name : Bytes) : Option Nat :=
  (nvlistFind bs nvlist name .uint64).map fun found => xdrUint64 bs found.2

def nvlistFindString (bs : Bytes) (nvlist : Nat) (name : Bytes) : Option Bytes :=
  (nvlistFind bs nvlist name .string).map fun found => cString bs (found.2 + 4)

def nvlistNextLoop (bs : Bytes) : Nat → Nat → Nat
  | 0, pair => pair + 8
  | fuel + 1, pair => if pairEnd bs pair then pair + 8 else nvlistNextLoop bs fuel (nextPair bs pair)

def nvlistNext (bs : Bytes) (nvlist : Nat) : Nat := nvlistNextLoop bs bs.length (nvlist + 8)

end Pcbsd.Zfs

/-! nvlist_find and nvlist_next of boot/zfs/zfsimpl.c with the bytes they read. Pointers are positions relative to the
start of the buffer and may leave it; a read outside ends a run, as nothing is known of what follows. Arbitrary bytes
can also keep a run going for ever, so that it ends only for some number of turns, if at all. -/

namespace Pcbsd.Zfs
open Lib

inductive Run (α : Type) where
  | goesOn
  | outside
  | done (result : α)
  deriving DecidableEq

def Inside (bs : Bytes) (q : Int) (n : Nat) : Prop := 0 ≤ q ∧ q + n ≤ bs.length

instance (bs : Bytes) (q : Int) (n : Nat) : Decidable (Inside bs q n) := inferInstanceAs (Decidable (_ ∧ _))

def byteAt (bs : Bytes) (q : Int) : Option UInt8 := if Inside bs q 1 then some (bs.getD q.toNat 0) else none

/-- The first xdr_int at `q`. -/
def xdrIntAt (bs : Bytes) (q : Int) : Option Int := if Inside bs q 4 then some (xdrInt bs q.toNat) else none

/-- An int as a size_t of the loaders, which are 32-bit programs. -/
def sizeT (n : Int) : Nat := (n % 2 ^ 32).toNat

/-- memcmp of `n` bytes of the memory from the queried name on and of those at `q`, both from their `i`th; it stops at
the first difference. -/
def memcmpAt (bs : Bytes) (name : Nat → UInt8) (q : Int) : Nat → Nat → Option Bool
  | 0, _ => some true
  | n + 1, i =>
    match byteAt bs (q + i) with
    | none => none
    | some b => if name i = b then memcmpAt bs name q n (i + 1) else some false

/-- The bytes of a value that are read behind its element count. -/
def valueSize (type : Int) : Nat :=
  if type = DataType.uint64.code then 8 else if type = DataType.string.code then 4 else 0

/-- A pair of the right name and type, whose type is at `p`. -/
def takeValue (bs : Bytes) (type p : Int) : Run (Option (Int × Int)) :=
  match xdrIntAt bs (p + 4) with
  | none => .outside
  | some elements =>
    if Inside bs (p + 8) (valueSize type) then
      .done (if type ∈ [(8 : Int), 9, 19, 20] then some (elements, p + 8) else none)
    else .outside

@[grind =] def nvlistFindTurns (bs : Bytes) (name : Nat → UInt8) (type : Int) : Nat → Int → Run (Option (Int × Int))
  | 0, _ => .goesOn
  | turns + 1, pair =>
    match xdrIntAt bs pair, xdrIntAt bs (pair + 4) with
    | some encoded, some decoded =>
      if encoded = 0 ∨ decoded = 0 then .done none
      else
        match xdrIntAt bs (pair + 8) with
        | none => .outside
        | some namelen =>
          let p := pair + 12 + roundup4 namelen
          match xdrIntAt bs p, memcmpAt bs name (pair + 12) (sizeT namelen) 0 with
          | some pairtype, some same =>
            if same ∧ type = pairtype then takeValue bs type p else nvlistFindTurns bs name type turns (pair + encoded)
          | _, _ => .outside
    | _, _ => .outside

/-- nvlist_find up to the value: the number of elements and where the value stands. -/
def nvlistFindRun (bs : Bytes) (nvlist : Int) (name : Nat → UInt8) (type : Int) (turns : Nat) : Run (Option (Int × Int)) :=
  if Inside bs nvlist 8 then nvlistFindTurns bs name type turns (nvlist + 8) else .outside

def nvlistNextTurns (bs : Bytes) : Nat → Int → Run Int
  | 0, _ => .goesOn
  | turns + 1, pair =>
    match xdrIntAt bs pair, xdrIntAt bs (pair + 4) with
    | some encoded, some decoded =>
      if encoded = 0 ∨ decoded = 0 then .done (pair + 8) else nvlistNextTurns bs turns (pair + encoded)
    | _, _ => .outside

def nvlistNextRun (bs : Bytes) (nvlist : Int) (turns : Nat) : Run Int :=
  if Inside bs nvlist 8 then nvlistNextTurns bs turns (nvlist + 8) else .outside

end Pcbsd.Zfs
