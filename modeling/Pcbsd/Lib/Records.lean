import Mathlib.Data.List.Pairwise
import Pcbsd.Lib.Memory

/-! Tagged records in memory: a 32-bit tag, a 32-bit size, and as many bytes, padded to a multiple of
`pad`. A record of tag zero and size zero ends them. -/

namespace Pcbsd.Records
open Lib Memory List

def roundup (x y : Nat) : Nat := (x + (y - 1)) / y * y

structure Record where
  tag : Nat
  data : Bytes
  deriving DecidableEq

/-- What fits into the two words in front of the bytes. -/
structure Record.Legal (record : Record) : Prop where
  tagged : record.tag ≠ 0
  tagFits : record.tag < 2 ^ 32
  sizeFits : record.data.length < 2 ^ 32

def Record.room (pad : Nat) (record : Record) : Nat := 8 + roundup record.data.length pad

def room (pad : Nat) (records : List Record) : Nat := (records.map (Record.room pad)).sum

/-- The records from `addr` on, and the address behind their end. -/
def read (pad : Nat) (mem : Mem) : (fuel : Nat) → (addr : Nat) → Option (List Record × Nat)
  | 0, _ => none
  | fuel + 1, addr =>
    let tag := leNat (bytesAt mem addr 4)
    let size := leNat (bytesAt mem (addr + 4) 4)
    if tag = 0 then if size = 0 then some ([], addr + 8) else none
    else (read pad mem fuel (addr + 8 + roundup size pad)).map fun (records,
      stop) => (⟨tag, bytesAt mem (addr + 8) size⟩ :: records, stop)

structure StoredRecord (mem : Mem) (addr : Nat) (record : Record) : Prop where
  tag : bytesAt mem addr 4 = toLe 4 record.tag
  size : bytesAt mem (addr + 4) 4 = toLe 4 record.data.length
  data : bytesAt mem (addr + 8) record.data.length = record.data

def Stored (pad : Nat) (mem : Mem) : Nat → List Record → Prop
  | _, [] => True
  | addr, record :: records => StoredRecord mem addr record ∧ Stored pad mem (addr + record.room pad) records

variable {pad : Nat} {mem mem' : Mem} {addr : Nat}

theorem le_roundup (x : Nat) {y : Nat} (positive : 0 < y) : x ≤ roundup x y := by
  have division := Nat.div_add_mod (x + (y - 1)) y
  have small := Nat.mod_lt (x + (y - 1)) positive
  rw [Nat.mul_comm] at division
  rw [roundup]
  omega

@[simp] theorem room_nil : room pad [] = 0 := rfl

@[simp] theorem room_cons (record : Record) (records : List Record) :
    room pad (record :: records) = record.room pad + room pad records := rfl

theorem room_append (front back : List Record) : room pad (front ++ back) = room pad front + room pad back := by
  rw [room, map_append, sum_append]
  rfl

theorem Record.length_le_room (positive : 0 < pad) (record : Record) : 8 + record.data.length ≤ record.room pad :=
  Nat.add_le_add_left (le_roundup record.data.length positive) 8

theorem length_le_room (records : List Record) : records.length ≤ room pad records := by
  induction records with
  | nil => exact Nat.le_refl 0
  | cons _ records _ =>
    rw [length_cons, room_cons, Record.room]
    omega

variable {records : List Record} {record : Record}

theorem StoredRecord.congr (stored : StoredRecord mem addr record)
    (same : ∀ a, addr ≤ a → a < addr + 8 + record.data.length → mem' a = mem a) : StoredRecord mem' addr record := by
  refine ⟨?_, ?_, ?_⟩
  · rw [← stored.tag]
    exact bytesAt_congr fun a low high => same a low (by omega)
  · rw [← stored.size]
    exact bytesAt_congr fun a low high => same a (by omega) (by omega)
  · conv_rhs => rw [← stored.data]
    exact bytesAt_congr fun a low high => same a (by omega) high

theorem Stored.congr (positive : 0 < pad) (stored : Stored pad mem addr records)
    (same : ∀ a, addr ≤ a → a < addr + room pad records → mem' a = mem a) : Stored pad mem' addr records := by
  induction records generalizing addr with
  | nil => trivial
  | cons record records ih =>
    have length := record.length_le_room positive
    rw [room_cons] at same
    refine ⟨stored.1.congr fun a low high => same a low (by omega), ih stored.2 fun a low high => same a ?_ ?_⟩
    · omega
    · omega

theorem read_record (legal : record.Legal) (stored : StoredRecord mem addr record) (fuel : Nat) :
    read pad mem (fuel + 1) addr =
      (read pad mem fuel (addr + record.room pad)).map fun (records, stop) => (record :: records, stop) := by
  rw [read, stored.tag, stored.size, leNat_toLe 4 record.tag legal.tagFits,
    leNat_toLe 4 record.data.length legal.sizeFits, if_neg legal.tagged, stored.data, Record.room, Nat.add_assoc]

theorem read_stored (legal : ∀ record ∈ records, record.Legal) (stored : Stored pad mem addr records) (fuel : Nat) :
    read pad mem (records.length + fuel) addr =
      (read pad mem fuel (addr + room pad records)).map fun (rest, stop) => (records ++ rest, stop) := by
  induction records generalizing addr with
  | nil =>
    rw [length_nil, Nat.zero_add, room_nil, Nat.add_zero]
    cases read pad mem fuel addr <;> rfl
  | cons record records ih =>
    rw [length_cons, Nat.add_right_comm, read_record (legal record mem_cons_self) stored.1,
      ih (fun other member => legal other (mem_cons_of_mem record member)) stored.2, Option.map_map, room_cons, Nat.add_assoc]
    rfl

theorem read_end (tag : bytesAt mem addr 4 = toLe 4 0) (fuel : Nat) :
    read pad mem (fuel + 1) addr = if leNat (bytesAt mem (addr + 4) 4) = 0 then some ([], addr + 8) else none := by
  rw [read, tag, leNat_toLe 4 0 (by omega), if_pos rfl]

end Pcbsd.Records

/-! Requests for aligned room that are placed one behind the other. -/

namespace Pcbsd.Lib.Placement
open Records List

variable {α : Type}

structure Request (α : Type) where
  label : α
  align : Nat
  size : Nat
  deriving DecidableEq

def places : Nat → List (Request α) → List (Request α × Nat)
  | _, [] => []
  | start, r :: rest => (r, roundup start r.align) :: places (roundup start r.align + r.size) rest

def finish : Nat → List (Request α) → Nat
  | start, [] => start
  | start, r :: rest => finish (roundup start r.align + r.size) rest

variable {start : Nat} {requests : List (Request α)} {place : Request α × Nat}

theorem roundup_dvd (x y : Nat) : y ∣ roundup x y := Dvd.intro_left _ rfl

theorem le_finish (positive : ∀ r ∈ requests, 0 < r.align) : start ≤ finish start requests := by
  induction requests generalizing start with
  | nil => exact Nat.le_refl start
  | cons r _ ih =>
    have later : roundup start r.align + r.size ≤ _ := ih fun other there => positive other (mem_cons_of_mem _ there)
    have up := le_roundup start (positive r mem_cons_self)
    rw [finish]
    omega

theorem places_inside (positive : ∀ r ∈ requests, 0 < r.align) (there : place ∈ places start requests) :
    start ≤ place.2 ∧ place.2 + place.1.size ≤ finish start requests := by
  induction requests generalizing start with
  | nil => exact absurd there not_mem_nil
  | cons r rest ih =>
    have up := le_roundup start (positive r mem_cons_self)
    have behind : ∀ other ∈ rest, 0 < other.align := fun other there => positive other (mem_cons_of_mem _ there)
    rcases mem_cons.mp there with rfl | later
    · exact ⟨up, le_finish behind⟩
    · have inside := ih behind later
      rw [finish]
      omega

theorem places_aligned (there : place ∈ places start requests) : place.1.align ∣ place.2 := by
  induction requests generalizing start with
  | nil => exact absurd there not_mem_nil
  | cons _ _ ih =>
    rcases mem_cons.mp there with rfl | later
    · exact roundup_dvd _ _
    · exact ih later

theorem places_request (there : place ∈ places start requests) : place.1 ∈ requests := by
  induction requests generalizing start with
  | nil => exact absurd there not_mem_nil
  | cons _ _ ih =>
    rcases mem_cons.mp there with rfl | later
    · exact mem_cons_self
    · exact mem_cons_of_mem _ (ih later)

theorem places_map (start : Nat) (requests : List (Request α)) : (places start requests).map Prod.fst = requests := by
  induction requests generalizing start with
  | nil => rfl
  | cons _ _ ih => rw [places, map_cons, ih]

theorem places_ordered (positive : ∀ r ∈ requests, 0 < r.align) :
    (places start requests).Pairwise fun before after => before.2 + before.1.size ≤ after.2 := by
  induction requests generalizing start with
  | nil => exact List.Pairwise.nil
  | cons r rest ih =>
    have behind : ∀ other ∈ rest, 0 < other.align := fun other there => positive other (mem_cons_of_mem _ there)
    exact pairwise_cons.mpr ⟨fun after there => (places_inside behind there).1, ih behind⟩

theorem places_apart (positive : ∀ r ∈ requests, 0 < r.align) {other : Request α × Nat}
    (here : place ∈ places start requests) (there : other ∈ places start requests) (different : place ≠ other) :
    place.2 + place.1.size ≤ other.2 ∨ other.2 + other.1.size ≤ place.2 := by
  have symmetric : (places start requests).Pairwise fun place other =>
      place.2 + place.1.size ≤ other.2 ∨ other.2 + other.1.size ≤ place.2 := (places_ordered positive).imp .inl
  have : Std.Symm fun place other : Request α × Nat => place.2 + place.1.size ≤ other.2 ∨
    other.2 + other.1.size ≤ place.2 :=
    ⟨fun _ _ => Or.symm⟩
  exact symmetric.forall here there different

end Pcbsd.Lib.Placement
