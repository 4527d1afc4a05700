import Mathlib.Tactic.Ring
import Pcbsd.Proofs.HintScan

/-! The records of a well-formed linker.hints file, and how the loop of mod_search_hints reads them. -/

namespace Pcbsd.Preload
open Lib List Option

def ByteOrder.bytes (order : ByteOrder) (n : Int) : Bytes :=
  match order with
  | .little => toLe 4 (n % 2 ^ 32).toNat
  | .big => (toLe 4 (n % 2 ^ 32).toNat).reverse

/-- A record of type MDT_VERSION. The gap fills the module name up to the next int, the tail the file
name up to the next record. -/
structure VersionRecord where
  modname : Bytes
  gap : Bytes
  version : Int
  kld : Bytes
  tail : Bytes
  shortName : modname.length < 256
  shortKld : kld.length < 256
  gapAligned : (9 + modname.length + gap.length) % 4 = 0
  gapShort : gap.length < 4
  tailAligned : (1 + kld.length + tail.length) % 4 = 0
  positive : 0 < version
  fits : version < 2 ^ 31

structure OtherRecord where
  type : Int
  payload : Bytes
  different : type ≠ mdtVersion
  atLeast : -2 ^ 31 ≤ type
  atMost : type < 2 ^ 31
  aligned : payload.length % 4 = 0

inductive HintRecord where
  | version (record : VersionRecord)
  | other (record : OtherRecord)

section

variable (order : ByteOrder)

def VersionRecord.body (record : VersionRecord) : Bytes :=
  order.bytes mdtVersion ++
    ([UInt8.ofNat record.modname.length] ++ (record.modname ++ (record.gap ++ (order.bytes record.version ++
    ([UInt8.ofNat record.kld.length] ++ (record.kld ++ record.tail))))))

def HintRecord.body : HintRecord → Bytes
  | .version record => record.body order
  | .other record => order.bytes record.type ++ record.payload

def HintRecord.encode (record : HintRecord) : Bytes := order.bytes (record.body order).length ++ record.body order

def encodeAll (records : List HintRecord) : Bytes := records.flatMap (HintRecord.encode order)

end

def VersionRecord.kldPlace (record : VersionRecord) : Nat := 14 + record.modname.length + record.gap.length

def HintRecord.offer (modname : Bytes) : HintRecord → Option (Int × Bytes)
  | .version record => if record.modname = modname then some (record.version, record.kld) else none
  | .other _ => none

def offers (modname : Bytes) (records : List HintRecord) : List (Int × Bytes) :=
  records.filterMap (HintRecord.offer modname)

section

variable {w : Nat} {hints : Hints w} {order : ByteOrder}

@[simp] theorem length_bytes (n : Int) : (order.bytes n).length = 4 := by
  cases order <;> simp [ByteOrder.bytes]

theorem int_bytes {n : Int} (low : -2 ^ 31 ≤ n) (high : n < 2 ^ 31) : order.int (order.bytes n) = n := by
  have small : (n % 2 ^ 32).toNat < 256 ^ 4 := by omega
  have same : Int.bmod (n % 2 ^ 32) (2 ^ 32) = Int.bmod n (2 ^ 32) := Int.emod_bmod ..
  have value : Int.bmod ((n % 2 ^ 32).toNat : Int) (2 ^ 32) = n := by
    rw [Int.toNat_of_nonneg (Int.emod_nonneg _ (by decide)), same]
    exact Int.bmod_eq_of_le (by omega) (by omega)
  have stored := leNat_toLe 4 _ small
  cases order with
  | little =>
    dsimp only [ByteOrder.int, ByteOrder.bytes]
    rw [stored]
    exact value
  | big =>
    dsimp only [ByteOrder.int, ByteOrder.bytes]
    rw [reverse_reverse, stored]
    exact value

theorem length_body (record : HintRecord) : (record.body order).length % 4 = 0 ∧ 4 ≤ (record.body order).length := by
  cases record with
  | version record =>
    have gapAligned := record.gapAligned
    have tailAligned := record.tailAligned
    simp only [HintRecord.body, VersionRecord.body, length_append, length_bytes, length_singleton]
    omega
  | other record =>
    have aligned := record.aligned
    simp only [HintRecord.body, length_append, length_bytes]
    omega

theorem length_encode (record : HintRecord) : (record.encode order).length = 4 + (record.body order).length := by
  rw [HintRecord.encode, length_append, length_bytes]

theorem range_part {p : Nat} {front xs back : Bytes} (placed : At hints.bytes p (front ++ (xs ++ back)))
    (inside : p + (front ++ (xs ++ back)).length ≤ hints.bytes.length) {at' : Int}
    (place : at' = (p + front.length : Nat)) :
    hints.range at' xs.length = some xs := by
  rw [length_append, length_append] at inside
  rw [Hints.range, Hints.size, place, if_pos ⟨by omega, by omega⟩, Int.toNat_natCast]
  exact congrArg some (at_append.mp (at_append.mp placed).2).1.slice

theorem int_part {p : Nat} {front back : Bytes} {n : Int} (low : -2 ^ 31 ≤ n) (high : n < 2 ^ 31)
    (placed : At hints.bytes p (front ++ (order.bytes n ++ back)))
    (inside : p + (front ++ (order.bytes n ++ back)).length ≤ hints.bytes.length)
    {at' : Int} (place : at' = (p + front.length : Nat)) : hints.int order at' = some n := by
  have read := range_part placed inside place
  rw [length_bytes] at read
  rw [Hints.int, read, map_some, int_bytes low high]

theorem char_part {p m : Nat} {front back : Bytes} (small : m < 256)
    (placed : At hints.bytes p (front ++ ([UInt8.ofNat m] ++ back)))
    (inside : p + (front ++ ([UInt8.ofNat m] ++ back)).length ≤ hints.bytes.length) {at' : Int}
    (place : at' = (p + front.length : Nat)) :
    hints.char at' = some m := by
  have read := range_part placed inside place
  rw [length_singleton] at read
  rw [Hints.char, read, map_some, leNat, leNat, UInt8.toNat_ofNat', Nat.mod_eq_of_lt small]
  rfl

variable {record : HintRecord} {p : Nat}

theorem length_record (placed : At hints.bytes p (record.encode order))
    (inside : p + (record.encode order).length ≤ hints.bytes.length) :
    hints.int order p = some ((record.body order).length : Int) := by
  have most := hints.most
  have length := @length_encode order record
  rw [length] at inside
  refine @int_part _ _ _ p [] (record.body order) (record.body order).length (by omega) (by omega) placed ?_ _ rfl
  rw [nil_append, length_append, length_bytes]
  exact inside

theorem follow_record (placed : At hints.bytes p (record.encode order))
    (inside : p + (record.encode order).length ≤ hints.bytes.length) :
    hints.follow order p = some ((p + (record.encode order).length : Nat) : Int) := by
  have room := hints.room
  have power : ((2 ^ w : Nat) : Int) = 2 ^ w := by push_cast; rfl
  rw [Hints.follow, length_record placed inside, map_some, Hints.advance]
  rw [length_encode] at inside ⊢
  rw [Int.emod_eq_of_lt (by omega) (by omega)]
  congr 1
  push_cast
  ring

theorem entry_other {other : OtherRecord} (placed : At hints.bytes p ((HintRecord.other other).encode order))
    (inside : p + ((HintRecord.other other).encode order).length ≤ hints.bytes.length) (modname : Bytes) :
    hints.entry order modname p = some none := by
  have kind : hints.int order (p + 4) = some other.type :=
    int_part other.atLeast other.atMost placed inside (by rw [length_bytes]; rfl)
  rw [Hints.entry, length_record placed inside, kind]
  simp only [bind_eq_bind, bind_some]
  rw [if_pos other.different]

theorem entry_version {version : VersionRecord}
    (placed : At hints.bytes p ((HintRecord.version version).encode order))
    (inside : p + ((HintRecord.version version).encode order).length ≤ hints.bytes.length) (aligned : p % 4 = 0)
    (modname : Bytes) :
    hints.entry order modname p = (if version.modname = modname then
        some (some (version.version, ((p + version.kldPlace : Nat) : Int), version.kld.length)) else some none) ∧
      hints.range (p + version.kldPlace : Nat) version.kld.length = some version.kld := by
  have gapAligned := version.gapAligned
  have gapShort := version.gapShort
  -- the record, cut in front of each field that is read
  have whole : (HintRecord.version version).encode order =
    order.bytes ((HintRecord.version version).body order).length ++ version.body order := rfl
  rw [VersionRecord.body] at whole
  generalize ((HintRecord.version version).body order).length = reclen at whole
  have cutChar : (HintRecord.version version).encode order = (order.bytes reclen ++ order.bytes mdtVersion) ++
      ([UInt8.ofNat version.modname.length] ++ (version.modname ++ (version.gap ++ (order.bytes version.version ++
        ([UInt8.ofNat version.kld.length] ++ (version.kld ++ version.tail)))))) := by
    rw [whole, append_assoc]
  have cutName : (HintRecord.version version).encode order =
      (order.bytes reclen ++ (order.bytes mdtVersion ++ [UInt8.ofNat version.modname.length])) ++ (version.modname ++
        (version.gap ++ (order.bytes version.version ++
        ([UInt8.ofNat version.kld.length] ++ (version.kld ++ version.tail))))) := by
    rw [whole, append_assoc, append_assoc]
  have cutVersion : (HintRecord.version version).encode order =
      (order.bytes reclen ++ (order.bytes mdtVersion ++
        ([UInt8.ofNat version.modname.length] ++ (version.modname ++ version.gap)))) ++
        (order.bytes version.version ++ ([UInt8.ofNat version.kld.length] ++ (version.kld ++ version.tail))) := by
    rw [whole, append_assoc, append_assoc, append_assoc, append_assoc]
  have cutLen : (HintRecord.version version).encode order = (order.bytes reclen ++ (order.bytes mdtVersion ++
      ([UInt8.ofNat version.modname.length] ++ (version.modname ++ (version.gap ++ order.bytes version.version))))) ++
        ([UInt8.ofNat version.kld.length] ++ (version.kld ++ version.tail)) := by
    rw [whole, append_assoc, append_assoc, append_assoc, append_assoc, append_assoc]
  have cutKld : (HintRecord.version version).encode order = (order.bytes reclen ++ (order.bytes mdtVersion ++
      ([UInt8.ofNat version.modname.length] ++ (version.modname ++ (version.gap ++ (order.bytes version.version ++
        [UInt8.ofNat version.kld.length])))))) ++ (version.kld ++ version.tail) := by
    rw [whole, append_assoc, append_assoc, append_assoc, append_assoc, append_assoc, append_assoc]
  have kind : hints.int order (p + 4) = some mdtVersion :=
    int_part (by decide) (by decide) placed inside (by rw [length_bytes]; rfl)
  have clen : hints.char (p + 8) = some version.modname.length :=
    char_part version.shortName (cutChar ▸ placed) (cutChar ▸ inside) (by simp)
  have name : hints.range (p + 9) version.modname.length = some version.modname :=
    range_part (cutName ▸ placed) (cutName ▸ inside) (by simp)
  have place : intAlign (p + 9 + version.modname.length) =
    ((p + (9 + version.modname.length + version.gap.length) : Nat) : Int) := by
    rw [intAlign]
    omega
  have ival : hints.int order (intAlign (p + 9 + version.modname.length)) = some version.version := by
    refine int_part (by have := version.positive; omega) version.fits (cutVersion ▸ placed) (cutVersion ▸ inside)
      (place.trans ?_)
    simp
    omega
  have len : hints.char (intAlign (p + 9 + version.modname.length) + 4) = some version.kld.length := by
    refine char_part version.shortKld (cutLen ▸ placed) (cutLen ▸ inside) (place ▸ ?_)
    simp
    omega
  refine ⟨?_, range_part (cutKld ▸ placed) (cutKld ▸ inside) ?_⟩
  · rw [Hints.entry, length_record placed inside, kind]
    simp only [bind_eq_bind, bind_some]
    rw [if_neg (not_not.mpr rfl), clen]
    simp only [bind_some]
    by_cases ours : version.modname = modname
    · rw [if_neg (not_not.mpr (congrArg length ours)), name]
      simp only [bind_some]
      rw [if_neg (not_not.mpr ours), if_pos ours, ival, len, place]
      simp [VersionRecord.kldPlace]
      omega
    · rw [if_neg ours]
      by_cases same : version.modname.length = modname.length
      · rw [if_neg (not_not.mpr same), name]
        simp only [bind_some]
        rw [if_pos ours]
      · rw [if_pos same]
  · simp [VersionRecord.kldPlace]
    omega

variable (order) in
def starts : Nat → List HintRecord → List Int
  | _, [] => []
  | p, record :: records => (p : Int) :: starts (p + (record.encode order).length) records

variable (order) in
theorem encodeAll_cons (record : HintRecord) (records : List HintRecord) :
    encodeAll order (record :: records) = record.encode order ++ encodeAll order records := flatMap_cons

variable (order) in
theorem encodeAll_append (front back : List HintRecord) :
    encodeAll order (front ++ back) = encodeAll order front ++ encodeAll order back :=
  flatMap_append

theorem length_encode_aligned (record : HintRecord) :
    (record.encode order).length % 4 = 0 ∧ 0 < (record.encode order).length := by
  have body := @length_body order record
  rw [length_encode]
  omega

theorem length_encodeAll (records : List HintRecord) : (encodeAll order records).length % 4 = 0 := by
  induction records with
  | nil => rfl
  | cons record records _ =>
    have size := @length_encode_aligned order record
    rw [encodeAll_cons, length_append]
    omega

theorem length_starts (p : Nat) (records : List HintRecord) : (starts order p records).length = records.length := by
  induction records generalizing p with
  | nil => rfl
  | cons _ records ih => rw [starts, length_cons, ih, length_cons]

theorem offers_append (modname : Bytes) (front back : List HintRecord) :
    offers modname (front ++ back) = offers modname front ++ offers modname back := filterMap_append

theorem entry_record (placed : At hints.bytes p (record.encode order))
    (inside : p + (record.encode order).length ≤ hints.bytes.length) (aligned : p % 4 = 0) (modname : Bytes) :
    ∃ said, hints.entry order modname p = some said ∧
      said.map (fun item => (item.1, hints.range item.2.1 item.2.2)) = (record.offer modname).map fun offer =>
        (offer.1, some offer.2) := by
  cases record with
  | other other => exact ⟨none, entry_other placed inside modname, rfl⟩
  | version version =>
    obtain ⟨said, kld⟩ := entry_version placed inside aligned modname
    rw [HintRecord.offer]
    by_cases ours : version.modname = modname
    · rw [if_pos ours] at said ⊢
      exact ⟨_, said, by rw [map_some, map_some, kld]⟩
    · rw [if_neg ours] at said ⊢
      exact ⟨_, said, rfl⟩

/-- Records in a row: each leads to the next, what they say about the module is what they offer, and
all are passed if none is wanted. -/
theorem records_laid {records : List HintRecord} (placed : At hints.bytes p (encodeAll order records))
    (inside : p + (encodeAll order records).length ≤ hints.bytes.length) (aligned : p % 4 = 0) (modname : Bytes)
    (verinfo : Option ModDepend) :
    Leads hints order p (starts order p records) (p + (encodeAll order records).length : Nat) ∧
      (entries hints order modname (starts order p records)).map (fun item => (item.1, hints.range item.2.1 item.2.2)) =
        (offers modname records).map (fun offer => (offer.1, some offer.2)) ∧
      ((∀ offer ∈ offers modname records, ¬Wanted verinfo offer.1) → ∀ o ∈ starts order p records,
      Passed hints order modname verinfo o) := by
  induction records generalizing p with
  | nil => exact ⟨.done _, rfl, fun _ o member => absurd member not_mem_nil⟩
  | cons record records ih =>
    have size := @length_encode_aligned order record
    rw [encodeAll_cons] at placed inside ⊢
    rw [length_append] at inside ⊢
    obtain ⟨here, later⟩ := at_append.mp placed
    obtain ⟨leads, said, passed⟩ := ih later (by omega) (by omega)
    obtain ⟨item, entry, offer⟩ := entry_record here (by omega) aligned modname
    have behind : p + ((record.encode order).length + (encodeAll order records).length) =
      p + (record.encode order).length + (encodeAll order records).length := by omega
    rw [starts, behind]
    refine ⟨.step (follow_record here (by omega)) leads, ?_, fun unwanted o member => ?_⟩
    · cases item with
      | none =>
        have nothing : record.offer modname = none := by simpa using offer.symm
        rw [entries_skipped entry, said, offers, offers, filterMap_cons_none nothing]
      | some item =>
        obtain ⟨found, offered, same⟩ := map_eq_some_iff.mp offer.symm
        rw [entries_said entry, map_cons, said, offers, offers, filterMap_cons_some offered, map_cons, same]
    · rcases mem_cons.mp member with rfl | further
      · refine ⟨by rw [Hints.size]; omega, item, entry, fun one is wanted => ?_⟩
        obtain rfl : item = some one := is
        obtain ⟨found, offered, same⟩ := map_eq_some_iff.mp offer.symm
        refine unwanted found (mem_filterMap.mpr ⟨record, mem_cons_self, offered⟩) ?_
        rw [show found.1 = one.1 from congrArg Prod.fst same]
        exact wanted
      · refine passed (fun found member => unwanted found ?_) o further
        obtain ⟨source, listed, offered⟩ := mem_filterMap.mp member
        exact mem_filterMap.mpr ⟨source, mem_cons_of_mem _ listed, offered⟩

end

end Pcbsd.Preload
