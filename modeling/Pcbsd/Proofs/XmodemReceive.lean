import Pcbsd.Lib.BitSerial
import Pcbsd.Xmodem

/-! What the XMODEM receiver takes for a transmission: records of 128 bytes in order, each with its CRC-16, and noise
between them. -/

namespace Pcbsd.Xmodem
open Lib BitSerial Memory List Port

variable {blocknum c : UInt8} {dest n start fuel : Nat} {chk : BitVec 32} {line rest : Line} {mem : Mem}
    {sent data : Bytes} {s s' : Port}
  {starting : Bool}

/-- The bits of bytes in the order of the check, each byte from its highest bit on. -/
def msbFirst (data : Bytes) : List Bool := data.flatMap fun c => (range 8).map c.toBitVec.getMsbD

theorem msbFirst_append (data data' : Bytes) : msbFirst (data ++ data') = msbFirst data ++ msbFirst data' :=
  flatMap_append

/-- The CRC-16 by x^16 + x^12 + x^5 + 1, the highest power in front. -/
def crc16 (data : Bytes) : BitVec 16 := (serial 0x8408 (msbFirst data) 0).reverse

/-- The sixteen bits of chk that count, in the order of a bit serial register. -/
def register (chk : BitVec 32) : BitVec 16 := (chk.setWidth 16).reverse

theorem getLsbD_register (chk : BitVec 32) (i : Nat) :
    (register chk).getLsbD i = (decide (i < 16) && chk.getLsbD (15 - i)) := by
  rw [register, BitVec.getLsbD_reverse, BitVec.getMsbD_eq_getLsbD, BitVec.getLsbD_setWidth,
    decide_eq_true (by omega : 16 - 1 - i < 16), Bool.true_and]

theorem register_xor (x y : BitVec 32) : register (x ^^^ y) = register x ^^^ register y := by
  apply BitVec.eq_of_getLsbD_eq
  intro i inside
  simp only [getLsbD_register, BitVec.getLsbD_xor, inside, decide_true, Bool.true_and]

theorem register_shift (chk : BitVec 32) : register (chk <<< 1) = register chk >>> 1 := by
  apply BitVec.eq_of_getLsbD_eq
  intro i inside
  grind [getLsbD_register]

theorem register_chkBit (chk : BitVec 32) : register (chkBit chk) = turn 0x8408 (register chk) := by
  rw [chkBit, turn, feed, Bool.xor_false, getLsbD_register]
  split
  next set => rw [register_xor, register_shift, if_pos (by simpa using set)]; rfl
  next clear => rw [register_shift, if_neg (by simpa using clear)]

theorem register_byte (c : UInt8) :
    register (c.toBitVec.setWidth 32 <<< 8) = BitVec.ofNat 16 c.toBitVec.reverse.toNat := by
  apply BitVec.eq_of_getLsbD_eq
  intro i inside
  simp only [getLsbD_register, BitVec.getLsbD_ofNat, BitVec.testBit_toNat, BitVec.getLsbD_reverse,
    BitVec.getMsbD_eq_getLsbD, BitVec.getLsbD_shiftLeft, BitVec.getLsbD_setWidth]
  grind

theorem serial_byte (c : UInt8) (reg : BitVec 16) :
    serial 0x8408 ((range 8).map c.toBitVec.getMsbD) reg =
      (turn 0x8408)^[8] (reg ^^^ BitVec.ofNat 16 c.toBitVec.reverse.toNat) := by
  rw [← serial_bits 0x8408 (by decide) c.toBitVec.reverse.isLt, bits_eq_map]
  congr 2
  funext i
  rw [BitVec.testBit_toNat, BitVec.getLsbD_reverse]

theorem register_chkByte (chk : BitVec 32) (c : UInt8) :
    register (chkByte chk c) = serial 0x8408 ((range 8).map c.toBitVec.getMsbD) (register chk) := by
  have bitwise (k : Nat) (chk : BitVec 32) : register (chkBit^[k] chk) = (turn 0x8408)^[k] (register chk) :=
    Function.Semiconj.iterate_right register_chkBit k chk
  rw [chkByte, bitwise, register_xor, register_byte, serial_byte]

/-- The bits of chk that the receiver compares are the CRC-16; those above them are left over from the shifts. -/
theorem setWidth_chk (data : Bytes) : (data.foldl chkByte 0).setWidth 16 = crc16 data := by
  have whole (chk : BitVec 32) : register (data.foldl chkByte chk) = serial 0x8408 (msbFirst data) (register chk) := by
    induction data generalizing chk with
    | nil => rfl
    | cons _ data ih => rw [foldl_cons, ih, register_chkByte, msbFirst, msbFirst, flatMap_cons, serial_append]
  rw [crc16, show (0 : BitVec 16) = register 0 from rfl, ← whole, register, BitVec.reverse_reverse_eq]

/-- The CRC-16 as it stands on the line. -/
def check (data : Bytes) : Bytes := toBe 2 (crc16 data).toNat

/-- What stands on the line behind the SOH of a record. -/
def record (blocknum : UInt8) (data crc : Bytes) : Line := (blocknum :: ~~~blocknum :: data ++ crc).map some

theorem check_eq (data : Bytes) :
    check data = [UInt8.ofNat (data.foldl chkByte 0 >>> 8).toNat, UInt8.ofNat (data.foldl chkByte 0).toNat] := by
  have high (x : Nat) : UInt8.ofNat (x % 2 ^ 16 / 256) = UInt8.ofNat (x >>> 8) := by
    rw [← UInt8.toNat_inj, UInt8.toNat_ofNat', UInt8.toNat_ofNat', Nat.shiftRight_eq_div_pow]
    omega
  have low (x : Nat) : UInt8.ofNat (x % 2 ^ 16) = UInt8.ofNat x := by
    rw [← UInt8.toNat_inj, UInt8.toNat_ofNat', UInt8.toNat_ofNat']
    omega
  rw [check, ← setWidth_chk, BitVec.toNat_setWidth, BitVec.toNat_ushiftRight, ← high, ← low (foldl chkByte 0 data).toNat]
  rfl

theorem getData_reads (data : Bytes) :
    getData data.length dest chk ⟨data.map some ++ rest, mem, sent⟩ =
      (some (data.foldl chkByte chk), ⟨rest, write mem dest data, sent⟩) := by
  induction data generalizing dest chk mem with
  | nil => rw [length_nil, getData, write_same rfl]; rfl
  | cons c data ih =>
    have moved := write_append mem dest [c] data
    rw [← singleton_append, ← moved]
    exact ih

theorem getData_sound {chk' : BitVec 32} (got : getData n dest chk s = (some chk', s')) :
    ∃ data : Bytes, data.length = n ∧ s.line = data.map some ++ s'.line ∧ chk' = data.foldl chkByte chk := by
  induction n generalizing dest chk s with
  | zero =>
    cases got
    exact ⟨[], rfl, rfl, rfl⟩
  | succ n ih =>
    rcases s with ⟨_ | ⟨_ | c, line⟩, _, _⟩
    · cases got
    · cases got
    · obtain ⟨data, length, same, sum⟩ := ih got
      exact ⟨c :: data, congrArg (· + 1) length, congrArg (some c :: ·) same, sum⟩

theorem getRecord_record (full : data.length = PACKET_SIZE) :
    getRecord ⟨record blocknum data (check data) ++ rest, mem, sent⟩ blocknum dest =
      (true, ⟨rest, write mem dest data, sent ++ [ACK]⟩) := by
  have read : getData PACKET_SIZE dest 0 ⟨data.map some ++ ((check data).map some ++ rest), mem, sent⟩ =
      (some (data.foldl chkByte 0), ⟨(check data).map some ++ rest, write mem dest data, sent⟩) := full ▸ getData_reads data
  have shape : record blocknum data (check data) ++ rest =
      some blocknum :: some (~~~blocknum) :: (data.map some ++ ((check data).map some ++ rest)) := by simp [record]
  simp only [getRecord, getc, shape, head?_cons, Option.join_some, tail_cons, ne_eq, not_true_eq_false, if_false, read]
  simp [check_eq, putchar]

theorem line_of_getc (got : s.getc.1 = some c) : s.line = some c :: s.getc.2.line := by
  rcases s with ⟨_ | ⟨_ | _, line⟩, _, _⟩
  · cases got
  · cases got
  · cases got
    rfl

/-- A record that is acknowledged has its number, the complement of it, and its own CRC-16. -/
theorem getRecord_sound (got : getRecord s blocknum dest = (true, s')) :
    ∃ data : Bytes, data.length = PACKET_SIZE ∧ s.line = record blocknum data (check data) ++ s'.line := by
  simp only [getRecord] at got
  by_cases number : s.getc.1 = some blocknum
  case neg => rw [if_pos number] at got; cases got
  by_cases complement : s.getc.2.getc.1 = some (~~~blocknum)
  case neg => rw [if_neg (not_not.mpr number), if_pos complement] at got; cases got
  rw [if_neg (not_not.mpr number), if_neg (not_not.mpr complement)] at got
  cases read : getData PACKET_SIZE dest 0 s.getc.2.getc.2 with
  | mk result after =>
    rw [read] at got
    cases result with
    | none => cases got
    | some chk =>
      simp only at got
      by_cases high : after.getc.1 = some (UInt8.ofNat (chk >>> 8).toNat)
      case neg => rw [if_pos high] at got; cases got
      by_cases low : after.getc.2.getc.1 = some (UInt8.ofNat chk.toNat)
      case neg => rw [if_neg (not_not.mpr high), if_pos low] at got; cases got
      rw [if_neg (not_not.mpr high), if_neg (not_not.mpr low)] at got
      obtain ⟨data, full, same, sum⟩ := getData_sound read
      refine ⟨data, full, ?_⟩
      subst sum
      cases got
      rw [line_of_getc number, line_of_getc complement, same, line_of_getc high, line_of_getc low, record, check_eq]
      simp [putchar]

theorem check_inj {altered : Bytes} (same : check altered = check data) : crc16 altered = crc16 data := by
  have numbers := congrArg beNat same
  rw [check, check, beNat_toBe (crc16 altered).isLt, beNat_toBe (crc16 data).isLt] at numbers
  exact BitVec.eq_of_toNat_eq numbers

/-- A record in which up to sixteen neighbouring bits of the data have changed is refused. -/
theorem getRecord_burst {altered : Bytes} (full : altered.length = PACKET_SIZE) (before burst burst' behind : List Bool)
    (was : msbFirst data = before ++ burst ++ behind) (now : msbFirst altered = before ++ burst' ++ behind)
    (length : burst'.length = burst.length) (short : burst.length ≤ 16) (differs : burst' ≠ burst) (s : Port) (rest : Line)
    (there : s.line = record blocknum altered (check data) ++ rest) (dest : Nat) : (s.getRecord blocknum dest).1 = false := by
  cases got : s.getRecord blocknum dest with
  | mk received _ =>
    cases received with
    | false => rfl
    | true =>
      obtain ⟨_, full', same⟩ := getRecord_sound got
      rw [there] at same
      simp only [record, map_append, map_cons, cons_append, append_assoc, cons.injEq, true_and] at same
      obtain ⟨first, same⟩ := append_inj same (by simp [full, full'])
      obtain ⟨second, _⟩ := append_inj same (by simp [check])
      have inj {a b : Bytes} (same : a.map some = b.map some) : a = b := (map_inj_right fun _ _ => Option.some.inj).mp same
      rw [← inj first] at second
      have sums := congrArg BitVec.reverse (check_inj (inj second))
      rw [crc16, crc16, BitVec.reverse_reverse_eq, BitVec.reverse_reverse_eq, was, now] at sums
      exact absurd sums.symm (serial_burst (by decide) length short differs before behind 0)

theorem flipped_refused :
    (getRecord ⟨record 1 (replicate 127 0 ++ [1]) (check (replicate 127 0 ++ [0])), fun _ => 0, []⟩ 1 0).1 = false :=
  getRecord_burst (by rfl) (msbFirst (replicate 127 0)) (replicate 8 false) (replicate 7 false ++ [true]) []
    (by rw [msbFirst_append, append_nil]; rfl) (by rw [msbFirst_append, append_nil]; rfl) rfl (by decide) (by decide) _ []
    (append_nil _).symm 0

/-- Nothing that the receiver takes for a record or for the end. -/
def Noise (gap : Line) : Prop := ∀ e ∈ gap, e ≠ some SOH ∧ e ≠ some EOT

structure Packet where
  gap : Line
  data : Bytes
  noise : Noise gap
  full : data.length = PACKET_SIZE

/-- Records on the line, numbered from `blocknum` on. -/
def wire : UInt8 → List Packet → Line
  | _, [] => []
  | blocknum, p :: packets => p.gap ++ some SOH :: (record blocknum p.data (check p.data) ++ wire (blocknum + 1) packets)

/-- What the receiver asks with before it has seen the first record. -/
def hails (starting : Bool) (n : Nat) : Bytes := if starting then replicate n 'C'.toUInt8 else []

def turns (packets : List Packet) : Nat := (packets.map fun p => p.gap.length + 1).sum

theorem hails_append (m n : Nat) : hails starting m ++ hails starting n = hails starting (m + n) := by
  cases starting
  · rfl
  · exact replicate_append_replicate

theorem rxLoop_cons (e : Option UInt8) : rxLoop start (fuel + 1) starting blocknum dest ⟨e :: line, mem, sent⟩ =
    if e ≠ some SOH ∧ e ≠ some EOT then rxLoop start fuel starting blocknum dest ⟨line, mem, sent ++ hails starting 1⟩
    else if e = some EOT then (some (dest - start), ⟨line, mem, sent ++ hails starting 1 ++ [ACK]⟩)
    else
      let r := getRecord ⟨line, mem, sent ++ hails starting 1⟩ blocknum dest
      if r.1 then rxLoop start fuel false (blocknum + 1) (dest + PACKET_SIZE) r.2 else (some (-1), r.2) := by
  cases starting
  · rw [show hails false 1 = [] from rfl, append_nil]
    rfl
  · rfl

theorem rxLoop_noise {gap : Line} (noise : Noise gap) :
    rxLoop start (gap.length + fuel) starting blocknum dest ⟨gap ++ line, mem, sent⟩ =
      rxLoop start fuel starting blocknum dest ⟨line, mem, sent ++ hails starting gap.length⟩ := by
  induction gap generalizing sent with
  | nil => cases starting <;> simp [hails]
  | cons e gap ih =>
    have quiet := noise e mem_cons_self
    have rest : Noise gap := fun e member => noise e (mem_cons_of_mem _ member)
    rw [length_cons, Nat.add_right_comm, cons_append, rxLoop_cons, if_pos quiet, ih rest, append_assoc, hails_append,
      Nat.add_comm 1]

/-- The receiver takes all records that come in order. -/
theorem rxLoop_wire (packets : List Packet) :
    rxLoop start (turns packets + fuel) starting blocknum dest ⟨wire blocknum packets ++ line, mem, sent⟩ =
    rxLoop start fuel (starting && packets.isEmpty) (blocknum + UInt8.ofNat packets.length)
      (dest + PACKET_SIZE * packets.length) ⟨line, write mem dest (packets.flatMap Packet.data),
        sent ++ packets.head?.elim [] (fun p => hails starting (p.gap.length + 1)) ++
          replicate packets.length ACK⟩ := by
  induction packets generalizing starting blocknum dest mem sent with
  | nil =>
    have nothing : write mem dest [] = mem := write_same rfl
    simp [turns, wire, nothing]
  | cons p packets ih =>
    have more : turns (p :: packets) + fuel = p.gap.length + (turns packets + fuel + 1) := by
      rw [turns, map_cons, sum_cons, turns]
      omega
    have number : blocknum + 1 + UInt8.ofNat packets.length = blocknum + UInt8.ofNat (packets.length + 1) := by
      rw [UInt8.ofNat_add, UInt8.add_assoc, UInt8.add_comm (UInt8.ofNat packets.length)]
      rfl
    have place : dest + PACKET_SIZE + PACKET_SIZE * packets.length = dest + PACKET_SIZE * (packets.length + 1) := by
      rw [Nat.mul_succ, Nat.add_right_comm, Nat.add_assoc]
    have quiet : packets.head?.elim [] (fun p : Packet => hails false (p.gap.length + 1)) = [] := by
      cases packets <;> rfl
    have answers : sent ++ hails starting p.gap.length ++ hails starting 1 ++ [ACK] ++ [] ++
      replicate packets.length ACK =
        sent ++ hails starting (p.gap.length + 1) ++ replicate (packets.length + 1) ACK := by
      rw [append_nil, append_assoc sent, hails_append, append_assoc _ [ACK], singleton_append, ← replicate_succ]
    have stored := write_append mem dest p.data (packets.flatMap Packet.data)
    rw [p.full] at stored
    rw [more, wire, append_assoc, rxLoop_noise p.noise, cons_append, append_assoc, rxLoop_cons, if_neg (by simp),
      if_neg (by decide), getRecord_record p.full]
    simp only [if_true, ih, number, place, stored, quiet, answers]
    rw [isEmpty_cons, Bool.and_false]
    rfl

theorem turns_le (blocknum : UInt8) (packets : List Packet) : turns packets ≤ (wire blocknum packets).length := by
  induction packets generalizing blocknum with
  | nil => exact Nat.le_refl 0
  | cons _ packets ih =>
    have rest := ih (blocknum + 1)
    rw [turns] at rest ⊢
    simp only [wire, map_cons, sum_cons, length_append, length_cons]
    omega

theorem rxLoop_sound (got : rxLoop start fuel starting blocknum dest s = (some (n : Int), s')) :
    ∃ packets last, Noise last ∧ s.line = wire blocknum packets ++ last ++ some EOT :: s'.line := by
  induction fuel generalizing starting blocknum dest s with
  | zero => cases got
  | succ fuel ih =>
    rcases s with ⟨_ | ⟨e, line⟩, mem, sent⟩
    · have silent : rxLoop start fuel starting blocknum dest ⟨[], mem, sent ++ hails starting 1⟩ = (some (n : Int), s') := by
        cases starting
        · rw [hails, if_neg Bool.false_ne_true, append_nil]
          exact got
        · exact got
      obtain ⟨_, _, _, same⟩ := ih silent
      simp at same
    · rw [rxLoop_cons] at got
      by_cases noise : e ≠ some SOH ∧ e ≠ some EOT
      · rw [if_pos noise] at got
        obtain ⟨packets, last, quiet, same⟩ := ih got
        have longer {gap : Line} (quiet : Noise gap) : Noise (e :: gap) := forall_mem_cons.mpr ⟨noise, quiet⟩
        cases packets with
        | nil => exact ⟨[], e :: last, longer quiet, congrArg (e :: ·) same⟩
        | cons p packets => exact ⟨⟨e :: p.gap, p.data, longer p.noise, p.full⟩ :: packets, last, quiet, congrArg (e :: ·) same⟩
      · rw [if_neg noise] at got
        by_cases eot : e = some EOT
        · rw [if_pos eot, Prod.mk.injEq] at got
          obtain ⟨-, rfl⟩ := got
          exact ⟨[], [], forall_mem_nil _, congrArg (· :: line) eot⟩
        · rw [if_neg eot] at got
          have soh : e = some SOH := by
            by_contra other
            exact noise ⟨other, eot⟩
          cases received : getRecord ⟨line, mem, sent ++ hails starting 1⟩ blocknum dest with
          | mk ok _ =>
            rw [received] at got
            cases ok with
            | false => simp at got
            | true =>
              obtain ⟨packets, last, quiet, same⟩ := ih got
              obtain ⟨data, full, data_there⟩ := getRecord_sound received
              refine ⟨⟨[], data, forall_mem_nil _, full⟩ :: packets, last, quiet, ?_⟩
              change line = _ at data_there
              rw [soh, data_there, same]
              simp [wire]

/-- What xmodem_rx takes for a transmission, and what it makes of it: records from number 1 on with their CRC-16 and
noise between them, up to the first EOT behind a record. Their data are in memory one after another and nothing else
is changed there; each record and the EOT is acknowledged. -/
theorem xmodemRx_eq_iff (s s' : Port) (dest n : Nat) :
    s.xmodemRx dest = (some (n : Int), s') ↔ ∃ packets last rest, Noise last ∧
      s.line = wire 1 packets ++ last ++ some EOT :: rest ∧ n = PACKET_SIZE * packets.length ∧
      s' = ⟨rest, write s.memory dest (packets.flatMap Packet.data),
        s.sent ++ replicate ((packets.head?.elim last Packet.gap).length + 1) 'C'.toUInt8 ++
          replicate (packets.length + 1) ACK⟩ := by
  have taken (packets : List Packet) (last rest : Line) (quiet : Noise last) (same : s.line = wire 1 packets ++ last ++
    some EOT :: rest) :
      s.xmodemRx dest = (some ((PACKET_SIZE * packets.length : Nat) : Int),
        ⟨rest, write s.memory dest (packets.flatMap Packet.data),
        s.sent ++ replicate ((packets.head?.elim last Packet.gap).length + 1) 'C'.toUInt8 ++
        replicate (packets.length + 1) ACK⟩) := by
    have enough := turns_le 1 packets
    obtain ⟨fuel, more⟩ : ∃ fuel, s.line.length = turns packets + (last.length + (fuel + 1)) := by
      refine ⟨s.line.length - turns packets - last.length - 1, ?_⟩
      rw [same]
      simp only [length_append, length_cons]
      omega
    obtain ⟨line, _, sent⟩ := s
    obtain rfl : line = _ := same
    have placed : ((dest + PACKET_SIZE * packets.length : Nat) : Int) - dest =
      (PACKET_SIZE * packets.length : Nat) := by
      omega
    rw [xmodemRx, more, append_assoc, rxLoop_wire, rxLoop_noise quiet, rxLoop_cons, if_neg (by simp),
      if_pos rfl, placed]
    cases packets with
    | nil => simp [hails, replicate_succ']
    | cons _ packets => simp [hails, replicate_succ']
  constructor
  · intro got
    obtain ⟨packets, last, quiet, same⟩ := rxLoop_sound got
    have result := taken packets last s'.line quiet same
    rw [got, Prod.mk.injEq, Option.some.injEq, Int.natCast_inj] at result
    exact ⟨packets, last, s'.line, quiet, same, result.1, result.2⟩
  · rintro ⟨packets, last, rest, quiet, same, rfl, rfl⟩
    exact taken packets last rest quiet same

end Pcbsd.Xmodem
