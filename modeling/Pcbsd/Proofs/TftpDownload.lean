import Pcbsd.Emac

/-! What a TFTP download leaves in memory, whatever the network does with the frames. -/

namespace Pcbsd.Emac
open Lib Memory Client Relation

/-- The data of a block: the first has number 1, and the last is the one that is not full. -/
def blockData (file : Bytes) (k : Nat) : Bytes := (file.drop (512 * (k - 1))).take 512

def blocks (file : Bytes) : Nat := file.length / 512 + 1

/-- A frame with a block of data from `port`, whose number is cut to 16 bits. -/
structure Carries (localPort port k : Nat) (data : Bytes) (frame : Mem) : Prop where
  type : half frame 12 = SWAP16 PROTOCOL_IP
  proto : frame 23 = PROTOCOL_UDP
  src : half frame 34 = port
  dst : half frame 36 = localPort
  length : half frame 38 = SWAP16 (data.length + 12)
  opcode : half frame 42 = TFTP_DATA_OPCODE
  number : half frame 44 = SWAP16 (k % 65536)
  data : bytesAt frame 46 data.length = data

/-- A frame that brings no data to the client's port. -/
def Foreign (localPort : Nat) (frame : Mem) : Prop :=
  ¬ (half frame 12 = SWAP16 PROTOCOL_IP ∧ frame 23 = PROTOCOL_UDP ∧ half frame 36 = localPort ∧
    half frame 42 = TFTP_DATA_OPCODE)

/-- A step of a download. Whoever sends the file from some port sends a block once the file was asked for and each
earlier block has been acknowledged to this port; the network loses, repeats and delays frames as it likes. -/
inductive Step (filename file : Bytes) (d : Download) : Download → Prop where
  | second : Step filename file d (d.turn filename .second)
  | foreign {frame : Mem} (other : Foreign d.client.localPort frame) :
      Step filename file d (d.turn filename (.packet frame))
  | data {frame : Mem} {port k : Nat} (first : 1 ≤ k) (last : k ≤ blocks file)
    (requested : k = 1 → ∃ p, (p, requestPacket filename) ∈ d.client.sent)
    (acknowledged : ∀ j, 1 ≤ j → j < k → (port, ackPacket (j % 65536)) ∈ d.client.sent)
    (carries : Carries d.client.localPort port k (blockData file k) frame) :
      Step filename file d (d.turn filename (.packet frame))

variable {file filename : Bytes} {c : Client} {d d' : Download} {a b k n address port : Nat} {memory : Mem}

theorem SWAP16_eq (small : n < 65536) : SWAP16 n = n % 256 * 256 + n / 256 := by
  have low : n &&& 0xff = n % 256 := Nat.and_two_pow_sub_one_eq_mod n 8
  have high : n >>> 8 = n / 256 := Nat.shiftRight_eq_div_pow n 8
  rw [SWAP16, low, high, ← Nat.shiftLeft_add_eq_or_of_lt (by omega), Nat.shiftLeft_eq]

theorem half_lt (frame : Mem) (offset : Nat) : half frame offset < 65536 := by
  have low := (frame offset).toNat_lt
  have high := (frame (offset + 1)).toNat_lt
  rw [half]
  omega

theorem SWAP16_lt (small : n < 65536) : SWAP16 n < 65536 := by rw [SWAP16_eq small]; omega

theorem SWAP16_SWAP16 (small : n < 65536) : SWAP16 (SWAP16 n) = n := by
  rw [SWAP16_eq (SWAP16_lt small), SWAP16_eq small]
  omega

variable {data frame : Mem} {len m : Nat}

theorem halfBytes_inj (left : n < 65536) (right : m < 65536) (same : halfBytes n = halfBytes m) : n = m := by
  simp only [halfBytes, List.cons.injEq, and_true, ← UInt8.toNat_inj, UInt8.toNat_ofNat'] at same
  omega

theorem ackPacket_inj (left : n < 65536) (right : m < 65536) (same : ackPacket n = ackPacket m) : n = m := by
  have swapped := halfBytes_inj (SWAP16_lt left) (SWAP16_lt right) (List.append_cancel_left same)
  rw [← SWAP16_SWAP16 left, swapped, SWAP16_SWAP16 right]

/-- With `a` blocks taken: they are in memory, all full, and just the first `b` were acknowledged, to one port. -/
structure Holds (memory : Mem) (address : Nat) (file : Bytes) (c : Client) (a b : Nat) : Prop where
  full : 512 * a ≤ file.length
  few : a ≤ 65535
  pointer : c.dlAddress = address + 512 * a
  stored : c.memory = write memory address (file.take (512 * a))
  acks : ∀ p n, n < 65536 → (p, ackPacket n) ∈ c.sent → p = c.serverPort ∧ 1 ≤ n ∧ n ≤ b
  acked : ∀ n, 1 ≤ n → n ≤ b → (c.serverPort, ackPacket n) ∈ c.sent
  ports : c.serverPort < 65536 ∧ c.localPort < 65536

theorem Holds.sendAck (holds : Holds memory address file c a b) (some : 1 ≤ a) (order : b ≤ a) (next : a ≤ b + 1) :
    Holds memory address file (c.sendTftpPacket (ackPacket a)) a a := by
  have few := holds.few
  refine { holds with acks := fun p n small member => ?_, acked := fun n low high => ?_ }
  · cases List.mem_cons.mp member with
    | inl this =>
      obtain ⟨same, packet⟩ := Prod.mk.injEq .. ▸ this
      have number := ackPacket_inj small (by omega) packet
      exact ⟨same, by omega, by omega⟩
    | inr earlier =>
      obtain ⟨same, positive, _⟩ := holds.acks p n small earlier
      exact ⟨same, positive, by omega⟩
  · by_cases last : n = a
    · exact last ▸ List.mem_cons_self
    · exact List.mem_cons_of_mem _ (holds.acked n low (by omega))

/-- The server is at most one block ahead. -/
theorem Holds.next (holds : Holds memory address file c a a)
    (acknowledged : ∀ j, 1 ≤ j → j < k → (port, ackPacket (j % 65536)) ∈ c.sent) : k ≤ a + 1 := by
  by_contra ahead
  have few := holds.few
  obtain ⟨_, _, _⟩ := holds.acks _ _ (Nat.mod_lt _ (by decide)) (acknowledged (a + 1) (by omega) (by omega))
  omega

theorem length_blockData (file : Bytes) (k : Nat) :
    (blockData file k).length = min 512 (file.length - 512 * (k - 1)) := by
  rw [blockData, List.length_take, List.length_drop]

theorem take_next (a : Nat) : file.take (512 * (a + 1)) = file.take (512 * a) ++ blockData file (a + 1) := by
  rw [Nat.mul_succ, List.take_add]
  rfl

/-- What a download leaves that ends: the file, unless this has 65536 blocks; then all but the last block. -/
def Left (memory : Mem) (address : Nat) (file : Bytes) (c : Client) : Prop :=
  (file.length < 65535 * 512 ∧ c.memory = write memory address file) ∨
  (65535 * 512 ≤ file.length ∧ file.length < 65536 * 512 ∧ c.memory = write memory address (file.take (512 * 65535)))

/-- The client at the end, or with `least` blocks or more. -/
def After (memory : Mem) (address : Nat) (file : Bytes) (least : Nat) (c : Client) : Prop :=
  (c.ackBlock = -2 ∧ Left memory address file c) ∨
  ∃ a, least ≤ a ∧ Holds memory address file c a a ∧ c.ackBlock = if a = 0 then -1 else (a : Int)

theorem After.weaken {least less : Nat} (after : After memory address file least c) (le : less ≤ least) :
    After memory address file less c :=
  after.imp_right fun going => by
    obtain ⟨a, enough, rest⟩ := going
    exact ⟨a, le.trans enough, rest⟩

theorem takeData_other (other : (n : Int) ≠ c.ackBlock + 1) : c.takeData data n len = c := if_neg other

theorem takeData_next (next : (n : Int) = c.ackBlock + 1) :
    c.takeData data n len = { c with
      ackBlock := c.ackBlock + 1
      memory := write c.memory c.dlAddress (bytesAt data 0 len)
      dlAddress := c.dlAddress + len
      lastSize := (c.lastSize + len) % 2 ^ 32 } := if_pos next

theorem tftpAckData_old (ack : c.ackBlock = a) (old : (n : Int) ≠ a + 1) :
    c.tftpAckData data n 512 = c.sendTftpPacket (ackPacket a) := by
  rw [tftpAckData, takeData_other (by rw [ack]; exact old), ack]
  rfl

theorem tftpAckData_after (holds : Holds memory address file c a a) (ack : c.ackBlock = a) (first : 1 ≤ k)
    (next : k ≤ a + 1) (bytes : bytesAt data 0 (blockData file k).length = blockData file k) :
    After memory address file (min k 65535) (c.tftpAckData data (k % 65536) (blockData file k).length) := by
  have few := holds.few
  have full := holds.full
  have length := length_blockData file k
  by_cases old : k ≤ a
  · -- a block that was taken before
    have whole : (blockData file k).length = 512 := by omega
    rw [whole, tftpAckData_old ack (by omega)]
    exact .inr ⟨a, by omega, holds.sendAck (by omega) le_rfl (by omega), by rw [if_neg (by omega)]; exact ack⟩
  obtain rfl : k = a + 1 := by omega
  by_cases wrapped : a = 65535
  · -- its number is 0 and never comes next
    subst wrapped
    by_cases short : (blockData file (65535 + 1)).length < 512
    · rw [tftpAckData, takeData_other (by rw [ack]; decide)]
      simp only [if_pos short]
      exact .inl ⟨rfl, .inr ⟨by omega, by omega, holds.stored⟩⟩
    · have whole : (blockData file (65535 + 1)).length = 512 := by omega
      rw [whole, tftpAckData_old ack (by decide)]
      exact .inr ⟨65535, by omega, holds.sendAck (by omega) le_rfl (by omega), by rw [if_neg (by omega)]; exact ack⟩
  · have count : c.ackBlock + 1 = (a + 1 : Nat) := by omega
    have stored : write c.memory c.dlAddress (blockData file (a + 1)) = write memory address (file.take (512 * (a + 1))) := by
      rw [take_next, ← write_append, List.length_take, Nat.min_eq_left full, holds.stored, holds.pointer]
    rw [tftpAckData, takeData_next (by rw [count, Nat.mod_eq_of_lt (by omega)]), bytes, count]
    by_cases short : (blockData file (a + 1)).length < 512
    · simp only [if_pos short]
      exact .inl ⟨rfl, .inl ⟨by omega, stored.trans (by rw [List.take_of_length_le (by omega)])⟩⟩
    · simp only [if_neg short]
      have taken : Holds memory address file { c with
          ackBlock := (a + 1 : Nat)
          memory := write c.memory c.dlAddress (blockData file (a + 1))
          dlAddress := c.dlAddress + (blockData file (a + 1)).length
          lastSize := (c.lastSize + (blockData file (a + 1)).length) % 2 ^ 32 } (a + 1) a :=
        ⟨by omega, by omega, by have := holds.pointer; simp only; omega, stored, holds.acks, holds.acked, holds.ports⟩
      exact .inr ⟨a + 1, by omega, taken.sendAck (by omega) (by omega) (by omega), rfl⟩

theorem checkForNewPacket_foreign (other : Foreign c.localPort frame) :
    ∃ set addr, c.checkForNewPacket frame = { c with serverMACSet := set, serverMACAddr := addr } := by
  have same : ∃ set addr, c = { c with serverMACSet := set, serverMACAddr := addr } := ⟨_, _, rfl⟩
  rw [checkForNewPacket]
  split
  · split
    · exact ⟨_, _, rfl⟩
    · exact same
  · split
    next ip =>
      by_cases port : half frame 36 = c.localPort
      · rw [if_neg (not_not.mpr port), if_pos fun data => other ⟨ip.1, ip.2, port, data⟩]
        exact same
      · rw [if_pos port]
        exact same
    next => exact same

theorem checkForNewPacket_data (holds : Holds memory address file c a a)
    (ack : c.ackBlock = if a = 0 then -1 else (a : Int)) (first : 1 ≤ k) (next : k ≤ a + 1)
    (carries : Carries c.localPort port k (blockData file k) frame) (least : Nat)
    (low : least = 0 ∨ port = c.serverPort ∧ least ≤ min k 65535) : After memory address file least
    (c.checkForNewPacket frame) := by
  have length : (SWAP16 (half frame 38) + 65536 - 12) % 65536 = (blockData file k).length := by
    have bound : (blockData file k).length ≤ 512 := List.length_take_le ..
    rw [carries.length, SWAP16_SWAP16 (by omega)]
    omega
  have number : SWAP16 (half frame 44) = k % 65536 := by rw [carries.number, SWAP16_SWAP16 (Nat.mod_lt _ (by decide))]
  have bytes : bytesAt (fun i => frame (46 + i)) 0 (blockData file k).length = blockData file k := by
    rw [bytesAt]
    simp only [Nat.zero_add]
    exact carries.data
  rw [checkForNewPacket, if_neg (by rw [carries.type]; decide), if_pos ⟨carries.type, carries.proto⟩, if_neg (not_not.mpr carries.dst),
    if_neg (not_not.mpr carries.opcode), length, number]
  by_cases none : a = 0
  · subst none
    obtain rfl : k = 1 := by omega
    have waiting : c.ackBlock = -1 := ack
    rw [if_neg fun both => both.2 carries.number]
    simp only [if_pos waiting]
    rw [if_neg (not_not.mpr rfl)]
    have opened : Holds memory address file { c with serverPort := half frame 34, ackBlock := 0 } 0 0 := by
      refine { holds with acks := fun p n small member => ?_, acked := fun n low high => ?_, ports := ⟨half_lt frame 34, holds.ports.2⟩ }
      · obtain ⟨_, low, high⟩ := holds.acks p n small member
        omega
      · omega
    exact (tftpAckData_after opened rfl first next bytes).weaken (by omega)
  · rw [if_neg none] at ack
    have going : c.ackBlock ≠ -1 := by omega
    rw [if_neg fun both => going both.1]
    simp only [if_neg going]
    split
    next other =>
      obtain rfl : least = 0 := low.resolve_right fun same => other (same.1.symm.trans carries.src.symm)
      exact .inr ⟨a, Nat.zero_le a, holds, by rw [if_neg none]; exact ack⟩
    next => exact (tftpAckData_after holds ack first next bytes).weaken (by omega)

/-- What holds between two turns of the loop. -/
def Good (memory : Mem) (address : Nat) (file : Bytes) (d : Download) : Prop :=
  if d.ended then Left memory address file d.client
  else ∃ a, Holds memory address file d.client a a ∧ d.client.ackBlock = if a = 0 then -1 else (a : Int)

theorem turn_packet (least : Nat) (good : Good memory address file d)
    (after : d.ended = false → After memory address file least (d.client.checkForNewPacket frame)) :
    Good memory address file (d.turn filename (.packet frame)) := by
  rw [Download.turn]
  split
  · exact good
  next going =>
    have running : d.ended = false := by simpa using fun ended => going (.inr ended)
    cases after running with
    | inl last =>
      simp only [if_pos last.1]
      exact last.2
    | inr more =>
      obtain ⟨a, _, holds, ack⟩ := more
      have positive : (d.client.checkForNewPacket frame).ackBlock ≠ -2 := by rw [ack]; split <;> omega
      simp only [if_neg positive]
      rw [Good, if_neg (by simp [running])]
      exact ⟨a, holds, ack⟩

theorem request_holds (holds : Holds memory address file c a b) :
    Holds memory address file (c.tftpRequestFile filename) a b := by
  refine { holds with
    acks := fun p n small member => ?_
    acked := fun n low high => List.mem_cons_of_mem _ (holds.acked n low high) }
  cases List.mem_cons.mp member with
  | inl this =>
    have packets := (Prod.mk.injEq .. ▸ this).2
    simp [requestPacket, ackPacket, halfBytes, TFTP_ACK_OPCODE, TFTP_RRQ_OPCODE] at packets
  | inr earlier => exact holds.acks p n small earlier

theorem turn_second (good : Good memory address file d) : Good memory address file (d.turn filename .second) := by
  rw [Download.turn]
  split
  · exact good
  next going =>
    have running : d.ended = false := by simpa using fun ended => going (.inr ended)
    rw [Good, if_neg (by simp [running])] at good ⊢
    obtain ⟨a, holds, ack⟩ := good
    simp only
    split
    · exact ⟨a, holds, ack⟩
    · by_cases none : a = 0
      · subst none
        rw [if_pos (show d.client.ackBlock = -1 from ack)]
        exact ⟨0, request_holds holds, ack⟩
      · rw [if_neg none] at ack
        have few := holds.few
        rw [if_neg (by omega), ack, Int.toNat_natCast, Nat.mod_eq_of_lt (by omega), tftpAckData_old ack (by omega)]
        exact ⟨a, holds.sendAck (by omega) le_rfl (by omega), by rw [if_neg none]; exact ack⟩

theorem Good.step (good : Good memory address file d) (step : Step filename file d d') :
    Good memory address file d' := by
  cases step with
  | second => exact turn_second good
  | foreign other =>
    refine turn_packet 0 good fun running => ?_
    rw [Good, if_neg (by simp [running])] at good
    obtain ⟨a, holds, ack⟩ := good
    obtain ⟨_, _, same⟩ := checkForNewPacket_foreign other
    rw [same]
    exact .inr ⟨a, Nat.zero_le a, { holds with }, ack⟩
  | data first _ _ acknowledged carries =>
    refine turn_packet 0 good fun running => ?_
    rw [Good, if_neg (by simp [running])] at good
    obtain ⟨a, holds, ack⟩ := good
    exact checkForNewPacket_data holds ack first (holds.next acknowledged) carries 0 (.inl rfl)

theorem Good.start (c : Client) : Good c.memory address file (.start address c) := by
  rw [Good, if_neg (by simp [Download.start])]
  refine ⟨0, ⟨by omega, by omega, rfl, ?_, fun p n small member => (by cases member),
    fun n positive none => absurd positive (by omega), (by decide : SWAP16 69 < 65536),
    Nat.mod_lt _ (by decide)⟩, rfl⟩
  rw [Nat.mul_zero, List.take_zero]
  exact (write_same rfl).symm

theorem Good.reached (run : ReflTransGen (Step filename file) (.start address c) d) : Good c.memory address file d := by
  induction run with
  | refl => exact Good.start c
  | tail _ step ih => exact ih.step step

/-- While a download goes on, full blocks of the file are all that it has written; where it ends, it leaves the file,
unless this has 65536 blocks, the last of which is then missing. It never ends for a longer file. -/
theorem download_leaves (run : ReflTransGen (Step filename file) (.start address c) d) :
    if d.ended then Left c.memory address file d.client
    else ∃ a, 512 * a ≤ file.length ∧ d.client.memory = write c.memory address (file.take (512 * a)) := by
  have good := Good.reached run
  rw [Good] at good
  split
  next ended => rwa [if_pos ended] at good
  next going =>
    rw [if_neg going] at good
    obtain ⟨a, holds, _⟩ := good
    exact ⟨a, holds.full, holds.stored⟩

/-- A frame with the data of a block. -/
def dataFrame (localPort port k : Nat) (data : Bytes) : Mem :=
  write (fun _ => 0) 12 (halfBytes (SWAP16 PROTOCOL_IP) ++ List.replicate 9 0 ++ [PROTOCOL_UDP] ++
    List.replicate 10 0 ++
    halfBytes port ++ halfBytes localPort ++ halfBytes (SWAP16 (data.length + 12)) ++ [0, 0] ++
    halfBytes TFTP_DATA_OPCODE ++
    halfBytes (SWAP16 (k % 65536)) ++ data)

theorem half_front {bytes data : Bytes} {i : Nat} (small : n < 65536) (low : bytes[i]? = some (UInt8.ofNat n))
    (high : bytes[i + 1]? = some (UInt8.ofNat (n / 256))) :
    half (write (fun _ => 0) 12 (bytes ++ data)) (12 + i) = n := by
  obtain ⟨inside, first⟩ := List.getElem?_eq_some_iff.mp low
  obtain ⟨insideToo, second⟩ := List.getElem?_eq_some_iff.mp high
  have read (j : Nat) (fits : j < bytes.length) : write (fun _ => 0) 12 (bytes ++ data) (12 + j) = bytes[j] := by
    rw [write_inside (by rw [List.length_append]; omega), List.getElem_append_left fits]
  rw [half, Nat.add_assoc, read i inside, read (i + 1) insideToo, first, second, UInt8.toNat_ofNat', UInt8.toNat_ofNat']
  omega

theorem dataFrame_carries {localPort : Nat} {data : Bytes} (dst : localPort < 65536) (src : port < 65536)
    (few : data.length ≤ 512) :
    Carries localPort port k data (dataFrame localPort port k data) where
  type := half_front (i := 0) (by decide) rfl rfl
  proto := rfl
  src := half_front (i := 22) src rfl rfl
  dst := half_front (i := 24) dst rfl rfl
  length := half_front (i := 26) (SWAP16_lt (by omega)) rfl rfl
  opcode := half_front (i := 30) (by decide) rfl rfl
  number := half_front (i := 32) (SWAP16_lt (Nat.mod_lt _ (by decide))) rfl rfl
  data := by
    rw [dataFrame, ← write_append]
    exact bytesAt_write ..

/-- An ARP reply from `ip`. -/
def arpFrame (ip : Bytes) : Mem :=
  write (fun _ => 0) 12 (halfBytes (SWAP16 PROTOCOL_ARP) ++ List.replicate 6 0 ++ halfBytes (SWAP16 ARP_REPLY) ++
    List.replicate 6 0 ++ ip)

theorem arpFrame_type (ip : Bytes) : half (arpFrame ip) 12 = SWAP16 PROTOCOL_ARP :=
  half_front (i := 0) (by decide) rfl rfl

theorem checkForNewPacket_arp (c : Client) : ∃ addr, c.checkForNewPacket (arpFrame c.serverIPAddr) =
    { c with serverMACSet := true, serverMACAddr := addr } := by
  have reply : half (arpFrame c.serverIPAddr) 20 = SWAP16 ARP_REPLY := half_front (i := 8) (by decide) rfl rfl
  have asked : bytesAt (arpFrame c.serverIPAddr) 28 4 = c.serverIPAddr := by
    rw [arpFrame, ← write_append, ← c.ipSize]
    exact bytesAt_write ..
  rw [checkForNewPacket, if_pos (arpFrame_type _)]
  cases set : c.serverMACSet with
  | false =>
    rw [if_pos ⟨reply, rfl, asked⟩]
    exact ⟨_, rfl⟩
  | true =>
    rw [if_neg fun both => (by cases both.2.1), ← set]
    exact ⟨_, rfl⟩

/-- The server's address can still be learnt, and the file asked for with it. -/
theorem Holds.request (holds : Holds memory address file d.client 0 0) (ack : d.client.ackBlock = -1) (going : d.ended = false)
    (waiting : d.timeout ≠ 0) : ∃ d', ReflTransGen (Step filename file) d d' ∧ Holds memory address file d'.client 0 0 ∧
      d'.client.ackBlock = -1 ∧ d'.ended = false ∧ d'.timeout ≠ 0 ∧ ∃ p, (p, requestPacket filename) ∈ d'.client.sent := by
  obtain ⟨_, learnt⟩ := checkForNewPacket_arp d.client
  have arp : Step filename file d (d.turn filename (.packet (arpFrame d.client.serverIPAddr))) :=
    .foreign fun data => absurd ((arpFrame_type _).symm.trans data.1) (by decide)
  rw [Download.turn, if_neg (by simp [going, waiting]), learnt] at arp
  simp only [ack, if_neg (show (-1 : Int) ≠ -2 by decide)] at arp
  refine ⟨_, .tail (.single arp) .second, ?_⟩
  rw [Download.turn, if_neg (by simp [going])]
  exact ⟨request_holds { holds with }, rfl, going, by simp, _, List.mem_cons_self⟩

theorem Holds.finish (holds : Holds memory address file d.client a a)
    (ack : d.client.ackBlock = if a = 0 then -1 else (a : Int))
    (requested : a = 0 → ∃ p, (p, requestPacket filename) ∈ d.client.sent) (short : file.length < 65535 * 512)
    (going : d.ended = false) (waiting : d.timeout ≠ 0) (n : Nat) (left : blocks file ≤ a + n) :
    ∃ d', ReflTransGen (Step filename file) d d' ∧ d'.ended = true := by
  have full := holds.full
  induction n generalizing a d with
  | zero =>
    rw [blocks] at left
    omega
  | succ n ih =>
    have count : blocks file = file.length / 512 + 1 := rfl
    obtain ⟨frame, carries⟩ :
      ∃ frame, Carries d.client.localPort d.client.serverPort (a + 1) (blockData file (a + 1)) frame :=
      ⟨_, dataFrame_carries holds.ports.2 holds.ports.1 (List.length_take_le ..)⟩
    have step : Step filename file d (d.turn filename (.packet frame)) :=
      .data (by omega) (by omega) (fun first => requested (by omega))
        (fun j low high => by rw [Nat.mod_eq_of_lt (by omega)]; exact holds.acked j low (by omega)) carries
    rw [Download.turn, if_neg (by simp [going, waiting])] at step
    cases checkForNewPacket_data holds ack (by omega) le_rfl carries (a + 1) (.inr ⟨rfl, by omega⟩) with
    | inl last =>
      simp only [if_pos last.1] at step
      exact ⟨_, .single step, rfl⟩
    | inr more =>
      obtain ⟨_, _, holds', ack'⟩ := more
      have on : (d.client.checkForNewPacket frame).ackBlock ≠ -2 := by rw [ack']; split <;> omega
      simp only [if_neg on] at step
      obtain ⟨d', rest, ended⟩ :=
        ih (d := { d with client := _, timeout := 10 }) holds' ack' (fun none => by omega) going (by simp)
        (by omega) holds'.full
      exact ⟨d', .head step rest, ended⟩

/-- No download of a file with fewer blocks is stuck: the network can still deliver the rest. -/
theorem download_completes (run : ReflTransGen (Step filename file) (.start address c) d) (short : file.length < 65535 * 512)
    (waiting : d.timeout ≠ 0) :
    ∃ d', ReflTransGen (Step filename file) d d' ∧ d'.ended = true ∧ d'.client.memory = write c.memory address file := by
  have good := Good.reached run
  obtain ⟨d', rest, ended⟩ : ∃ d', ReflTransGen (Step filename file) d d' ∧ d'.ended = true := by
    cases going : d.ended with
    | true => exact ⟨d, .refl, going⟩
    | false =>
      rw [Good, if_neg (by simp [going])] at good
      obtain ⟨a, holds, ack⟩ := good
      by_cases none : a = 0
      · subst none
        obtain ⟨d', asking, holds', ack', going', waiting', requested⟩ := holds.request ack going waiting
        obtain ⟨last, rest, ended⟩ := holds'.finish ack' (fun _ => requested) short going' waiting' (blocks file) (by omega)
        exact ⟨last, asking.trans rest, ended⟩
      · exact holds.finish ack (fun first => absurd first none) short going waiting (blocks file) (by omega)
  have last := Good.reached (run.trans rest)
  rw [Good, if_pos ended] at last
  exact ⟨d', rest, ended, last.elim And.right fun long => absurd short (by omega)⟩

def idleClient : Client := ⟨true, [], [127, 0, 0, 1], 0x0280, 0, 0, 0, 0, fun _ => 0, [], rfl⟩

def smallFrame : Mem := dataFrame 0x0281 0x4500 1 [1, 2, 3]

def askingDownload : Download := (Download.start 0x2000 idleClient).turn [0x6b] .second

theorem small_file_arrives :
    Left (fun _ => 0) 0x2000 [1, 2, 3] (askingDownload.turn [0x6b] (.packet smallFrame)).client := by
  have carries : Carries 0x0281 0x4500 1 (blockData [1, 2, 3] 1) smallFrame :=
    dataFrame_carries (by decide) (by decide) (by decide)
  have asks : Step [0x6b] [1, 2, 3] (.start 0x2000 idleClient) askingDownload := .second
  have step : Step [0x6b] [1, 2, 3] askingDownload _ :=
    .data le_rfl (by decide) (fun _ => ⟨_, List.mem_cons_self⟩) (fun j low high => absurd high (by omega)) carries
  have ended : (askingDownload.turn [0x6b] (.packet smallFrame)).ended = true := by
    decide
  have leaves := download_leaves (.tail (.single asks) step)
  rw [ended] at leaves
  exact leaves

theorem small_file_completes : ∃ d, ReflTransGen (Step [0x6b] [1, 2, 3]) (.start 0x2000 idleClient) d ∧ d.ended = true ∧
    d.client.memory = write idleClient.memory 0x2000 [1, 2, 3] :=
  download_completes .refl (by simp) (by simp [Download.start])

end Pcbsd.Emac
