import Pcbsd.Lib.Memory

/-! The TFTP client of the AT91 boot loader, boot/arm/at91/libat91/emac.c. A frame is the buffer that it was received
in, with what lies behind it, and a half word is the number that the processor reads there, its least significant byte
in front. -/

namespace Pcbsd.Emac
open Lib Memory

def PROTOCOL_ARP : Nat := 0x0806
def PROTOCOL_IP : Nat := 0x0800
def PROTOCOL_UDP : UInt8 := 0x11
def ARP_REPLY : Nat := 2
def TFTP_RRQ_OPCODE : Nat := 0x0100
def TFTP_DATA_OPCODE : Nat := 0x0300
def TFTP_ACK_OPCODE : Nat := 0x0400

def SWAP16 (x : Nat) : Nat := ((x &&& 0xff) <<< 8) ||| (x >>> 8)

def half (frame : Mem) (offset : Nat) : Nat := (frame offset).toNat + 256 * (frame (offset + 1)).toNat

def halfBytes (x : Nat) : Bytes := [UInt8.ofNat x, UInt8.ofNat (x / 256)]

/-- The client's variables, the memory that it downloads to, and what Send_TFTP_Packet sent, with the port it went
to. -/
structure Client where
  serverMACSet : Bool
  serverMACAddr : Bytes
  serverIPAddr : Bytes
  localPort : Nat
  serverPort : Nat
  ackBlock : Int
  dlAddress : Nat
  lastSize : Nat
  memory : Mem
  sent : List (Nat × Bytes)
  ipSize : serverIPAddr.length = 4

namespace Client
variable (c : Client)

def sendTftpPacket (tftpData : Bytes) : Client := { c with sent := (c.serverPort, tftpData) :: c.sent }

def requestPacket (filename : Bytes) : Bytes :=
  halfBytes TFTP_RRQ_OPCODE ++ filename ++ [0] ++ "octet".toUTF8.toList ++ [0]

def tftpRequestFile (filename : Bytes) : Client := c.sendTftpPacket (requestPacket filename)

def ackPacket (block : Nat) : Bytes := halfBytes TFTP_ACK_OPCODE ++ halfBytes (SWAP16 block)

/-- The part of TFTP_ACK_Data that takes the block that is next. -/
def takeData (data : Mem) (blockNum len : Nat) : Client :=
  if (blockNum : Int) = c.ackBlock + 1 then
    { c with
      ackBlock := c.ackBlock + 1
      memory := write c.memory c.dlAddress (bytesAt data 0 len)
      dlAddress := c.dlAddress + len
      lastSize := (c.lastSize + len) % 2 ^ 32 }
  else c

def tftpAckData (data : Mem) (blockNum len : Nat) : Client :=
  let c := c.takeData data blockNum len
  let c := c.sendTftpPacket (ackPacket c.ackBlock.toNat)
  if len < 512 then { c with ackBlock := -2 } else c

/-- What CheckForNewPacket does with a frame; an ARP request is answered without a trace here. -/
def checkForNewPacket (frame : Mem) : Client :=
  if half frame 12 = SWAP16 PROTOCOL_ARP then
    if half frame 20 = SWAP16 ARP_REPLY ∧ c.serverMACSet = false ∧ bytesAt frame 28 4 = c.serverIPAddr then
      { c with serverMACSet := true, serverMACAddr := bytesAt frame 22 6 }
    else c
  else if half frame 12 = SWAP16 PROTOCOL_IP ∧ frame 23 = PROTOCOL_UDP then
    if half frame 36 ≠ c.localPort then c
    else if half frame 42 ≠ TFTP_DATA_OPCODE then c
    else if c.ackBlock = -1 ∧ half frame 44 ≠ SWAP16 1 then c
    else
      let c := if c.ackBlock = -1 then { c with serverPort := half frame 34, ackBlock := 0 } else c
      if c.serverPort ≠ half frame 34 then c
      else c.tftpAckData (fun i => frame (46 + i)) (SWAP16 (half frame 44)) ((SWAP16 (half frame 38) + 65536 - 12) % 65536)
  else c

end Client

/-- TFTP_Download between two turns of its loop; `ended` once the loop was left by its break. -/
structure Download where
  client : Client
  timeout : Nat
  ended : Bool

/-- What a turn of the loop finds: a frame, or that the time to wait for one has passed. -/
inductive Event where
  | packet (frame : Mem)
  | second

namespace Download

/-- The state in which TFTP_Download enters its loop. -/
def start (address : Nat) (c : Client) : Download where
  client := { c with
    dlAddress := address, lastSize := 0, serverPort := SWAP16 69, localPort := (c.localPort + 1) % 65536,
    ackBlock := -1, sent := [] }
  timeout := 10
  ended := false

def turn (filename : Bytes) (d : Download) (event : Event) : Download :=
  if d.timeout = 0 ∨ d.ended = true then d
  else
    match event with
    | .packet frame =>
      let c := d.client.checkForNewPacket frame
      if c.ackBlock = -2 then { d with client := c, ended := true } else { d with client := c, timeout := 10 }
    | .second =>
      let c := d.client
      { d with
        timeout := d.timeout - 1
        client :=
          if c.serverMACSet = false then c
          else if c.ackBlock = -1 then c.tftpRequestFile filename
          else c.tftpAckData (fun _ => 0) (c.ackBlock.toNat % 65536) 512 }

end Download

end Pcbsd.Emac
