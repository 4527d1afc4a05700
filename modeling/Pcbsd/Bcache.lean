import Mathlib.Algebra.Order.Ring.Nat

/-! The loader's block cache, boot/common/bcache.c. Blocks are an arbitrary type:
the cache copies them and never looks inside. The clock and the outcome of every
device transfer come from outside and are read in order. -/

namespace Pcbsd.Bcache

/-- BCACHE_TIMEOUT of a build without BCACHE_DEBUG. -/
def bcacheTimeout : Int := 2

def enomem : Int := 12
def erofs : Int := 30

inductive Rw where
  | read
  | write
  | other
  deriving DecidableEq

/-- One struct bcachectl together with the block of bcache_data it controls. -/
structure Bcachectl (β : Type) where
  blkno : Int
  stamp : Int
  count : Int
  data : β
  deriving DecidableEq

structure Stats where
  ops : Nat := 0
  bypasses : Nat := 0
  hits : Nat := 0
  misses : Nat := 0
  flushes : Nat := 0
  deriving DecidableEq

/-- What the cache cannot decide: the value of the n-th call of time and the
result of the n-th call of dv_strategy. -/
structure Env where
  clock : Nat → Int
  errs : Nat → Nat

/-- The static variables of bcache.c, the devices, and how many clock readings and
transfers have been made. `active` is `bcache_data != NULL`; `ctl` has bcache_nblks
entries. `overrun` records a bit index outside the (nblks + 1) / 2 bits of bcache_miss. -/
structure State (β : Type) where
  active : Bool
  blksize : Nat
  ctl : List (Bcachectl β)
  miss : Nat → Bool
  overrun : Bool
  bcount : Nat
  unit : Int
  stats : Stats
  disk : Nat → Nat → β
  ticks : Nat
  transfers : Nat

/-- The arguments of bcache_strategy. The request covers `nblk` whole blocks:
bd_realstrategy panics on any other size. -/
structure Request (β : Type) where
  unit : Nat
  rw : Rw
  blk : Nat
  nblk : Nat
  buf : Nat → β

/-- The result, the value stored through rsize (none: left alone) and the caller's buffer. -/
structure Reply (β : Type) where
  rc : Int
  rsize : Option Nat
  buf : Nat → β

variable {β : Type}

def State.nblks (s : State β) : Nat := s.ctl.length

def boot (disk : Nat → Nat → β) : State β :=
  { active := false, blksize := 0, ctl := [], miss := fun _ => false, overrun := false,
    bcount := 0, unit := -1, stats := {}, disk, ticks := 0, transfers := 0 }

/-- `mem` is what malloc returned for the control records and the data: none when an
allocation failed, otherwise one uninitialised entry for each block. -/
def bcacheInit (s : State β) (mem : Option (List (Bcachectl β))) (bsize : Nat) : Int × State β :=
  match mem with
  | none => (enomem, { s with active := false, blksize := bsize, ctl := [] })
  | some ctl => (0, { s with active := true, blksize := bsize, ctl })

def bcacheFlush (s : State β) : State β :=
  { s with
    stats := { s.stats with flushes := s.stats.flushes + 1 }
    ctl := s.ctl.map fun c => { c with count := -1, blkno := -1 } }

def now (env : Env) (s : State β) : Int := env.clock s.ticks

def tick (s : State β) : State β := { s with ticks := s.ticks + 1 }

def hit (now blkno : Int) (c : Bcachectl β) : Bool :=
  c.blkno == blkno && decide (now ≤ c.stamp + bcacheTimeout)

def bcacheLookup (env : Env) (s : State β) (blkno : Int) : Option β × State β :=
  ((s.ctl.find? (hit (now env s) blkno)).map Bcachectl.data, tick s)

def invalidateFirst (blkno : Int) : List (Bcachectl β) → List (Bcachectl β)
  | [] => []
  | c :: rest =>
    if c.blkno = blkno then { c with count := -1, blkno := -1 } :: rest
    else c :: invalidateFirst blkno rest

def bcacheInvalidate (s : State β) (blkno : Int) : State β :=
  { s with ctl := invalidateFirst blkno s.ctl }

/-- The loop of bcache_insert over slots 1, 2, ..: an old entry of the block is
reused, otherwise the slot with the least count so far is the candidate. -/
def insertScan (blkno : Int) : List (Bcachectl β) → Nat → Nat → Int → Nat
  | [], _, cand, _ => cand
  | c :: rest, i, cand, ocount =>
    if c.blkno = blkno then i
    else if c.count < ocount then insertScan blkno rest (i + 1) i c.count
    else insertScan blkno rest (i + 1) cand ocount

/-- Conversion of the unsigned bcache_bcount to the signed bc_count. -/
def toInt32 (n : Nat) : Int := if n < 2 ^ 31 then n else n - 2 ^ 32

def bcacheInsert (env : Env) (s : State β) (data : β) (blkno : Int) : State β :=
  match s.ctl with
  | [] => tick s
  | c :: rest =>
    let cand := insertScan blkno rest 1 0 c.count
    { tick s with
      ctl := s.ctl.set cand { blkno, stamp := now env s, count := toInt32 s.bcount, data }
      bcount := (s.bcount + 1) % 2 ^ 32 }

def bitPut (s : State β) (i : Nat) (v : Bool) : State β :=
  { s with
    miss := Function.update s.miss i v
    overrun := s.overrun || decide ((s.nblks + 1) / 2 ≤ i) }

/-- The first `n` steps of the insertion loop shared by both strategies:
block `blk + j` is taken from position `first + j` of the buffer. -/
def insertLoop (env : Env) (buf : Nat → β) (first blk : Nat) : Nat → State β → State β
  | 0, s => s
  | n + 1, s => bcacheInsert env (insertLoop env buf first blk n s) (buf (first + n)) (blk + n : Nat)

def invalidateLoop (blk : Nat) : Nat → State β → State β
  | 0, s => s
  | n + 1, s => bcacheInvalidate (invalidateLoop blk n s) (blk + n : Nat)

def transfer (s : State β) : State β := { s with transfers := s.transfers + 1 }

def store (s : State β) (unit blk n : Nat) (buf : Nat → β) : State β :=
  { s with disk := fun u b =>
      if u = unit ∧ blk ≤ b ∧ b < blk + n then buf (b - blk) else s.disk u b }

def writeStrategy (env : Env) (s : State β) (req : Request β) : Reply β × State β :=
  let s := invalidateLoop req.blk req.nblk s
  let err := env.errs s.transfers
  let s := transfer s
  if err = 0 then
    let s := store s req.unit req.blk req.nblk req.buf
    (⟨0, some (req.nblk * s.blksize), req.buf⟩, insertLoop env req.buf 0 req.blk req.nblk s)
  else (⟨err, some 0, req.buf⟩, s)

/-- "Satisfy any cache hits up front", for the first `n` blocks. -/
def lookupLoop (env : Env) (blk : Nat) : Nat → State β × (Nat → β) → State β × (Nat → β)
  | 0, acc => acc
  | n + 1, acc =>
    let (s, buf) := lookupLoop env blk n acc
    match bcacheLookup env s (blk + n : Nat) with
    | (none, s) =>
      let s := bitPut s n true
      ({ s with stats := { s.stats with misses := s.stats.misses + 1 } }, buf)
    | (some data, s) =>
      let s := bitPut s n false
      ({ s with stats := { s.stats with hits := s.stats.hits + 1 } }, Function.update buf n data)

/-- The locals of read_strategy's second loop: the pending transfer starts at device
block `pblk` and buffer position `pbuf`; `result` is nonzero after `goto done`. -/
structure Pending (β : Type) where
  s : State β
  buf : Nat → β
  pblk : Option Nat
  pbuf : Nat
  psize : Nat
  result : Nat

/-- One call of dv_strategy for the pending transfer, followed by the insertions. -/
def completePending (env : Env) (unit : Nat) (p : Pending β) (pblk : Nat) : Pending β :=
  let result := env.errs p.s.transfers
  let s := transfer p.s
  if result ≠ 0 then { p with s, result }
  else
    let buf := fun i => if p.pbuf ≤ i ∧ i < p.pbuf + p.psize then s.disk unit (pblk + (i - p.pbuf)) else p.buf i
    { p with s := insertLoop env buf p.pbuf pblk p.psize s, buf, pblk := none }

def fillStep (env : Env) (unit blk i : Nat) (p : Pending β) : Pending β :=
  if p.result ≠ 0 then p
  else
    let s := { p.s with overrun := p.s.overrun || decide ((p.s.nblks + 1) / 2 ≤ i) }
    if s.miss i then
      match p.pblk with
      | none => { p with s, pblk := some (blk + i), pbuf := i, psize := 1 }
      | some _ => { p with s, psize := p.psize + 1 }
    else
      match p.pblk with
      | none => { p with s }
      | some pblk => completePending env unit { p with s } pblk

def fillLoop (env : Env) (unit blk : Nat) : Nat → Pending β → Pending β
  | 0, p => p
  | n + 1, p => fillStep env unit blk n (fillLoop env unit blk n p)

def fillRest (env : Env) (unit : Nat) (p : Pending β) : Pending β :=
  if p.result ≠ 0 then p
  else match p.pblk with
    | none => p
    | some pblk => completePending env unit p pblk

def readStrategy (env : Env) (s : State β) (req : Request β) : Reply β × State β :=
  let (s, buf) := lookupLoop env req.blk req.nblk (s, req.buf)
  let p := fillRest env req.unit
    (fillLoop env req.unit req.blk req.nblk ⟨s, buf, none, 0, 0, 0⟩)
  (⟨p.result, if p.result = 0 then some (req.nblk * s.blksize) else none, p.buf⟩, p.s)

def bypass (env : Env) (s : State β) (req : Request β) : Reply β × State β :=
  let err := env.errs s.transfers
  let s := transfer { s with stats := { s.stats with bypasses := s.stats.bypasses + 1 } }
  match req.rw with
  | .other => (⟨erofs, some 0, req.buf⟩, s)
  | .read =>
    if err = 0 then (⟨0, some (req.nblk * s.blksize), fun i => if i < req.nblk then s.disk req.unit (req.blk + i)
      else req.buf i⟩, s)
    else (⟨err, some 0, req.buf⟩, s)
  | .write =>
    if err = 0 then (⟨0, some (req.nblk * s.blksize), req.buf⟩, store s req.unit req.blk req.nblk req.buf)
    else (⟨err, some 0, req.buf⟩, s)

/-- "bypass large requests, or when the cache is inactive". The product is computed
in a 32-bit size_t. -/
def bypassed (s : State β) (nblk : Nat) : Bool :=
  !s.active || decide (s.nblks < nblk * s.blksize * 2 % 2 ^ 32 / s.blksize)

def selectUnit (s : State β) (unit : Nat) : State β :=
  let s := { s with stats := { s.stats with ops := s.stats.ops + 1 } }
  if s.unit ≠ (unit : Int) then { bcacheFlush s with unit := (unit : Int) } else s

def bcacheStrategy (env : Env) (s : State β) (req : Request β) : Reply β × State β :=
  let s := selectUnit s req.unit
  if bypassed s req.nblk then bypass env s req
  else match req.rw with
    | .read => readStrategy env s req
    | .write => writeStrategy env s req
    | .other => (⟨-1, none, req.buf⟩, s)

def run (env : Env) (s : State β) (reqs : List (Request β)) : State β :=
  reqs.foldl (fun s req => (bcacheStrategy env s req).2) s

end Pcbsd.Bcache
