import Mathlib.Data.List.Basic
import Pcbsd.Zfs.Zio

/-! zio_read against what the pool holds: which copies of a block can be read, and that any of them is
enough. A copy that fails may leave anything in the buffers. -/

namespace Pcbsd.Zfs
open Lib List Option

variable {δ σ : Type} {env : Env δ σ}

/-- What the devices hold, where they can be read: as many bytes as are asked for, and from a raidz the
block with its checksum verified. -/
structure Pool (δ : Type) where
  phys : δ → Nat → Nat → Option Bytes
  raidz : Vdev δ → Blkptr → Nat → Nat → Option Bytes
  physSize : ∀ {dev offset size bytes}, phys dev offset size = some bytes → bytes.length = size
  raidzSize : ∀ {vdev bp offset size bytes}, raidz vdev bp offset size = some bytes → bytes.length = bp.psize

/-- A reply with the bytes at the start of the buffer, or an error when there are none. -/
def Gives (data : Option Bytes) (reply : Reply σ) : Prop :=
  (reply.1 = 0 ↔ data.isSome) ∧ ∀ bytes, data = some bytes → bytes <+: reply.2.1

variable {reply : Reply σ}

theorem Gives.failed (error : reply.1 ≠ 0) : Gives none reply :=
  ⟨by simpa using error, fun _ none => by simp at none⟩

theorem Gives.done {bytes : Bytes} (ok : reply.1 = 0) (start : bytes <+: reply.2.1) : Gives (some bytes) reply := by
  refine ⟨by simpa using ok, fun other same => ?_⟩
  cases same
  exact start

theorem Gives.ok {bytes : Bytes} (gives : Gives (some bytes) reply) : reply.1 = 0 ∧ bytes <+: reply.2.1 :=
  ⟨gives.1.mpr rfl, gives.2 bytes rfl⟩

theorem Gives.error (gives : Gives none reply) : reply.1 ≠ 0 := fun zero => by simpa using gives.1.mp zero

/-- The devices answer from what they hold, whatever else happens to them. -/
structure Env.Steady (env : Env δ σ) (pool : Pool δ) : Prop where
  phys : ∀ dev offset size buf w, Gives (pool.phys dev offset size) (env.physRead dev offset size buf w)
  raidz : ∀ vdev bp buf offset size w, Gives (pool.raidz vdev bp offset size) (env.raidzRead vdev bp buf offset size w)

namespace Env

def physData (env : Env δ σ) (pool : Pool δ) (phys : Option δ) (bp : Blkptr) (offset : Nat) : Option Bytes :=
  (phys.bind fun dev => pool.phys dev offset bp.psize).filter fun data => env.checksumVerify bp data = 0

mutual

def vdevData (env : Env δ σ) (pool : Pool δ) (vdev : Vdev δ) (bp : Blkptr) (offset size : Nat) : Option Bytes :=
  match vdev with
  | .mk _ _ .disk _ phys _ => env.physData pool phys bp (offset + vdevLabelStartSize)
  | .mk _ _ .mirror _ _ kids => mirrorData env pool kids bp offset size
  | .mk _ _ .replacing _ _ [] => none
  | .mk _ _ .replacing _ _ (kid :: _) => if kid.state ≠ .healthy then none else vdevData env pool kid bp offset size
  | .mk id state .raidz top phys kids => pool.raidz (.mk id state .raidz top phys kids) bp offset size

def mirrorData (env : Env δ σ) (pool : Pool δ) (kids : List (Vdev δ)) (bp : Blkptr) (offset size : Nat) : Option Bytes :=
  match kids with
  | [] => none
  | kid :: kids =>
    if kid.state ≠ .healthy then mirrorData env pool kids bp offset size
    else
      match vdevData env pool kid bp offset size with
      | some data => some data
      | none => mirrorData env pool kids bp offset size

end

def expand (env : Env δ σ) (bp : Blkptr) (data : Bytes) : Option Bytes :=
  if bp.compress ≠ zioCompressOff then
    if (env.decompressData bp.compress data bp.lsize).1 = 0 then some (env.decompressData bp.compress data bp.lsize).2 else none
  else some data

/-- The physical data of one copy, of its vdev or put together from a gang block. -/
def dvaBlock (env : Env δ σ) (pool : Pool δ) (gang : Blkptr → Option Bytes) (bp : Blkptr) (vdev : Vdev δ) (dva : Dva) :
    Option Bytes :=
  if dva.gang then gang bp else env.vdevData pool vdev bp dva.offset (readSize vdev bp)

/-- The data of one copy: its vdev is there, the block of the vdev or the gang block is read, and it is
decompressed. -/
def copyData (env : Env δ σ) (pool : Pool δ) (gang : Blkptr → Option Bytes) (bp : Blkptr) (dva : Dva) : Option Bytes :=
  if dva.zero then none
  else
    match env.vdevs.find? (·.id = dva.vdev) with
    | none => none
    | some vdev => (env.dvaBlock pool gang bp vdev dva).bind (env.expand bp)

def gangChildren (env : Env δ σ) (gb : Bytes) : List Blkptr :=
  ((range spaGbhNblkptrs).map (env.indbp gb)).filter fun gbp => !gbp.hole

def piecesData (read : Blkptr → Option Bytes) : List Blkptr → Option Bytes
  | [] => some []
  | gbp :: gbps => (read gbp).bind fun data => (piecesData read gbps).map (data ++ ·)

/-- A gang block put together by a header, if its checksum verifies. -/
def assembled (env : Env δ σ) (read : Blkptr → Option Bytes) (bp : Blkptr) (header : Option Bytes) : Option Bytes :=
  ((header.bind fun gb => piecesData read (env.gangChildren gb)).map (·.take bp.psize)).filter
    fun data => env.checksumVerify bp data = 0

/-- The gang header that a DVA leads to. -/
def headerData (env : Env δ σ) (pool : Pool δ) (bp : Blkptr) (dva : Dva) : Option Bytes :=
  env.copyData pool (fun _ => none) (gbhBp bp) { dva with gang := false }

/-- The data of one DVA, by its own header where it is a gang block, with these data of the pieces. -/
def dvaLogical (env : Env δ σ) (pool : Pool δ) (read : Blkptr → Option Bytes) (bp : Blkptr) (dva : Dva) : Option Bytes :=
  env.copyData pool (fun bp => env.assembled read bp (env.headerData pool bp dva)) bp dva

/-- The logical data of a block: those of the first DVA that has them, with `depth` levels of gang blocks. -/
def logicalData (env : Env δ σ) (pool : Pool δ) : Nat → Blkptr → Option Bytes
  | 0, _ => none
  | depth + 1, bp => bp.dva.findSome? (env.dvaLogical pool (logicalData env pool depth) bp)

/-- The logical data of one DVA of a block. -/
def dvaData (env : Env δ σ) (pool : Pool δ) (bp : Blkptr) (dva : Dva) : Option Bytes :=
  env.dvaLogical pool (env.logicalData pool (env.depth - 1)) bp dva

/-- The gang blocks below a block nest at most `depth` levels deep. A block that has a gang DVA has no others, they
lead to no two headers, and the pieces of the gang block, which are not compressed, fill it. -/
def Formed (env : Env δ σ) (pool : Pool δ) : Nat → Blkptr → Prop
  | 0, _ => False
  | depth + 1, bp => (∃ dva ∈ bp.dva, dva.gang = true) → 0 < depth ∧ (∀ dva ∈ bp.dva, dva.zero = true ∨ dva.gang = true) ∧
      (∃ gb, ∀ dva ∈ bp.dva, env.headerData pool bp dva = none ∨ env.headerData pool bp dva = some gb) ∧
      ∀ gb, (∃ dva ∈ bp.dva, env.headerData pool bp dva = some gb) →
        bp.psize ≤ ((env.gangChildren gb).map Blkptr.psize).sum ∧
        ∀ gbp ∈ env.gangChildren gb, gbp.compress = zioCompressOff ∧ Formed env pool depth gbp

/-- What zio_read takes for the data of a gang block: by a header of whichever DVA. -/
def gangData (env : Env δ σ) (read : Blkptr → Option Bytes) (bp : Blkptr) : Option Bytes :=
  env.assembled read bp (read (gbhBp bp))

def blockData (env : Env δ σ) (pool : Pool δ) : Nat → Blkptr → Option Bytes
  | 0, _ => none
  | depth + 1, bp => bp.dva.findSome? (env.copyData pool (env.gangData (blockData env pool depth)) bp)

end Env

variable {pool : Pool δ}

theorem vdevReadPhys_some (dev : δ) (bp : Blkptr) (buf : Bytes) (offset : Nat) (w : σ) :
    env.vdevReadPhys (some dev) bp buf offset w =
      if (env.physRead dev offset bp.psize buf w).1 ≠ 0 then env.physRead dev offset bp.psize buf w
      else if env.checksumVerify bp ((env.physRead dev offset bp.psize buf w).2.1.take bp.psize) ≠ 0 then
        (eio, (env.physRead dev offset bp.psize buf w).2)
      else (0, (env.physRead dev offset bp.psize buf w).2) := rfl

theorem vdevReadPhys_gives (steady : env.Steady pool) (phys : Option δ) (bp : Blkptr) (buf : Bytes) (offset : Nat) (w : σ) :
    Gives (env.physData pool phys bp offset) (env.vdevReadPhys phys bp buf offset w) := by
  cases phys with
  | none => exact .failed eio_ne
  | some dev =>
    have answer := steady.phys dev offset bp.psize buf w
    rw [vdevReadPhys_some, Env.physData, bind_some]
    generalize env.physRead dev offset bp.psize buf w = reply at answer ⊢
    cases held : pool.phys dev offset bp.psize with
    | none =>
      rw [held] at answer
      rw [if_pos answer.error]
      exact .failed answer.error
    | some data =>
      rw [held] at answer
      have block : reply.2.1.take bp.psize = data := by
        rw [← pool.physSize held]
        exact (prefix_iff_eq_take.mp answer.ok.2).symm
      rw [if_neg (not_not.mpr answer.ok.1), block, filter_some]
      by_cases verified : env.checksumVerify bp data = 0
      · rw [if_neg (not_not.mpr verified), if_pos (by simpa using verified)]
        exact .done rfl answer.ok.2
      · rw [if_pos verified, if_neg (by simpa using verified)]
        exact .failed eio_ne

mutual

theorem vdevRead_gives (steady : env.Steady pool) (vdev : Vdev δ) (bp : Blkptr) (buf : Bytes) (offset size : Nat) (w : σ) :
    Gives (env.vdevData pool vdev bp offset size) (env.vdevRead vdev bp buf offset size w) := by
  match vdev with
  | .mk _ _ .disk _ phys _ =>
    rw [Env.vdevData, Env.vdevRead]
    exact vdevReadPhys_gives steady phys bp buf _ w
  | .mk _ _ .mirror _ _ kids =>
    rw [Env.vdevData, Env.vdevRead]
    exact vdevMirrorRead_gives steady kids bp buf offset size w eio_ne
  | .mk _ _ .replacing _ _ [] =>
    rw [Env.vdevData, Env.vdevRead]
    exact .failed eio_ne
  | .mk _ _ .replacing _ _ (kid :: _) =>
    rw [Env.vdevData, Env.vdevRead]
    split
    next => exact .failed eio_ne
    next => exact vdevRead_gives steady kid bp buf offset size w
  | .mk id state .raidz top phys kids =>
    rw [Env.vdevData, Env.vdevRead]
    exact steady.raidz _ bp buf offset size w

theorem vdevMirrorRead_gives (steady : env.Steady pool) (kids : List (Vdev δ)) (bp : Blkptr) (buf : Bytes)
    (offset size : Nat) (w : σ) {rc : Int} (failed : rc ≠ 0) :
    Gives (env.mirrorData pool kids bp offset size) (env.vdevMirrorRead kids bp buf offset size w rc) := by
  match kids with
  | [] =>
    rw [Env.mirrorData, Env.vdevMirrorRead]
    exact .failed failed
  | kid :: kids =>
    rw [Env.mirrorData, Env.vdevMirrorRead]
    split
    next => exact vdevMirrorRead_gives steady kids bp buf offset size w failed
    next =>
      have first := vdevRead_gives steady kid bp buf offset size w
      generalize env.vdevRead kid bp buf offset size w = reply at first ⊢
      obtain ⟨_, buf', w'⟩ := reply
      cases held : env.vdevData pool kid bp offset size with
      | some _ =>
        rw [held] at first
        dsimp only
        rw [if_pos first.ok.1]
        exact .done rfl first.ok.2
      | none =>
        rw [held] at first
        dsimp only
        rw [if_neg first.error]
        exact vdevMirrorRead_gives steady kids bp buf' offset size w' first.error

end

private theorem physData_length {phys : Option δ} {bp : Blkptr} {offset : Nat} {data : Bytes}
    (held : env.physData pool phys bp offset = some data) : data.length = bp.psize := by
  rw [Env.physData, filter_eq_some_iff] at held
  obtain ⟨_, -, stored⟩ := bind_eq_some_iff.mp held.1
  exact pool.physSize stored

mutual

theorem vdevData_length (vdev : Vdev δ) {bp : Blkptr} {offset size : Nat} {data : Bytes}
    (held : env.vdevData pool vdev bp offset size = some data) : data.length = bp.psize := by
  match vdev with
  | .mk _ _ .disk _ _ _ =>
    exact physData_length held
  | .mk _ _ .mirror _ _ kids =>
    exact mirrorData_length kids held
  | .mk _ _ .replacing _ _ [] =>
    cases held
  | .mk _ _ .replacing _ _ (kid :: _) =>
    rw [Env.vdevData] at held
    split at held
    next => cases held
    next => exact vdevData_length kid held
  | .mk _ _ .raidz _ _ _ =>
    exact pool.raidzSize held

theorem mirrorData_length (kids : List (Vdev δ)) {bp : Blkptr} {offset size : Nat} {data : Bytes}
    (held : env.mirrorData pool kids bp offset size = some data) : data.length = bp.psize := by
  match kids with
  | [] =>
    cases held
  | kid :: kids =>
    rw [Env.mirrorData] at held
    split at held
    next => exact mirrorData_length kids held
    next =>
      cases first : env.vdevData pool kid bp offset size with
      | some _ =>
        rw [first] at held
        cases held
        exact vdevData_length kid first
      | none =>
        rw [first] at held
        exact mirrorData_length kids held

end

theorem piecesData_length {read : Blkptr → Option Bytes} {gbps : List Blkptr} {data : Bytes}
    (sized : ∀ gbp ∈ gbps, ∀ piece, read gbp = some piece → piece.length = gbp.psize)
    (held : Env.piecesData read gbps = some data) :
    data.length = (gbps.map Blkptr.psize).sum := by
  induction gbps generalizing data with
  | nil => cases held; rfl
  | cons gbp gbps ih =>
    obtain ⟨piece, first, rest⟩ := bind_eq_some_iff.mp held
    obtain ⟨_, later, rfl⟩ := map_eq_some_iff.mp rest
    rw [length_append, sized gbp mem_cons_self piece first,
      ih (fun other member => sized other (mem_cons_of_mem gbp member)) later, map_cons, sum_cons]

theorem gangData_length {read : Blkptr → Option Bytes} {bp : Blkptr} {data : Bytes}
    (filled : ∀ gb, read (Env.gbhBp bp) = some gb → bp.psize ≤ ((env.gangChildren gb).map Blkptr.psize).sum ∧
      ∀ gbp ∈ env.gangChildren gb, ∀ piece, read gbp = some piece → piece.length = gbp.psize)
    (held : env.gangData read bp = some data) : data.length = bp.psize := by
  rw [Env.gangData, Env.assembled, filter_eq_some_iff] at held
  obtain ⟨_, pieces, rfl⟩ := map_eq_some_iff.mp held.1
  obtain ⟨gb, header, found⟩ := bind_eq_some_iff.mp pieces
  have length := piecesData_length (filled gb header).2 found
  rw [length_take, length, Nat.min_eq_left (filled gb header).1]

section

variable {gang : Blkptr → Bytes → σ → Reply σ} {held : Blkptr → Option Bytes} {bp : Blkptr}

variable {dva : Dva} {dvas : List Dva}

theorem readCopy_gives (steady : env.Steady pool) (vdev : Vdev δ)
    (gangs : dva.gang = true → ∀ buf w, Gives (held bp) (gang bp buf w)) (buf : Bytes) (w : σ) :
    Gives (env.dvaBlock pool held bp vdev dva) (env.readCopy gang vdev dva bp buf w) := by
  rw [Env.readCopy, Env.dvaBlock]
  cases kind : dva.gang with
  | true =>
    rw [if_pos rfl, if_pos rfl]
    exact gangs kind buf w
  | false =>
    rw [if_neg (by simp), if_neg (by simp)]
    exact vdevRead_gives steady vdev bp buf dva.offset _ w

theorem dvaBlock_length {vdev : Vdev δ} {data : Bytes}
    (sized : dva.gang = true → ∀ data, held bp = some data → data.length = bp.psize)
    (block : env.dvaBlock pool held bp vdev dva = some data) : data.length = bp.psize := by
  rw [Env.dvaBlock] at block
  split at block
  next kind => exact sized kind data block
  next => exact vdevData_length vdev block

theorem readDva_gives (steady : env.Steady pool) (vdev : Vdev δ)
    (gangs : dva.gang = true → ∀ buf w, Gives (held bp) (gang bp buf w))
    (sized : dva.gang = true → ∀ data, held bp = some data → data.length = bp.psize) (buf : Bytes) (w : σ) :
    Gives ((env.dvaBlock pool held bp vdev dva).bind (env.expand bp)) (env.readDva gang vdev dva bp buf w) := by
  by_cases temporary : Env.readSize vdev bp ≠ bp.psize ∨ bp.compress ≠ zioCompressOff
  · have got := readCopy_gives steady vdev gangs (env.temp w) w
    rw [Env.readDva, if_pos temporary]
    generalize env.readCopy gang vdev dva bp (env.temp w) w = reply at got ⊢
    obtain ⟨error, pbuf, _⟩ := reply
    cases block : env.dvaBlock pool held bp vdev dva with
    | none =>
      rw [block] at got
      dsimp only
      rw [if_pos got.error]
      exact .failed got.error
    | some data =>
      rw [block] at got
      have start : pbuf.take bp.psize = data := by
        rw [← dvaBlock_length sized block]
        exact (prefix_iff_eq_take.mp got.ok.2).symm
      dsimp only
      rw [if_neg (not_not.mpr got.ok.1), start, bind_some, Env.expand]
      by_cases compressed : bp.compress ≠ zioCompressOff
      · rw [if_pos compressed, if_pos compressed]
        by_cases ok : (env.decompressData bp.compress data bp.lsize).1 = 0
        · rw [if_pos ok]
          exact .done ok (prefix_put _ buf)
        · rw [if_neg ok]
          exact .failed ok
      · rw [if_neg compressed, if_neg compressed]
        exact .done rfl (prefix_put data buf)
  · have got := readCopy_gives steady vdev gangs buf w
    rw [Env.readDva, if_neg temporary]
    rw [not_or, not_not, not_not] at temporary
    have plain : env.expand bp = some := funext fun data => by rw [Env.expand, if_neg (not_not.mpr temporary.2)]
    rw [plain, bind_fun_some]
    exact got

private theorem zioReadLoop_found {vdev : Vdev δ} {error : Int} {buf : Bytes} {w : σ} (zero : ¬dva.zero = true)
    (found : env.vdevs.find? (·.id = dva.vdev) = some vdev) :
    env.zioReadLoop gang bp (dva :: dvas) error buf w =
      if (env.readDva gang vdev dva bp buf w).1 = 0 then (0, (env.readDva gang vdev dva bp buf w).2)
      else env.zioReadLoop gang bp dvas (env.readDva gang vdev dva bp buf w).1 (env.readDva gang vdev dva bp buf w).2.1
        (env.readDva gang vdev dva bp buf w).2.2 := by
  rw [Env.zioReadLoop, if_neg zero, found]

private theorem zioReadLoop_skip {error : Int} {buf : Bytes} {w : σ}
    (missing : dva.zero = true ∨ env.vdevs.find? (·.id = dva.vdev) = none) :
    env.zioReadLoop gang bp (dva :: dvas) error buf w = env.zioReadLoop gang bp dvas error buf w := by
  rw [Env.zioReadLoop]
  obtain zero | missing := missing
  · rw [if_pos zero]
  · rw [missing, ite_self]

theorem zioReadLoop_gives (steady : env.Steady pool)
    (gangs : (∃ dva ∈ dvas, dva.gang = true) → ∀ buf w, Gives (held bp) (gang bp buf w))
    (sized : (∃ dva ∈ dvas, dva.gang = true) → ∀ data, held bp = some data → data.length = bp.psize) {error : Int}
    (failed : error ≠ 0) (buf : Bytes) (w : σ) :
    Gives (dvas.findSome? (env.copyData pool held bp)) (env.zioReadLoop gang bp dvas error buf w) := by
  induction dvas generalizing error buf w with
  | nil => exact .failed failed
  | cons dva dvas ih =>
    have later := @ih (fun ⟨other, member, kind⟩ => gangs ⟨other, mem_cons_of_mem dva member, kind⟩)
      (fun ⟨other, member, kind⟩ => sized ⟨other, mem_cons_of_mem dva member, kind⟩)
    rw [findSome?_cons, Env.copyData]
    by_cases zero : dva.zero = true
    · rw [zioReadLoop_skip (.inl zero), if_pos zero]
      exact later failed buf w
    rw [if_neg zero]
    cases found : env.vdevs.find? (·.id = dva.vdev) with
    | none =>
      rw [zioReadLoop_skip (.inr found)]
      exact later failed buf w
    | some vdev =>
      have got := readDva_gives steady vdev (fun kind => gangs ⟨dva, mem_cons_self, kind⟩)
        (fun kind => sized ⟨dva, mem_cons_self, kind⟩) buf w
      rw [zioReadLoop_found zero found]
      generalize env.readDva gang vdev dva bp buf w = reply at got ⊢
      dsimp only
      cases copy : (env.dvaBlock pool held bp vdev dva).bind (env.expand bp) with
      | none =>
        rw [copy] at got
        rw [if_neg got.error]
        exact later got.error reply.2.1 reply.2.2
      | some data =>
        rw [copy] at got
        rw [if_pos got.ok.1]
        exact .done rfl got.ok.2

end

variable {read : Blkptr → Bytes → σ → Reply σ}

theorem zioReadPieces_some {gbp : Blkptr} {gbps : List Blkptr} {pos : Nat} {buf : Bytes} {w : σ}
    (kept : ¬gbp.hole = true) :
    Env.zioReadPieces read (gbp :: gbps) pos buf w =
      if (read gbp (buf.drop pos) w).1 ≠ 0 then (eio, buf.take pos ++ (read gbp (buf.drop pos) w).2.1,
        (read gbp (buf.drop pos) w).2.2)
      else Env.zioReadPieces read gbps (pos + gbp.psize) (buf.take pos ++ (read gbp (buf.drop pos) w).2.1)
        (read gbp (buf.drop pos) w).2.2 := by
  rw [Env.zioReadPieces, if_neg kept]

theorem zioReadPieces_gives {held : Blkptr → Option Bytes} {gbps : List Blkptr}
    (gives : ∀ gbp ∈ gbps.filter (!·.hole), ∀ buf w, Gives (held gbp) (read gbp buf w))
    (sized : ∀ gbp ∈ gbps.filter (!·.hole), ∀ piece, held gbp = some piece → piece.length = gbp.psize) {front buf : Bytes}
    (start : front <+: buf) (w : σ) :
    Gives ((Env.piecesData held (gbps.filter (!·.hole))).map (front ++ ·)) (Env.zioReadPieces read gbps front.length buf w) := by
  induction gbps generalizing front buf w with
  | nil => exact .done rfl (by change front ++ [] <+: buf; rwa [append_nil])
  | cons gbp gbps ih =>
    by_cases hole : gbp.hole = true
    · rw [filter_cons_of_neg (by simpa using hole)] at gives sized ⊢
      rw [Env.zioReadPieces, if_pos hole]
      exact ih gives sized start w
    rw [filter_cons_of_pos (by simpa using hole)] at gives sized ⊢
    have got := gives gbp mem_cons_self (buf.drop front.length) w
    rw [zioReadPieces_some hole, Env.piecesData]
    generalize read gbp (buf.drop front.length) w = reply at got ⊢
    cases piece : held gbp with
    | none =>
      rw [piece] at got
      rw [if_pos got.error]
      exact .failed eio_ne
    | some data =>
      rw [piece] at got
      have taken : buf.take front.length = front := (prefix_iff_eq_take.mp start).symm
      have behind := (prefix_append_right_inj front).mpr got.ok.2
      have later := @ih (fun other member => gives other (mem_cons_of_mem gbp member))
        (fun other member => sized other (mem_cons_of_mem gbp member)) (front ++ data) (front ++ reply.2.1) behind reply.2.2
      rw [length_append, sized gbp mem_cons_self data piece] at later
      rw [if_neg (not_not.mpr got.ok.1), taken, bind_some, Option.map_map]
      simpa only [Function.comp_def, append_assoc] using later

variable {depth : Nat} {gb : Bytes}

private theorem header_blkptrs {buf : Bytes} (start : gb <+: buf) (size : gb.length = spaGangblocksize) :
    (range spaGbhNblkptrs).map (env.indbp buf) = (range spaGbhNblkptrs).map (env.indbp gb) :=
  map_congr_left fun _ member =>
    (env.indbp_of_prefix start (by rw [size]; decide) (mem_range.mp member)).symm

/-- A gang block put together in the buffer, when its header and its pieces are read as they are held. -/
theorem zioReadGang_gives {held : Blkptr → Option Bytes} {bp : Blkptr}
    (header : ∀ buf w, Gives (held (Env.gbhBp bp)) (read (Env.gbhBp bp) buf w))
    (headerSize : ∀ gb, held (Env.gbhBp bp) = some gb → gb.length = spaGangblocksize)
    (filled : ∀ gb, held (Env.gbhBp bp) = some gb → bp.psize ≤ ((env.gangChildren gb).map Blkptr.psize).sum)
    (gives : ∀ gb, held (Env.gbhBp bp) = some gb →
      ∀ gbp ∈ env.gangChildren gb, ∀ buf w, Gives (held gbp) (read gbp buf w))
    (sized : ∀ gb, held (Env.gbhBp bp) = some gb → ∀ gbp ∈ env.gangChildren gb, ∀ piece, held gbp = some piece →
      piece.length = gbp.psize) (buf : Bytes) (w : σ) :
    Gives (env.gangData held bp) (env.zioReadGang read bp buf w) := by
  have top := header (env.temp w) w
  rw [Env.zioReadGang, Env.gangData, Env.assembled]
  generalize read (Env.gbhBp bp) (env.temp w) w = reply at top ⊢
  obtain ⟨_, _, w'⟩ := reply
  dsimp only
  cases found : held (Env.gbhBp bp) with
  | none =>
    rw [found] at top
    rw [if_pos top.error]
    exact .failed eio_ne
  | some gb =>
    rw [found] at top
    have pieces := zioReadPieces_gives (gives gb found) (sized gb found) ( nil_prefix (l := buf)) w'
    rw [if_neg (not_not.mpr top.ok.1), header_blkptrs top.ok.2 (headerSize gb found)]
    change Gives ((Env.piecesData held (env.gangChildren gb)).map ([] ++ ·))
      (Env.zioReadPieces read ((range spaGbhNblkptrs).map (env.indbp gb)) 0 buf w') at pieces
    generalize Env.zioReadPieces read ((range spaGbhNblkptrs).map (env.indbp gb)) 0 buf w' = answer at pieces ⊢
    obtain ⟨error, whole, _⟩ := answer
    rw [bind_some]
    cases joined : Env.piecesData held (env.gangChildren gb) with
    | none =>
      rw [joined] at pieces
      rw [if_pos pieces.error]
      exact .failed eio_ne
    | some data =>
      rw [joined, map_some, nil_append] at pieces
      have length := piecesData_length (sized gb found) joined
      have block : whole.take bp.psize = data.take bp.psize := by
        obtain ⟨_, rfl⟩ := pieces.ok.2
        exact take_append_of_le_length (by rw [length]; exact filled gb found)
      have start : data.take bp.psize <+: whole := ( take_prefix bp.psize data).trans pieces.ok.2
      rw [if_neg (not_not.mpr pieces.ok.1), block, map_some, filter_some]
      by_cases verified : env.checksumVerify bp (data.take bp.psize) = 0
      · rw [if_neg (not_not.mpr verified), if_pos (by simpa using verified)]
        exact .done rfl start
      · rw [if_pos verified, if_neg (by simpa using verified)]
        exact .failed eio_ne

theorem copyData_plain {gang : Blkptr → Option Bytes} {bp : Blkptr} {dva : Dva} {data : Bytes}
    (plain : bp.compress = zioCompressOff)
    (sized : dva.gang = true → ∀ data, gang bp = some data → data.length = bp.psize)
    (held : env.copyData pool gang bp dva = some data) : data.length = bp.psize := by
  rw [Env.copyData] at held
  split at held
  next => cases held
  next =>
    split at held
    next => cases held
    next =>
      obtain ⟨_, found, whole⟩ := bind_eq_some_iff.mp held
      rw [Env.expand, if_neg (not_not.mpr plain)] at whole
      cases whole
      exact dvaBlock_length sized found

theorem copyData_plain_eq {gang gang' : Blkptr → Option Bytes} {bp : Blkptr} {dva : Dva} (plain : dva.gang = false) :
    env.copyData pool gang bp dva = env.copyData pool gang' bp dva := by
  simp only [Env.copyData, Env.dvaBlock, plain, Bool.false_eq_true, if_false]

private theorem blockData_gbh (deep : 0 < depth) (bp : Blkptr) :
    env.blockData pool depth (Env.gbhBp bp) = bp.dva.findSome? (env.headerData pool bp) := by
  obtain ⟨depth, rfl⟩ := Nat.exists_eq_succ_of_ne_zero (Nat.ne_of_gt deep)
  rw [Env.blockData, Env.gbhBp, findSome?_map]
  exact congrArg (findSome? · bp.dva) (funext fun dva => copyData_plain_eq rfl)

private theorem formed_gbh {bp : Blkptr} (deep : 0 < depth) : env.Formed pool depth (Env.gbhBp bp) := by
  obtain ⟨depth, rfl⟩ := Nat.exists_eq_succ_of_ne_zero (Nat.ne_of_gt deep)
  rintro ⟨_, member, kind⟩
  obtain ⟨_, -, rfl⟩ := List.mem_map.mp member
  simp at kind

/-- What is asked of the header that zio_read_gang reads. -/
theorem formed_header {bp : Blkptr} (formed : env.Formed pool (depth + 1) bp) (gang : ∃ dva ∈ bp.dva, dva.gang = true) :
    0 < depth ∧ ∀ gb, env.blockData pool depth (Env.gbhBp bp) = some gb →
      bp.psize ≤ ((env.gangChildren gb).map Blkptr.psize).sum ∧
      ∀ gbp ∈ env.gangChildren gb, gbp.compress = zioCompressOff ∧ env.Formed pool depth gbp := by
  obtain ⟨deep, -, -, children⟩ := formed gang
  refine ⟨deep, fun gb held => children gb ?_⟩
  rw [blockData_gbh deep] at held
  exact exists_of_findSome?_eq_some held

theorem findSome?_const {α β : Type} {l : List α} {f : α → Option β} {x : Option β}
    (either : ∀ a ∈ l, f a = none ∨ f a = x) (reached : x.isSome → ∃ a ∈ l, f a = x) : l.findSome? f = x := by
  cases found : l.findSome? f with
  | some b =>
    obtain ⟨a, member, same⟩ := exists_of_findSome?_eq_some found
    rcases either a member with empty | all
    · rw [empty] at same
      cases same
    · rw [← all, same]
  | none =>
    cases x with
    | none => rfl
    | some b =>
      obtain ⟨a, member, same⟩ := reached rfl
      rw [← same, findSome?_eq_none_iff.mp found a member]

theorem piecesData_congr {read read' : Blkptr → Option Bytes} {gbps : List Blkptr} (same : ∀ gbp ∈ gbps, read gbp = read' gbp) :
    Env.piecesData read gbps = Env.piecesData read' gbps := by
  induction gbps with
  | nil => rfl
  | cons gbp gbps ih =>
    rw [Env.piecesData, Env.piecesData, same gbp mem_cons_self, ih fun other member => same other (mem_cons_of_mem gbp member)]

/-- A DVA whose header can be read is there, and so is its vdev. -/
private theorem copyData_header {bp : Blkptr} {dva : Dva} (held : env.headerData pool bp dva = some gb)
    (kind : dva.gang = true) (gang : Blkptr → Option Bytes) : env.copyData pool gang bp dva = (gang bp).bind
    (env.expand bp) := by
  rw [Env.headerData, Env.copyData] at held
  rw [Env.copyData]
  split at held
  · cases held
  next there =>
    rw [if_neg there]
    split at held
    · cases held
    next _ found =>
      rw [found]
      dsimp only
      rw [Env.dvaBlock, if_pos kind]

theorem copyData_gang {bp : Blkptr} {dva : Dva} (kind : dva.zero = true ∨ dva.gang = true) (gang : Blkptr → Option Bytes) :
    env.copyData pool gang bp dva = none ∨ env.copyData pool gang bp dva = (gang bp).bind (env.expand bp) := by
  rw [Env.copyData]
  split
  · exact Or.inl rfl
  next there =>
    split
    · exact Or.inl rfl
    · rw [Env.dvaBlock, if_pos (kind.resolve_left there)]
      exact Or.inr rfl

/-- Where the DVAs of a gang block lead to one header, it does not matter by whose the block is put together. -/
theorem blockData_eq {bp : Blkptr} (formed : env.Formed pool depth bp) :
    env.blockData pool depth bp = env.logicalData pool depth bp := by
  induction depth generalizing bp with
  | zero => rfl
  | succ depth ih =>
    rw [Env.blockData, Env.logicalData]
    by_cases gang : ∃ dva ∈ bp.dva, dva.gang = true
    · obtain ⟨deep, kinds, ⟨gb, one⟩, children⟩ := formed gang
      have kind {dva : Dva} (member : dva ∈ bp.dva) (held : env.headerData pool bp dva = some gb) : dva.gang = true := by
        refine (kinds dva member).resolve_left fun zero => ?_
        rw [Env.headerData, Env.copyData, if_pos zero] at held
        cases held
      have read : env.gangData (env.blockData pool depth) bp =
          env.assembled (env.logicalData pool depth) bp (bp.dva.findSome? (env.headerData pool bp)) := by
        rw [Env.gangData, blockData_gbh deep]
        cases header : bp.dva.findSome? (env.headerData pool bp) with
        | none => rfl
        | some gb =>
          have pieces := (children gb (exists_of_findSome?_eq_some header)).2
          rw [Env.assembled, Env.assembled, bind_some, bind_some, piecesData_congr fun gbp member => ih (pieces gbp member).2]
      have header {dva : Dva} (member : dva ∈ bp.dva) (held : env.headerData pool bp dva = some gb) :
          bp.dva.findSome? (env.headerData pool bp) = some gb := findSome?_const one fun _ => ⟨dva, member, held⟩
      have reached (whole : (env.gangData (env.blockData pool depth) bp |>.bind (env.expand bp)).isSome) :
          ∃ dva ∈ bp.dva, env.headerData pool bp dva = some gb := by
        rw [read] at whole
        cases found : bp.dva.findSome? (env.headerData pool bp) with
        | none =>
          rw [found] at whole
          cases whole
        | some _ =>
          obtain ⟨dva, member, held⟩ := exists_of_findSome?_eq_some found
          rcases one dva member with empty | same
          · rw [empty] at held
            cases held
          · exact ⟨dva, member, same⟩
      have own {dva : Dva} (member : dva ∈ bp.dva) (held : env.headerData pool bp dva = some gb) :
          env.dvaLogical pool (env.logicalData pool depth) bp dva =
            (env.gangData (env.blockData pool depth) bp).bind (env.expand bp) := by
        rw [Env.dvaLogical, copyData_header held (kind member held), held, read, header member held]
      rw [findSome?_const (fun dva member => copyData_gang (kinds dva member) _) fun whole => ?_,
        findSome?_const (fun dva member => ?_) fun whole => ?_]
      · rcases one dva member with empty | held
        · refine Or.inl ((copyData_gang (kinds dva member) _).elim id fun same => same.trans ?_)
          rw [empty]
          rfl
        · exact Or.inr (own member held)
      · obtain ⟨dva, member, held⟩ := reached whole
        exact ⟨dva, member, own member held⟩
      · obtain ⟨dva, member, held⟩ := reached whole
        exact ⟨dva, member, copyData_header held (kind member held) _⟩
    · rw [← head?_filterMap, ← head?_filterMap]
      refine congrArg head? (filterMap_congr fun dva member => copyData_plain_eq ?_)
      exact Bool.eq_false_iff.mpr fun kind => gang ⟨dva, member, kind⟩

/-- The data of an uncompressed block fills it; put together from a gang block, also before it is decompressed. -/
theorem blockData_length {bp : Blkptr} (formed : env.Formed pool depth bp) :
    (bp.compress = zioCompressOff → ∀ data, env.blockData pool depth bp = some data → data.length = bp.psize) ∧
      ((∃ dva ∈ bp.dva, dva.gang = true) →
        ∀ data, env.gangData (env.blockData pool (depth - 1)) bp = some data → data.length = bp.psize) := by
  induction depth generalizing bp with
  | zero => exact formed.elim
  | succ depth ih =>
    have gangs : (∃ dva ∈ bp.dva, dva.gang = true) →
        ∀ data, env.gangData (env.blockData pool depth) bp = some data → data.length = bp.psize := by
      intro gang data held
      obtain ⟨-, children⟩ := formed_header formed gang
      refine gangData_length (fun gb header => ⟨(children gb header).1, fun gbp member piece found => ?_⟩) held
      obtain ⟨plain, nested⟩ := (children gb header).2 gbp member
      exact (ih nested).1 plain piece found
    refine ⟨fun plain data held => ?_, gangs⟩
    obtain ⟨dva, member, copy⟩ := exists_of_findSome?_eq_some held
    exact copyData_plain plain (fun kind => gangs ⟨dva, member, kind⟩) copy

theorem zioReadAt_gives (steady : env.Steady pool) {bp : Blkptr} (formed : env.Formed pool depth bp) (buf : Bytes)
    (w : σ) :
    Gives (env.blockData pool depth bp) (env.zioReadAt depth bp buf w) := by
  induction depth generalizing bp buf w with
  | zero => exact formed.elim
  | succ depth ih =>
    rw [Env.blockData, Env.zioReadAt]
    refine zioReadLoop_gives steady (fun gang buf w => ?_) (blockData_length formed).2 eio_ne buf w
    obtain ⟨deep, children⟩ := formed_header formed gang
    have header : env.Formed pool depth (Env.gbhBp bp) := formed_gbh deep
    refine zioReadGang_gives (ih header) ((blockData_length header).1 rfl) (fun gb held => (children gb held).1)
      (fun gb held gbp member => ih ((children gb held).2 gbp member).2) (fun gb held gbp member => ?_) buf w
    obtain ⟨plain, nested⟩ := (children gb held).2 gbp member
    exact (blockData_length nested).1 plain

theorem logicalData_dvas {bp : Blkptr} (formed : env.Formed pool env.depth bp) :
    env.logicalData pool env.depth bp = bp.dva.findSome? (env.dvaData pool bp) := by
  unfold Env.dvaData
  cases depth : env.depth with
  | zero => rw [depth] at formed; exact formed.elim
  | succ depth => rfl

/-- zio_read returns 0 when and only when a DVA has its data, and leaves those of the first one in the buffer. -/
def Env.ReadsAnyCopy (env : Env δ σ) (pool : Pool δ) (bp : Blkptr) (buf : Bytes) (w : σ) : Prop :=
  ((env.zioRead bp buf w).1 = 0 ↔ ∃ dva ∈ bp.dva, (env.dvaData pool bp dva).isSome) ∧
    ∀ data, bp.dva.findSome? (env.dvaData pool bp) = some data → data <+: (env.zioRead bp buf w).2.1

/-- A block is read whenever one of its copies can be read, and what is read is its contents. -/
theorem zioRead_any_copy (steady : env.Steady pool) {bp : Blkptr} (formed : env.Formed pool env.depth bp) (buf : Bytes) (w : σ) :
    env.ReadsAnyCopy pool bp buf w := by
  have gives := zioReadAt_gives steady formed buf w
  rw [blockData_eq formed, logicalData_dvas formed] at gives
  exact ⟨gives.1.trans findSome?_isSome_iff, gives.2⟩

/-! A disk and one that fails. Its sectors 0 to 4 are gang headers with the block pointers of their pieces, each with
its sector, its vdev and whether it is compressed; a header is known by its fourth byte. -/

def piece (sector vdev compressed : UInt8) : Bytes := [sector, vdev, compressed, 0xa5] ++ replicate 124 0

def gangDisk (offset : Nat) : Bytes :=
  match offset - vdevLabelStartSize with
  | 0 => piece 5 1 0
  | 1 => piece 5 0 0
  | 2 => piece 5 0 0 ++ piece 6 0 0
  | 3 => piece 5 0 1 ++ piece 6 0 0
  | 5 => [7, 8]
  | _ => [9, 9]

def gangPool : Pool Bool where
  phys fails offset size := if fails then none else some ((gangDisk offset ++ replicate size 0).take size)
  raidz _ _ _ _ := none
  physSize := by
    intro fails offset size bytes held
    split at held
    · cases held
    · cases held
      simp
  raidzSize := by simp

/-- What is compressed has a third byte behind it. -/
def gangEnv : Env Bool Unit where
  physRead fails offset size buf w :=
    if fails then (eio, buf, w) else (0, put 0 ((gangDisk offset ++ replicate size 0).take size) buf, w)
  raidzRead _ _ buf _ _ w := (eio, buf, w)
  checksumVerify bp data :=
    if if bp.checksum = zioChecksumGangHeader then data.getD 3 0 = 0xa5 else bp.cksum = [] ∨
      bp.cksum = data then 0 else eio
  decompressData _ data _ := (0, data ++ [1])
  blkptr bytes := ⟨[⟨false, (bytes.getD 1 0).toNat, (bytes.getD 0 0).toNat, false⟩], 2, 2,
    if bytes.getD 2 0 = 0 then zioCompressOff else 3, 0, bytes.getD 0 0 = 0, []⟩
  temp _ := []
  depth := 3
  vdevs := [.mk 0 .healthy .disk 9 (some false) [], .mk 1 .healthy .disk 9 (some true) []]

theorem gangPool_steady : gangEnv.Steady gangPool where
  phys fails offset size buf w := by
    cases fails
    · exact .done rfl (prefix_put _ buf)
    · exact .failed eio_ne
  raidz _ _ _ _ _ _ := .failed eio_ne

def blockAt (dva : List Dva) (psize : Nat) (cksum : Bytes) : Blkptr :=
  ⟨dva, psize, psize, zioCompressOff, 0, false, cksum⟩

/-- Three copies: nothing, a disk that fails, and a gang block of two pieces. -/
def gangBlkptr : Blkptr := blockAt [⟨true, 0, 0, false⟩, ⟨false, 1, 2, true⟩, ⟨false, 0, 2, true⟩] 3 []

theorem gangBlkptr_data : gangBlkptr.dva.findSome? (gangEnv.dvaData gangPool gangBlkptr) = some [7, 8, 9] := by decide

private theorem gangBlkptr_formed : gangEnv.Formed gangPool gangEnv.depth gangBlkptr := by
  have headers : ∀ dva ∈ gangBlkptr.dva, gangEnv.headerData gangPool gangBlkptr dva = none ∨
    gangEnv.headerData gangPool gangBlkptr dva =
      some ((gangDisk (vdevLabelStartSize + 2) ++ replicate 512 0).take 512) := by decide +kernel
  refine fun _ => ⟨by decide, by decide, ⟨_, headers⟩, ?_⟩
  rintro _ ⟨dva, member, held⟩
  rcases headers dva member with empty | same
  · rw [empty] at held
    cases held
  · rw [same] at held
    cases held
    have children : gangEnv.gangChildren ((gangDisk (vdevLabelStartSize + 2) ++ replicate 512 0).take 512) =
        [blockAt [⟨false, 0, 5, false⟩] 2 [], blockAt [⟨false, 0, 6, false⟩] 2 []] := by decide
    rw [children]
    refine ⟨by decide, fun gbp member => ?_⟩
    obtain rfl | rfl : gbp = _ ∨ gbp = _ := by simpa using member
    all_goals
      refine ⟨rfl, ?_⟩
      rintro ⟨dva, inside, kind⟩
      rw [mem_singleton.mp inside] at kind
      cases kind

theorem zioRead_third_copy :
    (gangEnv.zioRead gangBlkptr [0, 0, 0, 5] ()).1 = 0 ∧ [7, 8, 9] <+: (gangEnv.zioRead gangBlkptr [0, 0, 0, 5] ()).2.1 := by
  have any := zioRead_any_copy gangPool_steady gangBlkptr_formed [0, 0, 0, 5] ()
  refine ⟨any.1.mpr (findSome?_isSome_iff.mp ?_), any.2 _ gangBlkptr_data⟩
  rw [gangBlkptr_data]
  rfl

/-- A gang block whose second DVA has a header of its own; one that has a plain copy in front of the DVA with the
header; one that its pieces do not fill; and one with a compressed piece. -/
theorem zioRead_gang_copies :
    ¬ gangEnv.ReadsAnyCopy gangPool (blockAt [⟨false, 0, 0, true⟩, ⟨false, 0, 1, true⟩] 2 []) [0, 0, 0, 0] () ∧
    ¬ gangEnv.ReadsAnyCopy gangPool (blockAt [⟨false, 1, 0, true⟩, ⟨false, 0, 6, false⟩, ⟨false, 0, 1, true⟩] 2 [])
      [0, 0, 0, 0] () ∧
    ¬ gangEnv.ReadsAnyCopy gangPool (blockAt [⟨false, 0, 1, true⟩] 3 [7, 8]) [0, 0, 0, 0] () ∧
    ¬ gangEnv.ReadsAnyCopy gangPool (blockAt [⟨false, 0, 3, true⟩] 4 []) [0, 0, 0, 0] () := by
  refine ⟨fun claim => ?_, fun claim => ?_, fun claim => ?_, fun claim => ?_⟩
  · have read := claim.1.mpr ⟨⟨false, 0, 1, true⟩, by decide, by decide⟩
    revert read
    decide
  · have read := claim.2 [9, 9] (by decide)
    revert read
    decide
  · have read := claim.1.mpr ⟨⟨false, 0, 1, true⟩, by decide, by decide⟩
    revert read
    decide
  · have read := claim.2 [7, 8, 1, 9] (by decide)
    revert read
    decide

end Pcbsd.Zfs
