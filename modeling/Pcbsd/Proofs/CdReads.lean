import Pcbsd.Bioscd

/-! What bc_read says of a read that failed. -/

namespace Pcbsd.Bioscd
open Lib Memory List

variable {cd : Drive} {packet : Packet} {r : Run}

theorem length_sectors (cd : Drive) (lba count : Nat) : (cd.sectors lba count).length = count * bioscdSecsize := by
  rw [Drive.sectors, length_flatMap]
  induction count with
  | zero => rw [Nat.zero_mul]; rfl
  | succ count ih =>
    rw [range_succ, map_append, sum_append, ih, Nat.succ_mul, map_singleton, sum_singleton, cd.size]

theorem sectors_append (cd : Drive) (lba m n : Nat) :
    cd.sectors lba (m + n) = cd.sectors lba m ++ cd.sectors (lba + m) n := by
  simp only [Drive.sectors, range_add, flatMap_append, flatMap_map, Nat.add_assoc]

def ServedBy (ok : Nat → Bool) (n next : Nat) : Prop :=
  ok n = true ∧ next = n + 1 ∨ ok n = false ∧ ok (n + 1) = true ∧ next = n + 2 ∨
    ok n = false ∧ ok (n + 1) = false ∧ ok (n + 2) = true ∧ next = n + 3

def Served (ok : Nat → Bool) : (chunks n : Nat) → Prop
  | 0, _ => True
  | chunks + 1, n => ∃ next, ServedBy ok n next ∧ Served ok chunks next

theorem attempts_cases (cd : Drive) (packet : Packet) (r : Run) :
    (∃ next mem, ServedBy cd.ok r.calls next ∧
      attempts cd packet 3 r = (true,
        ⟨write mem packet.addr (cd.sectors packet.lba packet.count), next, r.moved ++ [packet]⟩) ∧
      ∀ a, a < packet.addr ∨ packet.addr + packet.count * bioscdSecsize ≤ a → mem a = r.mem a) ∨
    (∀ next, ¬ ServedBy cd.ok r.calls next) ∧ ∃ mem, attempts cd packet 3 r = (false, ⟨mem, r.calls + 3, r.moved⟩) ∧
      ∀ a, a < packet.addr ∨ packet.addr + packet.count * bioscdSecsize ≤ a → mem a = r.mem a := by
  have spoilt : ∀ (mem : Mem) (n : Nat) (a : Nat), a < packet.addr ∨ packet.addr + packet.count * bioscdSecsize ≤ a →
      write mem packet.addr ((cd.left n).take (packet.count * bioscdSecsize)) a = mem a := by
    intro mem n a outside
    have short := length_take_le (packet.count * bioscdSecsize) (cd.left n)
    exact write_outside (by omega)
  cases first : cd.ok r.calls with
  | true =>
    refine Or.inl ⟨r.calls + 1, r.mem, Or.inl ⟨first, rfl⟩, ?_, fun _ _ => rfl⟩
    simp only [attempts, int13, first, if_true]
  | false =>
    cases second : cd.ok (r.calls + 1) with
    | true =>
      refine Or.inl ⟨r.calls + 2, _, Or.inr (Or.inl ⟨first, second, rfl⟩), ?_, spoilt r.mem r.calls⟩
      simp only [attempts, int13, first, second, if_true, Bool.false_eq_true, if_false]
    | false =>
      cases third : cd.ok (r.calls + 2) with
      | true =>
        refine Or.inl ⟨r.calls + 3,
          write (write r.mem packet.addr ((cd.left r.calls).take (packet.count * bioscdSecsize))) packet.addr
          ((cd.left (r.calls + 1)).take (packet.count * bioscdSecsize)),
          Or.inr (Or.inr ⟨first, second, third, rfl⟩), ?_,
          fun a outside => ?_⟩
        · simp only [attempts, int13, first, second, third, if_true, Bool.false_eq_true, if_false]
        · exact (spoilt _ (r.calls + 1) a outside).trans (spoilt r.mem r.calls a outside)
      | false =>
        have failed := spoilt (write
          (write r.mem packet.addr ((cd.left r.calls).take (packet.count * bioscdSecsize))) packet.addr
          ((cd.left (r.calls + 1)).take (packet.count * bioscdSecsize))) (r.calls + 2)
        refine Or.inr ⟨?_, _, ?_, fun a outside =>
          (failed a outside).trans ((spoilt _ (r.calls + 1) a outside).trans (spoilt r.mem r.calls a outside))⟩
        · rintro next (⟨works, _⟩ | ⟨_, works, _⟩ | ⟨_, _, works, _⟩)
          · rw [first] at works; cases works
          · rw [second] at works; cases works
          · rw [third] at works; cases works
        · simp only [attempts, int13, first, second, third, Bool.false_eq_true, if_false]

def asked (packets : List Packet) : List Nat := packets.flatMap fun packet => range' packet.lba packet.count

/-- The sectors from `dblk` on were moved by packets that were served, and lie at `dest`. -/
def Delivered (cd : Drive) (dblk blks dest : Nat) (r r' : Run) : Prop :=
  (∃ packets, r'.moved = r.moved ++ packets ∧ asked packets = range' dblk blks) ∧
    bytesAt r'.mem dest (blks * bioscdSecsize) = cd.sectors dblk blks

theorem ServedBy.unique {ok : Nat → Bool} {n next next' : Nat} (served : ServedBy ok n next)
    (served' : ServedBy ok n next') :
    next = next' := by
  rcases served with ⟨a, rfl⟩ | ⟨a, b, rfl⟩ | ⟨a, b, c, rfl⟩ <;> rcases served' with ⟨a', rfl⟩ | ⟨a', b', rfl⟩ | ⟨a',
    b', c', rfl⟩ <;> simp_all

structure Outcome (cd : Drive) (chunks dblk resid p : Nat) (r r' : Run) (packets : List Packet) : Prop where
  moved : r'.moved = r.moved ++ packets
  frame : ∀ a, 2 ^ 20 ≤ a → a < p → r'.mem a = r.mem a
  served : Served cd.ok chunks r.calls → asked packets = range' dblk resid ∧
    bytesAt r'.mem p (resid * bioscdSecsize) = cd.sectors dblk resid
  failed : ¬ Served cd.ok chunks r.calls → (asked packets).length < resid

theorem Outcome.le {chunks dblk resid p : Nat} {r r' : Run} {packets : List Packet}
    (outcome : Outcome cd chunks dblk resid p r r' packets) :
    (asked packets).length ≤ resid := by
  by_cases all : Served cd.ok chunks r.calls
  · rw [(outcome.served all).1, length_range']
  · exact Nat.le_of_lt (outcome.failed all)

theorem asked_cons (packet : Packet) (packets : List Packet) :
    asked (packet :: packets) = range' packet.lba packet.count ++ asked packets := flatMap_cons

theorem Outcome.of_served {chunks dblk x resid p next : Nat} {r r₁ r' : Run} {packets : List Packet}
    (rest : Outcome cd chunks (dblk + x) resid (p + x * bioscdSecsize) r₁ r' packets)
    (served : ServedBy cd.ok r.calls next) (calls : r₁.calls = next) (moved : r₁.moved = r.moved ++ [packet])
    (lba : packet.lba = dblk) (count : packet.count = x) (high : 2 ^ 20 ≤ p)
    (frame : ∀ a, 2 ^ 20 ≤ a → a < p → r₁.mem a = r.mem a)
    (there : bytesAt r₁.mem p (x * bioscdSecsize) = cd.sectors dblk x) :
    Outcome cd (chunks + 1) dblk (x + resid) p r r' (packet :: packets) := by
  subst calls
  refine ⟨?_, fun a low below => ?_, fun all => ?_, fun lost => ?_⟩
  · rw [rest.moved, moved, append_assoc, singleton_append]
  · exact (rest.frame a low (by omega)).trans (frame a low below)
  · obtain ⟨next, first, others⟩ := all
    rw [first.unique served] at others
    obtain ⟨blocks, bytes⟩ := rest.served others
    have kept : bytesAt r'.mem p (x * bioscdSecsize) = bytesAt r₁.mem p (x * bioscdSecsize) :=
      bytesAt_congr fun a low below => rest.frame a (by omega) below
    refine ⟨?_, ?_⟩
    · rw [asked_cons, blocks, lba, count, range'_append_1]
    · rw [Nat.add_mul, bytesAt_append, bytes, kept, there, sectors_append]
  · have others : ¬ Served cd.ok chunks r₁.calls := fun all => lost ⟨_, served, all⟩
    have fewer := rest.failed others
    rw [asked_cons, length_append, length_range', count]
    omega

theorem Outcome.of_failed {chunks dblk x resid p : Nat} {r r₁ r' : Run} {packets : List Packet}
    (rest : Outcome cd chunks (dblk + x) resid (p + x * bioscdSecsize) r₁ r' packets)
    (never : ∀ next, ¬ ServedBy cd.ok r.calls next) (moved : r₁.moved = r.moved) (pos : 0 < x)
    (frame : ∀ a, 2 ^ 20 ≤ a → a < p → r₁.mem a = r.mem a) :
    Outcome cd (chunks + 1) dblk (x + resid) p r r' packets := by
  refine ⟨by rw [rest.moved, moved], fun a low below => ?_, fun all => ?_, fun _ => ?_⟩
  · exact (rest.frame a low (by omega)).trans (frame a low below)
  · obtain ⟨next, first, _⟩ := all
    exact absurd first (never next)
  · have fewer := rest.le
    omega

theorem Outcome.nil (dblk p : Nat) (r : Run) : Outcome cd 0 dblk 0 p r r [] := by
  refine ⟨(append_nil _).symm, fun _ _ _ => rfl, fun _ => ⟨rfl, ?_⟩, fun lost => absurd trivial lost⟩
  rw [Nat.zero_mul]
  rfl

def chunks (maxfer resid : Nat) : Nat := (resid + maxfer - 1) / maxfer

theorem chunks_zero {maxfer : Nat} (pos : 0 < maxfer) : chunks maxfer 0 = 0 := by
  rw [chunks, Nat.zero_add]
  exact Nat.div_eq_of_lt (by omega)

theorem chunks_step {maxfer resid : Nat} (pos : 0 < maxfer) (more : 0 < resid) :
    chunks maxfer resid = chunks maxfer (resid - min resid maxfer) + 1 := by
  by_cases full : maxfer ≤ resid
  · have least : resid + maxfer - 1 = resid - min resid maxfer + maxfer - 1 + maxfer := by omega
    rw [chunks, chunks, least, Nat.add_div_right _ pos]
  · have least : resid - min resid maxfer = 0 := by omega
    rw [least, chunks_zero pos, chunks]
    exact Nat.div_eq_of_lt_le (by omega) (by omega)

theorem packet_fits {dblk x addr : Nat} (range : dblk < 2 ^ 64) (small : x < 2 ^ 16) (low : addr < 2 ^ 20) :
    (⟨dblk % 2 ^ 64, x % 2 ^ 16, segOff addr⟩ : Packet) = ⟨dblk, x, addr⟩ := by
  rw [Nat.mod_eq_of_lt range, Nat.mod_eq_of_lt small, segOff_low low]

theorem readLoop_bounce (cd : Drive) {bbuf maxfer : Nat} (pos : 0 < maxfer) (small : maxfer ≤ cdBouncebuf)
    (low : bbuf + cdBouncebuf * bioscdSecsize ≤ 2 ^ 20) (fuel : Nat) :
    ∀ (resid dblk p : Nat) (r : Run), resid ≤ fuel → 2 ^ 20 ≤ p →
    dblk + resid < 2 ^ 64 → ∃ packets, Outcome cd (chunks maxfer resid) dblk resid p r
      (readLoop cd (some bbuf) maxfer fuel resid dblk p r) packets := by
  induction fuel with
  | zero =>
    intro resid dblk p r enough _ _
    obtain rfl : resid = 0 := by omega
    rw [chunks_zero pos]
    exact ⟨[], Outcome.nil dblk p r⟩
  | succ fuel ih =>
    intro resid dblk p r enough high range
    rcases Nat.eq_zero_or_pos resid with rfl | more
    · rw [chunks_zero pos, readLoop, if_pos rfl]
      exact ⟨[], Outcome.nil dblk p r⟩
    · rw [chunks_step pos more, readLoop, if_neg (by omega)]
      obtain ⟨x, least⟩ : ∃ x, x = min resid maxfer := ⟨_, rfl⟩
      have small' : maxfer ≤ 8 := small
      have room : bbuf + 8 * 2048 ≤ 2 ^ 20 := low
      have bytes : x * bioscdSecsize ≤ 8 * 2048 := Nat.mul_le_mul (by omega) (Nat.le_refl _)
      have split : resid = x + (resid - x) := by omega
      have apart : bbuf + x * bioscdSecsize ≤ 2 ^ 20 := by omega
      simp only [Option.getD_some, if_pos pos, ← least]
      rw [packet_fits (by omega) (by omega) (by omega)]
      rcases attempts_cases cd ⟨dblk, x, bbuf⟩ r with ⟨next, mem, served, ran, frame⟩ | ⟨never, mem, ran, frame⟩
      · rw [ran]
        have bounced := bytesAt_write mem bbuf (cd.sectors dblk x)
        rw [length_sectors] at bounced
        obtain ⟨packets, rest⟩ := ih (resid - x) (dblk + x) (p + x * bioscdSecsize)
          ⟨write (write mem bbuf (cd.sectors dblk x)) p
            (bytesAt (write mem bbuf (cd.sectors dblk x)) bbuf (x * bioscdSecsize)), next,
            r.moved ++ [⟨dblk, x, bbuf⟩]⟩ (by omega) (by omega) (by omega)
        refine ⟨⟨dblk, x, bbuf⟩ :: packets, ?_⟩
        have outcome := rest.of_served served rfl rfl rfl rfl high ?_ ?_
        · rw [← split] at outcome
          exact outcome
        · intro a above below
          refine (write_outside (Or.inl below)).trans ((write_outside (Or.inr ?_)).trans (frame a (Or.inr ?_)))
          · rw [length_sectors]
            omega
          · exact Nat.le_trans apart above
        · have there := bytesAt_write (write mem bbuf (cd.sectors dblk x)) p (cd.sectors dblk x)
          rw [length_sectors] at there
          rw [bounced]
          exact there
      · rw [ran]
        obtain ⟨packets, rest⟩ := ih (resid - x) (dblk + x) (p + x * bioscdSecsize)
          ⟨write mem p (bytesAt mem bbuf (x * bioscdSecsize)), r.calls + 3, r.moved⟩ (by omega) (by omega) (by omega)
        refine ⟨packets, ?_⟩
        have outcome := rest.of_failed never rfl (by omega) ?_
        · rw [← split] at outcome
          exact outcome
        · intro a above below
          exact (write_outside (Or.inl below)).trans (frame a (Or.inr (Nat.le_trans apart above)))

theorem Outcome.delivered_iff {chunks dblk resid p : Nat} {r r' : Run} {packets : List Packet}
    (outcome : Outcome cd chunks dblk resid p r r' packets) :
    Delivered cd dblk resid p r r' ↔ Served cd.ok chunks r.calls := by
  constructor
  · rintro ⟨⟨_, moved, blocks⟩, _⟩
    by_contra lost
    have fewer := outcome.failed lost
    rw [outcome.moved, append_cancel_left_eq] at moved
    rw [moved, blocks, length_range'] at fewer
    exact Nat.lt_irrefl _ fewer
  · intro all
    obtain ⟨blocks, bytes⟩ := outcome.served all
    exact ⟨⟨packets, outcome.moved, blocks⟩, bytes⟩

theorem served_one {ok : Nat → Bool} {n : Nat} : Served ok 1 n ↔ ∃ next, ServedBy ok n next :=
  ⟨fun ⟨next, first, _⟩ => ⟨next, first⟩, fun ⟨next, first⟩ => ⟨next, first, trivial⟩⟩

theorem readLoop_direct {blks dblk dest : Nat} (more : 0 < blks) (low : dest < 2 ^ 20) (range : dblk < 2 ^ 64)
    (r : Run) :
    Delivered cd dblk blks dest r (readLoop cd none 0 blks blks dblk dest r) ↔ Served cd.ok 1 r.calls ∧
    blks < 2 ^ 16 := by
  obtain ⟨fuel, rfl⟩ : ∃ fuel, blks = fuel + 1 := ⟨blks - 1, by omega⟩
  rw [readLoop, if_neg (by omega)]
  simp only [Option.getD_none, Nat.lt_irrefl, if_false, Nat.sub_self, Nat.mod_eq_of_lt range, segOff_low low]
  have done : ∀ (dblk p : Nat) (r : Run), readLoop cd none 0 fuel 0 dblk p r = r := by
    intro dblk p r
    cases fuel with
    | zero => rfl
    | succ fuel => rw [readLoop, if_pos rfl]
  have few : ∀ {packets : List Packet}, r.moved ++ packets = r.moved ++ [] →
    asked packets ≠ range' dblk (fuel + 1) := by
    intro packets moved blocks
    rw [append_cancel_left_eq] at moved
    subst moved
    have length := congrArg length blocks
    cases length
  rw [served_one]
  rcases attempts_cases cd ⟨dblk, (fuel + 1) % 2 ^ 16, dest⟩ r with ⟨next, mem, served, ran, frame⟩ | ⟨never,
    mem, ran, frame⟩
  · rw [ran, done]
    constructor
    · rintro ⟨⟨packets, moved, blocks⟩, _⟩
      refine ⟨⟨next, served⟩, ?_⟩
      rw [append_cancel_left_eq] at moved
      rw [← moved, asked_cons, asked, flatMap_nil, append_nil] at blocks
      have length := congrArg length blocks
      rw [length_range', length_range'] at length
      change (fuel + 1) % 2 ^ 16 = fuel + 1 at length
      omega
    · rintro ⟨_, small⟩
      rw [Nat.mod_eq_of_lt small]
      refine ⟨⟨_, rfl, ?_⟩, ?_⟩
      · rw [asked_cons, asked, flatMap_nil, append_nil]
      · have there := bytesAt_write mem dest (cd.sectors dblk (fuel + 1))
        rw [length_sectors] at there
        exact there
  · rw [ran, done]
    constructor
    · rintro ⟨⟨packets, moved, blocks⟩, _⟩
      exact absurd blocks (few (by rw [← moved, append_nil]))
    · rintro ⟨⟨next, served⟩, _⟩
      exact absurd served (never next)

/-- Each chunk is served at one of its three attempts, and without a bounce buffer the count fits its field. -/
def Reached (ok : Nat → Bool) (blks dest n : Nat) : Prop :=
  if 2 ^ 20 ≤ dest then Served ok (chunks (min cdBouncebuf blks) blks) n else Served ok 1 n ∧ blks < 2 ^ 16

theorem bcRead_pos (cd : Drive) {stack dblk blks dest : Nat} (more : 0 < blks)
    (low : stack + cdBouncebuf * bioscdSecsize ≤ 2 ^ 20) (range : dblk + blks < 2 ^ 64) (r : Run) :
    (bcRead cd stack dblk blks dest r).1 = 0 ∧
      (Delivered cd dblk blks dest r (bcRead cd stack dblk blks dest r).2 ↔ Reached cd.ok blks dest r.calls) := by
  rw [bcRead, if_neg (by omega), if_neg (by omega), Int.toNat_natCast, Reached]
  have eight : cdBouncebuf = 8 := rfl
  by_cases high : 2 ^ 20 ≤ dest
  · rw [if_pos (by omega), if_pos high]
    obtain ⟨_, outcome⟩ := readLoop_bounce cd (by omega) (Nat.min_le_left cdBouncebuf blks) low blks blks dblk dest r
      (Nat.le_refl _) high range
    exact ⟨rfl, outcome.delivered_iff⟩
  · rw [if_neg (by omega), if_neg high]
    exact ⟨rfl, readLoop_direct more (by omega) (by omega) r⟩

theorem bcRead_iff {stack dblk dest : Nat} {blks : Int} (low : stack + cdBouncebuf * bioscdSecsize ≤ 2 ^ 20)
    (range : dblk + blks.toNat < 2 ^ 64) (r : Run) :
    ((bcRead cd stack dblk blks dest r).1 = 0 → Delivered cd dblk blks.toNat dest r (bcRead cd stack dblk blks dest r).2) ↔
      blks ≤ 0 ∨ Reached cd.ok blks.toNat dest r.calls := by
  rcases Int.lt_trichotomy blks 0 with below | rfl | above
  · rw [bcRead, if_pos below]
    exact ⟨fun _ => Or.inl (Int.le_of_lt below), fun _ zero => by cases zero⟩
  · refine ⟨fun _ => Or.inl (Int.le_refl 0), fun _ _ => ⟨⟨[], ?_, rfl⟩, ?_⟩⟩
    · exact (append_nil _).symm
    · rw [Int.toNat_zero, Nat.zero_mul]
      rfl
  · obtain ⟨n, rfl⟩ := Int.eq_ofNat_of_zero_le (Int.le_of_lt above)
    rw [Int.toNat_natCast] at range ⊢
    obtain ⟨zero, delivered⟩ := @bcRead_pos cd stack dblk n dest (by omega) low range r
    rw [delivered]
    exact ⟨fun holds => Or.inr (holds zero), fun holds _ => holds.resolve_left (by omega)⟩

theorem bcStrategy_iff (drives : Int → Drive) (bcinfo : List Int) (unit : Int) (rw : Rw) {stack dblk size dest : Nat}
    (r : Run) (low : stack + cdBouncebuf * bioscdSecsize ≤ 2 ^ 20) (range : dblk + size < 2 ^ 64) :
    let out := bcStrategy drives bcinfo stack unit rw dblk size dest r
    ((out.1 = none ∧ out.2.1 = some size →
      Delivered (drives (bcUnit2bios bcinfo unit)) (dblk / 4) (size / 2048) dest r out.2.2) ↔
      size % 2048 ≠ 0 ∨ rw ≠ .read ∨ dblk % 4 ≠ 0 ∨ size / 2048 = 0 ∨
        Reached (drives (bcUnit2bios bcinfo unit)).ok (size / 2048) dest r.calls) := by
  have sector : bioscdSecsize = 2048 := rfl
  have four : 2048 / devBsize = 4 := rfl
  simp only [bcStrategy, sector, four]
  by_cases whole : size % 2048 = 0
  swap
  · rw [if_pos whole]
    exact ⟨fun _ => Or.inl whole, fun _ done => by cases done.1⟩
  by_cases reads : rw = .read
  swap
  · rw [if_neg (not_not.mpr whole), if_pos reads]
    exact ⟨fun _ => Or.inr (Or.inl reads), fun _ done => by cases done.1⟩
  by_cases start : dblk % 4 = 0
  swap
  · rw [if_neg (not_not.mpr whole), if_neg (not_not.mpr reads), if_pos start]
    exact ⟨fun _ => Or.inr (Or.inr (Or.inl start)), fun _ done => by cases done.1⟩
  rw [if_neg (not_not.mpr whole), if_neg (not_not.mpr reads), if_neg (not_not.mpr start)]
  rcases Nat.eq_zero_or_pos (size / 2048) with none | some
  · rw [if_pos none, none]
    refine ⟨fun _ => Or.inr (Or.inr (Or.inr (Or.inl rfl))), fun _ _ => ⟨⟨[], (append_nil _).symm, rfl⟩, ?_⟩⟩
    rw [Nat.zero_mul]
    rfl
  · rw [if_neg (by omega)]
    obtain ⟨zero, delivered⟩ :=
      @bcRead_pos (drives (bcUnit2bios bcinfo unit)) stack (dblk / 4) (size / 2048) dest some low (by omega) r
    rw [← delivered]
    rcases ran : bcRead (drives (bcUnit2bios bcinfo unit)) stack (dblk / 4) (size / 2048 : Nat) dest r with ⟨rc, _⟩
    rw [ran] at zero delivered
    obtain rfl : rc = 0 := zero
    constructor
    · intro holds
      exact Or.inr (Or.inr (Or.inr (Or.inr (holds ⟨rfl, rfl⟩))))
    · rintro (part | other | off | _ | all) _
      · exact absurd whole part
      · exact absurd reads other
      · exact absurd start off
      · omega
      · exact all

/-- bc_read and bc_strategy report success for what was read just when each chunk is served at one of its attempts. -/
theorem bcRead_delivers_iff (drives : Int → Drive) (bcinfo : List Int) (unit blks : Int) (rw : Rw)
    (stack dblk size dest : Nat) (r : Run) (low : stack + cdBouncebuf * bioscdSecsize ≤ 2 ^ 20)
    (range : dblk + blks.toNat < 2 ^ 64) (range' : dblk + size < 2 ^ 64) :
    let cd := drives (bcUnit2bios bcinfo unit)
    (((bcRead cd stack dblk blks dest r).1 = 0 →
      Delivered cd dblk blks.toNat dest r (bcRead cd stack dblk blks dest r).2) ↔
      blks ≤ 0 ∨ Reached cd.ok blks.toNat dest r.calls) ∧
    let out := bcStrategy drives bcinfo stack unit rw dblk size dest r
    ((out.1 = none ∧ out.2.1 = some size → Delivered cd (dblk / 4) (size / 2048) dest r out.2.2) ↔
      size % 2048 ≠ 0 ∨ rw ≠ .read ∨ dblk % 4 ≠ 0 ∨ size / 2048 = 0 ∨ Reached cd.ok (size / 2048) dest r.calls) := by
  exact ⟨bcRead_iff low range r, bcStrategy_iff drives bcinfo unit rw r low range'⟩

def steadyCd (ok : Nat → Bool) : Drive :=
  ⟨fun lba => replicate bioscdSecsize (UInt8.ofNat (lba + 1)), fun _ => length_replicate, ok, fun _ => []⟩

theorem bcRead_delivers_second :
    let cd := steadyCd fun n => n = 1
    let r : Run := ⟨fun _ => 0, 0, []⟩
    Delivered cd 16 1 0x100000 r (bcRead cd 0x90000 16 1 0x100000 r).2 := by
  intro cd r
  have iff := (bcRead_delivers_iff (fun _ => cd) [0x82] 0 1 .read 0x90000 16 2048 0x100000 r (by decide) (by decide)
    (by decide)).1
  refine iff.mpr (Or.inr ?_) ?_
  · exact (if_pos (by decide)).mpr ⟨2, Or.inr (Or.inl ⟨rfl, rfl, rfl⟩), trivial⟩
  · exact (bcRead_pos cd (by decide) (by decide) (by decide) r).1

/-- All attempts fail, and bc_read returns 0. -/
theorem bcRead_lost : ¬ ∀ (cd : Drive) (stack dblk : Nat) (blks : Int) (dest : Nat) (r : Run),
    (bcRead cd stack dblk blks dest r).1 = 0 →
    Delivered cd dblk blks.toNat dest r (bcRead cd stack dblk blks dest r).2 := by
  intro all
  have delivered := all (steadyCd fun _ => false) 0x90000 16 1 0x100000 ⟨fun _ => 0, 0, []⟩
  rcases (bcRead_iff (by decide) (by decide) _).mp delivered with negative | reached
  · exact absurd negative (by decide)
  · obtain ⟨_, ⟨works, _⟩ | ⟨_, works, _⟩ | ⟨_, _, works, _⟩, _⟩ := (if_pos (by decide)).mp reached
    · cases works
    · cases works
    · cases works

end Pcbsd.Bioscd
