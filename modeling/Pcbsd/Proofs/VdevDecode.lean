import Pcbsd.Proofs.NvlistEncoding
import Pcbsd.Proofs.VdevTree

/-! Decoding a vdev tree undoes its encoding: vdev_init_from_nvlist on the XDR nvlist of a tree of
unknown vdevs builds that tree. -/

namespace Pcbsd.Zfs
open Lib List

variable {δ : Type}

def configKeys : List Bytes :=
  [configGuid, configId, configType, configOffline, configRemoved, configFaulted, configDegraded, configNotPresent,
    configAshift, configNparity, configPath, configChildren]

structure VdevInfo where
  guid : Nat
  id : Nat
  read : VdevRead
  offline : Option Nat := none
  removed : Option Nat := none
  faulted : Option Nat := none
  degraded : Option Nat := none
  notPresent : Option Nat := none
  ashift : Option Nat := none
  nparity : Option Nat := none
  path : Option Bytes := none

inductive VdevTree where
  | mk (info : VdevInfo) (kids : List VdevTree)

def typeName : VdevRead → Bytes
  | .mirror => typeMirror
  | .disk => typeDisk
  | .raidz => typeRaidz
  | .replacing => typeReplacing

/-- A vdev that can be recorded: numbers of 64 bits, a C string for a path, and one to three
parity devices in a raidz. -/
structure VdevInfo.Ok (info : VdevInfo) : Prop where
  range : ∀ v ∈ [some info.guid, some info.id, info.offline, info.removed, info.faulted, info.degraded, info.notPresent,
    info.ashift, info.nparity], ∀ n ∈ v, n < 2 ^ 64
  path : ∀ s ∈ info.path, 0 ∉ s
  parity : info.read = .raidz → info.nparity = some 1 ∨ info.nparity = some 2 ∨ info.nparity = some 3

namespace VdevTree

mutual

def Ok : VdevTree → Prop
  | mk info kids => info.Ok ∧ (info.read = .disk → kids = []) ∧ AllOk kids

def AllOk : List VdevTree → Prop
  | [] => True
  | t :: ts => t.Ok ∧ AllOk ts

end

mutual

def guids : VdevTree → List Nat
  | mk info kids => info.guid :: guidsAll kids

def guidsAll : List VdevTree → List Nat
  | [] => []
  | t :: ts => t.guids ++ guidsAll ts

end

end VdevTree

/-- The pairs of an nvlist are well formed, and a name that is not one of the keys is not the
beginning of one either. -/
def PairsOk (ps : List Pair) : Prop :=
  ∀ q ∈ ps, q.Ok ∧ (q.name ∈ configKeys ∨ ∀ key ∈ configKeys, ¬ q.name <+: key)

/-- The pairs, in whatever order and among whatever others, that record one vdev. -/
structure Records (ps : List Pair) (info : VdevInfo) : Prop where
  ok : PairsOk ps
  guid : firstValue ps configGuid .uint64 = some (xdr64 info.guid)
  id : firstValue ps configId .uint64 = some (xdr64 info.id)
  type : firstValue ps configType .string = some (xdrString (typeName info.read))
  offline : firstValue ps configOffline .uint64 = info.offline.map xdr64
  removed : firstValue ps configRemoved .uint64 = info.removed.map xdr64
  faulted : firstValue ps configFaulted .uint64 = info.faulted.map xdr64
  degraded : firstValue ps configDegraded .uint64 = info.degraded.map xdr64
  notPresent : firstValue ps configNotPresent .uint64 = info.notPresent.map xdr64
  ashift : firstValue ps configAshift .uint64 = info.ashift.map xdr64
  nparity : firstValue ps configNparity .uint64 = info.nparity.map xdr64
  path : firstValue ps configPath .string = info.path.map xdrString

mutual

/-- The pairs of an nvlist encode a tree: those of the vdev itself and, unless it is a disk, an
array of the nvlists of its children. -/
def Encodes (ps : List Pair) : VdevTree → Prop
  | .mk info kids => Records ps info ∧
      if info.read = .disk then
        (ps.find? fun q => q.name = configChildren ∧ q.type = DataType.nvlistArray.code) = none
      else
        ∃ q lists, (ps.find? fun q => q.name = configChildren ∧ q.type = DataType.nvlistArray.code) = some q ∧
          q.elements = kids.length ∧ q.value = lists.flatMap encodeNvlist ∧ EncodesAll lists kids

def EncodesAll : List (List Pair) → List VdevTree → Prop
  | [], [] => True
  | ps :: lists, t :: ts => Encodes ps t ∧ EncodesAll lists ts
  | _, _ => False

end

def VdevInfo.details (info : VdevInfo) : Details where
  guid := some info.guid
  id := some info.id
  type := some (typeName info.read)
  offline := info.offline.getD 0
  removed := info.removed.getD 0
  faulted := info.faulted.getD 0
  degraded := info.degraded.getD 0
  notPresent := info.notPresent.getD 0
  ashift := info.ashift
  nparity := info.nparity
  path := info.path

mutual

def VdevTree.config : VdevTree → Config
  | .mk info kids => .mk info.details (if info.read = .disk then none else some (kids.length : Int)) (configAll kids)

def configAll : List VdevTree → List Config
  | [] => []
  | t :: ts => t.config :: configAll ts

end

section

variable {bs : Bytes} {p : Nat} {ps : List Pair}

private theorem names_ok (ok : PairsOk ps) {key : Bytes} (member : key ∈ configKeys) :
    ∀ q ∈ ps, q.name = key ∨ ¬ q.name <+: key := by
  have separate : ∀ a ∈ configKeys, ∀ b ∈ configKeys, a = b ∨ ¬ a <+: b := by decide
  intro q inside
  rcases (ok q inside).2 with known | foreign
  · exact separate q.name known key member
  · exact .inr (foreign key member)

theorem detailsAt_encoded {info : VdevInfo} (ok : info.Ok) (records : Records ps info)
    (placed : At bs p (encodeNvlist ps)) (small : (encodeNvlist ps).length < 2 ^ 24) :
    detailsAt bs p = info.details := by
  have pairs := fun q member => (records.ok q member).1
  have number {key : Bytes} (member : key ∈ configKeys) {v : Option Nat}
      (listed : v ∈ [some info.guid, some info.id, info.offline, info.removed, info.faulted, info.degraded,
        info.notPresent, info.ashift, info.nparity])
      (stored : firstValue ps key .uint64 = v.map xdr64) : nvlistFindUint64 bs p key = v :=
    nvlistFindUint64_at pairs placed small (names_ok records.ok member) (ok.range v listed) stored
  have text {key : Bytes} (member : key ∈ configKeys) {v : Option Bytes} (plain : ∀ s ∈ v, 0 ∉ s)
      (stored : firstValue ps key .string = v.map xdrString) : nvlistFindString bs p key = v :=
    nvlistFindString_at pairs placed small (names_ok records.ok member) plain stored
  have type : ∀ s ∈ some (typeName info.read), 0 ∉ s := by
    rintro s ⟨⟩
    cases info.read <;> decide
  have guid : nvlistFindUint64 bs p configGuid = some info.guid := number (by decide) (by simp) records.guid
  have id : nvlistFindUint64 bs p configId = some info.id := number (by decide) (by simp) records.id
  simp only [detailsAt, VdevInfo.details, guid, id, text (by decide) type records.type,
    number (by decide) (by simp) records.offline,
    number (by decide) (by simp) records.removed, number (by decide) (by simp) records.faulted,
    number (by decide) (by simp) records.degraded, number (by decide) (by simp) records.notPresent,
    number (by decide) (by simp) records.ashift, number (by decide) (by simp) records.nparity,
    text (by decide) ok.path records.path]

end

mutual

def VdevTree.depth : VdevTree → Nat
  | .mk info kids => if info.read = .disk then 0 else depthAll kids + 1

def depthAll : List VdevTree → Nat
  | [] => 0
  | t :: ts => max t.depth (depthAll ts)

end

private theorem value_length {ps : List Pair} {q : Pair} (member : q ∈ ps) :
    q.value.length < (encodeNvlist ps).length := by
  obtain ⟨_, _, rfl⟩ := append_of_mem member
  have := q.length_encode
  simp only [encodeNvlist, encodePairs, flatMap_append, flatMap_cons, length_append]
  omega

private theorem encodes_pairs {ps : List Pair} {t : VdevTree} (encodes : Encodes ps t) : ∀ q ∈ ps, q.Ok := by
  cases t
  exact fun q member => (encodes.1.ok q member).1

mutual

private theorem depth_le (t : VdevTree) {ps : List Pair} (encodes : Encodes ps t) : t.depth ≤ (encodeNvlist ps).length := by
  match t with
  | .mk info kids =>
    rw [VdevTree.depth]
    rw [Encodes] at encodes
    split at encodes
    next disk => simp [disk]
    next interior =>
      obtain ⟨-, _, _, found, -, value, below⟩ := encodes
      have shorter := value_length (mem_of_find?_eq_some found)
      have deep := depthAll_le kids below
      rw [if_neg interior]
      rw [value] at shorter
      omega

private theorem depthAll_le (ts : List VdevTree) {lists : List (List Pair)} (encodes : EncodesAll lists ts) :
    depthAll ts ≤ (lists.flatMap encodeNvlist).length := by
  match lists, ts with
  | [], [] => simp [depthAll]
  | [], _ :: _ => simp [EncodesAll] at encodes
  | _ :: _, [] => simp [EncodesAll] at encodes
  | ps :: lists, t :: ts =>
    have first := depth_le t encodes.1
    have rest := depthAll_le ts encodes.2
    rw [depthAll, flatMap_cons, length_append]
    omega

end

mutual

theorem configAt_encoded (t : VdevTree) (ok : t.Ok) {ps : List Pair} (encodes : Encodes ps t) {bs : Bytes} {p : Nat}
    (placed : At bs p (encodeNvlist ps)) (small : (encodeNvlist ps).length < 2 ^ 24) {fuel : Nat} (deep : t.depth ≤ fuel) :
    configAt bs fuel p = t.config := by
  match t with
  | .mk info kids =>
    rw [VdevTree.depth] at deep
    obtain ⟨records, array⟩ := encodes
    have details := detailsAt_encoded ok.1 records placed small
    have names : ∀ q ∈ ps, q.name = configChildren ∨ ¬ q.name <+: configChildren := names_ok records.ok (by decide)
    have children := nvlistFind_at (fun q member => (records.ok q member).1) placed small .nvlistArray names
    rw [VdevTree.config]
    split at array
    next disk =>
      rw [array] at children
      have none_ := children
      rw [if_pos disk, ok.2.1 disk, configAll, ← details]
      cases fuel with
      | zero => rw [configAt]
      | succ fuel => rw [configAt, none_]
    next interior =>
      obtain ⟨q, _, found, count, value, below⟩ := array
      rw [if_neg interior] at deep ⊢
      obtain ⟨fuel, rfl⟩ : ∃ n, fuel = n + 1 := ⟨fuel - 1, by omega⟩
      rw [found] at children
      obtain ⟨_, located, held⟩ := children
      rw [value, at_append] at held
      have shorter := value_length (mem_of_find?_eq_some found)
      rw [value] at shorter
      have rest := kidsAt_encoded kids ok.2.2 below held.1 (by omega) (show _ ≤ fuel by omega)
      rw [configAt, located, details, count]
      simp only [Int.toNat_natCast, rest]

theorem kidsAt_encoded (ts : List VdevTree) (ok : VdevTree.AllOk ts) {lists : List (List Pair)}
    (encodes : EncodesAll lists ts) {bs : Bytes} {p : Nat} (placed : At bs p (lists.flatMap encodeNvlist))
    (small : (lists.flatMap encodeNvlist).length < 2 ^ 24) {fuel : Nat} (deep : depthAll ts ≤ fuel) :
    (kidsAt bs ts.length p).map (configAt bs fuel) = configAll ts := by
  match lists, ts with
  | [], [] => simp [kidsAt, configAll]
  | [], _ :: _ => simp [EncodesAll] at encodes
  | _ :: _, [] => simp [EncodesAll] at encodes
  | ps :: lists, t :: ts =>
    rw [depthAll] at deep
    rw [flatMap_cons, length_append] at small
    rw [flatMap_cons, at_append] at placed
    rw [length_cons, kidsAt, map_cons, configAll, nvlistNext_at (encodes_pairs encodes.1) placed.1 (by omega),
      configAt_encoded t ok.1 encodes.1 placed.1 (by omega) (by omega),
      kidsAt_encoded ts ok.2 encodes.2 placed.2 (by omega) (by omega)]

end

private theorem details_complete {info : VdevInfo} (ok : info.Ok) : info.details.Complete := by
  have type : vdevType (typeName info.read) = some info.read := by cases info.read <;> decide
  have named : ∃ name, vdevName info.details (typeName info.read) (info.nparity.getD 0) = some name := by
    cases path : info.path with
    | some _ => exact ⟨_, by simp only [vdevName, VdevInfo.details, path]; rfl⟩
    | none =>
      simp only [vdevName, VdevInfo.details, path]
      split
      next raidz =>
        have kind : info.read = .raidz := by
          cases read : info.read <;> simp only [read] at raidz <;> revert raidz <;> decide
        rcases ok.parity kind with parity | parity | parity <;> simp [parity]
      next => exact ⟨_, rfl⟩
  obtain ⟨name, named⟩ := named
  refine ⟨rfl, rfl, rfl, ?_, ?_⟩
  · exact Option.isSome_iff_exists.mpr ⟨_, type⟩
  · exact Option.isSome_iff_exists.mpr ⟨name, named⟩

private theorem length_configAll (ts : List VdevTree) : (configAll ts).length = ts.length := by
  induction ts with
  | nil => rfl
  | cons _ ts ih => rw [configAll, length_cons, ih, length_cons]

mutual

private theorem config_complete (t : VdevTree) (ok : t.Ok) : t.config.Complete := by
  match t with
  | .mk info kids =>
    rw [VdevTree.config, Config.Complete, length_configAll]
    refine ⟨details_complete ok.1, ?_, configAll_complete kids ok.2.2⟩
    split
    next disk =>
      rw [ok.2.1 disk]
      exact .inr ⟨rfl, rfl⟩
    next => exact .inl rfl

private theorem configAll_complete (ts : List VdevTree) (ok : VdevTree.AllOk ts) : AllComplete (configAll ts) := by
  match ts with
  | [] => simp [configAll, AllComplete]
  | t :: ts =>
    rw [configAll, AllComplete]
    exact ⟨config_complete t ok.1, configAll_complete ts ok.2⟩

end

mutual

private theorem guids_config (t : VdevTree) : t.config.guids = t.guids := by
  match t with
  | .mk info kids =>
    rw [VdevTree.config, Config.guids, VdevTree.guids, guidsAll_configAll kids]
    rfl

private theorem guidsAll_configAll (ts : List VdevTree) : Config.guidsAll (configAll ts) = VdevTree.guidsAll ts := by
  match ts with
  | [] => rfl
  | t :: ts => rw [configAll, Config.guidsAll, VdevTree.guidsAll, guids_config t, guidsAll_configAll ts]

end

/-- The state a new vdev gets: the flags in the order in which they are looked at, and offline when
none is set. -/
def VdevInfo.initialState (info : VdevInfo) : VdevState :=
  if info.offline.getD 0 ≠ 0 then .offline
  else if info.removed.getD 0 ≠ 0 then .removed
  else if info.faulted.getD 0 ≠ 0 then .faulted
  else if info.degraded.getD 0 ≠ 0 then .degraded
  else if info.notPresent.getD 0 ≠ 0 then .cantOpen
  else .offline

structure Shows (v : VdevT δ) (info : VdevInfo) : Prop where
  guid : v.guid = info.guid
  id : v.id = info.id
  ashift : v.ashift = info.ashift.getD 0
  nparity : v.nparity = info.nparity.getD 0
  read : v.read = info.read
  state : v.state = info.initialState

mutual

def Built (h : Vdevs δ) (p : Nat) : VdevTree → Prop
  | .mk info kids => p < h.count ∧ Shows (h.vdev p) info ∧ (h.vdev p).nchildren = kids.length ∧
      BuiltAll h (h.children p) kids

def BuiltAll (h : Vdevs δ) : List Nat → List VdevTree → Prop
  | [], [] => True
  | p :: ps, t :: ts => Built h p t ∧ BuiltAll h ps ts
  | _, _ => False

end

private structure Fields (v : VdevT δ) (d : Details) : Prop where
  id : v.id = d.id.getD 0
  ashift : v.ashift = d.ashift.getD 0
  nparity : v.nparity = d.nparity.getD 0
  read : v.read = (vdevType (d.type.getD [])).getD .disk
  state : v.state = d.flagged.getD .offline

private theorem fields_check : Details.Check (Fields (δ := δ)) where
  new := fun _ _ _ _ => ⟨rfl, rfl, rfl, rfl, rfl⟩
  stable := by
    intro v v' d same fields
    constructor
    · exact (congrArg VdevT.id same).symm.trans fields.id
    · exact (congrArg VdevT.ashift same).symm.trans fields.ashift
    · exact (congrArg VdevT.nparity same).symm.trans fields.nparity
    · exact (congrArg VdevT.read same).symm.trans fields.read
    · exact (congrArg VdevT.state same).symm.trans fields.state

private theorem flagged_getD (d : Details) :
    d.flagged.getD .offline =
      if d.offline ≠ 0 then .offline
      else if d.removed ≠ 0 then .removed
      else if d.faulted ≠ 0 then .faulted
      else if d.degraded ≠ 0 then .degraded
      else if d.notPresent ≠ 0 then .cantOpen
      else .offline := by
  unfold Details.flagged
  split_ifs <;> rfl

private theorem shows_of_fields {v : VdevT δ} {info : VdevInfo} (guid : v.guid = info.guid)
    (fields : Fields v info.details) : Shows v info where
  guid := guid
  id := fields.id
  ashift := fields.ashift
  nparity := fields.nparity
  read := by
    rw [fields.read]
    cases read : info.read <;> simp [VdevInfo.details, read, typeName] <;> decide
  state := by
    rw [fields.state]
    exact flagged_getD info.details

mutual

private theorem built_of_matches {h : Vdevs δ} {p : Nat} (t : VdevTree)
    (matched : Matches Fields h h.children p t.config) : Built h p t := by
  match t with
  | .mk info kids =>
    rw [VdevTree.config, Matches, length_configAll] at matched
    obtain ⟨inside, guid, count, fields, below⟩ := matched
    exact ⟨inside, shows_of_fields guid fields, count, builtAll_of_matches kids below⟩

private theorem builtAll_of_matches {h : Vdevs δ} {ps : List Nat} (ts : List VdevTree)
    (matched : MatchesAll Fields h h.children ps (configAll ts)) : BuiltAll h ps ts := by
  match ps, ts with
  | [], [] => simp [BuiltAll]
  | [], _ :: _ => simp [configAll, MatchesAll] at matched
  | _ :: _, [] => simp [configAll, MatchesAll] at matched
  | p :: ps, t :: ts =>
    exact ⟨built_of_matches t matched.1, builtAll_of_matches ts matched.2⟩

end

/-- vdev_init_from_nvlist on the encoding of a tree none of whose vdevs is known succeeds, builds
the tree, and adds exactly its vdevs, parents first, to zfs_vdevs. -/
theorem vdevInitFromNvlist_undoes_encoding (t : VdevTree) (ok : t.Ok) (distinct : t.guids.Nodup) (ps : List Pair)
    (encodes : Encodes ps t) (small : (encodeNvlist ps).length < 2 ^ 24) (bs : Bytes) (p : Nat)
    (placed : At bs p (encodeNvlist ps)) (h : Vdevs δ) (unknown : ∀ g ∈ t.guids, vdevFind h g = none)
    (pvdev : Option Nat) (isNewer : Bool) :
    ∃ h', vdevInitFromNvlist bs p pvdev isNewer h = (0, h.count, h') ∧ Built h' h.count t ∧
      h'.count = h.count + t.guids.length ∧ (∀ q < h.count, h'.vdev q = h.vdev q) ∧
      (range t.guids.length).map (fun i => (h'.vdev (h.count + i)).guid) = t.guids := by
  have decoded : configAt bs bs.length p = t.config := by
    refine configAt_encoded t ok encodes placed small ?_
    have := depth_le t encodes
    have := placed.length_le
    omega
  have linked : Linked h.count h fun _ => [] := by
    constructor
    all_goals
      intros
      omega
  obtain ⟨h', _, ran, added, matched, -⟩ := vdevInit_new fields_check t.config (config_complete t ok)
    (by rwa [guids_config]) linked le_rfl
    (by
      rw [guids_config]
      intro g member
      exact vdevFind_eq_none.mp (unknown g member)) pvdev isNewer
  rw [guids_config] at added
  refine ⟨h', by rw [vdevInitFromNvlist, decoded, ran], ?_, added.count, fun q less => (added.old q less).1, ?_⟩
  · refine built_of_matches t (Matches.congr (h := h') le_rfl t.config ?_ matched)
    intro q less member
    refine ⟨⟨rfl, rfl, fun _ fields => fields⟩, ?_⟩
    have new : h.count ≤ q := by
      by_contra old
      rw [guids_config, (added.old q (by omega)).1] at member
      exact vdevFind_eq_none.mp (unknown _ member) q (by omega) rfl
    exact added.linked.children less new
  · apply ext_getElem (by simp)
    intro i less less'
    rw [getElem_map, getElem_range]
    exact added.guids i _ (getElem?_eq_getElem less')

def numberPair (name : Bytes) (n : Nat) : Pair := ⟨name, 32, 8, 1, xdr64 n⟩

def textPair (name s : Bytes) : Pair := ⟨name, 32, 9, 1, xdrString s⟩

def VdevInfo.pairs (info : VdevInfo) : List Pair :=
  [textPair configType (typeName info.read), numberPair configId info.id, numberPair configGuid info.guid] ++
    (info.path.map (textPair configPath)).toList ++ (info.ashift.map (numberPair configAshift)).toList ++
    (info.nparity.map (numberPair configNparity)).toList ++ (info.offline.map (numberPair configOffline)).toList ++
    (info.removed.map (numberPair configRemoved)).toList ++ (info.faulted.map (numberPair configFaulted)).toList ++
    (info.degraded.map (numberPair configDegraded)).toList ++ (info.notPresent.map (numberPair configNotPresent)).toList

mutual

def VdevTree.pairs : VdevTree → List Pair
  | .mk info kids => info.pairs ++ if info.read = .disk then [] else [⟨configChildren, 64, 20, kids.length, encodeTrees kids⟩]

def encodeTrees : List VdevTree → Bytes
  | [] => []
  | t :: ts => encodeNvlist t.pairs ++ encodeTrees ts

end

private def sampleInfo (guid id : Nat) : VdevInfo where
  guid := guid
  id := id
  read := .disk
  offline := some 1
  path := some (devPrefix ++ chars ['d', 'a', '0'])

private def sampleTree : VdevTree :=
  .mk { guid := 7, id := 0, read := .mirror, ashift := some 12 } [.mk (sampleInfo 8 0) [], .mk (sampleInfo 9 1) []]

private def sampleMirror : List Pair :=
  numberPair (chars ['w', 'h', 'o', 'l', 'e', '_', 'd', 'i', 's', 'k']) 1 :: sampleTree.pairs

private instance (q : Pair) : Decidable q.Ok :=
  decidable_of_iff ((0 < q.decoded ∧ q.decoded < 2 ^ 32) ∧ q.type < 2 ^ 32 ∧ q.elements < 2 ^ 31 ∧ 0 ∉ q.name)
    ⟨fun ⟨a, b, c, d⟩ => ⟨a, b, c, d⟩, fun ⟨a, b, c, d⟩ => ⟨a, b, c, d⟩⟩

private instance (ps : List Pair) : Decidable (PairsOk ps) := inferInstanceAs (Decidable (∀ q ∈ ps, _ ∧ _))

private theorem sample_encodes : Encodes sampleMirror sampleTree := by
  have first : Records (VdevTree.mk (sampleInfo 8 0) []).pairs (sampleInfo 8 0) := by constructor <;> decide
  have second : Records (VdevTree.mk (sampleInfo 9 1) []).pairs (sampleInfo 9 1) := by constructor <;> decide
  rw [sampleTree, Encodes]
  refine ⟨by constructor <;> decide, ?_⟩
  refine ⟨_, [(VdevTree.mk (sampleInfo 8 0) []).pairs,
    (VdevTree.mk (sampleInfo 9 1) []).pairs], by rfl, rfl, by decide +kernel, ?_⟩
  simp only [EncodesAll, Encodes, and_true]
  rw [if_pos (show (sampleInfo 8 0).read = .disk from rfl), if_pos (show (sampleInfo 9 1).read = .disk from rfl)]
  exact ⟨⟨first, by decide⟩, second, by decide⟩

private theorem sample_ok : sampleTree.Ok := by
  have disk : ∀ guid < 10, ∀ id < 10, (sampleInfo guid id).Ok := by
    intro guid less id less'
    refine ⟨?_, ?_, by simp [sampleInfo]⟩
    · simp [sampleInfo]
      omega
    · rintro _ ⟨⟩
      decide
  simp only [sampleTree, VdevTree.Ok, VdevTree.AllOk, and_true]
  refine ⟨⟨by simp, by simp, by simp⟩, by simp, ⟨disk 8 (by omega) 0
    (by omega), by simp⟩, disk 9 (by omega) 1 (by omega), by simp⟩

private def noVdevs : Vdevs Unit :=
  ⟨0, fun _ => Details.vdev ⟨none, none, none, 0, 0, 0, 0, 0, none, none, none⟩ none 0 0⟩

theorem vdevInitFromNvlist_builds_mirror :
    ∃ h', vdevInitFromNvlist (encodeNvlist sampleMirror) 0 none false noVdevs = (0, 0, h') ∧ Built h' 0 sampleTree ∧
      h'.count = 0 + 3 ∧ (∀ q < 0, h'.vdev q = noVdevs.vdev q) ∧
      (range 3).map (fun i => (h'.vdev (0 + i)).guid) = [7, 8, 9] := by
  exact vdevInitFromNvlist_undoes_encoding sampleTree sample_ok (by decide) sampleMirror sample_encodes
    (by decide +kernel) (encodeNvlist sampleMirror) 0 prefix_rfl noVdevs (by simp [vdevFind, noVdevs]) none false

end Pcbsd.Zfs
