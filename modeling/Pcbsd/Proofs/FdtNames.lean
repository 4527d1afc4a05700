import Pcbsd.FdtProp

/-! Two readers of the same paths: the node that a command on a property selects, and the one to which fdt cd goes. -/

namespace Pcbsd.Proofs.FdtNames
open Lib FdtPath List Option

variable {Node : Type} {tree : DeviceTree Node} {cwd : Cwd} {dir name path : Bytes}

def argument (dir : Option Bytes) (name : Bytes) : Bytes := dir.elim name (· ++ slash :: name)

def current (tree : DeviceTree Node) (cwd : Cwd) : Option Node := tree.fdtPathOffset cwd.path

/-- The current node behind the cd that the argument stands for: none, cd / or cd dir. -/
def afterCd (tree : DeviceTree Node) (cwd : Cwd) (dir : Option Bytes) : Option Node :=
  dir.elim (current tree cwd) fun dir => (fdtCmdCd tree cwd (some (if dir = [] then [slash] else dir))).toOption.bind
    (current tree)

def selected (tree : DeviceTree Node) (cwd : Cwd) (arg : Bytes) : Option (Node × Bytes) :=
  (fdtExtractNameloc tree cwd arg).toOption.map fun loc => (loc.nodeoff, loc.name)

/-- What the first name of a relative path is the alias of leads to the node to which the path leads from the current
directory. -/
def AliasAgrees (tree : DeviceTree Node) (cwd : Cwd) (dir : Bytes) : Prop :=
  ((tree.aliasNode (dir.takeWhile (· ≠ slash))).bind fun node =>
    walk tree.subnode node (FdtPath.components (dir.dropWhile (· ≠ slash)))) =
    if (cwd.join dir).length < fdtCwdLen then (current tree cwd).bind fun node =>
      walk tree.subnode node (FdtPath.components dir) else none

/-- The current directory is the root, for /name; an absolute directory is short enough or does not exist; an alias
agrees with the current directory. -/
def Consistent (tree : DeviceTree Node) (cwd : Cwd) : Option Bytes → Prop
  | none => True
  | some [] => current tree cwd = some tree.root
  | some (c :: dir) =>
    if c = slash then (c :: dir).length < fdtCwdLen ∨ walk tree.subnode tree.root (FdtPath.components (c :: dir)) =
      none else AliasAgrees tree cwd (c :: dir)

theorem strrchr_none (plain : slash ∉ name) : strrchr name = none := if_neg plain

theorem strrchr_some (plain : slash ∉ name) : strrchr (dir ++ slash :: name) = some (dir, name) := by
  have member : slash ∈ dir ++ slash :: name := mem_append_right _ mem_cons_self
  have whole : (dir ++ slash :: name).reverse = name.reverse ++ slash :: dir.reverse := by
    rw [reverse_append, reverse_cons, append_assoc, singleton_append]
  have other : ∀ c ∈ name.reverse, decide (c ≠ slash) = true := by
    intro c inside
    apply decide_eq_true
    intro same
    exact plain (same ▸ mem_reverse.mp inside)
  have behind : (slash :: dir.reverse).dropWhile (fun c => decide (c ≠ slash)) = slash :: dir.reverse :=
    dropWhile_cons_of_neg (by decide)
  have nothing : (slash :: dir.reverse).takeWhile (fun c => decide (c ≠ slash)) = [] :=
    takeWhile_cons_of_neg (by decide)
  rw [strrchr, if_pos member, whole, dropWhile_append_of_pos other, takeWhile_append_of_pos other, behind, nothing,
    append_nil, reverse_reverse, drop_succ_cons, drop_zero, reverse_reverse]

theorem components_append (front back : Bytes) : FdtPath.components (front ++ slash :: back) =
    FdtPath.components front ++ FdtPath.components back := by
  rw [FdtPath.components, splitOn_append_cons_of_beq front back (beq_self_eq_true slash), filter_append]
  rfl

theorem walk_append (node : Node) (names more : List Bytes) :
    walk tree.subnode node (names ++ more) = (walk tree.subnode node names).bind fun node => walk tree.subnode node more := by
  rw [walk, foldlM_append]
  rfl

theorem current_eq (tree : DeviceTree Node) (cwd : Cwd) :
    current tree cwd = walk tree.subnode tree.root (FdtPath.components cwd.path) :=
  tree.fromRoot _ cwd.absolute

theorem fdtPathOffset_join (tree : DeviceTree Node) (cwd : Cwd) (path : Bytes) :
    tree.fdtPathOffset (cwd.join path) = (current tree cwd).bind fun node =>
      walk tree.subnode node (FdtPath.components path) := by
  rw [tree.fromRoot _ (cwd.join_absolute path), Cwd.join, components_append, walk_append, current_eq]

theorem changeTo_current (path : Bytes) (absolute : path.head? = some slash) :
    (changeTo tree path absolute).toOption.bind (current tree) = if path.length < fdtCwdLen then tree.fdtPathOffset path
      else none := by
  rw [changeTo]
  split
  · split <;> rename_i found
    · rfl
    · exact (not_isSome_iff_eq_none.mp found).symm
  · rfl

theorem afterCd_eq (c : UInt8) (dir : Bytes) : afterCd tree cwd (some (c :: dir)) =
    if c = slash then if (c :: dir).length < fdtCwdLen then walk tree.subnode tree.root (FdtPath.components (c :: dir)) else none
    else if (cwd.join (c :: dir)).length < fdtCwdLen then (current tree cwd).bind fun node => walk tree.subnode node
      (FdtPath.components (c :: dir)) else none := by
  have head : (c :: dir).head? = some slash ↔ c = slash := by rw [head?_cons, Option.some.injEq]
  rw [afterCd, elim_some, if_neg (cons_ne_nil c dir), fdtCmdCd, getD_some]
  split <;> rename_i absolute
  · rw [if_pos (head.mp absolute), changeTo_current, tree.fromRoot _ absolute]
  · rw [if_neg fun same => absolute (head.mpr same), changeTo_current, fdtPathOffset_join]

theorem afterCd_root : afterCd tree cwd (some []) = some tree.root := by
  have absolute : [slash].head? = some slash := rfl
  have none : FdtPath.components [slash] = [] := by decide
  rw [afterCd, elim_some, if_pos rfl, fdtCmdCd, getD_some, dif_pos absolute, changeTo_current, if_pos root_fits,
    tree.fromRoot _ absolute, none]
  rfl

theorem selected_eq (named : name ≠ []) (plain : slash ∉ name) (dir : Option Bytes) :
    selected tree cwd (argument dir name) =
    (tree.fdtPathOffset (if dir.getD [] = [] then cwd.path else dir.getD [])).map (·, name) := by
  have parts : (strrchr (argument dir name)).getD ([], argument dir name) = (dir.getD [], name) := by
    cases dir with
    | none =>
      change (strrchr name).getD ([], name) = _
      rw [strrchr_none plain]
      rfl
    | some dir =>
      change (strrchr (dir ++ slash :: name)).getD _ = _
      rw [strrchr_some plain]
      rfl
  have length : ¬ name.length = 0 := fun zero => named (length_eq_zero_iff.mp zero)
  rw [selected, fdtExtractNameloc, parts]
  simp only [length, if_false, length_eq_zero_iff]
  cases tree.fdtPathOffset (if dir.getD [] = [] then cwd.path else dir.getD []) <;> rfl

theorem map_pair_eq_iff {first second : Option Node} : first.map (·, name) = second.map (·, name) ↔ first = second := by
  refine ⟨fun same => ?_, fun same => by rw [same]⟩
  apply map_injective _ same
  intro node other equal
  exact (Prod.mk.inj equal).1

/-- A command selects the node to which cd goes when and only when the current directory and the aliases allow it. -/
theorem selected_iff (tree : DeviceTree Node) (cwd : Cwd) (dir : Option Bytes) (name : Bytes) (named : name ≠ [])
    (plain : slash ∉ name) :
    selected tree cwd (argument dir name) = (afterCd tree cwd dir).map (·, name) ↔ Consistent tree cwd dir := by
  rw [selected_eq named plain, map_pair_eq_iff]
  cases dir with
  | none => exact ⟨fun _ => True.intro, fun _ => rfl⟩
  | some dir =>
    cases dir with
    | nil =>
      rw [afterCd_root]
      exact Iff.rfl
    | cons c dir =>
      have head : (c :: dir).head? = some slash ↔ c = slash := by rw [head?_cons, Option.some.injEq]
      rw [getD_some, if_neg (cons_ne_nil c dir), afterCd_eq, Consistent]
      by_cases absolute : c = slash
      · rw [tree.fromRoot _ (head.mpr absolute), if_pos absolute, if_pos absolute]
        by_cases fits : (c :: dir).length < fdtCwdLen
        · rw [if_pos fits]
          exact ⟨fun _ => Or.inl fits, fun _ => rfl⟩
        · rw [if_neg fits]
          exact ⟨Or.inr, fun either => either.resolve_left fits⟩
      · rw [tree.fromAlias _ fun same => absolute (head.mp same), if_neg absolute, if_neg absolute]
        exact Iff.rfl

def smallSubnode (node : Nat) (name : Bytes) : Option Nat := if node = 0 ∧ name = [0x61] then some 1 else none

def smallTree : DeviceTree Nat where
  root := 0
  subnode := smallSubnode
  aliasNode _ := none
  fdtPathOffset path := if path.head? = some slash then walk smallSubnode 0 (FdtPath.components path) else none
  fromRoot _ absolute := if_pos absolute
  fromAlias _ relative := if_neg relative

def insideA : Cwd := ⟨[slash, 0x61], rfl, by decide⟩

theorem absolute_selected : selected smallTree insideA [slash, 0x61, slash, 0x70] = some (1, [0x70]) := by
  have same := (selected_iff smallTree insideA (some [slash, 0x61]) [0x70] (by decide) (by decide)).mpr
    (Or.inl (by decide))
  exact same.trans (by decide)

/-- From inside of the subnode, the root's property is looked for in the subnode. -/
theorem root_property_misplaced :
    ¬ ∀ (tree : DeviceTree Nat) (cwd : Cwd) (dir : Option Bytes) (name : Bytes), name ≠ [] → slash ∉ name →
    selected tree cwd (argument dir name) = (afterCd tree cwd dir).map (·, name) := by
  intro claim
  have same := claim smallTree insideA (some []) [0x70] (by decide) (by decide)
  exact absurd same (by decide)

end Pcbsd.Proofs.FdtNames
