import Pcbsd.Zfs.Zap

/-! objset_get_dnode, and the names of datasets: zfs_rlookup and zfs_lookup_dataset of boot/zfs/zfsimpl.c. -/

namespace Pcbsd.Zfs
open Lib

/-- A dnode_phys_t in bytes: its size, and the part of it that dnode_read uses. -/
structure DnodeLayout where
  dnodeSize : Nat
  dnodePhys : Bytes → DnodePhys

/-- DMU_POOL_DIRECTORY_OBJECT and DMU_POOL_ROOT_DATASET, and the fields of a dsl_dataset_phys_t and a dsl_dir_phys_t
in the bonus buffer of a dnode. -/
structure DslLayout extends DnodeLayout where
  poolDirectoryObject : Nat
  poolRootDataset : Bytes
  dsDirObj : Bytes → Nat
  ddParentObj : Bytes → Nat
  ddChildDirZapobj : Bytes → Nat
  ddHeadDatasetObj : Bytes → Nat

def DnodeCache.fill {σ : Type} (st : DnodeCache σ) (var : Nat) (contents : DnodePhys) : DnodeCache σ :=
  { st with dnodes := Function.update st.dnodes var contents }

namespace Env

variable {δ σ : Type} (env : Env δ σ)

/-- The dnode of an object of the object set whose os_meta_dnode is at `os`. Its offset fits an off_t. -/
def objsetGetDnode (layout : DnodeLayout) (st : DnodeCache σ) (os objnum : Nat) : Int × Bytes × DnodeCache σ :=
  env.dnodeRead st os (objnum * layout.dnodeSize) layout.dnodeSize

variable (layout : ZapLayout) (zapHash : ZapHash) (dsl : DslLayout)

/-- The loop of zfs_rlookup: the name is built from its end, which `p` is the place of. `var` is the address of
child_dir_zap. A turn moves `p`. -/
@[grind =] def rlookupLoop (mos var : Nat) : Nat → DnodeCache σ → Bytes → Nat → Bytes → Nat →
    ZapResult (Bytes × Nat) × DnodeCache σ
  | 0, st, _, _, _, _ => (.fault, st)
  | fuel + 1, st, name, p, component, dirObj =>
    match env.objsetGetDnode dsl.toDnodeLayout st mos dirObj with
    | (rc, dir, st) =>
      if rc ≠ 0 then (.error eio, st)
      else if dsl.ddParentObj dir = 0 then (.ok (name, p), st)
      else
        match env.objsetGetDnode dsl.toDnodeLayout st mos (dsl.ddParentObj dir) with
        | (rc, parent, st) =>
          if rc ≠ 0 then (.error eio, st)
          else
            match env.objsetGetDnode dsl.toDnodeLayout st mos (dsl.ddChildDirZapobj parent) with
            | (rc, childDirZap, st) =>
              if rc ≠ 0 then (.error eio, st)
              else
                match env.zapRlookup layout zapHash (st.fill var (dsl.dnodePhys childDirZap)) var component dirObj with
                | (.ok component, st) =>
                  let len := (bufString component).length
                  -- in front of the buffer
                  if p < len + 1 then (.fault, st)
                  else rlookupLoop mos var fuel st (put (p - (len + 1)) (slash :: bufString component) name)
                    (p - (len + 1)) component (dsl.ddParentObj dir)
                | (.error _, st) => (.error eio, st)
                | (.fault, st) => (.fault, st)

/-- `name` and `component` are the buffers on the stack, of 256 bytes. -/
def zfsRlookup (mos var : Nat) (st : DnodeCache σ) (objnum : Nat) (name component result : Bytes) :
    ZapResult Bytes × DnodeCache σ :=
  match env.objsetGetDnode dsl.toDnodeLayout st mos objnum with
  | (rc, dataset, st) =>
    if rc ≠ 0 then (.error eio, st)
    else
      match env.rlookupLoop layout zapHash dsl mos var 257 st (put 255 [0] name) 255 component
        (dsl.dsDirObj dataset) with
      | (.ok (name, p), st) =>
        let p := if (name.drop p).headD 0 ≠ 0 then p + 1 else p
        (.ok (put 0 (bufString (name.drop p) ++ [0]) result), st)
      | (.error rc, st) => (.error rc, st)
      | (.fault, st) => (.fault, st)

/-- The loop of zfs_lookup_dataset, `p` being the rest of the name. -/
@[grind =] def lookupDatasetLoop (mos var : Nat) : Nat → DnodeCache σ → Bytes → Nat → ZapResult Nat × DnodeCache σ
  | 0, st, _, _ => (.fault, st)
  | fuel + 1, st, p, dirObj =>
    match env.objsetGetDnode dsl.toDnodeLayout st mos dirObj with
    | (rc, dir, st) =>
      if rc ≠ 0 then (.error eio, st)
      else
        let p := p.dropWhile (· = slash)
        if p = [] then (.ok (dsl.ddHeadDatasetObj dir), st)
        else
          let element := p.takeWhile (· ≠ slash)
          -- no room in the buffer
          if 256 ≤ element.length then (.fault, st)
          else
            match env.objsetGetDnode dsl.toDnodeLayout st mos (dsl.ddChildDirZapobj dir) with
            | (rc, childDirZap, st) =>
              if rc ≠ 0 then (.error eio, st)
              else
                match env.zapLookup layout zapHash (st.fill var (dsl.dnodePhys childDirZap)) var element with
                | (.ok dirObj, st) => lookupDatasetLoop mos var fuel st (p.drop (element.length + 1)) dirObj
                | (.error _, st) => (.error enoent, st)
                | (.fault, st) => (.fault, st)

/-- `dirVar` is the address of dir, `var` that of child_dir_zap. -/
def zfsLookupDataset (mos dirVar var : Nat) (st : DnodeCache σ) (name : Bytes) : ZapResult Nat × DnodeCache σ :=
  match env.objsetGetDnode dsl.toDnodeLayout st mos dsl.poolDirectoryObject with
  | (rc, dir, st) =>
    if rc ≠ 0 then (.error eio, st)
    else
      match env.zapLookup layout zapHash (st.fill dirVar (dsl.dnodePhys dir)) dirVar dsl.poolRootDataset with
      | (.ok dirObj, st) => env.lookupDatasetLoop layout zapHash dsl mos var (name.length + 2) st name dirObj
      | (.error _, st) => (.error eio, st)
      | (.fault, st) => (.fault, st)

end Env

end Pcbsd.Zfs
