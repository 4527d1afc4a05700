import Pcbsd.Lib.Best
import Pcbsd.Lib.ItemTree
import Pcbsd.Lib.Text

/-! The tree of a pool's datasets in the window of pc-zmanager, zmanagerwindow.cpp: on_fspoolList_currentItemChanged
and what it calls. -/

namespace Pcbsd.Zmanager.DatasetTree
open Lib Text

inductive Source where
  | srcNone
  | srcDefault
  | srcLocal
  | srcInherit

/-- zprop_t, without a Source where none is set. -/
structure Zprop where
  name : Bytes
  value : Bytes
  source : Option Source := none
  origin : Bytes := []

structure Zfs where
  fullPath : Bytes
  properties : List Zprop

def getFileSystemProperty (fs : Zfs) (prop : Bytes) : Option Bytes :=
  (fs.properties.find? fun p => p.name = prop).map Zprop.value

inductive Icon where
  | serverDatabase
  | kexi
  | cameraPhoto
  | kdf

structure FsItem where
  text : Bytes
  icon : Option Icon
  state : Bytes

abbrev FsList : Type := ItemTree FsItem

/-- The longest of the texts that a path starts with; the first one is kept. -/
def longestStart (texts : List Bytes) (path : Bytes) : Option Bytes :=
  (bestOf (fun _ => true) (-1 : Int) ((texts.filter fun text => startsWith path text).map fun text => ((text.length : Int),
  text))).map Prod.snd

/-- The item that is found is the first one of its text: the text stands for it. -/
def getParentFileSystem (fsList : FsList) (path : Bytes) : Option Bytes := longestStart (fsList.keys FsItem.text) path

def originOf (fs : Zfs) : Option Bytes :=
  (getFileSystemProperty fs (ascii ['o', 'r', 'i', 'g', 'i', 'n'])).filter (· ≠ [])

def iconOf (pool : Bytes) (fs : Zfs) : Option Icon :=
  if fs.fullPath = pool then some .serverDatabase
  else (getFileSystemProperty fs (ascii ['t', 'y', 'p', 'e'])).map fun value =>
    if value = ascii ['f', 'i', 'l', 'e', 's', 'y', 's', 't', 'e', 'm'] then .kexi
    else if value = ascii ['s', 'n', 'a', 'p', 's', 'h', 'o', 't'] then .cameraPhoto
    else .kdf

def stateOf (fs : Zfs) : Bytes :=
  (if getFileSystemProperty fs (ascii ['m', 'o', 'u', 'n', 't', 'e', 'd']) = some (ascii ['y', 'e', 's']) then
      ascii ['[', 'M', 'o', 'u', 'n', 't', 'e', 'd', ']'] ++
        (getFileSystemProperty fs (ascii ['m', 'o', 'u', 'n', 't', 'p', 'o', 'i', 'n', 't'])).elim [] (0x20 :: ·)
    else ascii ['[', 'N', 'o', 't', ' ', 'M', 'o', 'u', 'n', 't', 'e', 'd', ']']) ++
    [0x0a] ++ (getFileSystemProperty fs (ascii ['u', 's', 'e', 'd'])).getD [] ++
    (getFileSystemProperty fs (ascii ['a', 'v', 'a', 'i', 'l', 'a', 'b', 'l', 'e'])).elim [] (ascii [' ', 'o', 'f', ' '] ++ ·)

def fsItem (pool : Bytes) (fs : Zfs) : FsItem := ⟨fs.fullPath, iconOf pool fs, stateOf fs⟩

def addChild (parent : Bytes) (child fsList : FsList) : Option FsList :=
  ItemTree.addBelow FsItem.text parent child fsList

def takeChild (item : Bytes) (fsList : FsList) : Option ((FsItem × FsList) × FsList) :=
  ItemTree.take FsItem.text item fsList

/-- The first pass over a dataset: a new item behind those of its parent, or of the highest level. -/
def addItem (pool : Bytes) (fsList : FsList) (fs : Zfs) : FsList :=
  if startsWith fs.fullPath pool then
    ((getParentFileSystem fsList ((originOf fs).getD fs.fullPath)).bind fun parent =>
      addChild parent (.cons (fsItem pool fs) .nil .nil) fsList).getD (fsList.append (.cons (fsItem pool fs) .nil .nil))
  else fsList

/-- The second pass over a clone whose parent is found. An item without a parent ends in a null pointer. An item put
below itself is no longer in the list, with all that is below it. -/
def reattach (fsList : FsList) (fs : Zfs) (parent : Bytes) : Option FsList :=
  (getParentFileSystem fsList fs.fullPath).bind fun item =>
    (fsList.above FsItem.text item).bind fun _ =>
      (takeChild item fsList).map fun taken => (addChild parent (.cons taken.1.1 taken.1.2 .nil) taken.2).getD taken.2

def moveItem (pool : Bytes) (fsList : FsList) (fs : Zfs) : Option FsList :=
  if startsWith fs.fullPath pool then
    ((originOf fs).bind (getParentFileSystem fsList)).elim (some fsList) (reattach fsList fs)
  else some fsList

/-- What fsList shows for a selected pool; none when the second pass dereferences a null pointer. -/
def currentItemChanged (fileSystems : List Zfs) (current : Option Bytes) : Option FsList :=
  current.elim (some .nil) fun pool => fileSystems.foldlM (moveItem pool) (fileSystems.foldl (addItem pool) .nil)

end Pcbsd.Zmanager.DatasetTree
