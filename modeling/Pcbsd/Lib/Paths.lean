import Mathlib.Data.List.TakeWhile
import Pcbsd.Lib.Bytes

/-! Ways down a graph whose edges have labels, and paths as text: labels with a separator between them. -/

namespace Pcbsd.Lib
open List

section

variable {ν κ : Type} {children : ν → List (κ × ν)} {start middle last : ν} {label : κ} {labels : List κ}

inductive Route (children : ν → List (κ × ν)) : ν → List κ → ν → Prop
  | here {node : ν} : Route children node [] node
  | down {node child last : ν} {label : κ} {labels : List κ} (edge : (label, child) ∈ children node)
      (rest : Route children child labels last) : Route children node (label :: labels) last

theorem Route.snoc (route : Route children start labels middle) (edge : (label, last) ∈ children middle) :
    Route children start (labels ++ [label]) last := by
  induction route with
  | here => exact .down edge .here
  | down first _ ih => exact .down first (ih edge)

theorem route_snoc_iff : Route children start (labels ++ [label]) last ↔
    ∃ middle, Route children start labels middle ∧ (label, last) ∈ children middle := by
  refine ⟨fun route => ?_, fun ⟨_, route, edge⟩ => route.snoc edge⟩
  induction labels generalizing start with
  | nil =>
    obtain _ | ⟨edge, _ | _⟩ := route
    exact ⟨start, .here, edge⟩
  | cons _ labels ih =>
    obtain _ | ⟨edge, rest⟩ := route
    obtain ⟨middle, rest, final⟩ := ih rest
    exact ⟨middle, .down edge rest, final⟩

end

section

variable {γ : Type} (sep : γ) (label : List γ) (labels more : List (List γ))

def slashed : List γ := labels.flatMap (sep :: ·)

def joined : List γ := [sep].intercalate labels

theorem slashed_append : slashed sep (labels ++ more) = slashed sep labels ++ slashed sep more := flatMap_append

theorem slashed_singleton : slashed sep [label] = sep :: label := append_nil _

theorem joined_cons : joined sep (label :: labels) = label ++ slashed sep labels := by
  induction labels generalizing label with
  | nil => exact intercalate_singleton.trans (append_nil label).symm
  | cons next labels ih =>
    rw [joined, intercalate_cons_cons, ← joined, ih, append_assoc]
    rfl

theorem slashed_cons : slashed sep (label :: labels) = sep :: joined sep (label :: labels) := by
  rw [joined_cons]
  rfl

end

section

variable {γ : Type} [DecidableEq γ] (sep : γ)

def components (text : List γ) : List (List γ) := (text.splitOn sep).filter (· ≠ [])

@[grind =] def nextComponent (text : List γ) : Option (List γ × List γ) :=
  let text := text.dropWhile (· = sep)
  if text = [] then none else some (text.takeWhile (· ≠ sep), text.dropWhile (· ≠ sep))

variable {sep} {text tail label : List γ}

theorem components_sep : components sep (sep :: text) = components sep text := by
  rw [components, components, ← nil_append (sep :: text), splitOn_append_cons_self]
  rfl

theorem components_append (text : List γ) (start : tail = [] ∨ ∃ rest, tail = sep :: rest) :
    components sep (text ++ tail) = components sep text ++ components sep tail := by
  obtain rfl | ⟨rest, rfl⟩ := start
  · rw [append_nil]
    exact (append_nil _).symm
  · rw [components_sep, components, splitOn_append_cons_self, filter_append, components, components]

theorem dropWhile_sep (text : List γ) :
    text.dropWhile (· ≠ sep) = [] ∨ ∃ rest, text.dropWhile (· ≠ sep) = sep :: rest := by
  induction text with
  | nil => exact .inl rfl
  | cons c text ih =>
    by_cases same : c = sep
    · exact .inr ⟨text, by rw [dropWhile_cons_of_neg (by simpa using same), same]⟩
    · rw [dropWhile_cons_of_pos (by simpa using same)]
      exact ih

@[grind =] def segmentsLoop (sep : γ) : Nat → List γ → List (List γ × List γ)
  | 0, _ => []
  | fuel + 1, text =>
    match nextComponent sep text with
    | none => []
    | some (label, tail) => (label, tail) :: segmentsLoop sep fuel tail

def segments (sep : γ) (text : List γ) : List (List γ × List γ) := segmentsLoop sep text.length text

end

end Pcbsd.Lib

/-! Resolving paths component by component in a tree of directories, files and symbolic links. -/

namespace Pcbsd.Lib

inductive Node where
  | dir (entries : List (Bytes × Nat))
  | file
  | link (target : Bytes)

structure Fs where
  node : Nat → Node
  root : Nat

inductive ResolveError where
  | noEntry
  | notDirectory
  | tooManyLinks
  deriving DecidableEq

def dot : Bytes := [0x2e]

def dotDot : Bytes := [0x2e, 0x2e]

namespace Fs

variable (fs : Fs)

/-- Where a link leads: its components, from the root or from the directory that it is in. -/
def linkStart (target : Bytes) (cwd : List Nat) : List Nat := if target.head? = some slash then [fs.root] else cwd

/-- The way through directories that are known with all those above them. `follow` goes on behind a link. -/
def walk (follow : List Nat → List Bytes → Except ResolveError Nat) : List Nat → List Bytes → Except ResolveError Nat
  | [], _ => .error .noEntry
  | here :: _, [] => .ok here
  | here :: up, name :: names =>
    match fs.node here with
    | .dir entries =>
      if name = dot then walk follow (here :: up) names
      else if name = dotDot then walk follow (if up = [] then [here] else up) names
      else
        match entries.find? (·.1 = name) with
        | none => .error .noEntry
        | some item =>
          match fs.node item.2 with
          | .link target => follow (fs.linkStart target (here :: up)) (components slash target ++ names)
          | _ => walk follow (item.2 :: here :: up) names
    | _ => .error .notDirectory

def resolveFrom : Nat → List Nat → List Bytes → Except ResolveError Nat
  | 0 => fs.walk fun _ _ => .error .tooManyLinks
  | links + 1 => fs.walk (resolveFrom links)

inductive Live : Nat → Prop
  | root : Live fs.root
  | entry {dir : Nat} {entries : List (Bytes × Nat)} {item : Bytes × Nat} (above : Live dir)
      (node : fs.node dir = .dir entries) (member : item ∈ entries) : Live item.2

section

variable {fs : Fs} {follow : List Nat → List Bytes → Except ResolveError Nat} {here : Nat} {up : List Nat}
    {name : Bytes} {names : List Bytes}

variable {entries : List (Bytes × Nat)} {item : Bytes × Nat}

end

end Fs

end Pcbsd.Lib
