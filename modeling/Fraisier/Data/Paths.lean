import Mathlib.Data.List.Basic

/-!
# Paths

A path is absolute or relative and has components. Nothing here looks at a file system.
-/

namespace Fraisier.Data

/-- A path, by its components. -/
structure PathBuf where
  absolute : Bool
  parts : List String
deriving DecidableEq

namespace PathBuf

/-- A path as a text. -/
def display (path : PathBuf) : String :=
  (if path.absolute then "/" else "") ++ "/".intercalate path.parts

/-- The last component, unless it leads up. -/
def fileName (path : PathBuf) : Option String :=
  path.parts.getLast?.filter (· != "..")

/-- A path below a base; an absolute one replaces the base. -/
def join (base path : PathBuf) : PathBuf :=
  if path.absolute then path else { base with parts := base.parts ++ path.parts }

/-- Whether a path stays below whatever it is joined to. -/
def staysBelow (path : PathBuf) : Bool :=
  !path.absolute && path.parts.all (· != "..")

/-- The path of a text. Empty components and `.` lead nowhere. -/
def ofText (text : String) : PathBuf where
  absolute := text.toList.head? == some '/'
  parts := ((text.toList.splitOn '/').map String.ofList).filter fun part =>
    part != "" && part != "."

/-- What is at some names below a path. -/
def below (path : PathBuf) (names : List String) : PathBuf :=
  { path with parts := path.parts ++ names }

/-- The path without its last component, unless it has none. -/
def parent (path : PathBuf) : Option PathBuf :=
  if path.parts.isEmpty then none else some { path with parts := path.parts.dropLast }

/-- The path with another last component; one that leads up is kept and followed. -/
def withFileName (path : PathBuf) (name : String) : PathBuf :=
  if path.fileName.isSome then { path with parts := path.parts.dropLast ++ [name] }
  else path.below [name]

/-- What a link at a path leads to. A relative target starts in the directory of the link. -/
def linked (path target : PathBuf) : PathBuf :=
  (path.parent.getD path).join target

/-- Whether a path is at or below a base. -/
def within (base path : PathBuf) : Bool :=
  base.absolute == path.absolute && base.parts.isPrefixOf path.parts

@[simp] theorem below_nil (path : PathBuf) : path.below [] = path := by
  simp [below]

theorem below_below (path : PathBuf) (names names' : List String) :
    (path.below names).below names' = path.below (names ++ names') := by
  simp [below]

theorem within_self (path : PathBuf) : path.within path = true := by
  simp [within]

theorem within_below (base : PathBuf) (names : List String) :
    base.within (base.below names) = true := by
  simp [within, below]

end PathBuf

/-! ## Paths as texts -/

/-- A path below a base, as `join` writes it. -/
def joinPath (base name : String) : String :=
  if name.toList.head? = some '/' then name
  else if base = "" ∨ base.toList.getLast? = some '/' then base ++ name
  else base ++ "/" ++ name

/-- The path without its last component, unless it has none. -/
def parentPath (path : String) : Option String :=
  let path := PathBuf.ofText path
  if path.parts.isEmpty then none else some { path with parts := path.parts.dropLast }.display

/-- A path with another last component; one that leads up is kept and followed. -/
def withFileName (path name : String) : String :=
  if (PathBuf.ofText path).fileName.isSome then joinPath ((parentPath path).getD "") name
  else joinPath path name

end Fraisier.Data
