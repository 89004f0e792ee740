import Netscribe.FileTree
import Netscribe.Number.Decimal

/-!
# Replacing a file

`FileTree.replace` gives a file a new content in one step: the content goes to a temporary file beside
it, which then takes its place. If a step fails, the temporary file goes away, and all that may be
left is directories on the way to the file. A step fails where the tree has no room for it, and where
the disk refuses it.
-/

namespace Netscribe.FileTree

/-! ### Disks -/

/-- A disk may refuse an operation on a path for a cause of its own: for lack of space or of rights,
or because it is broken. -/
structure Disk where
  refuses : String → String → Option Cause
  /-- The number of bytes that are written before writing is refused. -/
  room : Nat

namespace Disk

def sound : Disk := ⟨fun _ _ => none, 0⟩

/-- The result of an operation on a path, unless it is refused. -/
def attempt {α : Type} (d : Disk) (operation path : String) (result : Except Cause α) :
    Except Fault α :=
  match d.refuses operation path with
  | some c => .error ⟨operation, path, c⟩
  | none => result.mapError fun c => ⟨operation, path, c⟩

end Disk

/-! ### Directories -/

/-- Makes the directories of a path that are missing. The names come last first; a slash follows all
of them but the last. -/
def makeMissing (d : Disk) (t : FileTree) (absolute slash : Bool) :
    List String → FileTree × Except Fault Unit
  | [] => (t, .ok ())
  | name :: above =>
    let path := Path.text ⟨absolute, (name :: above).reverse, slash⟩
    match t.stat path with
    | .ok .directory => (t, .ok ())
    | .ok (.file _ _) => (t, .error ⟨"mkdir", path, .notDirectory⟩)
    | .error _ =>
      match makeMissing d t absolute true above with
      | (t, .error f) => (t, .error f)
      | (t, .ok ()) =>
        match d.attempt "mkdir" path (t.makeDirectory path) with
        | .ok t => (t, .ok ())
        | .error f => (t, .error f)

def makeDirectoriesOn (d : Disk) (t : FileTree) (p : Path) : FileTree × Except Fault Unit :=
  makeMissing d t p.absolute false p.names.reverse

def makeDirectories (t : FileTree) (p : Path) : FileTree × Except Fault Unit :=
  makeDirectoriesOn .sound t p

/-! ### Temporary files -/

def temporaryName (name mark : String) : String := "." ++ name ++ "." ++ mark ++ ".tmp"

/-- The first of some temporary files that is not there yet: its path and its place. -/
def vacantTemporary (d : Disk) (t : FileTree) (directory : Path) (name : String) :
    List Nat → Except Fault (String × Place)
  | [] => .error ⟨"createtemp", directory.file (temporaryName name "*"), .allExist⟩
  | number :: rest =>
    let path := directory.file (temporaryName name (decimalText number))
    match d.attempt "open" path (t.vacant path) with
    | .ok place => .ok (path, place)
    | .error f => if f.cause = .taken then vacantTemporary d t directory name rest else .error f

def temporary (d : Disk) (t : FileTree) (numbers : List Nat) (directory : Path) (name : String) :
    Except Fault (String × Place) :=
  if name.toList.contains '/' then .error ⟨"createtemp", temporaryName name "*", .separator⟩
  else vacantTemporary d t directory name numbers

/-! ### Files -/

inductive ReplaceError where
  | directory (f : Fault)
  | temporary (f : Fault)
  | content (path : String) (f : Fault)
  | permissions (path : String) (f : Fault)
  | closing (path : String) (f : Fault)
  | rename (path source : String) (cause : Cause)
deriving DecidableEq, Repr

def ReplaceError.message : ReplaceError → String
  | directory f => s!"create output directory: {f.message}"
  | temporary f => s!"create temporary file: {f.message}"
  | content path f => s!"write {path}: {f.message}"
  | permissions path f => s!"chmod {path}: {f.message}"
  | closing path f => s!"close {path}: {f.message}"
  | rename path source cause => s!"rename {path}: rename {source} {path}: {cause.text}"

def privateMode : Nat := 0o600

def publicMode : Nat := 0o644

/-- Fills the temporary file at a place, whose path is `source`, and moves it to a path. Where a step
fails, the temporary file stays as it is then. -/
def publish (d : Disk) (t : FileTree) (place : Place) (source path : String)
    (content : List UInt8) : FileTree × Except ReplaceError Unit :=
  match d.attempt "write" source (.ok content) with
  | .error f =>
    (t.put place (.file (content.take d.room) privateMode), .error (.content path f))
  | .ok content =>
    let t := t.put place (.file content privateMode)
    match d.attempt "chmod" source (.ok publicMode) with
    | .error f => (t, .error (.permissions path f))
    | .ok mode =>
      let t := t.put place (.file content mode)
      match d.attempt "close" source (.ok ()) with
      | .error f => (t, .error (.closing path f))
      | .ok () =>
        match d.attempt "rename" source (t.move place path) with
        | .error f => (t, .error (.rename path source f.cause))
        | .ok t => (t, .ok ())

/-- Gives the file at a path on a disk a content. The numbers are tried in order for the name of the
temporary file, which is removed if it does not take the place of the file. -/
def replaceOn (d : Disk) (t : FileTree) (numbers : List Nat) (path : String)
    (content : List UInt8) : FileTree × Except ReplaceError Unit :=
  let p := Path.ofText path
  match makeDirectoriesOn d t p.directory with
  | (t, .error f) => (t, .error (.directory f))
  | (t, .ok ()) =>
    match temporary d t numbers p.directory p.name with
    | .error f => (t, .error (.temporary f))
    | .ok (source, place) =>
      match publish d (t.put place (.file [] privateMode)) place source path content with
      | (t, .error e) => (t.erase place, .error e)
      | (t, .ok ()) => (t, .ok ())

def replace (t : FileTree) (numbers : List Nat) (path : String) (content : List UInt8) :
    FileTree × Except ReplaceError Unit :=
  replaceOn .sound t numbers path content

end Netscribe.FileTree
