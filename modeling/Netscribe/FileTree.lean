import Netscribe.FileTree.Path

/-!
# File trees

A file tree holds files with their content and permissions, and directories. A place is the list of
names from the root. Paths are followed name by name, from the root or from the working directory, and
every place on the way has to be a directory.
-/

namespace Netscribe

/-- The names from the root to a file or a directory. -/
abbrev Place := List String

/-- What stands at a place. -/
inductive FileTree.Item where
  | file (content : List UInt8) (mode : Nat)
  | directory
deriving DecidableEq, Inhabited, Repr

/-- The files and directories below the root. -/
structure FileTree where
  items : List (Place × FileTree.Item)
  working : Place
deriving DecidableEq, Inhabited, Repr

namespace FileTree

/-! ### Places -/

/-- What stands at a place; the root is a directory. -/
def get? (t : FileTree) (p : Place) : Option Item :=
  if p = [] then some .directory else (t.items.find? (·.1 == p)).map (·.2)

def put (t : FileTree) (p : Place) (i : Item) : FileTree :=
  { t with items := (p, i) :: t.items.filter (·.1 != p) }

def erase (t : FileTree) (p : Place) : FileTree :=
  { t with items := t.items.filter (·.1 != p) }

/-- Parents come before what they hold, and siblings in the order of their names. -/
def placeLe : Place → Place → Bool
  | [], _ => true
  | _ :: _, [] => false
  | a :: as, b :: bs => decide (a < b) || (a == b && placeLe as bs)

/-- The paths below the working directory, parents first and siblings in order, with their items. -/
def listing (t : FileTree) : List (String × Item) :=
  let below := t.items.filterMap fun (p, i) =>
    if t.working.isPrefixOf p && p.length != t.working.length then
      some (p.drop t.working.length, i)
    else none
  (below.mergeSort fun a b => placeLe a.1 b.1).map fun (p, i) =>
    (join "/" p ++ (if i = .directory then "/" else ""), i)

/-! ### Faults -/

inductive Cause where
  | notFound
  | notDirectory
  | isDirectory
  | taken
  | nameTooLong
  | invalid
  | separator
  | allExist
  | other (text : String)
deriving DecidableEq, Inhabited, Repr

def Cause.text : Cause → String
  | notFound => "no such file or directory"
  | notDirectory => "not a directory"
  | isDirectory => "is a directory"
  | taken => "file exists"
  | nameTooLong => "file name too long"
  | invalid => "invalid argument"
  | separator => "pattern contains path separator"
  | allExist => "file already exists"
  | other text => text

structure Fault where
  operation : String
  path : String
  cause : Cause
deriving DecidableEq, Inhabited, Repr

def Fault.message (f : Fault) : String := s!"{f.operation} {f.path}: {f.cause.text}"

/-! ### Paths -/

def maxName : Nat := 255

def maxPath : Nat := 4096

def enter (here : Place) (name : String) : Place :=
  if name = "." then here else if name = ".." then here.dropLast else here ++ [name]

/-- The place that some names lead to; only the last of them may be missing. -/
def walk (t : FileTree) (here : Place) : List String → Except Cause Place
  | [] => .ok here
  | name :: rest =>
    match t.get? here with
    | none => .error .notFound
    | some (.file _ _) => .error .notDirectory
    | some .directory =>
      if maxName < name.utf8ByteSize then .error .nameTooLong else t.walk (enter here name) rest

/-- The place of a path, where there may be nothing yet. -/
def resolve (t : FileTree) (path : String) : Except Cause Place :=
  if path.toList.contains (Char.ofNat 0) then .error .invalid
  else if path.isEmpty then .error .notFound
  else if maxPath ≤ path.utf8ByteSize then .error .nameTooLong
  else
    let p := Path.ofText path
    t.walk (if p.absolute then [] else t.working) p.names

/-- What stands at a path. A slash at the end asks for a directory. -/
def stat (t : FileTree) (path : String) : Except Cause Item := do
  match t.get? (← t.resolve path) with
  | none => .error .notFound
  | some .directory => .ok .directory
  | some (.file content mode) =>
    if (Path.ofText path).slash then .error .notDirectory else .ok (.file content mode)

def read (t : FileTree) (path : String) : Except Fault (List UInt8) :=
  match t.stat path with
  | .error c => .error ⟨"open", path, c⟩
  | .ok .directory => .error ⟨"read", path, .isDirectory⟩
  | .ok (.file content _) => .ok content

def makeDirectory (t : FileTree) (path : String) : Except Cause FileTree := do
  let place ← t.resolve path
  match t.get? place with
  | some _ => .error .taken
  | none => .ok (t.put place .directory)

def vacant (t : FileTree) (path : String) : Except Cause Place := do
  let place ← t.resolve path
  match t.get? place with
  | some _ => .error .taken
  | none => if (Path.ofText path).slash then .error .isDirectory else .ok place

/-- The tree in which the file at a place stands at a path instead, over the file there. -/
def move (t : FileTree) (place : Place) (path : String) : Except Cause FileTree := do
  let target ← t.resolve path
  match t.get? place, t.get? target with
  | none, _ => .error .notFound
  | _, some .directory => .error .taken
  | some item, _ =>
    if (Path.ofText path).slash then .error .notDirectory
    else .ok ((t.erase place).put target item)

end FileTree

end Netscribe
