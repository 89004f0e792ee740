import Netscribe.Text.Join

/-!
# Paths

A path names a place by the names on the way to it, separated by slashes. `Path.ofText` reads a path;
several slashes count as one. `Path.clean` takes out the names `.` and `..` by the text alone, and
`Path.directory` and `Path.name` are what a path says about the directory and the name of a file.
-/

namespace Netscribe

structure Path where
  absolute : Bool
  names : List String
  slash : Bool
deriving DecidableEq, Inhabited, Repr

namespace Path

/-- The pieces of a text between its slashes, at least one. -/
def pieces : List Char → List (List Char)
  | [] => [[]]
  | c :: rest =>
    if c = '/' then [] :: pieces rest
    else
      match pieces rest with
      | [] => [[c]]
      | piece :: more => (c :: piece) :: more

def ofText (s : String) : Path where
  absolute := s.toList.head? == some '/'
  names := ((pieces s.toList).filter (!·.isEmpty)).map String.ofList
  slash := s.toList.getLast? == some '/'

/-- The text of a path; the empty relative path is the dot. -/
def text (p : Path) : String :=
  if p.names.isEmpty then (if p.absolute then "/" else ".")
  else (if p.absolute then "/" else "") ++ join "/" p.names ++ (if p.slash then "/" else "")

/-- One more name in a list of names without `.`, and with `..` at its start only; the list has its
last name first. The directory above the root is the root. -/
def cleanName (absolute : Bool) (done : List String) (name : String) : List String :=
  if name = "." then done
  else if name = ".." then
    match done with
    | [] => if absolute then [] else [".."]
    | last :: above => if last = ".." then ".." :: done else above
  else name :: done

/-- The shortest path that means the same by its text alone. -/
def clean (p : Path) : Path where
  absolute := p.absolute
  names := (p.names.foldl (cleanName p.absolute) []).reverse
  slash := false

def directory (p : Path) : Path :=
  clean { p with names := if p.slash then p.names else p.names.dropLast }

/-- The name of a file: its last name, a dot for the empty path and a slash for the root. -/
def name (p : Path) : String :=
  (p.names.getLast?).getD (if p.absolute then "/" else ".")

def file (p : Path) (name : String) : String :=
  if p.absolute && p.names.isEmpty then "/" ++ name else p.text ++ "/" ++ name

end Path

end Netscribe
