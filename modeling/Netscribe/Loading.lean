import Netscribe.Config
import Netscribe.Document.Graph
import Netscribe.FileTree

/-!
# Loading

Graphs and configurations come from files. What is read from a file is given to the decoder, and an
error of the decoder is reported with the path of the file.
-/

namespace Netscribe

inductive LoadError (ε : Type) where
  | unread (f : FileTree.Fault)
  | inFile (path : String) (e : ε)
deriving DecidableEq, Repr

/-- The text of an error; `what` is what was to be read. -/
def LoadError.text {ε : Type} (what : String) (message : ε → String) : LoadError ε → String
  | unread f => s!"read {what}: {f.message}"
  | inFile path e => s!"{path}: {message e}"

def load {ε α : Type} (decode : List UInt8 → Except ε α) (path : String)
    (bytes : Except FileTree.Fault (List UInt8)) : Except (LoadError ε) α := do
  let bytes ← bytes.mapError .unread
  (decode bytes).mapError (.inFile path)

abbrev Config.LoadError := Netscribe.LoadError Config.DecodeError

def Config.LoadError.message (e : Config.LoadError) : String :=
  e.text "config" Config.DecodeError.message

def Config.load (path : String) (bytes : Except FileTree.Fault (List UInt8)) :
    Except Config.LoadError Config :=
  Netscribe.load Config.decode path bytes

abbrev Graph.LoadError := Netscribe.LoadError Document.DocumentError

def Graph.LoadError.message (e : Graph.LoadError) : String :=
  e.text "graph" Document.DocumentError.message

def Graph.load (path : String) (bytes : Except FileTree.Fault (List UInt8)) :
    Except Graph.LoadError Graph :=
  Netscribe.load Document.decode path bytes

end Netscribe
