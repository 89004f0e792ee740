import Netscribe.FileTree.Replace
import Netscribe.Generation

/-!
# Delivery

The source of a graph is generated whole before any file is touched, and then replaces the file at a
path. A delivery that succeeds tells its hooks so.
-/

namespace Netscribe

inductive DeliveryError where
  | generation (h : Halt)
  | replacement (e : FileTree.ReplaceError)
deriving Repr

def DeliveryError.message : DeliveryError → String
  | generation h => h.text
  | replacement e => e.message

namespace Delivery

def content (o : Options) (g : Graph) : Except Halt (List UInt8) :=
  (Generation.generate o g).map Utf8.encode

def writtenHook (path : String) (content : List UInt8) : Hook :=
  .log .info "wrote module"
    [.text "path", .text path, .text "bytes", .int content.length]

end Delivery

/-- Writes the source of a graph to a path on a disk: the tree afterwards, the hooks in order, and the
error if there is one. The numbers are tried in order for the name of the temporary file. -/
def deliverOn (d : FileTree.Disk) (t : FileTree) (numbers : List Nat) (o : Options) (g : Graph)
    (path : String) : FileTree × List Hook × Except DeliveryError Unit :=
  let hooks := Generation.hooks o g
  match Delivery.content o g with
  | .error h => (t, hooks, .error (.generation h))
  | .ok content =>
    match FileTree.replaceOn d t numbers path content with
    | (t, .error e) => (t, hooks, .error (.replacement e))
    | (t, .ok ()) => (t, hooks ++ [Delivery.writtenHook path content], .ok ())

/-- Writes the source of a graph to a path. -/
def deliver (t : FileTree) (numbers : List Nat) (o : Options) (g : Graph) (path : String) :
    FileTree × List Hook × Except DeliveryError Unit :=
  deliverOn .sound t numbers o g path

end Netscribe
