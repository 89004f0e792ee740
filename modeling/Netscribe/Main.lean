import Netscribe.CommandLine.Plan
import Netscribe.CommandLine.RunName

/-!
# The program

Reads the files that the arguments name, carries out the plan on the disk, and prints the report.
-/

namespace Netscribe.CommandLine.Disk

open FileTree (Cause Fault ReplaceError)

def details : IO.Error → UInt32 × String
  | .alreadyExists _ n s | .otherError n s | .resourceBusy n s | .resourceVanished n s
  | .unsupportedOperation n s | .hardwareFault n s | .unsatisfiedConstraints n s
  | .illegalOperation n s | .protocolError n s | .timeExpired n s | .interrupted _ n s
  | .noFileOrDirectory _ n s | .invalidArgument _ n s | .permissionDenied _ n s
  | .resourceExhausted _ n s | .inappropriateType _ n s | .noSuchThing _ n s => (n, s)
  | .unexpectedEof => (0, "unexpected end of file")
  | .userError s => (0, s)

def causeOf (e : IO.Error) : Cause :=
  let (number, text) := details e
  match number.toNat with
  | 2 => .notFound
  | 17 => .taken
  | 20 => .notDirectory
  | 21 => .isDirectory
  | 22 => .invalid
  | 36 => .nameTooLong
  | _ => .other text.decapitalize

def attempt {α : Type} (operation path : String) (action : IO α) : IO (Except Fault α) := do
  try return .ok (← action)
  catch e => return .error ⟨operation, path, causeOf e⟩

def read (path : String) : IO (Except Fault (List UInt8)) := do
  match ← attempt "open" path (IO.FS.Handle.mk path .read) with
  | .error f => return .error f
  | .ok h => return (← attempt "read" path h.readBinToEnd).map (·.toList)

def isDirectory (path : String) : IO Bool := do
  try (← IO.FS.realPath path).isDir
  catch _ => return false

def isThere (path : String) : IO Bool := do
  try (← IO.FS.realPath path).pathExists
  catch _ => return false

/-- Makes the directories of a path that are missing. The names come last first; a slash follows all
of them but the last. -/
def makeMissing (absolute slash : Bool) : List String → IO (Except Fault Unit)
  | [] => return .ok ()
  | name :: above => do
    let path := Path.text ⟨absolute, (name :: above).reverse, slash⟩
    if ← isDirectory path then return .ok ()
    else if !slash && (← isThere path) then return .error ⟨"mkdir", path, .notDirectory⟩
    else
      match ← makeMissing absolute true above with
      | .error f => return .error f
      | .ok () => attempt "mkdir" path (IO.FS.createDir path)

/-- A new temporary file, with as many attempts as are left. -/
def temporary (directory : Path) (name : String) :
    Nat → IO (Except Fault (String × IO.FS.Handle))
  | 0 => return .error ⟨"createtemp", directory.file (FileTree.temporaryName name "*"), .allExist⟩
  | attempts + 1 => do
    let mark := decimalText (← IO.rand 0 4294967295)
    let path := directory.file (FileTree.temporaryName name mark)
    match ← attempt "open" path (IO.FS.Handle.mk path .writeNew) with
    | .ok h => return .ok (path, h)
    | .error f => if f.cause = .taken then temporary directory name attempts else return .error f

def publicRights : IO.FileRight := ⟨⟨true, true, false⟩, ⟨true, false, false⟩, ⟨true, false, false⟩⟩

def publish (path source : String) (h : IO.FS.Handle) (content : List UInt8) :
    IO (Except ReplaceError Unit) := do
  let bytes := ByteArray.mk content.toArray
  match ← attempt "write" source (do h.write bytes; h.flush) with
  | .error f => return .error (.content path f)
  | .ok () =>
    match ← attempt "chmod" source (IO.setAccessRights source publicRights) with
    | .error f => return .error (.permissions path f)
    | .ok () =>
      if ← isDirectory path then return .error (.rename path source .taken)
      else
        match ← attempt "rename" path (IO.FS.rename source path) with
        | .error f => return .error (.rename path source f.cause)
        | .ok () => return .ok ()

def replace (path : String) (content : List UInt8) : IO (Except ReplaceError Unit) := do
  let p := Path.ofText path
  let directory := p.directory
  match ← makeMissing directory.absolute false directory.names.reverse with
  | .error f => return .error (.directory f)
  | .ok () =>
    match ← temporary directory p.name 10000 with
    | .error f => return .error (.temporary f)
    | .ok (source, h) =>
      let result ← publish path source h content
      if result matches .error _ then
        try IO.FS.removeFile source
        catch _ => pure ()
      return result

def contents (arguments : List String) : IO (String → Except Fault (List UInt8)) := do
  match Flags.ofArguments arguments with
  | .error _ => return fun path => .error ⟨"open", path, .notFound⟩
  | .ok f =>
    let config ← read f.config
    let graph ← read f.graph
    return fun path => if path = f.config then config else graph

def carryOut : Plan → IO Report
  | .done r => return r
  | .write path content finish => return finish (← replace path content)

def setting : IO Setting := do
  let program := ((← IO.appPath).fileName).getD ""
  let random (bound : Nat) : IO Nat := IO.rand 0 (bound - 1)
  let run := runName (← random 4294967296) (← random 65536) (← random 65536) (← random 65536)
    (← random 281474976710656)
  return ⟨program, run, ← (← IO.getStdout).isTty⟩

end Netscribe.CommandLine.Disk

def main (arguments : List String) : IO UInt32 := do
  let start ← IO.monoMsNow
  let setting ← Netscribe.CommandLine.Disk.setting
  let contents ← Netscribe.CommandLine.Disk.contents arguments
  let plan := Netscribe.CommandLine.plan setting contents arguments
  let report ← Netscribe.CommandLine.Disk.carryOut plan
  let seconds := ((← IO.monoMsNow) - start) / 1000
  for e in report.log do IO.println (e.render report.format seconds)
  for line in report.notices do IO.eprintln line
  return UInt32.ofNat report.exitCode
