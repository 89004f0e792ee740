import Netscribe.Telemetry.Entry

/-!
# Journals

A journal decides when entries are written. Debug entries are dropped unless debugging is on. Other
entries wait until the first error entry, which writes what waits and ends the waiting; with debugging
on nothing waits. Every entry starts with the fields of the journal itself.
-/

namespace Netscribe

/-- The state of logging. -/
structure Journal where
  debug : Bool
  fields : List (String × Field)
  waiting : List Entry
  /-- Entries are written at once. -/
  immediate : Bool
deriving DecidableEq, Inhabited, Repr

namespace Journal

def start (debug : Bool) : Journal := ⟨debug, [], [], debug⟩

/-- The journal of a run: its entries carry one more field, the name of the run. -/
def forRun (j : Journal) (run : String) : Journal :=
  { j with fields := j.fields ++ [("run", .text run)] }

def entry (j : Journal) (level : Level) (fields : List (String × Field)) : Entry :=
  ⟨level, (j.fields ++ fields).map fun (k, v) => (k, Entry.clipField v)⟩

def flush (j : Journal) : Journal × List Entry :=
  ({ j with waiting := [], immediate := true }, j.waiting)

/-- Writes an entry at once, whatever waits. -/
def print (j : Journal) (level : Level) (fields : List (String × Field)) : List Entry :=
  [j.entry level fields]

/-- Records an entry, and gives the entries that are written now. -/
def record (j : Journal) (level : Level) (fields : List (String × Field)) :
    Journal × List Entry :=
  if level = .debug ∧ j.debug = false then (j, [])
  else
    let e := j.entry level fields
    if level = .error then
      let (j, written) := j.flush
      (j, written ++ [e])
    else if j.immediate then (j, [e])
    else ({ j with waiting := j.waiting ++ [e] }, [])

/-! ### Messages -/

/-- The error that an error entry reports: the last one given under the key `err`. -/
def reported? (keyvals : List Field) : Option String :=
  (Field.pairs keyvals).foldl (fun found (k, v) =>
    match k, v with
    | .text "err", .error message => some message
    | _, _ => found) none

def unreported (keyvals : List Field) : List (String × Field) :=
  (Field.named keyvals).filter fun (k, v) =>
    match v with
    | .error _ => k != "err"
    | _ => true

/-- The fields of a message. An error entry has the error it reports before the message. -/
def messageFields (level : Level) (message : String) (keyvals : List Field) :
    List (String × Field) :=
  if level = .error then
    (match reported? keyvals with
      | some e => [("err", .text e)]
      | none => [])
      ++ ("msg", .text message) :: unreported keyvals
  else ("msg", .text message) :: Field.named keyvals

def log (j : Journal) (level : Level) (message : String) (keyvals : List Field) :
    Journal × List Entry :=
  j.record level (messageFields level message keyvals)

end Journal

end Netscribe
