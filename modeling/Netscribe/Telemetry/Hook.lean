import Netscribe.Telemetry.Journal
import Netscribe.Telemetry.Record

/-!
# Hooks

The telemetry of a generation pass, as the sequence of hooks it calls: spans, counters, timers and
log messages. How long a timer ran is no part of the sequence.
-/

namespace Netscribe

inductive Hook where
  | spanStart (name : String) (attributes : List (String × Field))
  | counter (name : String) (amount : Binary64) (tags : List String)
  | timer (name : String) (tags : List String)
  | log (level : Level) (message : String) (keyvals : List Field)
  | spanError (message : String)
  | spanStatus (status : SpanStatus) (description : String)
  | spanEnd
deriving DecidableEq, Repr

namespace Hook

def isLog : Hook → Bool
  | log _ _ _ => true
  | _ => false

end Hook

/-- Records the messages among some hooks, and gives the entries that are written meanwhile. -/
def Journal.follow (j : Journal) : List Hook → Journal × List Entry
  | [] => (j, [])
  | .log level message keyvals :: rest =>
    let (j, now) := j.log level message keyvals
    let (j, later) := j.follow rest
    (j, now ++ later)
  | _ :: rest => j.follow rest

end Netscribe
