import Netscribe.Telemetry.Field

/-!
# Metric and span records

What reaches the instruments: additions to counters, durations in seconds, and the life of spans.
An instrument without a name does not exist, and what is sent to it is lost.
-/

namespace Netscribe

inductive SpanStatus where
  | unset
  | ok
  | error
deriving DecidableEq, Inhabited, Repr

def SpanStatus.name : SpanStatus → String
  | unset => "Unset"
  | ok => "Ok"
  | error => "Error"

inductive Record where
  | added (counter : String) (amount : Binary64) (attributes : List (String × String))
  | measured (timer unit : String) (amount : Binary64) (attributes : List (String × String))
  | spanStarted (name : String)
  | spanEvent (name : String) (attributes : List (String × Field))
  | spanStatus (status : SpanStatus) (description : String)
  | spanError (message : String)
  | spanEnded
deriving DecidableEq, Repr

namespace Record

/-- A duration in nanoseconds as seconds: the whole seconds plus the remainder, each rounded. -/
def seconds (nanoseconds : Int) : Binary64 :=
  (Binary64.ofInt (nanoseconds.tdiv 1000000000)).add
    (Binary64.ofQuotient (nanoseconds.tmod 1000000000) 1000000000)

def ofCount (name : String) (amount : Binary64) (tags : List String) : List Record :=
  if name.isEmpty then [] else [.added name amount (metricAttributes tags)]

def ofDuration (name : String) (nanoseconds : Int) (tags : List String) : List Record :=
  if name.isEmpty then []
  else [.measured name "s" (seconds nanoseconds) (metricAttributes tags)]

def ofEvent (name : String) (keyvals : List Field) : Record :=
  .spanEvent name (Field.attributes keyvals)

end Record

end Netscribe
