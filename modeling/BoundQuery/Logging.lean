import BoundQuery.Error
import BoundQuery.Event
import BoundQuery.Text.Upper

/-! What is shown of the events, and where. -/
namespace BoundQuery

inductive LevelChoice where
  | name (s : String)
  | rank (n : Int)

/-- Nothing is shown until a stream is set. -/
structure Logger where
  rank : Int := 0
  stream : Option String := none

namespace Logger

def name : String := "docsql"

def standardStream : String := "stderr"

/-- The rank of the loggers that have none of their own. -/
def rootRank : Int := 30

def rankOf? (name : String) : Option Int :=
  [("CRITICAL", 50), ("FATAL", 50), ("ERROR", 40), ("WARNING", 30), ("WARN", 30), ("INFO", 20),
    ("DEBUG", 10), ("NOTSET", 0)].lookup name

def rank? : LevelChoice → Except Error Int
  | .rank n => .ok n
  | .name s =>
    match rankOf? (Text.upper s) with
    | some n => .ok n
    | none => .error (.unknownLevel (Text.upper s))

/-- Sets the level; a stream that is set already only gives way to a named one. -/
def configure (l : Logger) (level : LevelChoice) (stream : Option String) : Except Error Logger := do
  let rank ← rank? level
  return { rank, stream := some (stream.getD (l.stream.getD standardStream)) }

def effectiveRank (l : Logger) : Int := if l.rank = 0 then rootRank else l.rank

def shows (l : Logger) (e : Event) : Bool := l.effectiveRank ≤ e.level.rank

def text (l : Logger) (events : List Event) : String :=
  "".intercalate ((events.filter l.shows).map Event.line)

end Logger

end BoundQuery
