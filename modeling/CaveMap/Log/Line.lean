import CaveMap.Log.Event
import CaveMap.Log.Json
import CaveMap.Log.Template
import CaveMap.Log.Time
import CaveMap.Table
import CaveMap.Text.Column

namespace CaveMap.Log

structure Record where
  rank : Int
  channel : String
  template : String
  arguments : List Value
  /-- Seconds since the beginning of 1970. -/
  time : Binary64
  /-- What went wrong, for records of a failure. -/
  failure : Option String := none

def Event.record (event : Event) (time : Binary64) : Record :=
  { rank := event.level.rank, channel := event.channel, template := event.message, arguments := [], time,
    failure := event.failure? }

/-- Fields that stand in every line, in the order in which they were first set. -/
abbrev Context := Table Value

namespace Context

def push (context : Context) (fields : List (String × Value)) : Context :=
  fields.foldl (fun context (key, v) => context.insert key v) context

/-- Without keys, all fields go. -/
def pop (context : Context) : Option (List String) → Context
  | none => ∅
  | some keys => keys.foldl Table.erase context

end Context

inductive LineFault
  | time (fault : TimeFault)
  | template (fault : Template.Fault)
  | json (fault : Json.Fault)
  | longInteger

def rankName (rank : Int) : String :=
  match Level.all.find? fun level => level.rank = rank with
  | some level => level.name
  | none => if rank = 0 then "NOTSET" else "Level " ++ Text.integerText rank

def colorOf : Level → String
  | .debug => "\x1b[36m"
  | .info => "\x1b[32m"
  | .warning => "\x1b[33m"
  | .error => "\x1b[31m"
  | .critical => "\x1b[35m"

def plainColor : String := "\x1b[0m"

def levelColumn (name : String) (colored : Bool) : String :=
  let padded := Text.leftAligned 8 name
  if colored then
    (((Level.all.find? fun level => level.name = name).map colorOf).getD "") ++ padded ++ plainColor
  else padded

def contextText? (context : Context) : Option String := do
  return String.intercalate " " (← context.entries.mapM fun (key, v) => v.shown?.map (key ++ "=" ++ ·))

def Record.message (record : Record) : Except LineFault String :=
  (Template.fill record.template record.arguments).mapError .template

/-- The name of the rank, which is told when the record is made. -/
def Record.level (record : Record) : Except LineFault String :=
  if Text.isWritable record.rank then return rankName record.rank else throw .longInteger

def humanLine (colored : Bool) (context : Context) (record : Record) : Except LineFault String := do
  let level ← record.level
  let moment ← (momentOf record.time).mapError .time
  let some fields := contextText? context | throw .longInteger
  let line := String.intercalate " "
    ([shortTime moment, "|", levelColumn level colored, "|"] ++
      (if fields.isEmpty then [] else [fields ++ " |"]) ++ [← record.message])
  return match record.failure with
    | none => line
    | some failure => line ++ "\n" ++ failure

/-- Fields of the context come behind those of the record, or in their place. -/
def jsonLine (process : Nat) (context : Context) (record : Record) : Except LineFault String := do
  let level ← record.level
  let moment ← (momentOf record.time).mapError .time
  let own : Context := Table.ofList
    [("t", .text moment.text), ("lvl", .text level), ("name", .text record.channel),
     ("pid", .int process), ("msg", .text (← record.message))]
  let fields := (own.push context.entries).push
    (record.failure.map fun failure => ("exc", Value.text failure)).toList
  (Json.object fields.entries).mapError .json

end CaveMap.Log
