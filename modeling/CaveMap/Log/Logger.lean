import CaveMap.Files.Access
import CaveMap.Log.Line
import CaveMap.Text.Letter

namespace CaveMap.Log

inductive Handler
  | console (colored : Bool)
  | file (place : List String) (json : Bool)
  /-- Not made by a set-up. -/
  | foreign (name : String)
  deriving DecidableEq

def Handler.isForeign : Handler → Bool
  | foreign _ => true
  | _ => false

structure Logger where
  rank : Nat := Level.warning.rank
  handlers : List Handler := []
  context : Context := ∅
  /-- Whether a set-up has succeeded before. -/
  isSetUp : Bool := false

structure SetUp where
  level : String := "INFO"
  file : Option Path := none
  json : Bool := false
  colored : Bool := false
  console : Bool := true
  /-- Fields for the context, whose keys have to be texts. -/
  context : List (Value × Value) := []

inductive SetUpFault
  | unknownLevel (name : String)
  | system (fault : FileFault)
  /-- A key in the context that is no text. -/
  | keyType

def SetUpFault.message : SetUpFault → String
  | unknownLevel name => "Unknown log level: " ++ Text.quote name
  | system fault => fault.reason
  | keyType => "keywords must be strings"

namespace SetUp

def fields? (setup : SetUp) : Option (List (String × Value)) :=
  setup.context.mapM fun (key, v) => key.text?.map fun key => (key, v)

end SetUp

def rankNames : List (String × Nat) :=
  [("NOTSET", 0), ("DEBUG", 10), ("INFO", 20), ("WARN", 30), ("WARNING", 30), ("ERROR", 40),
   ("CRITICAL", 50), ("FATAL", 50)]

/-- Names are taken in upper case and in lower case. -/
def rankOf? (name : String) : Option Nat := rankNames.lookup (String.ofList (Text.upper name.toList))

/-- A log file is made if need be; what is in it stays. It is named by its place. -/
def openFile (tree : FileTree) (p : Path) : FileTree × Except FileFault (List String) :=
  match tree.makeDirectories p.parent with
  | (tree, .error fault) => (tree, .error fault)
  | (tree, .ok ()) =>
    match tree.append (Path.ofPlace (p.place tree.working)) [] with
    | .error fault => (tree, .error fault)
    | .ok opened => (opened, .ok (p.place tree.working))

namespace Logger

/-- Handlers of earlier set-ups are taken away, but only once one of them has succeeded. -/
def kept (logger : Logger) : List Handler :=
  if logger.isSetUp then logger.handlers.filter Handler.isForeign else logger.handlers

/-- The context comes last, and only then the set-up counts. -/
def finish (logger : Logger) (setup : SetUp) (made : List Handler) :
    Logger × Except SetUpFault (List Handler) :=
  match setup.fields? with
  | none => (logger, .error .keyType)
  | some fields => ({ logger with context := logger.context.push fields, isSetUp := true }, .ok made)

/-- The handlers that were made come with the logger. What was done before a failure stays done. -/
def setUp (logger : Logger) (tree : FileTree) (setup : SetUp) :
    FileTree × Logger × Except SetUpFault (List Handler) :=
  match rankOf? setup.level with
  | none => (tree, logger, .error (.unknownLevel setup.level))
  | some rank =>
    let console := if setup.console then [Handler.console setup.colored] else []
    let started := { logger with rank, handlers := logger.kept ++ console }
    match setup.file with
    | none => (tree, started.finish setup console)
    | some p =>
      match openFile tree p with
      | (tree, .error fault) => (tree, started, .error (.system fault))
      | (tree, .ok place) =>
        let made := console ++ [.file place setup.json]
        (tree, { started with handlers := logger.kept ++ made }.finish setup made)

def accepts (logger : Logger) (record : Record) : Bool := decide ((logger.rank : Int) ≤ record.rank)

/-- A record that cannot be written leaves no line. -/
def lineOf (logger : Logger) (json : Bool) (process : Nat) (record : Record) : Option String :=
  (if json then jsonLine process logger.context record
    else humanLine false logger.context record).toOption

def linesOf (logger : Logger) (json : Bool) (process : Nat) (records : List Record) : List String :=
  (records.filter logger.accepts).filterMap (logger.lineOf json process)

end Logger

end CaveMap.Log
