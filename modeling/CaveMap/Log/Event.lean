import CaveMap.Value

namespace CaveMap.Log

inductive Level
  | debug | info | warning | error | critical
  deriving DecidableEq

namespace Level

def all : List Level := [debug, info, warning, error, critical]

def name : Level → String
  | debug => "DEBUG"
  | info => "INFO"
  | warning => "WARNING"
  | error => "ERROR"
  | critical => "CRITICAL"

def rank : Level → Nat
  | debug => 10
  | info => 20
  | warning => 30
  | error => 40
  | critical => 50

end Level

inductive Event
  | modulesResolved (count : Nat)
  | layoutAssembled (sections : Nat)
  | exportSkipped (kind : Value)
  | drawingScanned (fileName : String) (found new : Nat)
  | moduleRegistered (id displayName : String)
  | colorsSuggested (count : Nat)
  | settingsLoading (path : String)
  | settingsLoaded (sources symbols modules : Nat)
  | settingsWritten (path : String)
  | documentsWritten (layoutName configName directory : String)
  | writingFailed (reason : String)

namespace Event

def level : Event → Level
  | modulesResolved _ => .debug
  | layoutAssembled _ => .debug
  | exportSkipped _ => .warning
  | writingFailed _ => .error
  | _ => .info

def channel : Event → String
  | modulesResolved _ => "therion_layout.generator.modules"
  | layoutAssembled _ => "therion_layout.generator.layout"
  | exportSkipped _ => "therion_layout.generator.thconfig"
  | drawingScanned .. => "therion_layout.settings.session"
  | moduleRegistered .. => "therion_layout.settings.session"
  | colorsSuggested _ => "therion_layout.settings.session"
  | settingsLoading _ => "therion_layout.settings.loader"
  | settingsLoaded .. => "therion_layout.settings.loader"
  | settingsWritten _ => "therion_layout.settings.loader"
  | documentsWritten .. => "therion_layout.scripts.generate"
  | writingFailed _ => "therion_layout.scripts.generate"

def message : Event → String
  | modulesResolved count => "Resolved " ++ Text.decimalText count ++ " enabled module(s)"
  | layoutAssembled sections =>
    "Layout document assembled from " ++ Text.decimalText sections ++ " sections"
  | exportSkipped kind => "No export template for '" ++ kind.shown ++ "'; skipped"
  | drawingScanned fileName found new =>
    "Scanned " ++ fileName ++ ": " ++ Text.decimalText found ++ " symbol type(s), " ++
      Text.decimalText new ++ " new"
  | moduleRegistered id displayName => "Registered custom module " ++ id ++ " (" ++ displayName ++ ")"
  | colorsSuggested count => "Applied " ++ Text.decimalText count ++ " suggested color(s)"
  | settingsLoading path => "Loading settings from " ++ path
  | settingsLoaded sources symbols modules =>
    "Settings loaded: " ++ Text.decimalText sources ++ " source file(s), " ++ Text.decimalText symbols ++
      " symbol override(s), " ++ Text.decimalText modules ++ " enabled module(s)"
  | settingsWritten path => "Settings written to " ++ path
  | documentsWritten layoutName configName directory =>
    "Wrote " ++ layoutName ++ " and " ++ configName ++ " to " ++ directory
  | writingFailed _ => "Writing output failed"

def failure? : Event → Option String
  | writingFailed reason => some reason
  | _ => none

end Event

end CaveMap.Log
