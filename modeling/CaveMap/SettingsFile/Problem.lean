import CaveMap.Number.Word
import CaveMap.Value

namespace CaveMap.SettingsFile

inductive Step
  | key (name : String)
  | index (i : Int)
  deriving DecidableEq

def Step.keyName (key : Value) : String :=
  if key.isWritable then key.quoted else "<unprintable " ++ key.kindName ++ " object>"

/-- The step to the value of a key: small whole numbers stand for themselves. -/
def Step.ofKey (key : Value) : Step :=
  match key, key.integer? with
  | .text s, _ => .key s
  | _, some i => if isWord i then .index i else .key (keyName key)
  | _, none => .key (keyName key)

inductive Complaint
  | textType
  | textEncoding
  | textTooShort
  | numberType
  | numberText
  | integerType
  | integerText
  | integerSize
  | integerFraction
  | integerInfinite
  | flagType
  | flagText
  | notGreater (bound : Int)
  | less (bound : Int)
  | choice (names : List String)
  | listType
  | mappingType
  | recordType (name : String)
  | missing
  | unknownKey
  | keyType
  | refused (reason : String)
  deriving DecidableEq

namespace Complaint

def kind : Complaint → String
  | textType => "string_type"
  | textEncoding => "string_unicode"
  | textTooShort => "string_too_short"
  | numberType => "float_type"
  | numberText => "float_parsing"
  | integerType => "int_type"
  | integerText => "int_parsing"
  | integerSize => "int_parsing_size"
  | integerFraction => "int_from_float"
  | integerInfinite => "finite_number"
  | flagType => "bool_type"
  | flagText => "bool_parsing"
  | notGreater _ => "greater_than"
  | less _ => "greater_than_equal"
  | choice _ => "literal_error"
  | listType => "list_type"
  | mappingType => "dict_type"
  | recordType _ => "model_type"
  | missing => "missing"
  | unknownKey => "extra_forbidden"
  | keyType => "invalid_key"
  | refused _ => "value_error"

def alternatives (names : List String) : String :=
  let quoted := names.map Text.quote
  match quoted.reverse with
  | last :: before@(_ :: _) => String.intercalate ", " before.reverse ++ " or " ++ last
  | _ => String.intercalate ", " quoted

def message : Complaint → String
  | textType => "Input should be a valid string"
  | textEncoding => "Input should be a valid string, unable to parse raw data as a unicode string"
  | textTooShort => "String should have at least 1 character"
  | numberType => "Input should be a valid number"
  | numberText => "Input should be a valid number, unable to parse string as a number"
  | integerType => "Input should be a valid integer"
  | integerText => "Input should be a valid integer, unable to parse string as an integer"
  | integerSize => "Unable to parse input string as an integer, exceeded maximum size"
  | integerFraction => "Input should be a valid integer, got a number with a fractional part"
  | integerInfinite => "Input should be a finite number"
  | flagType => "Input should be a valid boolean"
  | flagText => "Input should be a valid boolean, unable to interpret input"
  | notGreater bound => "Input should be greater than " ++ Text.integerText bound
  | less bound => "Input should be greater than or equal to " ++ Text.integerText bound
  | choice names => "Input should be " ++ alternatives names
  | listType => "Input should be a valid list"
  | mappingType => "Input should be a valid dictionary"
  | recordType name => "Input should be a valid dictionary or instance of " ++ name
  | missing => "Field required"
  | unknownKey => "Extra inputs are not permitted"
  | keyType => "Keys should be strings"
  | refused reason => "Value error, " ++ reason

end Complaint

structure Problem where
  place : List Step
  complaint : Complaint
  deriving DecidableEq

def Step.text : Step → String
  | key name => name
  | index i => Text.integerText i

def Problem.placeText (p : Problem) : String := String.intercalate "." (p.place.map Step.text)

/-- A checked value, or everything that is wrong with it. -/
abbrev Check (α : Type) := Except (List Problem) α

namespace Check

variable {α β : Type}

def complain (complaint : Complaint) : Check α := throw [⟨[], complaint⟩]

def within (step : Step) (check : Check α) : Check α :=
  check.mapError (·.map fun p => { p with place := step :: p.place })

/-- Both checks are made, whatever the first one finds. -/
def also (f : Check (α → β)) (x : Check α) : Check β :=
  match f, x with
  | .ok f, .ok a => .ok (f a)
  | .error problems, .error more => .error (problems ++ more)
  | .error problems, .ok _ => .error problems
  | .ok _, .error problems => .error problems

def gather : List (Check α) → Check (List α)
  | [] => .ok []
  | check :: rest => also (check.map List.cons) (gather rest)

end Check

end CaveMap.SettingsFile
