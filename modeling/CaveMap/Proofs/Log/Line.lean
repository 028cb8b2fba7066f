import CaveMap.Proofs.Log.Context
import CaveMap.Proofs.Log.Json
import CaveMap.Proofs.Logged

namespace CaveMap.Log

open Context (Call)

def Record.fields (record : Record) (process : Nat) (moment : Moment) (message : String) : List (String × Value) :=
  [("t", .text moment.text), ("lvl", .text (rankName record.rank)), ("name", .text record.channel),
    ("pid", .int process), ("msg", .text message)]

def Record.keys : List String := ["t", "lvl", "name", "pid", "msg"]

variable {process : Nat} {context : Context} {record : Record} {moment : Moment} {message : String}

theorem Record.keys_fields : (record.fields process moment message).map (·.1) = Record.keys := rfl

theorem Record.plain_fields (hprocess : Text.isWritable process) :
    ∀ field ∈ record.fields process moment message, Json.Plain field.2 := by
  simp only [Record.fields, List.forall_mem_cons]
  exact ⟨.text _, .text _, .text _, .int hprocess, .text _, by simp⟩

theorem Record.level_eq (hrank : Text.isWritable record.rank) : record.level = .ok (rankName record.rank) :=
  if_pos hrank

/-- The context comes behind the fields of a record, unless it has one of their keys. -/
theorem jsonLine_eq (hrank : Text.isWritable record.rank) (hmoment : momentOf record.time = .ok moment)
    (hmessage : record.message = .ok message) (hfailure : record.failure = none) (hkeys : ∀ field ∈ context.entries, field.1 ∉ Record.keys) :
    jsonLine process context record =
      (Json.object (record.fields process moment message ++ context.entries)).mapError .json := by
  have hown : (Table.ofList (record.fields process moment message)).entries = record.fields process moment message :=
    Table.entries_ofList (by rw [Record.keys_fields]; decide)
  have hpushed : (Context.push (Table.ofList (record.fields process moment message)) context.entries).entries =
      record.fields process moment message ++ context.entries := by
    rw [Context.push, Table.entries_foldl_insert context.nodup, hown]
    rw [Table.keys, hown]
    exact hkeys
  rw [jsonLine, Record.level_eq hrank, hmoment, hmessage, hfailure, ← hpushed]
  rfl

def renewals : List Call :=
  [.push [("app", .text "therion"), ("cave", .text "Hačavská"), ("scale", .int (-200))], .pop (some ["app", "depth"]),
    .push [("cave", .text "\"Ha\\čava\"\n😀"), ("dry", .bool true), ("app", .null)]]

def announcement : Record :=
  { rank := 20, channel := "cave.map", template := "drawn %s\t%d%%", arguments := [.text "🦇\x00", .int 70],
    time := Binary64.ofInt 1700000000 }

/-- The cave stays in front of the scale; the app comes back behind them. -/
example : (Context.after renewals).keys = ["cave", "scale", "dry", "app"] := by decide

end CaveMap.Log
