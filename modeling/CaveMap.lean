import CaveMap.Main
import CaveMap.Proofs.CommandLine.Delivery
import CaveMap.Proofs.CommandLine.DryRun
import CaveMap.Proofs.CommandLine.Kinds
import CaveMap.Proofs.CommandLine.Overrides
import CaveMap.Proofs.Document.Braces
import CaveMap.Proofs.Document.Config
import CaveMap.Proofs.Document.Directives
import CaveMap.Proofs.Document.Equal
import CaveMap.Proofs.Document.Exports
import CaveMap.Proofs.Document.Gaps
import CaveMap.Proofs.Document.Legible
import CaveMap.Proofs.Session.Invariant
import CaveMap.Proofs.Session.LastWord
import CaveMap.Proofs.Session.Renaming
import CaveMap.Proofs.Session.Suggestions
import CaveMap.Proofs.Session.Uploading
import CaveMap.Proofs.SettingsFile.Colors
import CaveMap.Proofs.SettingsFile.Commands
import CaveMap.Proofs.SettingsFile.Failures
import CaveMap.Proofs.SettingsFile.ModuleIds
import CaveMap.Proofs.SettingsFile.Numbers
import CaveMap.Proofs.SettingsFile.Precedence
import CaveMap.Proofs.SettingsFile.Reload
import CaveMap.Proofs.Files.Atomic
import CaveMap.Proofs.Files.Whole
import CaveMap.Proofs.Log.Line
import CaveMap.Proofs.Log.SetUp
import CaveMap.Proofs.Number.Digits
import CaveMap.Proofs.Number.Exact
import CaveMap.Proofs.Number.Notation
import CaveMap.Proofs.Number.Plain
import CaveMap.Proofs.SettingsFile.Stored
import CaveMap.Proofs.Text.Gaps
import CaveMap.Proofs.Yaml.Characters
import CaveMap.Proofs.Yaml.Composing
import CaveMap.Proofs.Yaml.Numbers
import CaveMap.Proofs.Yaml.Reading
import CaveMap.Proofs.Yaml.RoundTrip
