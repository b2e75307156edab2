import TokenIntake.Cli.Arguments
import TokenIntake.Cli.FieldKind
import TokenIntake.Cli.Run
import TokenIntake.Config.FileStore
import TokenIntake.Config.Path
import TokenIntake.Config.Settings
import TokenIntake.Field.Address
import TokenIntake.Field.Amount
import TokenIntake.Field.Digest
import TokenIntake.Field.Message
import TokenIntake.Field.Rejection
import TokenIntake.Field.Text
import TokenIntake.Field.Written
import TokenIntake.Json.Basic
import TokenIntake.Json.Fault
import TokenIntake.Json.Printer
import TokenIntake.Json.Reader
import TokenIntake.Json.Scan
import TokenIntake.Json.Skip
import TokenIntake.Log.Event
import TokenIntake.Log.Filter
import TokenIntake.Log.Level
import TokenIntake.Log.Setup
import TokenIntake.Main
import TokenIntake.Number.Binary64
import TokenIntake.Number.Shortest
import TokenIntake.Number.Word
import TokenIntake.Proofs.Addresses
import TokenIntake.Proofs.Bodies
import TokenIntake.Proofs.Cleaning
import TokenIntake.Proofs.CommandLines
import TokenIntake.Proofs.ControlFree
import TokenIntake.Proofs.Decimals
import TokenIntake.Proofs.Digests
import TokenIntake.Proofs.Doubles
import TokenIntake.Proofs.EntryPoints
import TokenIntake.Proofs.ErrorTexts
import TokenIntake.Proofs.EventLog
import TokenIntake.Proofs.Faults
import TokenIntake.Proofs.FieldRules
import TokenIntake.Proofs.Filters
import TokenIntake.Proofs.Fits
import TokenIntake.Proofs.Formats
import TokenIntake.Proofs.Grammar
import TokenIntake.Proofs.Items
import TokenIntake.Proofs.Layouts
import TokenIntake.Proofs.Lengths
import TokenIntake.Proofs.Listings
import TokenIntake.Proofs.LogSettings
import TokenIntake.Proofs.Members
import TokenIntake.Proofs.MintSizes
import TokenIntake.Proofs.Misfits
import TokenIntake.Proofs.Names
import TokenIntake.Proofs.Numbers
import TokenIntake.Proofs.Numerals
import TokenIntake.Proofs.Objects
import TokenIntake.Proofs.OutputLines
import TokenIntake.Proofs.PageTexts
import TokenIntake.Proofs.Pages
import TokenIntake.Proofs.Parameters
import TokenIntake.Proofs.Payloads
import TokenIntake.Proofs.Quantities
import TokenIntake.Proofs.Reading
import TokenIntake.Proofs.RecordArrays
import TokenIntake.Proofs.Records
import TokenIntake.Proofs.Repeats
import TokenIntake.Proofs.Reports
import TokenIntake.Proofs.Responses
import TokenIntake.Proofs.Review
import TokenIntake.Proofs.Runs
import TokenIntake.Proofs.Scanning
import TokenIntake.Proofs.Sessions
import TokenIntake.Proofs.Skipping
import TokenIntake.Proofs.Steps
import TokenIntake.Proofs.Strings
import TokenIntake.Proofs.TagLists
import TokenIntake.Proofs.TagValues
import TokenIntake.Proofs.TomlReading
import TokenIntake.Proofs.Truncation
import TokenIntake.Proofs.Utf8
import TokenIntake.Proofs.Verdicts
import TokenIntake.Proofs.Walks
import TokenIntake.Proofs.Written
import TokenIntake.Query.Filter
import TokenIntake.Query.Pagination
import TokenIntake.Query.Sanitize
import TokenIntake.Query.Written
import TokenIntake.Request.Parse
import TokenIntake.Request.Payload
import TokenIntake.Request.Review
import TokenIntake.Rpc.Error
import TokenIntake.Rpc.FieldReport
import TokenIntake.Rpc.Params
import TokenIntake.Rpc.Written
import TokenIntake.Schema.Basic
import TokenIntake.Schema.OfJson
import TokenIntake.Schema.OfToml
import TokenIntake.Schema.Scan
import TokenIntake.Schema.ToJson
import TokenIntake.Schema.Variant
import TokenIntake.Text.Blank
import TokenIntake.Text.Hex
import TokenIntake.Text.Hidden
import TokenIntake.Text.Numeral
import TokenIntake.Text.Parts
import TokenIntake.Text.Quoted
import TokenIntake.Text.Terminal
import TokenIntake.Text.Utf8
import TokenIntake.Toml.Basic
import TokenIntake.Toml.Document
import TokenIntake.Toml.Lexer
import TokenIntake.Toml.Scalar
import TokenIntake.Toml.Text
import TokenIntake.Toml.Value
