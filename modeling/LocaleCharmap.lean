import LocaleCharmap.Text.Blank
import LocaleCharmap.Text.Digits
import LocaleCharmap.Text.Escaped
import LocaleCharmap.Text.Quoted
import LocaleCharmap.Text.Utf8
import LocaleCharmap.Text.Layout
import LocaleCharmap.Source.Symbol
import LocaleCharmap.Source.Range
import LocaleCharmap.Source.Encoding
import LocaleCharmap.Source.Line
import LocaleCharmap.Charmap.Basic
import LocaleCharmap.Charmap.Portable
import LocaleCharmap.Charmap.Json
import LocaleCharmap.Charmap.Parse
import LocaleCharmap.Fault
import LocaleCharmap.Diagnostic
import LocaleCharmap.Json
import LocaleCharmap.Table.Basic
import LocaleCharmap.Table.Binary
import LocaleCharmap.Table.CSource
import LocaleCharmap.Render
import LocaleCharmap.Command.Similar
import LocaleCharmap.Command.Arguments
import LocaleCharmap.Command.Run
import LocaleCharmap.Main
import LocaleCharmap.Proofs.Charmap
import LocaleCharmap.Proofs.LineSteps
import LocaleCharmap.Proofs.Reading
import LocaleCharmap.Proofs.Table
import LocaleCharmap.Proofs.Utf8
import LocaleCharmap.Proofs.Binary
import LocaleCharmap.Proofs.Names
import LocaleCharmap.Proofs.Lookup
import LocaleCharmap.Proofs.Build
import LocaleCharmap.Proofs.Store
import LocaleCharmap.Proofs.Strictness
import LocaleCharmap.Proofs.LineEndings
import LocaleCharmap.Proofs.Unpacking
import LocaleCharmap.Proofs.LinearScan
import LocaleCharmap.Proofs.Ranges
import LocaleCharmap.Proofs.LineGroups
import LocaleCharmap.Proofs.WidthSections
import LocaleCharmap.Proofs.Decoding
import LocaleCharmap.Proofs.Expansion
import LocaleCharmap.Proofs.Symbols
import LocaleCharmap.Proofs.WidthRuns
import LocaleCharmap.Proofs.ByteEscapes
import LocaleCharmap.Proofs.Identifiers
import LocaleCharmap.Proofs.SizeCheck
import LocaleCharmap.Proofs.PackedLayout
import LocaleCharmap.Proofs.SharedEncodings
import LocaleCharmap.Proofs.IndentedLines
