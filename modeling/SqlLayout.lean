import SqlLayout.Clause
import SqlLayout.CommandLine.Argument
import SqlLayout.CommandLine.Arguments
import SqlLayout.CommandLine.Audit
import SqlLayout.CommandLine.Flag
import SqlLayout.CommandLine.Run
import SqlLayout.CommandLine.Session
import SqlLayout.CommandLine.Usage
import SqlLayout.Comparison.Lexer
import SqlLayout.Comparison.Tokenizer
import SqlLayout.Config.Blocks
import SqlLayout.Config.Document
import SqlLayout.Config.Interpolation
import SqlLayout.Config.Line
import SqlLayout.Config.Load
import SqlLayout.Files.Route
import SqlLayout.Files.Tree
import SqlLayout.Grouping.Gathering
import SqlLayout.Grouping.Joining
import SqlLayout.Grouping.Node
import SqlLayout.Grouping.Pairing
import SqlLayout.Grouping.Steps
import SqlLayout.Host
import SqlLayout.Keyword
import SqlLayout.Layout
import SqlLayout.Lint
import SqlLayout.Main
import SqlLayout.Number.Double
import SqlLayout.Number.Integer
import SqlLayout.Number.Shortest
import SqlLayout.Options
import SqlLayout.Options.Schema
import SqlLayout.Options.Validation
import SqlLayout.Phrase
import SqlLayout.Piece
import SqlLayout.Proofs.AllowedValues
import SqlLayout.Proofs.AuditFrame
import SqlLayout.Proofs.AuditStages
import SqlLayout.Proofs.BlockReading
import SqlLayout.Proofs.Boundaries
import SqlLayout.Proofs.CaseBlindness
import SqlLayout.Proofs.CasedTokens
import SqlLayout.Proofs.Characters
import SqlLayout.Proofs.CheckFlag
import SqlLayout.Proofs.ClosedCalls
import SqlLayout.Proofs.CommaGaps
import SqlLayout.Proofs.CountValues
import SqlLayout.Proofs.Cutting
import SqlLayout.Proofs.DocumentReading
import SqlLayout.Proofs.Edges
import SqlLayout.Proofs.Encoding
import SqlLayout.Proofs.Flowing
import SqlLayout.Proofs.Footprint
import SqlLayout.Proofs.FrontEnds
import SqlLayout.Proofs.Gaps
import SqlLayout.Proofs.JoinLines
import SqlLayout.Proofs.JoinWords
import SqlLayout.Proofs.LaidOutFiles
import SqlLayout.Proofs.LetterTokens
import SqlLayout.Proofs.LexerTwins
import SqlLayout.Proofs.LineEdges
import SqlLayout.Proofs.LineEnds
import SqlLayout.Proofs.LineLayout
import SqlLayout.Proofs.LoadedOptions
import SqlLayout.Proofs.Lookalikes
import SqlLayout.Proofs.LooseTokens
import SqlLayout.Proofs.MarkTokens
import SqlLayout.Proofs.Matching
import SqlLayout.Proofs.Misconfiguration
import SqlLayout.Proofs.Mismatches
import SqlLayout.Proofs.NamedValues
import SqlLayout.Proofs.Neatness
import SqlLayout.Proofs.NumeralTexts
import SqlLayout.Proofs.Numerals
import SqlLayout.Proofs.Occurrences
import SqlLayout.Proofs.OwnOptions
import SqlLayout.Proofs.Places
import SqlLayout.Proofs.PointwiseValidation
import SqlLayout.Proofs.Precedence
import SqlLayout.Proofs.Recased
import SqlLayout.Proofs.RecasedTokens
import SqlLayout.Proofs.Recasing
import SqlLayout.Proofs.Refilling
import SqlLayout.Proofs.Reformatting
import SqlLayout.Proofs.Rerunning
import SqlLayout.Proofs.Respacing
import SqlLayout.Proofs.Restyling
import SqlLayout.Proofs.Retelling
import SqlLayout.Proofs.SettingFiles
import SqlLayout.Proofs.SettingLines
import SqlLayout.Proofs.SettingRows
import SqlLayout.Proofs.Settling
import SqlLayout.Proofs.Shapes
import SqlLayout.Proofs.SpacingTable
import SqlLayout.Proofs.Spots
import SqlLayout.Proofs.StableClauses
import SqlLayout.Proofs.StandardInput
import SqlLayout.Proofs.Strokes
import SqlLayout.Proofs.StyleFlags
import SqlLayout.Proofs.TreeFrame
import SqlLayout.Proofs.TwinSpots
import SqlLayout.Proofs.TwinTokens
import SqlLayout.Proofs.Twins
import SqlLayout.Proofs.UnspacedTexts
import SqlLayout.Proofs.WordTexts
import SqlLayout.Proofs.WordTokens
import SqlLayout.Proofs.WrittenValues
import SqlLayout.Setting
import SqlLayout.Spacing
import SqlLayout.Text.Basic
import SqlLayout.Text.Case
import SqlLayout.Text.Quoted
import SqlLayout.Text.Utf8
import SqlLayout.Text.Word
import SqlLayout.Token.Comparison
import SqlLayout.Token.Kind
import SqlLayout.Token.Lexer
import SqlLayout.Token.Pattern
import SqlLayout.Token.Rules
import SqlLayout.Token.Statement
import SqlLayout.Token.Vocabulary
