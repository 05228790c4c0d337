import Phrasebook.Bundle
import Phrasebook.Call
import Phrasebook.Candidate
import Phrasebook.Command.Basic
import Phrasebook.Command.Run
import Phrasebook.Command.Switch
import Phrasebook.Diff
import Phrasebook.Edit
import Phrasebook.EnvFile
import Phrasebook.Glob
import Phrasebook.Import
import Phrasebook.Key.Suggestion
import Phrasebook.Key.Word
import Phrasebook.Main
import Phrasebook.Patch
import Phrasebook.Path
import Phrasebook.Project.Failure
import Phrasebook.Project.Files
import Phrasebook.Project.Ignore
import Phrasebook.Project.Pool
import Phrasebook.Project.Scan
import Phrasebook.Proofs.Bundle
import Phrasebook.Proofs.CallHole
import Phrasebook.Proofs.CalleeName
import Phrasebook.Proofs.CandidateOrder
import Phrasebook.Proofs.CharacterReference
import Phrasebook.Proofs.CodePoint
import Phrasebook.Proofs.CommonBlock
import Phrasebook.Proofs.Construct
import Phrasebook.Proofs.Decoding
import Phrasebook.Proofs.Derivation
import Phrasebook.Proofs.DiffPatch
import Phrasebook.Proofs.DiffReader
import Phrasebook.Proofs.Directive
import Phrasebook.Proofs.DryRun
import Phrasebook.Proofs.EditScript
import Phrasebook.Proofs.EditSequence
import Phrasebook.Proofs.ElementExchange
import Phrasebook.Proofs.ElementText
import Phrasebook.Proofs.ElementTree
import Phrasebook.Proofs.EndedLine
import Phrasebook.Proofs.Escape
import Phrasebook.Proofs.Exchange
import Phrasebook.Proofs.ExitCode
import Phrasebook.Proofs.FileExchange
import Phrasebook.Proofs.FileHistory
import Phrasebook.Proofs.FileNamespace
import Phrasebook.Proofs.FileSet
import Phrasebook.Proofs.FileStore
import Phrasebook.Proofs.Finding
import Phrasebook.Proofs.Frame
import Phrasebook.Proofs.Identity
import Phrasebook.Proofs.ImportEdit
import Phrasebook.Proofs.ImportPlace
import Phrasebook.Proofs.Layout
import Phrasebook.Proofs.Lexer
import Phrasebook.Proofs.Line
import Phrasebook.Proofs.LineColumn
import Phrasebook.Proofs.LineEnd
import Phrasebook.Proofs.Locate
import Phrasebook.Proofs.Nesting
import Phrasebook.Proofs.Origin
import Phrasebook.Proofs.Outcome
import Phrasebook.Proofs.Part
import Phrasebook.Proofs.PatchFault
import Phrasebook.Proofs.Place
import Phrasebook.Proofs.Precedence
import Phrasebook.Proofs.Prologue
import Phrasebook.Proofs.Quotation
import Phrasebook.Proofs.Reading
import Phrasebook.Proofs.Reapply
import Phrasebook.Proofs.Recency
import Phrasebook.Proofs.Rescan
import Phrasebook.Proofs.RunContent
import Phrasebook.Proofs.ScanReport
import Phrasebook.Proofs.Scannable
import Phrasebook.Proofs.ShortHash
import Phrasebook.Proofs.Sketch
import Phrasebook.Proofs.Slug
import Phrasebook.Proofs.Spelling
import Phrasebook.Proofs.Splice
import Phrasebook.Proofs.Subject
import Phrasebook.Proofs.Symbol
import Phrasebook.Proofs.TextBlock
import Phrasebook.Proofs.TextPartition
import Phrasebook.Proofs.TextRun
import Phrasebook.Proofs.TokenText
import Phrasebook.Proofs.Tree
import Phrasebook.Proofs.Utf8
import Phrasebook.Proofs.Word
import Phrasebook.Proofs.WordPattern
import Phrasebook.Proofs.WrappedMarkup
import Phrasebook.Proofs.Wrapping
import Phrasebook.Proofs.WrittenString
import Phrasebook.Settings.Basic
import Phrasebook.Settings.Cache
import Phrasebook.Settings.Layers
import Phrasebook.Settings.Validation
import Phrasebook.Source.Callee
import Phrasebook.Source.Document
import Phrasebook.Source.Goal
import Phrasebook.Source.Grammar
import Phrasebook.Source.Grammar.Expression
import Phrasebook.Source.Grammar.Markup
import Phrasebook.Source.Grammar.Statement
import Phrasebook.Source.Grammar.Type
import Phrasebook.Source.Lexeme
import Phrasebook.Source.Lexer
import Phrasebook.Source.Literal
import Phrasebook.Source.Node
import Phrasebook.Source.Position
import Phrasebook.Source.Rule
import Phrasebook.Source.Shape
import Phrasebook.Source.Token
import Phrasebook.Source.Tree
import Phrasebook.Store
import Phrasebook.Table
import Phrasebook.Target
import Phrasebook.Text.CharacterReference
import Phrasebook.Text.CharacterReference.Names
import Phrasebook.Text.CodePoint
import Phrasebook.Text.Digest
import Phrasebook.Text.Digit
import Phrasebook.Text.Escape
import Phrasebook.Text.Line
import Phrasebook.Text.LowerCase
import Phrasebook.Text.LowerCase.Table
import Phrasebook.Text.Printable
import Phrasebook.Text.Quoted
import Phrasebook.Text.Space
import Phrasebook.Text.Utf8
import Phrasebook.Tree
import Phrasebook.Workspace
import Phrasebook.Yaml.Cursor
import Phrasebook.Yaml.Moment
import Phrasebook.Yaml.Node
import Phrasebook.Yaml.Number
import Phrasebook.Yaml.Scalar
import Phrasebook.Yaml.Token
import Phrasebook.Yaml.Value
