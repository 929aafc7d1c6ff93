import Graft.Code.Edits
import Graft.Code.Hash
import Graft.Code.Layout
import Graft.Code.Lexical
import Graft.Code.Lines
import Graft.Code.Stamp
import Graft.Code.Style
import Graft.Code.Template
import Graft.Command.Arguments
import Graft.Command.Listing
import Graft.Command.Report
import Graft.Command.Run
import Graft.Entity.Arguments
import Graft.Entity.Basic
import Graft.Entity.Marks
import Graft.Entity.Order
import Graft.Entity.Reading
import Graft.Entity.Report
import Graft.Entity.Vocabulary
import Graft.Files.Glob
import Graft.Files.Ignore
import Graft.Files.Path
import Graft.Files.Tree
import Graft.Files.Walk
import Graft.Java.Identifier
import Graft.Java.Literal
import Graft.Java.Phrase
import Graft.Java.Scope
import Graft.Java.Source
import Graft.Java.Syntax
import Graft.Java.Token
import Graft.Java.Tree
import Graft.Java.TypeExpr
import Graft.Main
import Graft.Merge.Member
import Graft.Merge.Pass
import Graft.Merge.Session
import Graft.Merge.Signature
import Graft.Merge.Writing
import Graft.Output.Decimal
import Graft.Output.Json
import Graft.Output.Outline
import Graft.Output.Value
import Graft.Proofs.Code.Edits
import Graft.Proofs.Code.Layout
import Graft.Proofs.Code.Lexical
import Graft.Proofs.Code.Lines
import Graft.Proofs.Code.Overlap
import Graft.Proofs.Code.Relayout
import Graft.Proofs.Code.Stamp
import Graft.Proofs.Entity.Members
import Graft.Proofs.Entity.Tampering
import Graft.Proofs.Merge.Accounts
import Graft.Proofs.Merge.CallOrder
import Graft.Proofs.Merge.Changes
import Graft.Proofs.Merge.Conflicts
import Graft.Proofs.Merge.Fates
import Graft.Proofs.Merge.HandWritten
import Graft.Proofs.Merge.Ledger
import Graft.Proofs.Merge.Loads
import Graft.Proofs.Merge.Ownership
import Graft.Proofs.Merge.Parts
import Graft.Proofs.Merge.Pass
import Graft.Proofs.Merge.Reaching
import Graft.Proofs.Merge.Settles
import Graft.Proofs.Merge.Signature
import Graft.Proofs.Merge.Slots
import Graft.Proofs.Merge.Spans
import Graft.Proofs.Merge.TakeOver
import Graft.Proofs.Text.Slice
import Graft.Proofs.Text.Trim
import Graft.Schema.Relations
import Graft.Settings.Basic
import Graft.Settings.Entry
import Graft.Settings.Layers
import Graft.Settings.Reading
import Graft.Settings.Toml
import Graft.Settings.VariableFile
import Graft.Settings.Variables
import Graft.SourceError
import Graft.Text.Basic
import Graft.Text.Class
import Graft.Text.Order
import Graft.Text.Table.Alphabetic
import Graft.Text.Table.IdentifierPart
import Graft.Text.Table.IdentifierStart
import Graft.Text.Table.Lowercase
import Graft.Text.Table.Numeric
import Graft.Text.Units
import Graft.Proofs.Schema.ForeignKeys
import Graft.Proofs.Schema.Completion
import Graft.Proofs.Schema.Closed
import Graft.Proofs.Schema.Grouping
import Graft.Proofs.Schema.Order
import Graft.Proofs.Command.Drivers
import Graft.Proofs.Code.AtOnce
import Graft.Proofs.Entity.Locality
import Graft.Proofs.Entity.Entries
import Graft.Proofs.Code.LiteralLines
import Graft.Proofs.Code.LeadingComments
import Graft.Proofs.Code.Boundaries
import Graft.Proofs.Code.Literals
import Graft.Proofs.Merge.LiteralChanges
import Graft.Proofs.Merge.Overloads
import Graft.Proofs.Merge.TypeMatching
import Graft.Proofs.Code.Contents
import Graft.Proofs.Code.WholeLines
import Graft.Proofs.Merge.Turns
import Graft.Proofs.Merge.Outcome
import Graft.Proofs.Merge.Imports
import Graft.Proofs.Merge.Interleaving
import Graft.Proofs.Merge.Placement
import Graft.Proofs.Merge.UserLines
import Graft.Proofs.Java.Context
import Graft.Proofs.Java.Spelling
import Graft.Proofs.Java.Resolution
import Graft.Proofs.Entity.InnerClasses
import Graft.Proofs.Java.Lexemes
import Graft.Proofs.Java.Brackets
import Graft.Proofs.Java.Items
import Graft.Proofs.Java.Annotations
import Graft.Proofs.Java.Fronts
import Graft.Proofs.Merge.Markers
import Graft.Proofs.Code.Stability
import Graft.Proofs.Code.Detection
import Graft.Proofs.Code.Template
import Graft.Proofs.Entity.QualifiedMarks
import Graft.Proofs.Text.Words
import Graft.Proofs.Text.Units
import Graft.Proofs.Entity.Orders
import Graft.Proofs.Merge.Lookup
import Graft.Proofs.Java.Numbers
import Graft.Proofs.Java.Integers
import Graft.Proofs.Java.Strings
import Graft.Proofs.Code.Braces
import Graft.Proofs.Code.Hash
import Graft.Proofs.Java.Nesting
import Graft.Proofs.Java.Borders
import Graft.Proofs.Java.Pieces
import Graft.Proofs.Java.Places
import Graft.Proofs.Java.Declarations
import Graft.Proofs.Java.Moving
import Graft.Proofs.Java.Alike
import Graft.Proofs.Java.Bodies
import Graft.Proofs.Merge.Finding
import Graft.Proofs.Merge.Views
import Graft.Proofs.Merge.Seams
import Graft.Proofs.Merge.FoundAgain
import Graft.Proofs.Merge.StandsAlone
import Graft.Proofs.Merge.MemberSeams
import Graft.Proofs.Merge.AlongSeams
import Graft.Proofs.Merge.ReadAgain
