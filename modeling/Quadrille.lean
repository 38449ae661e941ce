import Quadrille.Address
import Quadrille.Archive.Read
import Quadrille.Archive.Write
import Quadrille.Cell
import Quadrille.Column
import Quadrille.CommandLine.Options
import Quadrille.CommandLine.Run
import Quadrille.CommandLine.SettingsFile
import Quadrille.Document.Basic
import Quadrille.Document.File
import Quadrille.Document.History
import Quadrille.Files.Disk
import Quadrille.Files.Store
import Quadrille.Formula.Operator
import Quadrille.Formula.Postfix
import Quadrille.Formula.Token
import Quadrille.Formula.Tree
import Quadrille.Markup.Attribute
import Quadrille.Markup.Entity
import Quadrille.Markup.Error
import Quadrille.Markup.Event
import Quadrille.Number.Binary64
import Quadrille.Number.Count
import Quadrille.Number.Decimal
import Quadrille.Number.Digit
import Quadrille.Number.Display
import Quadrille.Sheet.Basic
import Quadrille.Sheet.Journal
import Quadrille.Sheet.Links
import Quadrille.Sheet.Recalculation
import Quadrille.Sheet.Shape
import Quadrille.Sheet.Table
import Quadrille.Sheet.Walk
import Quadrille.Text.Blank
import Quadrille.Text.Quoted
import Quadrille.Text.Verbatim
import Quadrille.Main
import Quadrille.Proofs.Sheet.Links
import Quadrille.Proofs.Traversal
import Quadrille.Proofs.FirstMention
import Quadrille.Proofs.Formula.Variables
import Quadrille.Proofs.Sheet.References
import Quadrille.Proofs.Sheet.Dependence
import Quadrille.Proofs.Sheet.Equations
import Quadrille.Proofs.Sheet.Session
import Quadrille.Proofs.Sheet.TaskStack
import Quadrille.Proofs.Sheet.Progress
import Quadrille.Proofs.Sheet.Walk
import Quadrille.Proofs.Sheet.Cascade
import Quadrille.Proofs.Sheet.Edits
import Quadrille.Proofs.Sheet.RowMajor
import Quadrille.Proofs.Document.Operations
import Quadrille.Proofs.Document.Run
import Quadrille.Proofs.Document.Cells
import Quadrille.Proofs.Document.Numbers
import Quadrille.Proofs.Document.Independence
import Quadrille.Proofs.Document.Timeline
import Quadrille.Proofs.Document.Reversal
import Quadrille.Proofs.Sheet.Changes
import Quadrille.Proofs.Document.Changes
import Quadrille.Proofs.Number.Rounding
import Quadrille.Proofs.Number.SignificantDigits
import Quadrille.Proofs.Number.Layout
import Quadrille.Proofs.Number.Display
import Quadrille.Proofs.Number.Notation
import Quadrille.Proofs.Address
import Quadrille.Proofs.Column
import Quadrille.Proofs.Markup.Entities
import Quadrille.Proofs.Markup.Elements
import Quadrille.Proofs.Markup.Asides
import Quadrille.Proofs.Archive.Pieces
import Quadrille.Proofs.Archive.Layout
import Quadrille.Proofs.Archive.RoundTrip
import Quadrille.Proofs.Archive.Truncation
import Quadrille.Proofs.Document.RoundTrip
import Quadrille.Proofs.Formula.Derivation
import Quadrille.Proofs.Formula.Reading
import Quadrille.Proofs.Formula.Malformed
import Quadrille.Proofs.Formula.Postorder
import Quadrille.Proofs.Formula.Conservation
import Quadrille.Proofs.Formula.Splitting
import Quadrille.Proofs.Document.InPlace
import Quadrille.Proofs.Document.Coloring
import Quadrille.Proofs.Document.Links
import Quadrille.Proofs.Document.Loading
import Quadrille.Proofs.Sheet.Warnings
import Quadrille.Proofs.Document.Capacity
import Quadrille.Proofs.Document.Saving
import Quadrille.Proofs.Document.Grid
import Quadrille.Proofs.Sheet.Cache
import Quadrille.Proofs.Document.Cache
import Quadrille.Proofs.Sheet.Agenda
import Quadrille.Proofs.Sheet.Pending
import Quadrille.Proofs.Sheet.Ledger
import Quadrille.Proofs.Document.Recalculation
import Quadrille.Proofs.Files.Disk
import Quadrille.Proofs.CommandLine.Values
import Quadrille.Proofs.CommandLine.Spelling
import Quadrille.Proofs.CommandLine.Settings
import Quadrille.Proofs.CommandLine.Items
import Quadrille.Proofs.CommandLine.Run
import Quadrille.Proofs.CommandLine.Failure
