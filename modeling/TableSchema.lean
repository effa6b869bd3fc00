import TableSchema.Text.CaseMap
import TableSchema.Text.Lines
import TableSchema.Identifier
import TableSchema.Section
import TableSchema.Project.Build
import TableSchema.Proofs.Registry.Lookup
import TableSchema.Proofs.Table.Columns
import TableSchema.Proofs.Definition.Growth
import TableSchema.Proofs.Registry.Linking
import TableSchema.Proofs.Definition.Declared
import TableSchema.Proofs.Registry.Reachable
import TableSchema.Proofs.Registry.Building
import TableSchema.Proofs.Schema.Finish
import TableSchema.Proofs.Link.Order
import TableSchema.Proofs.Schema.Integrity
import TableSchema.Proofs.Schema.Rearranged
import TableSchema.Proofs.Schema.FileOrder
import TableSchema.Proofs.Schema.ColumnNames
import TableSchema.Proofs.Definition.Shown
import TableSchema.Proofs.Definition.Declaration
import TableSchema.Proofs.Definition.WrittenLines
import TableSchema.Proofs.Definition.RoundTrip
import TableSchema.Proofs.Definition.Printing
import TableSchema.Proofs.Schema.Cycle
import TableSchema.Proofs.Schema.LinkKeys
import TableSchema.Proofs.Schema.SetUp
import TableSchema.Proofs.Schema.WellFormed
import TableSchema.Proofs.Schema.Ordinary
import TableSchema.Proofs.Schema.Catalogue
import TableSchema.Proofs.Definition.Lines
import TableSchema.Proofs.Schema.Declarations
import TableSchema.Proofs.Registry.ReadEffect
import TableSchema.Proofs.Project.Reread
import TableSchema.Proofs.Schema.LinkedOnce
import TableSchema.Proofs.Schema.Extension
import TableSchema.Proofs.Registry.ShownLine
import TableSchema.Proofs.Token.Separated
import TableSchema.Proofs.Token.Covered
import TableSchema.Proofs.Registry.Front
import TableSchema.Proofs.Registry.Located
import TableSchema.Proofs.Schema.Indexes
import TableSchema.Proofs.Link.Least
import TableSchema.Proofs.Registry.LinkEffect
import TableSchema.Proofs.Schema.ConstraintNames
import TableSchema.Proofs.Definition.ForeignKeyForm
import TableSchema.Proofs.Definition.FieldLength
import TableSchema.Proofs.Definition.FieldForm
import TableSchema.Proofs.Registry.LinkFailure
import TableSchema.Proofs.Identifier.Capitals
import TableSchema.Proofs.Registry.LinkNames
import TableSchema.Proofs.Definition.IndexForm
import TableSchema.Proofs.Registry.LineEndings
import TableSchema.Proofs.Definition.ClassLine
import TableSchema.Proofs.Registry.GivenUp
import TableSchema.Proofs.Definition.Places
import TableSchema.Proofs.Token.Blocks
import TableSchema.Proofs.Token.IdleLine
import TableSchema.Proofs.Definition.Comments
import TableSchema.Proofs.Registry.Inert
import TableSchema.Proofs.Identifier.Inverse
import TableSchema.Proofs.Project.InputFiles
import TableSchema.Proofs.Token.LostLines
import TableSchema.Proofs.Registry.References
import TableSchema.Proofs.Token.Cursor
import TableSchema.Proofs.Registry.WithinLine
import TableSchema.Proofs.Token.Headers
import TableSchema.Proofs.Definition.OpenSection
import TableSchema.Proofs.Registry.OpenSection
