import JinkAnalysis.Main
import JinkAnalysis.Host.Standard
import JinkAnalysis.Server
import JinkAnalysis.Proofs.Index.History
import JinkAnalysis.Proofs.Scope.History
import JinkAnalysis.Proofs.Program.Words
import JinkAnalysis.Proofs.Program.Reading
import JinkAnalysis.Proofs.Program.Context
import JinkAnalysis.Proofs.Program.Scoping
import JinkAnalysis.Proofs.Scope.Balance
import JinkAnalysis.Proofs.Text.Comments
import JinkAnalysis.Proofs.Text.Lines
import JinkAnalysis.Proofs.Token.Reads
import JinkAnalysis.Proofs.Text.Names
import JinkAnalysis.Proofs.Scope.ImportPath
import JinkAnalysis.Proofs.Text.Cursor
import JinkAnalysis.Proofs.Definition.Undefined
import JinkAnalysis.Proofs.ModulePath
import JinkAnalysis.Proofs.Outline.Patterns
import JinkAnalysis.Proofs.Outline.Names
import JinkAnalysis.Proofs.Completion.ImportLine
import JinkAnalysis.Proofs.Completion.Proposals
import JinkAnalysis.Proofs.Outline.Down
import JinkAnalysis.Proofs.Token.Behind
import JinkAnalysis.Proofs.Completion.ImportTokens
import JinkAnalysis.Proofs.Diagnosis.Down
import JinkAnalysis.Proofs.Diagnosis.Exports
import JinkAnalysis.Proofs.Outline.Statement
import JinkAnalysis.Proofs.Diagnosis.MissingModules
import JinkAnalysis.Proofs.Scope.Blocks
import JinkAnalysis.Proofs.Diagnosis.BlockNames
import JinkAnalysis.Proofs.Token.Semicolon
import JinkAnalysis.Proofs.Outline.Semicolon
import JinkAnalysis.Proofs.Scope.Unfinished
import JinkAnalysis.Proofs.Completion.Repair
import JinkAnalysis.Proofs.Diagnosis.OptionalSemicolon
import JinkAnalysis.Proofs.Diagnosis.NewDocument
import JinkAnalysis.Proofs.Index.Order
import JinkAnalysis.Proofs.Text.Places
import JinkAnalysis.Proofs.Diagnosis.Places
import JinkAnalysis.Proofs.Canonical.Items
import JinkAnalysis.Proofs.Canonical.Lists
import JinkAnalysis.Proofs.Canonical.Declarations
import JinkAnalysis.Proofs.Canonical.Imports
import JinkAnalysis.Proofs.Canonical.RoundTrip
import JinkAnalysis.Proofs.Canonical.Lines
import JinkAnalysis.Proofs.Completion.Labels
import JinkAnalysis.Proofs.Index.Privacy
import JinkAnalysis.Proofs.Index.Reindex
import JinkAnalysis.Proofs.Disk
import JinkAnalysis.Proofs.Host
import JinkAnalysis.Proofs.Index.Entries
import JinkAnalysis.Proofs.Server.Follows
import JinkAnalysis.Proofs.Server.Recreated
import JinkAnalysis.Proofs.Outline.Composition
import JinkAnalysis.Proofs.Completion.OwnDeclarations
import JinkAnalysis.Proofs.Outline.Identifiers
import JinkAnalysis.Proofs.Completion.Hidden
import JinkAnalysis.Proofs.Text.Stripped
import JinkAnalysis.Proofs.Token.Strings
import JinkAnalysis.Proofs.Token.Lexeme
import JinkAnalysis.Proofs.Token.Exact
import JinkAnalysis.Proofs.Scope.Depth
import JinkAnalysis.Proofs.Scope.Parameters
import JinkAnalysis.Proofs.Completion.Exact
import JinkAnalysis.Proofs.Text.LongerLines
import JinkAnalysis.Proofs.Outline.LongerDeclarations
import JinkAnalysis.Proofs.Completion.CommentedOut
import JinkAnalysis.Proofs.Outline.Extents
import JinkAnalysis.Proofs.Definition.Visibility
import JinkAnalysis.Proofs.Scope.EnumBody
import JinkAnalysis.Proofs.Diagnosis.ListedNames
import JinkAnalysis.Proofs.Diagnosis.UnusedImports
import JinkAnalysis.Proofs.Settings.Loading
import JinkAnalysis.Proofs.Check.ExitCode
import JinkAnalysis.Proofs.Server.Configuration
import JinkAnalysis.Proofs.Server.LogLevel
import JinkAnalysis.Proofs.Server.Published
import JinkAnalysis.Proofs.Settings.Reported
import JinkAnalysis.Proofs.Text.Positions
import JinkAnalysis.Proofs.Text.Layout
import JinkAnalysis.Proofs.SourceRoots
import JinkAnalysis.Proofs.Sources.Walk
import JinkAnalysis.Proofs.Sources.Scan
