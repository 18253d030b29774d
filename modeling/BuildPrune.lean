import BuildPrune.Script.Lexer
import BuildPrune.Text.Quoted
import BuildPrune.Script.Tree
import BuildPrune.Script.Calls
import BuildPrune.Script.Control
import BuildPrune.Script.ParseError
import BuildPrune.Script.Cursor
import BuildPrune.Script.TypeArgs
import BuildPrune.Script.Parser
import BuildPrune.Script.Trivia
import BuildPrune.Script.Removal
import BuildPrune.Rules
import BuildPrune.Pruning
import BuildPrune.Decimal.Shortest
import BuildPrune.Yaml.Place
import BuildPrune.Yaml.ScalarText
import BuildPrune.Yaml.Tag
import BuildPrune.Yaml.Lexeme
import BuildPrune.Yaml.Outline
import BuildPrune.Yaml.Anchor
import BuildPrune.Yaml.Scalar
import BuildPrune.Yaml.Node
import BuildPrune.Yaml.Wording
import BuildPrune.Text.Raw
import BuildPrune.Text.Split
import BuildPrune.Path
import BuildPrune.Sorting
import BuildPrune.Recipe.Basic
import BuildPrune.Recipe.Reader
import BuildPrune.Disk.Basic
import BuildPrune.Disk.Lookup
import BuildPrune.Failure
import BuildPrune.Discovery
import BuildPrune.Workspace.Basic
import BuildPrune.Workspace.Actions
import BuildPrune.Workspace.Run
import BuildPrune.Workspace.Plan
import BuildPrune.Diff
import BuildPrune.CommandLine.Arguments
import BuildPrune.CommandLine.Output
import BuildPrune.CommandLine.Session
import BuildPrune.Main
import BuildPrune.Proofs.Grammar
import BuildPrune.Proofs.Lexing
import BuildPrune.Proofs.Lossless
import BuildPrune.Proofs.Settled
import BuildPrune.Proofs.Sweep
import BuildPrune.Proofs.Visiting
import BuildPrune.Proofs.Deletion
import BuildPrune.Proofs.Idempotence
import BuildPrune.Proofs.Spelling
import BuildPrune.Proofs.TriviaScan
import BuildPrune.Proofs.TriviaEdits
import BuildPrune.Proofs.TokenEnds
import BuildPrune.Proofs.Relexing
import BuildPrune.Proofs.Joints
import BuildPrune.Proofs.Shapes
import BuildPrune.Proofs.Spacing
import BuildPrune.Proofs.Seams
import BuildPrune.Proofs.Rejoining
import BuildPrune.Proofs.Rereading
import BuildPrune.Proofs.Occurrences
import BuildPrune.Proofs.Inheritance
import BuildPrune.Proofs.Construction
import BuildPrune.Proofs.Conservation
import BuildPrune.Proofs.VisitRules
import BuildPrune.Proofs.Thinning
import BuildPrune.Proofs.LineBreaks
import BuildPrune.Proofs.Separation
import BuildPrune.Proofs.ArgumentLines
import BuildPrune.Proofs.ControlHeaders
import BuildPrune.Proofs.ElseBranches
import BuildPrune.Proofs.WellFormed
import BuildPrune.Proofs.RawTexts
import BuildPrune.Proofs.Paths
import BuildPrune.Proofs.DiskWalks
import BuildPrune.Proofs.Searches
import BuildPrune.Proofs.Loading
import BuildPrune.Proofs.Plans
import BuildPrune.Proofs.MemoryAndDisk
import BuildPrune.Proofs.Runs
import BuildPrune.Proofs.ChangeChains
import BuildPrune.Proofs.LastingDeletions
import BuildPrune.Proofs.ForeseenDeletions
import BuildPrune.Proofs.Inventory
import BuildPrune.Proofs.Footprint
import BuildPrune.Proofs.OuterTokens
import BuildPrune.Proofs.Brackets
import BuildPrune.Proofs.Faults
import BuildPrune.Proofs.Completeness
import BuildPrune.Proofs.Siblings
import BuildPrune.Proofs.StrictPositions
import BuildPrune.Proofs.WrittenTokens
import BuildPrune.Proofs.Operands
import BuildPrune.Proofs.ControlPrograms
import BuildPrune.Proofs.DanglingElses
import BuildPrune.Proofs.WhenBranches
import BuildPrune.Proofs.WhenEntries
import BuildPrune.Proofs.WhenScripts
import BuildPrune.Proofs.RemovalCounts
import BuildPrune.Proofs.PluginScope
import BuildPrune.Proofs.QuotedLiterals
import BuildPrune.Proofs.QuotedArguments
import BuildPrune.Proofs.TriviaCuts
import BuildPrune.Proofs.RepairOrder
import BuildPrune.Proofs.RemovalOrder
import BuildPrune.Proofs.ArgumentOrder
import BuildPrune.Proofs.BlankLines
import BuildPrune.Proofs.TokenTails
import BuildPrune.Proofs.LineEndings
import BuildPrune.Proofs.Partition
import BuildPrune.Proofs.NestedLiterals
import BuildPrune.Proofs.NormalizedPaths
import BuildPrune.Proofs.AngleBrackets
