import AmbientBundle.Bundle
import AmbientBundle.Chunk.Basic
import AmbientBundle.Chunk.Membership
import AmbientBundle.Declare
import AmbientBundle.Exports.DefaultName
import AmbientBundle.Exports.Promotion
import AmbientBundle.Exports.Table
import AmbientBundle.Files.Basic
import AmbientBundle.ImportTypes.Basic
import AmbientBundle.ImportTypes.Link
import AmbientBundle.Merge.Chunk
import AmbientBundle.Merge.Context
import AmbientBundle.Merge.Exports
import AmbientBundle.Merge.Imports
import AmbientBundle.Merge.Inline
import AmbientBundle.Merge.Namespace
import AmbientBundle.Merge.Piece
import AmbientBundle.Merge.State
import AmbientBundle.Merge.Warning
import AmbientBundle.Names.Declared
import AmbientBundle.Names.Environment
import AmbientBundle.Names.Fresh
import AmbientBundle.OrderedMap
import AmbientBundle.Placement
import AmbientBundle.Proofs.Declare
import AmbientBundle.Proofs.Merge.Answers
import AmbientBundle.Proofs.Merge.Calls
import AmbientBundle.Proofs.Merge.Context
import AmbientBundle.Proofs.Merge.Exports
import AmbientBundle.Proofs.Merge.Formed
import AmbientBundle.Proofs.Merge.Globals
import AmbientBundle.Proofs.Merge.Growth
import AmbientBundle.Proofs.Merge.ImportLinks
import AmbientBundle.Proofs.Merge.Imports
import AmbientBundle.Proofs.Merge.Inversion
import AmbientBundle.Proofs.Merge.Linking
import AmbientBundle.Proofs.Merge.Owners
import AmbientBundle.Proofs.Merge.Presence
import AmbientBundle.Proofs.Merge.Printing
import AmbientBundle.Proofs.Merge.Resolution
import AmbientBundle.Proofs.Merge.Run
import AmbientBundle.Proofs.Merge.Sound
import AmbientBundle.Proofs.Merge.State
import AmbientBundle.Proofs.Merge.Step
import AmbientBundle.Proofs.Merge.Surface
import AmbientBundle.Proofs.Names.Environment
import AmbientBundle.Proofs.Names.Fresh
import AmbientBundle.Proofs.Names.Inheritance
import AmbientBundle.Proofs.OrderedMap
import AmbientBundle.Proofs.Syntax.Bound
import AmbientBundle.Proofs.Syntax.Keys
import AmbientBundle.Proofs.Syntax.LinkedIdentifiers
import AmbientBundle.Proofs.Syntax.LinkedTypes
import AmbientBundle.Rename.Module
import AmbientBundle.Rename.Scope
import AmbientBundle.Rename.Type
import AmbientBundle.SeenSet
import AmbientBundle.Specifier
import AmbientBundle.Syntax.Collect
import AmbientBundle.Syntax.ModuleReader
import AmbientBundle.Syntax.Printer
import AmbientBundle.Syntax.Reader
import AmbientBundle.Syntax.Token
import AmbientBundle.Syntax.Tree
import AmbientBundle.Syntax.TypeReader
import AmbientBundle.Text.Affix
import AmbientBundle.Text.Ident
import AmbientBundle.Text.IdentTable
import AmbientBundle.Url.Basic
import AmbientBundle.Url.Host
import AmbientBundle.Url.Parse
import AmbientBundle.Url.Path
import AmbientBundle.Url.Percent
import AmbientBundle.Url.Punycode
import AmbientBundle.Url.Relative
import AmbientBundle.Proofs.Merge.Declarations
import AmbientBundle.Proofs.Bundle.Declarations
import AmbientBundle.Proofs.Merge.Gathering
import AmbientBundle.Proofs.Merge.Reexports
import AmbientBundle.Proofs.Merge.EntryExports
import AmbientBundle.Proofs.Merge.ExportSurface
import AmbientBundle.Proofs.Merge.Precedence
import AmbientBundle.Proofs.Merge.ExportBinding
import AmbientBundle.Proofs.Merge.OuterImports
import AmbientBundle.Proofs.Bundle.Links
import AmbientBundle.Proofs.Merge.Openings
import AmbientBundle.Proofs.Merge.Stacks
import AmbientBundle.Proofs.Merge.BlockNames
import AmbientBundle.Proofs.Names.Chosen
import AmbientBundle.Proofs.Names.Uses
import AmbientBundle.Proofs.Rename.Occurrences
import AmbientBundle.Proofs.Rename.Scopes
import AmbientBundle.Proofs.Rename.References
import AmbientBundle.Proofs.Merge.Onward
import AmbientBundle.Proofs.Merge.SpaceNames
import AmbientBundle.Proofs.Merge.BlockExports
import AmbientBundle.Proofs.Merge.BlockLinks
import AmbientBundle.Proofs.Merge.Spaces
import AmbientBundle.Proofs.Merge.Puts
import AmbientBundle.Proofs.Merge.BlockReferences
import AmbientBundle.Proofs.Merge.BlockSurface
import AmbientBundle.Proofs.Merge.Ends
import AmbientBundle.Proofs.Merge.Progress
import AmbientBundle.Proofs.Merge.Termination
import AmbientBundle.Proofs.Merge.DirectExports
import AmbientBundle.Proofs.Merge.ExportedOnce
import AmbientBundle.Proofs.Merge.StarOrder
import AmbientBundle.Proofs.Merge.Chains
import AmbientBundle.Proofs.Merge.StarExpansion
import AmbientBundle.Proofs.Merge.OuterStars
import AmbientBundle.Proofs.Merge.EntryAgain
import AmbientBundle.Proofs.Merge.EntryParts
import AmbientBundle.Proofs.Merge.Origins
import AmbientBundle.Proofs.Merge.Tracing
import AmbientBundle.Proofs.Merge.OriginExports
import AmbientBundle.Proofs.Merge.Moves
import AmbientBundle.Proofs.Merge.BlockStability
import AmbientBundle.Proofs.Names.Recorded
import AmbientBundle.Proofs.Merge.RecordedNames
import AmbientBundle.Proofs.Rename.Identity
import AmbientBundle.Proofs.Rename.Outward
import AmbientBundle.Proofs.Merge.SelfContained
import AmbientBundle.Proofs.Bundle.Placing
import AmbientBundle.Proofs.Bundle.SingleFile
import AmbientBundle.Proofs.Merge.Reading
import AmbientBundle.Proofs.Merge.Independence
import AmbientBundle.Proofs.Bundle.ChunkOrder
import AmbientBundle.Proofs.Merge.Statements
import AmbientBundle.Proofs.Merge.BlockBodies
import AmbientBundle.Proofs.Merge.Specifiers
import AmbientBundle.Proofs.Merge.TypeExports
import AmbientBundle.Proofs.Names.Legal
import AmbientBundle.Proofs.Syntax.Identifiers
import AmbientBundle.Proofs.Merge.WrittenNames
import AmbientBundle.Proofs.Merge.RootNames
import AmbientBundle.Proofs.Merge.DefaultNames
import AmbientBundle.Proofs.Merge.Identifiers
import AmbientBundle.Proofs.Bundle.Ambient
import AmbientBundle.Proofs.Merge.Underway
import AmbientBundle.Proofs.Merge.LastResort
import AmbientBundle.Proofs.Merge.BlockMembers
import AmbientBundle.Proofs.Url.Paths
import AmbientBundle.Proofs.Url.Relative
import AmbientBundle.Proofs.Merge.SpecifierTargets
import AmbientBundle.Chunk.Answers
import AmbientBundle.Proofs.Files.Extensions
import AmbientBundle.Proofs.Url.Siblings
import AmbientBundle.Proofs.Files.Emitted
import AmbientBundle.Proofs.Bundle.Membership
import AmbientBundle.Proofs.Bundle.Companions
import AmbientBundle.Proofs.Syntax.Nodes
import AmbientBundle.Proofs.Syntax.NodeKeys
import AmbientBundle.Proofs.Syntax.LinkedNodes
import AmbientBundle.Proofs.Merge.TypeTargets
import AmbientBundle.Proofs.Merge.TypeReferences
import AmbientBundle.Proofs.Merge.RepeatedExports
import AmbientBundle.Proofs.Merge.HoistedImports
import AmbientBundle.Proofs.Exports.Promotion
import AmbientBundle.Proofs.Exports.Recorded
import AmbientBundle.Proofs.Names.Search
import AmbientBundle.Proofs.Merge.BalancedCalls
