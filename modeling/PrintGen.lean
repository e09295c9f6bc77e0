import PrintGen.Command.Arguments
import PrintGen.Command.Run
import PrintGen.Compilation
import PrintGen.Diagnostic
import PrintGen.Disk.Basic
import PrintGen.Disk.Collect
import PrintGen.Disk.Path
import PrintGen.Disk.Write
import PrintGen.Emit
import PrintGen.Fault
import PrintGen.Fragment
import PrintGen.Generate
import PrintGen.Group
import PrintGen.Json.Binary64
import PrintGen.Json.Reader
import PrintGen.Json.Value
import PrintGen.Json.Writer
import PrintGen.Main
import PrintGen.Marker
import PrintGen.Render
import PrintGen.Resolve
import PrintGen.Settings
import PrintGen.Symbols.Ancestry
import PrintGen.Symbols.Declare
import PrintGen.Symbols.Lookup
import PrintGen.Symbols.Model
import PrintGen.Symbols.Path
import PrintGen.Symbols.Table
import PrintGen.Syntax.Candidate
import PrintGen.Syntax.Declaration
import PrintGen.Syntax.Kind
import PrintGen.Syntax.Listing
import PrintGen.Syntax.Name
import PrintGen.Syntax.Node
import PrintGen.Syntax.Tree
import PrintGen.Text.CodePoint
import PrintGen.Text.ControlSequence
import PrintGen.Text.Lines
import PrintGen.Text.Numeral
import PrintGen.Text.Printable
import PrintGen.Text.Quoted
import PrintGen.Text.Similarity
import PrintGen.Text.Slice
import PrintGen.Text.Split
import PrintGen.Trace
import PrintGen.Proofs.Declares
import PrintGen.Proofs.FieldOrder
import PrintGen.Proofs.Growth
import PrintGen.Proofs.MarkerClass
import PrintGen.Proofs.Resolution
import PrintGen.Proofs.Generation
import PrintGen.Proofs.MarkedFields
import PrintGen.Proofs.NodeTypes
import PrintGen.Proofs.TypeMembers
import PrintGen.Proofs.Binding
import PrintGen.Proofs.Legible
import PrintGen.Proofs.Scopes
import PrintGen.Proofs.Stubs
import PrintGen.Proofs.Keys
import PrintGen.Proofs.Events
import PrintGen.Proofs.Replay
import PrintGen.Proofs.Alike
import PrintGen.Proofs.FileOrder
import PrintGen.Proofs.Containers
import PrintGen.Proofs.Visits
import PrintGen.Proofs.SymbolTree
import PrintGen.Proofs.AttributeNames
import PrintGen.Proofs.MarkerRecords
import PrintGen.Proofs.AttributeBinding
import PrintGen.Proofs.GlobalMarker
import PrintGen.Proofs.BaseChains
import PrintGen.Proofs.SharedView
import PrintGen.Proofs.RootNamespaces
import PrintGen.Proofs.AddedTree
import PrintGen.Proofs.IdleTrees
import PrintGen.Proofs.Apart
import PrintGen.Proofs.Modularity
import PrintGen.Proofs.Agreement
import PrintGen.Proofs.BindingOrder
import PrintGen.Proofs.PlainTypes
import PrintGen.Proofs.Comments
import PrintGen.Proofs.UncommentedTables
import PrintGen.Proofs.UncommentedPass
import PrintGen.Proofs.EmptyNames
import PrintGen.Proofs.StoppedPass
import PrintGen.Proofs.MetadataNames
import PrintGen.Proofs.QualifiedNames
import PrintGen.Proofs.Outlines
import PrintGen.Proofs.WrappedTables
import PrintGen.Proofs.WrappedPass
import PrintGen.Proofs.NamespaceForms
import PrintGen.Proofs.FedMarker
import PrintGen.Proofs.Layout
import PrintGen.Proofs.MarkerFedBack
import PrintGen.Proofs.Relocation
import PrintGen.Proofs.Confinement
import PrintGen.Proofs.Erasure
import PrintGen.Proofs.LexicalScope
import PrintGen.Proofs.Settlement
import PrintGen.Proofs.MemberNames
import PrintGen.Proofs.DiskState
import PrintGen.Proofs.PlainWrites
import PrintGen.Proofs.FragmentTargets
import PrintGen.Proofs.GuardedFiles
import PrintGen.Proofs.WrittenAgain
import PrintGen.Proofs.AttributeClasses
import PrintGen.Proofs.AttributeLayers
import PrintGen.Proofs.OutputDirectory
import PrintGen.Proofs.WriteOutcome
import PrintGen.Proofs.Ownership
import PrintGen.Proofs.MetadataLookup
import PrintGen.Proofs.DecidingBases
import PrintGen.Proofs.DeclaredSpellings
import PrintGen.Proofs.RenderedLines
import PrintGen.Proofs.MethodHeaders
import PrintGen.Proofs.NameTrees
import PrintGen.Proofs.RenderedFragments
import PrintGen.Proofs.SettingsKeys
import PrintGen.Proofs.SourceOrder
import PrintGen.Proofs.OwnerGroups
