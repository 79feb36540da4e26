import Moniker.Main
import Moniker.Program.Describe
import Moniker.Report.Read
import Moniker.Proofs.AliasChains
import Moniker.Proofs.Anchors
import Moniker.Proofs.Components
import Moniker.Proofs.Coverage
import Moniker.Proofs.Declarations
import Moniker.Proofs.Diffs
import Moniker.Proofs.Drawing
import Moniker.Proofs.Exports
import Moniker.Proofs.FileByFile
import Moniker.Proofs.LiteralNames
import Moniker.Proofs.LogLines
import Moniker.Proofs.Mangling
import Moniker.Proofs.Members
import Moniker.Proofs.Merging
import Moniker.Proofs.Namespaces
import Moniker.Proofs.NewNames
import Moniker.Proofs.Occurrences
import Moniker.Proofs.Paths
import Moniker.Proofs.Preorder
import Moniker.Proofs.Printing
import Moniker.Proofs.Ranges
import Moniker.Proofs.RelativePaths
import Moniker.Proofs.Reordering
import Moniker.Proofs.Rotation
import Moniker.Proofs.RunHistory
import Moniker.Proofs.SavedSettings
import Moniker.Proofs.SecondPass
import Moniker.Proofs.Snapshot
import Moniker.Proofs.Specifiers
import Moniker.Proofs.Substitution
import Moniker.Proofs.SymbolNames
import Moniker.Proofs.Unions
import Moniker.Proofs.Visibility
import Moniker.Proofs.WordOrder
import Moniker.Proofs.Bundling.Circles
import Moniker.Proofs.Bundling.Clashes
import Moniker.Proofs.Bundling.Closure
import Moniker.Proofs.Bundling.Strictness
import Moniker.Proofs.Running.Selections
import Moniker.Proofs.Surface.Options
import Moniker.Proofs.Termination.Programs
