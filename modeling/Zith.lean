import Zith.Vm.RegisterSafety
import Zith.Vm.TailTransfer
import Zith.Sema.ControlFlow
import Zith.Vm.VirCache
import Zith.Flow.DefiniteReturn
import Zith.Flow.UseChecks
import Zith.Flow.ImmutableSafety
import Zith.Cache.Invalidation
import Zith.Cache.CanonicalRegistry
import Zith.Zirl.Corruption
import Zith.Vm.RegisterRows
import Zith.Vm.NumericCasts
import Zith.Hir.GuardedUses
import Zith.Session.SingleFlight
import Zith.Session.ReExports
import Zith.Ide.Rename
import Zith.Wasm.BlobExecution
import Zith.Frontend.MacroExpansion
import Zith.Session.HydratedSymbols
import Zith.Packages.Revalidation
import Zith.Types.FieldOrder
import Zith.Session.CacheKey
import Zith.Sema.OptionalLayers
import Zith.Sema.RecursionReports
import Zith.Sema.BorrowConflicts
import Zith.Sema.LiteralRanges
import Zith.Sema.ReturnedParameters
import Zith.Types.QueriesReturn
import Zith.Sema.ArrayLengths
import Zith.Packages.WellFormed
import Zith.Vm.SnprintfCalls
import Zith.Frontend.PrecedenceClimbing
import Zith.Frontend.SignatureIdentity
import Zith.Vm.Reachability
import Zith.Vm.IndexedAssignment
import Zith.Memory.FlatMapTermination
import Zith.Vm.Reallocation
import Zith.Ide.Positions
import Zith.Packages.Sha256
