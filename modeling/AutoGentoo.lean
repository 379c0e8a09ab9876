import AutoGentoo.CString
import AutoGentoo.ThreeWay
import AutoGentoo.AtomVersion
import AutoGentoo.VersionGrammar
import AutoGentoo.VersionCompare
import AutoGentoo.VersionReversal
import AutoGentoo.VersionOrder
import AutoGentoo.Atom
import AutoGentoo.AtomMatch
import AutoGentoo.Package
import AutoGentoo.Scan
import AutoGentoo.PackageMatch
import AutoGentoo.MapHash
import AutoGentoo.Binary64
import AutoGentoo.Chains
import AutoGentoo.Lut
import AutoGentoo.LutInvariant
import AutoGentoo.LutStep
import AutoGentoo.LutRefinement
import AutoGentoo.AtomInit
import AutoGentoo.GuardedRun
import AutoGentoo.Portage
import AutoGentoo.PortageIds
import AutoGentoo.RequiredUse
import AutoGentoo.LutNames
import AutoGentoo.RequiredUseWalk
import AutoGentoo.Dict
import AutoGentoo.RequiredUseHook
import AutoGentoo.RequiredUseMeaning
import AutoGentoo.Dependency
import AutoGentoo.DependGrammar
import AutoGentoo.DependRead
import AutoGentoo.Emerge
import AutoGentoo.SelectionWays
import AutoGentoo.SelectOnce
import AutoGentoo.EmergeRun
import AutoGentoo.StateExcept
import AutoGentoo.StatePoints
import AutoGentoo.Regenerate
import AutoGentoo.EmergeSelection
import AutoGentoo.DependencyAtoms
import AutoGentoo.RegenerateFrame
import AutoGentoo.SlotTables
import AutoGentoo.EmergeBlocks
import AutoGentoo.EmergeSlots
import AutoGentoo.RegenerateAsks
import AutoGentoo.RegenerateDeps
import AutoGentoo.RegenerateEnds
import AutoGentoo.CleanCore
import AutoGentoo.RegenerateClean
import AutoGentoo.RepositoryFiles
import AutoGentoo.RepositoryIndex
import AutoGentoo.UseFrame
import AutoGentoo.UseDependencies
import AutoGentoo.LinkedVector
import AutoGentoo.TcpServer
import AutoGentoo.RequestOrder
import AutoGentoo.ServerStop
import AutoGentoo.LittleEndian
import AutoGentoo.MessageFrame
import AutoGentoo.FrameStream
import AutoGentoo.PortageInstances
import AutoGentoo.AtomEquality
import AutoGentoo.UseIds
import AutoGentoo.StableInsertion
import AutoGentoo.PackageChain
import AutoGentoo.PackageOrder
import AutoGentoo.VersionWalk
import AutoGentoo.VersionSuffix
import AutoGentoo.VersionLetter
import AutoGentoo.VersionReference
import AutoGentoo.VersionHole
import AutoGentoo.VersionStar
import AutoGentoo.VersionDecode
import AutoGentoo.AtomNames
import AutoGentoo.AtomPattern
import AutoGentoo.VersionSafety
import AutoGentoo.AtomParse
import AutoGentoo.SlotAction
import AutoGentoo.FlagList
import AutoGentoo.AtomRepr
import AutoGentoo.SlotChange
import AutoGentoo.UseQueue
import AutoGentoo.UseRequirements
import AutoGentoo.ResolutionFailure
import AutoGentoo.RequiredUseSuggestion
import AutoGentoo.SlotSelection
import AutoGentoo.ExceptLog
import AutoGentoo.UseFlush
import AutoGentoo.MetadataFile
import AutoGentoo.MetadataFraming
import AutoGentoo.MetadataRetry
import AutoGentoo.RefCounts
import AutoGentoo.LutCounts
import AutoGentoo.LutFree
import AutoGentoo.MapTable
import AutoGentoo.MapOperations
import AutoGentoo.MapRefinement
import AutoGentoo.MapCounts
import AutoGentoo.Vector
import AutoGentoo.VectorRefinement
import AutoGentoo.FixPath
import AutoGentoo.LinkedDeque
import AutoGentoo.OwnedCells
import AutoGentoo.SmallMap
import AutoGentoo.SmallMapRefinement
import AutoGentoo.StringVector
import AutoGentoo.StringVectorRefinement
import AutoGentoo.Representatives
import AutoGentoo.SetPrv
import AutoGentoo.SetRefinement
import AutoGentoo.SetKinds
import AutoGentoo.SetRuns
import AutoGentoo.ServerMoves
import AutoGentoo.ServerRest
import AutoGentoo.RequestReplies
import AutoGentoo.MarkedGraph
import AutoGentoo.SessionReach
import AutoGentoo.SelectionTables
import AutoGentoo.QueueSet
import AutoGentoo.QueueSetRuns
import AutoGentoo.DepthFirst
import AutoGentoo.SessionRepeat
import AutoGentoo.Ownership
import AutoGentoo.PyObjects
import AutoGentoo.PyObjectInvariant
import AutoGentoo.EbuildLinks
import AutoGentoo.PyObjectRuns
import AutoGentoo.RepositoryOrder
import AutoGentoo.MetadataOrder
import AutoGentoo.AgreeingRequests
import AutoGentoo.CompleteGenerators
import AutoGentoo.ResolutionSound
import AutoGentoo.StateReturns
import AutoGentoo.ResolutionSucceeds
