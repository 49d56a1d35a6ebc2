import TilelangAscend.HeldSets
import TilelangAscend.DynamicControl
import TilelangAscend.FunctionalOrder
import TilelangAscend.ReusedMemory
import TilelangAscend.UnitFlagProtocol
import TilelangAscend.StraightLineFences
import TilelangAscend.GemmProduct
import TilelangAscend.PoisonAgreement
import TilelangAscend.ScalarVectorSound
import TilelangAscend.CombinePartition
import TilelangAscend.CrossCoreIterations
import TilelangAscend.CrossCoreSyncBalance
import TilelangAscend.SoftwarePipelineSound
import TilelangAscend.FlagBalance
import TilelangAscend.LoopExits
import TilelangAscend.MatrixCodec
import TilelangAscend.ScalarVectorRerun
import TilelangAscend.SyncAllPhases
import TilelangAscend.ParallelNestExact
import TilelangAscend.CacheTransparency
import TilelangAscend.L1SlotSlices
import TilelangAscend.LinearRanges
import TilelangAscend.LookupSafety
import TilelangAscend.ZnExecution
import TilelangAscend.BusyCycles
import TilelangAscend.CrossCoreExposureExact
import TilelangAscend.LiveMemoryExact
import TilelangAscend.PipelinePlanningValid
import TilelangAscend.WaitCycle
import TilelangAscend.FreePartition
import TilelangAscend.DeadlockReports
