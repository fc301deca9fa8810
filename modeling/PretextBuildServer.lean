import PretextBuildServer.StatusMoves
import PretextBuildServer.WorkerSettlement
import PretextBuildServer.CallbackAccounting
import PretextBuildServer.CancelEffect
import PretextBuildServer.RecordExpiry
import PretextBuildServer.CallbackAllowlist
import PretextBuildServer.HarvestConfinement
import PretextBuildServer.HarvestSource
import PretextBuildServer.CacheCompleteness
import PretextBuildServer.CacheEntries
import PretextBuildServer.ArtifactFinality
import PretextBuildServer.ArtifactOffer
import PretextBuildServer.SubmissionAtomicity
import PretextBuildServer.CommandLines
import PretextBuildServer.FileRetrieval
import PretextBuildServer.OutcomeCoherence
import PretextBuildServer.ContainerRemoval
import PretextBuildServer.CacheUse
import PretextBuildServer.PrunedJobs
import PretextBuildServer.WaitTiming
import PretextBuildServer.CallbackDelivery
import PretextBuildServer.CallbackValidation
import PretextBuildServer.PublicAddresses
import PretextBuildServer.SafeExtract
import PretextBuildServer.EgressFilter
import PretextBuildServer.LeastRecentlyUsed
import PretextBuildServer.ExactHarvest
import PretextBuildServer.CacheHandOff
import PretextBuildServer.NameLanguages
import PretextBuildServer.SortedHarvest
import PretextBuildServer.SourceConfinement
import PretextBuildServer.ServerViews
import PretextBuildServer.RecordTimes
import PretextBuildServer.TextServer
import PretextBuildServer.JsonBodies
import PretextBuildServer.ContainerSandbox
import PretextBuildServer.ArchiveRoundTrip
import PretextBuildServer.WarmImage
import PretextBuildServer.HttpClients
import PretextBuildServer.Library.PartyProgress
import PretextBuildServer.QueueProgress
