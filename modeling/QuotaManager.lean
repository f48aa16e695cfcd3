import QuotaManager.Proofs.LimitMonotone
import QuotaManager.Proofs.PrematureBreach
import QuotaManager.Proofs.TopConsumer
import QuotaManager.Proofs.ResyncRace
import QuotaManager.Proofs.LiveProcesses
import QuotaManager.Proofs.OpenDescriptors
import QuotaManager.Proofs.CreditLedger
import QuotaManager.Proofs.Heartbeat
import QuotaManager.Proofs.GlobalLimit
import QuotaManager.Proofs.BreachReaction
import QuotaManager.Proofs.NamespaceCount
import QuotaManager.Proofs.CgroupShares
import QuotaManager.Proofs.SpecConvergence
import QuotaManager.Proofs.SeveralQuotas
import QuotaManager.Proofs.LeaseKeys
import QuotaManager.Proofs.RecordedCredit
import QuotaManager.Proofs.QuotaChange
import QuotaManager.Proofs.TestDouble
import QuotaManager.Proofs.NamespaceRemoval
import QuotaManager.Proofs.RemovalRace
import QuotaManager.Proofs.ScannerRace
import QuotaManager.Proofs.Commutation
import QuotaManager.Proofs.PodCoverage
import QuotaManager.Proofs.ReconcileErrors
import QuotaManager.Proofs.Reclaim
import QuotaManager.Proofs.Quiescence
import QuotaManager.Proofs.BreachRecords
import QuotaManager.Proofs.KillTargets
import QuotaManager.Proofs.PodSearch
import QuotaManager.Proofs.PodLayouts
import QuotaManager.Proofs.ScanCoverage
import QuotaManager.Proofs.StaleAnswers
import QuotaManager.Proofs.ProgramSteps
import QuotaManager.Proofs.ConcurrentCount
import QuotaManager.Proofs.Contention
import QuotaManager.Proofs.DeadNodes
import QuotaManager.Proofs.PodAttribution
import QuotaManager.Proofs.BreachDelivery
import QuotaManager.Proofs.NamespaceKeys
import QuotaManager.Proofs.Drift
import QuotaManager.Logic.Advance
import QuotaManager.PodReconciler
import QuotaManager.Proofs.ConcurrentExcess
import QuotaManager.Proofs.MicroSlices
import QuotaManager.Proofs.PodEvents
