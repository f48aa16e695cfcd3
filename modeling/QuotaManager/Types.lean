import Mathlib.Data.Finset.Insert
import Mathlib.Data.List.AList
import QuotaManager.MapAccess

/-! The objects of `types.go`, the Kubernetes objects next to them, and the
configuration of a node. Fields that no modelled function reads are left out. -/

namespace QuotaManager

structure ObjectQuotaSpec where
  fileDescriptors : Option Int64
  processes : Option Int64
  leaseBatchSize : Option Int64
  deriving DecidableEq

/-- A `map[string]int64` by node. A nil map reads like an empty one. -/
abbrev Allocations := AList fun _ : String => Int64

structure ObjectQuotaStatus where
  fdAllocations : Allocations
  procAllocations : Allocations
  availableFD : Int64
  version : Option Int64
  deriving DecidableEq

def ObjectQuotaStatus.empty : ObjectQuotaStatus := ⟨∅, ∅, 0, none⟩

structure ObjectQuota where
  ns : String
  name : String
  resourceVersion : Nat
  spec : ObjectQuotaSpec
  status : ObjectQuotaStatus
  deriving DecidableEq

/-- A heartbeat `Lease`. Times are in microseconds, the resolution of a `MicroTime`. -/
structure Lease where
  ns : String
  name : String
  resourceVersion : Nat
  holderIdentity : Option String
  renewTime : Option Int
  deriving DecidableEq

inductive PodPhase where
  | pending
  | running
  | succeeded
  | failed
  | unknown
  deriving DecidableEq

structure Pod where
  uid : String
  phase : PodPhase
  deriving DecidableEq

structure CgroupInfo where
  cgroupID : UInt64
  cgroupPath : String
  deriving DecidableEq

/-- A manager never has an empty batch. -/
structure K8sLeaseManager where
  nodeID : String
  defaultBatch : Int64
  positive : 0 < defaultBatch

def newK8sLeaseManager (nodeID : String) (defaultBatch : Int64) : K8sLeaseManager :=
  if low : defaultBatch ≤ 0 then ⟨nodeID, 1000, by decide⟩ else ⟨nodeID, defaultBatch, Int64.not_le.mp low⟩

structure Syncer where
  nodeID : String
  leaser : Option K8sLeaseManager

/-- The node that a request comes from. -/
def Syncer.identity (s : Syncer) : String :=
  match s.leaser with
  | some m => m.nodeID
  | none => s.nodeID

/-- FNV-1a, 64 bits. -/
def namespaceKey (ns : String) : UInt64 :=
  ns.toUTF8.data.toList.foldl (fun sum byte => (sum ^^^ byte.toUInt64) * 1099511628211) 14695981039346656037

/-- Cuts the suffix by which the syncer marks a key for process credits. -/
def isProcSuffix (ns : String) : String × Bool :=
  let name := ns.toList
  if name.length > 5 ∧ name.drop (name.length - 5) = "-proc".toList then
    (String.ofList (name.take (name.length - 5)), true)
  else (ns, false)

/-- `object-quota-<ns>-<nodeID>`. -/
def K8sLeaseManager.leaseName (m : K8sLeaseManager) (ns : String) : String :=
  "object-quota-" ++ ns ++ "-" ++ m.nodeID

end QuotaManager
