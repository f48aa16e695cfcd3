import QuotaManager.LeaseManager
import QuotaManager.Logic.Workers

/-! The syncer of `syncer.go` on a node with a loaded object. The two resources run
the same code with their own maps and lease keys; each source function keeps its own
name here, applied to its own resource. -/

namespace QuotaManager
open Enforcer

inductive SyncError where
  | updateLimit (resource : Resource) (ns : String)
  | resetCounter (resource : Resource) (ns : String)
  | listPods (ns : String)
  | updateMapping (resource : Resource) (cgroupID : UInt64)
  deriving DecidableEq

namespace Syncer
variable (s : Syncer)

/-- The key under which credits of a resource are requested. -/
def leaseKey (resource : Resource) (ns : String) : String :=
  match resource with
  | .fd => ns
  | .proc => ns ++ "-proc"

/-- The limit for this node: its credits, or the whole limit when it gets none. -/
def effectiveLimit (resource : Resource) (ns : String) (limit : Int64) (batchSize : Option Int64) : Action Int64 :=
  match s.leaser with
  | none => return limit
  | some leaser => do
    match ← leaser.requestLease (leaseKey resource ns) s.nodeID (batchSize.getD 0) with
    | .error _ => return limit
    | .ok granted => return if granted > 0 then granted else limit

def resetCounter (resource : Resource) (nsKey : UInt64) (limit : Int64) : Action Bool := do
  let existing ← perform (.lookupNsCounter resource nsKey)
  perform (.updateNsCounter resource nsKey (renewedLease existing limit))

def sync (resource : Resource) (ns : String) (limit : Int64) (batchSize : Option Int64) :
    Action (Except SyncError Unit) := do
  let nsKey := namespaceKey ns
  let effective ← s.effectiveLimit resource ns limit batchSize
  match ← perform (.updateNsLimit resource nsKey effective) with
  | false => return .error (.updateLimit resource ns)
  | true =>
    match ← resetCounter resource nsKey effective with
    | false => return .error (.resetCounter resource ns)
    | true =>
      match ← perform (.listPods ns) with
      | none => return .error (.listPods ns)
      | some pods =>
        match ← perform (.mapPods resource ns pods) with
        | .error cgroupID => return .error (.updateMapping resource cgroupID)
        | .ok () => return .ok ()

def syncNamespace (ns : String) (limit : Int64) (batchSize : Option Int64) : Action (Except SyncError Unit) :=
  s.sync .fd ns limit batchSize

def syncProcessNamespace (ns : String) (limit : Int64) (batchSize : Option Int64) : Action (Except SyncError Unit) :=
  s.sync .proc ns limit batchSize

/-- `scanAndMapCgroups` for one namespace and one pod directory: the snapshot of what
is tracked, then, after the matching that found `cInfos`, the locked section. -/
def scanAndMapCgroups (ns : String) (cInfos : List CgroupInfo) : Action Unit := do
  match ← perform (.tracked ns) with
  | none => return
  | some existing =>
    let _ ← perform (.mapScanned ns existing cInfos)

end Syncer

/-- What the handler of breach events does: count a rejection for a namespace, and
kill the processes below a cgroup path. -/
structure Handled where
  rejected : Option (Resource × String)
  killed : Option String
  deriving DecidableEq

def handleBreachEvent (node : Node) (evt : BreachEvent) : Handled :=
  match node.nsNameByKey evt.nsKey with
  | none => ⟨none, none⟩
  | some ns =>
    let rejected := some (if evt.reason = 0 then Resource.fd else .proc, ns)
    if evt.topCgid = 0 ∨ evt.topCgid = evt.cgid then ⟨rejected, none⟩
    else
      match node.cgroupPaths evt.topCgid with
      | none => ⟨rejected, none⟩
      | some path => ⟨rejected, some path⟩

/-- What is started on a node. -/
inductive Operation where
  | syncNamespace (ns : String) (limit : Int64) (batchSize : Option Int64)
  | syncProcessNamespace (ns : String) (limit : Int64) (batchSize : Option Int64)
  | scanAndMapCgroups (ns : String) (cInfos : List CgroupInfo)
  | requestLease (ns nodeID : String) (requested : Int64)
  | releaseLease (ns nodeID : String)
  | reclaimExpiredLeases (ns : String)
  | renewalTick

/-- Without a lease manager the last four do nothing. -/
def Operation.body (s : Syncer) : Operation → Action Unit
  | .syncNamespace ns limit batchSize => do let _ ← s.syncNamespace ns limit batchSize
  | .syncProcessNamespace ns limit batchSize => do let _ ← s.syncProcessNamespace ns limit batchSize
  | .scanAndMapCgroups ns cInfos => Syncer.scanAndMapCgroups ns cInfos
  | .requestLease ns nodeID requested =>
    match s.leaser with
    | none => return
    | some m => do let _ ← m.requestLease ns nodeID requested
  | .releaseLease ns nodeID =>
    match s.leaser with
    | none => return
    | some m => do let _ ← m.releaseLease ns nodeID
  | .reclaimExpiredLeases ns =>
    match s.leaser with
    | none => return
    | some m => do let _ ← m.reclaimExpiredLeases ns
  | .renewalTick =>
    match s.leaser with
    | none => return
    | some m => m.renewalTick

/-- Any number of nodes at work on one cluster. -/
def deployment : Machine Cluster Syncer Operation Change (Option Nat) Request Request.Reply where
  body := Operation.body
  serve := Cluster.serve
  drift := Cluster.drift

abbrev Deployed := System Cluster Syncer Request Request.Reply

abbrev Step := Choice Syncer Operation Change (Option Nat)

end QuotaManager
