import QuotaManager.Controller
import QuotaManager.Logic.Outcomes

/-! `PodReconciler` of `controller.go` on a node whose resolver is cached, as `main`
sets it up. Its requests extend those of the other controllers; the locked section of
a sync asks the cache first and fills it. -/

namespace QuotaManager
open Enforcer

/-- A pod as the reconciler reads it, with the exit codes of the containers that have terminated. -/
structure PodObject where
  ns : String
  name : String
  uid : String
  phase : PodPhase
  exitCodes : List (Option Int32)
  deriving DecidableEq

def sigKillExitCode : Int32 := 137

inductive PodRequest where
  | control (request : ControllerRequest)
  | getPod (ns name : String)
  | invalidate (podUID : String)
  | eventf (pod : PodObject)

abbrev PodRequest.Reply : PodRequest → Type
  | .control request => request.Reply
  | .getPod _ _ => Except GetError PodObject
  | .invalidate _ | .eventf _ => Unit

/-- What `CachedPodResolver` keeps. `given` is for statements only: the answers that the
resolver below has given, newest first. -/
structure ResolverMemory where
  cache : String → Option (List CgroupInfo)
  given : List (String × List CgroupInfo)

namespace ResolverMemory
variable (underlying : String → Option (List CgroupInfo))

/-- `CachedPodResolver.Resolve` without another call in between. -/
def resolve (memory : ResolverMemory) (podUID : String) : Option (List CgroupInfo) × ResolverMemory :=
  match memory.cache podUID with
  | some cInfos => (some cInfos, memory)
  | none =>
    match underlying podUID with
    | none => (none, memory)
    | some cInfos =>
      (some cInfos, ⟨Function.update memory.cache podUID (some cInfos), (podUID, cInfos) :: memory.given⟩)

/-- The calls in the loop of a sync, which ends at a failed map write. -/
def resolvePods : List Pod → Option Nat → ResolverMemory → ResolverMemory
  | [], _, memory => memory
  | pod :: rest, fault, memory =>
    if pod.phase = .succeeded ∨ pod.phase = .failed then resolvePods rest fault memory
    else
      match memory.resolve underlying pod.uid with
      | (none, memory) => resolvePods rest fault memory
      | (some cInfos, memory) =>
        match fault with
        | none => resolvePods rest none memory
        | some fault =>
          if fault < cInfos.length then memory else resolvePods rest (some (fault - cInfos.length)) memory

end ResolverMemory

/-- The pods of the cluster, the cache with the resolver below it, and the warnings that
were recorded. What the cluster itself says about pods and their cgroups is not read. -/
structure PodWorld extends ResolverMemory where
  cluster : Cluster
  objects : List PodObject
  underlying : String → Option (List CgroupInfo)
  warnings : List (String × String)

namespace PodWorld

def object (world : PodWorld) (ns name : String) : Option PodObject :=
  world.objects.find? fun pod => pod.ns = ns ∧ pod.name = name

/-- What `CachedPodResolver.Resolve` answers. -/
def resolve (world : PodWorld) (podUID : String) : Option (List CgroupInfo) :=
  (world.toResolverMemory.resolve world.underlying podUID).1

/-- The pods of a namespace as a sync lists them. -/
def pods (world : PodWorld) (ns : String) : List Pod :=
  (world.objects.filter fun pod => pod.ns = ns).map fun pod => ⟨pod.uid, pod.phase⟩

/-- The cluster as the controllers of a node see it. -/
def view (world : PodWorld) (s : Syncer) : Cluster :=
  Cluster.editNode { world.cluster with pods := world.pods } s.nodeID
    { world.cluster.nodes s.nodeID with resolve := world.resolve }

def filled (world : PodWorld) : ControllerRequest → Option Nat → ResolverMemory
  | .sync (.mapPods _ _ pods), fault => .resolvePods world.underlying pods fault world.toResolverMemory
  | _, _ => world.toResolverMemory

def serve (world : PodWorld) (s : Syncer) : (request : PodRequest) → Option Nat → request.Reply × PodWorld
  | .control request, fault =>
    let served := (world.view s).control s request fault
    (served.1, { world with cluster := served.2, toResolverMemory := world.filled request fault })
  | .getPod ns name, fault =>
    (if fault.isSome then .error .unavailable else
      match world.object ns name with
      | none => .error .notFound
      | some pod => .ok pod, world)
  | .invalidate podUID, _ => ((), { world with cache := Function.update world.cache podUID none })
  | .eventf pod, _ => ((), { world with warnings := (pod.ns, pod.name) :: world.warnings })

end PodWorld

abbrev PodFlow (α : Type) := Program PodRequest PodRequest.Reply α

abbrev send (request : PodRequest) : PodFlow request.Reply := Program.call request

def Flow.lift {α : Type} (flow : Flow α) : PodFlow α := Program.translate .control (fun _ reply => reply) flow

namespace PodReconciler

/-- The first half of `Reconcile`; the error of the sync is only logged. -/
def syncPod (s : Syncer) (pod : PodObject) : PodFlow Unit :=
  if pod.phase = .running ∨ pod.phase = .pending then do
    send (.invalidate pod.uid)
    Flow.lift (s.syncNamespaceFromQuota pod.ns)
  else return

/-- The second half: one warning, whichever container was killed. -/
def warn (pod : PodObject) : PodFlow Unit :=
  if pod.phase = .failed ∧ some sigKillExitCode ∈ pod.exitCodes then send (.eventf pod) else return

def reconcile (s : Syncer) (ns name : String) : PodFlow (Except GetError Unit) := do
  match ← send (.getPod ns name) with
  | .error .notFound => return .ok ()
  | .error .unavailable => return .error .unavailable
  | .ok pod => do
    syncPod s pod
    warn pod
    return .ok ()

end PodReconciler

/-- Runs a flow alone on a node; the outcome of a request depends on the request. -/
def PodFlow.exec {α : Type} (s : Syncer) (outcome : PodRequest → Option Nat) (flow : PodFlow α) (world : PodWorld) : α × PodWorld :=
  Program.exec (fun world request => world.serve s request) outcome flow world

/-- Runs a flow alone on a node; each request has an outcome of its own. -/
def PodFlow.play {α : Type} (s : Syncer) (outcomes : Nat → Option Nat) (flow : PodFlow α) (world : PodWorld) : α × PodWorld :=
  Program.play (fun world request => world.serve s request) flow outcomes world

/-- What happens on a node, one after the other; the requests of an activity have the
outcomes of the sequence. -/
inductive Activity where
  | pod (ns name : String) (outcomes : Nat → Option Nat)
  | job (job : Job) (outcomes : Nat → Option Nat)
  | cgroups (podUID : String) (answer : Option (List CgroupInfo))
  | objects (objects : List PodObject)
  | drift (change : Change)

def PodWorld.step (s : Syncer) (world : PodWorld) : Activity → PodWorld
  | .pod ns name outcomes => (PodFlow.play s outcomes (PodReconciler.reconcile s ns name) world).2
  | .job job outcomes => (PodFlow.play s outcomes (job.body s).lift world).2
  | .cgroups podUID answer => { world with underlying := Function.update world.underlying podUID answer }
  | .objects objects => { world with objects }
  | .drift change => { world with cluster := world.cluster.drift change }

end QuotaManager
