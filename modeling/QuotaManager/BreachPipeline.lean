import QuotaManager.BreachWatcher
import QuotaManager.Syncer

/-! The way of a breach: a kernel program submits a record to the ring buffer `events`, the
watcher of `syncer.go` takes it out, counts a rejection and kills. The controllers edit
the same node meanwhile. -/

namespace QuotaManager
open Enforcer

/-- `rejected` are the counters `FDRejected` and `ProcRejected` by namespace, `killed` the
paths that were passed to `KillCgroupProcs`. -/
structure Pipeline where
  node : Node
  events : List (List UInt8)
  rejected : Resource → String → Nat
  killed : List String

/-- Controllers may do anything to the node. A read is one round of `StartBreachWatcher`: it
fails or takes the oldest record. -/
inductive PipelineEvent where
  | kernel (event : KernelEvent)
  | controller (node : Node)
  | read (fails : Bool)

namespace Pipeline

def empty (node : Node) : Pipeline := ⟨node, [], fun _ _ => 0, []⟩

/-- The effects of `handleBreachEvent`. -/
def handle (pipeline : Pipeline) (handled : Handled) : Pipeline :=
  { pipeline with
    rejected := fun resource ns =>
      if handled.rejected = some (resource, ns) then pipeline.rejected resource ns + 1 else pipeline.rejected resource ns
    killed := pipeline.killed ++ handled.killed.toList }

/-- A record that is no event is dropped. -/
def received (pipeline : Pipeline) (sample : List UInt8) : Pipeline :=
  match watch sample with
  | none => pipeline
  | some evt => pipeline.handle (handleBreachEvent pipeline.node evt)

def step (host : ByteOrder) (pipeline : Pipeline) : PipelineEvent → Pipeline
  | .kernel event =>
    let (reaction, bpf) := react pipeline.node.bpf event
    { pipeline with
      node := { pipeline.node with bpf }
      events := pipeline.events ++ (reaction.emitted.map (·.record host)).toList }
  | .controller node => { pipeline with node }
  | .read fails =>
    if fails then pipeline else
      match pipeline.events with
      | [] => pipeline
      | sample :: rest => { pipeline with events := rest }.received sample

end Pipeline

end QuotaManager
