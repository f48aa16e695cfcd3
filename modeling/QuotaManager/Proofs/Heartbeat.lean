import QuotaManager.Proofs.StatusUpdate

/-! Heartbeats against reclaims. A reclaim goes by the heartbeat leases that it has
listed, and a node may hold credits and be at work without one: `requestProc` never
writes a heartbeat, `requestFD` writes it only after its update, and `releaseFD`
deletes it although process credits may remain. -/

namespace QuotaManager
open Enforcer

/-- Less than `leaseDurationSeconds` ago. -/
abbrev Recent (now time : Int) : Prop := now - time < leaseDurationSeconds * second

/-- The node has recently committed a request for the namespace or worked on its
heartbeat there. -/
def Alive (world : Cluster) (ns node : String) : Prop :=
  ∃ time ∈ world.active node ns, Recent world.now time

instance (world : Cluster) (ns node : String) : Decidable (Alive world ns node) :=
  inferInstanceAs (Decidable (∃ time ∈ world.active node ns, Recent world.now time))

/-- The node holds a heartbeat among the leases that is recent at the time. -/
def HoldsBeat (leases : List Lease) (now : Int) (ns node : String) : Prop :=
  ∃ lease ∈ leases, lease.ns = ns ∧ lease.holderIdentity = some node ∧ ∃ renewed ∈ lease.renewTime, Recent now renewed

/-- The node has a recent heartbeat in the namespace. -/
def Beats (world : Cluster) (ns node : String) : Prop := HoldsBeat world.leases world.now ns node

/-- A committed reclaim: who ran it for which namespace, the state in which it listed
the leases, the clock as it read it afterwards, and the status before and after. -/
structure Reclaim where
  caller : String
  ns : String
  listed : Cluster
  now : Int
  before : ObjectQuotaStatus
  after : ObjectQuotaStatus

namespace Reclaim
variable (reclaim : Reclaim) (node : String)

abbrev Credited : Prop := node ∈ reclaim.before.fdAllocations ∨ node ∈ reclaim.before.procAllocations

abbrev Deprived : Prop :=
  node ∈ reclaim.before.fdAllocations ∧ node ∉ reclaim.after.fdAllocations ∨
    node ∈ reclaim.before.procAllocations ∧ node ∉ reclaim.after.procAllocations

/-- No other node that was alive when the leases were listed loses credits. -/
def SparesAlive : Prop :=
  ∀ node, node ≠ reclaim.caller → reclaim.Deprived node → ¬ Alive reclaim.listed reclaim.ns node

/-- The list has a heartbeat of the node that is recent when the clock is read. -/
abbrev Beating : Prop := HoldsBeat reclaim.listed.leases reclaim.now reclaim.ns node

/-- Every other node with credits that was alive when the leases were listed had a
heartbeat then, and one that is still recent when the clock is read. -/
def AllBeat : Prop :=
  ∀ node, node ≠ reclaim.caller → reclaim.Credited node → Alive reclaim.listed reclaim.ns node → reclaim.Beating node

end Reclaim

abbrev Served := Turn Cluster Syncer Request Request.Reply

/-- A reclaim that the API server takes. -/
def commitsReclaim (turn : Served) : Bool :=
  match turn.exchange with
  | ⟨_, .updateStatus .reclaim _, answer⟩ => answer
  | _ => false

def reclaimOf (turn : Served) : Option Reclaim :=
  match turn.exchange, turn.past with
  | ⟨state, .updateStatus .reclaim quota, true⟩, ⟨clocked, .clock, _⟩ :: ⟨listed, .listLeases ns, _⟩ :: _ =>
    (state.quota quota.ns quota.name).map fun stored =>
      ⟨turn.owner.identity, ns, listed, clocked.now, stored.status, quota.status⟩
  | _, _ => none

theorem activeNodes_iff (leases : List Lease) (now : Int) (ns node : String) :
    activeNodes (leases.filter fun lease => lease.ns = ns) now node = true ↔ HoldsBeat leases now ns node := by
  simp only [activeNodes, List.any_eq_true, List.mem_filter, decide_eq_true_eq, Option.any_eq_true, HoldsBeat, Option.mem_def]
  constructor
  · rintro ⟨lease, ⟨listed, sameNs⟩, ⟨renewed, time, recent⟩, holder⟩
    exact ⟨lease, listed, sameNs, holder, renewed, time, recent⟩
  · rintro ⟨lease, listed, sameNs, holder, renewed, time, recent⟩
    exact ⟨lease, ⟨listed, sameNs⟩, ⟨renewed, time, recent⟩, holder⟩

/-- A reclaim takes everything from the other nodes without a heartbeat, and from them only. -/
theorem deprived_iff {read : ObjectQuota} {listed : Cluster} {now : Int} {caller ns node : String} {status : ObjectQuotaStatus}
    (computed : (reclaimed read caller (activeNodes (listed.leases.filter fun lease => lease.ns = ns) now)).value = some status)
    (other : node ≠ caller) :
    let reclaim : Reclaim := ⟨caller, ns, listed, now, read.status, status⟩
    reclaim.Deprived node ↔ reclaim.Credited node ∧ ¬ reclaim.Beating node := by
  intro reclaim
  rw [← show _ ↔ reclaim.Beating node from activeNodes_iff listed.leases now ns node]
  simp only [reclaimed] at computed
  split at computed
  · simp only [Checked.bind_value, Checked.pure_value, Option.some.injEq] at computed
    subst computed
    simp only [reclaim, Reclaim.Deprived, Reclaim.Credited, Holdings.mem_retain, other, false_or, Bool.decide_eq_true]
    grind
  · simp only [Checked.pure_value, reduceCtorEq] at computed

/-- Every committed reclaim goes by a complete list of the leases and the clock that it
reads next, and acts on the status that is stored. -/
theorem reclaim_recorded {turn : Served} (recorded : protocol.Recorded turn) (committed : commitsReclaim turn = true) :
    ∃ reclaim, reclaimOf turn = some reclaim ∧ ∀ node, node ≠ reclaim.caller →
      (reclaim.Deprived node ↔ reclaim.Credited node ∧ ¬ reclaim.Beating node) := by
  obtain ⟨_, told, ruled, outcome, _, answered⟩ := recorded
  obtain ⟨state, quota, exchange⟩ : ∃ state quota, turn.exchange = ⟨state, .updateStatus .reclaim quota, true⟩ := by
    unfold commitsReclaim at committed
    split at committed
    next state quota answer exchange => exact ⟨state, quota, by rw [exchange, committed]⟩
    · cases committed
  rw [exchange] at told ruled answered
  obtain ⟨clocked, now, listed, leases, first, ns, read, older, past, same, computed⟩ := ruled.2 rfl
  rw [past] at told
  obtain ⟨clock_told, before⟩ := List.forall_mem_cons.mp told
  obtain ⟨list_told, earlier⟩ := List.forall_mem_cons.mp before
  obtain rfl : now = clocked.now := clock_told
  obtain rfl : leases = listed.leases.filter fun lease => lease.ns = ns := list_told
  have read_told : Told ⟨first, .getQuota ns ns, some read⟩ state := earlier _ List.mem_cons_self
  rcases serve_updateStatus state turn.owner .reclaim quota outcome with ⟨refused, _⟩ | ⟨_, commits⟩
  · cases answered.trans refused
  · have stored := commits.read_current read_told same
    refine ⟨⟨turn.owner.identity, ns, listed, clocked.now, read.status, quota.status⟩, ?_, fun node other => deprived_iff computed other⟩
    simp only [reclaimOf, exchange, past, stored, Option.map_some]

/-- In every run, a reclaim that is committed spares the nodes that were alive exactly
when every one of them with credits had a heartbeat that was recent enough. -/
theorem spares_alive_iff_all_beat {start : Cluster} (versioned : Versioned start) (choices : List Step)
    {turn : Served} (logged : turn ∈ (Trace.run deployment.step (Machine.boot start) choices).log)
    (committed : commitsReclaim turn = true) :
    ∃ reclaim, reclaimOf turn = some reclaim ∧ (reclaim.SparesAlive ↔ reclaim.AllBeat) := by
  have kept := Machine.Discipline.Kept.run protocol versioned (protocol_valid (Machine.boot start) choices)
  obtain ⟨reclaim, found, deprived⟩ := reclaim_recorded (kept.log turn logged) committed
  refine ⟨reclaim, found, ?_⟩
  constructor
  · intro spared node other credited alive
    by_contra silent
    exact spared node other ((deprived node other).mpr ⟨credited, silent⟩) alive
  · intro beating node other deprived_here alive
    obtain ⟨credited, silent⟩ := (deprived node other).mp deprived_here
    exact silent (beating node other credited alive)

/-- Node `a` leases processes and node `c` descriptors; then node `b` reclaims. -/
theorem spares_alive_iff_all_beat_heartbeat :
    let quota : ObjectQuota := ⟨"team", "team", 0, ⟨some 100, some 50, none⟩, .empty⟩
    let syncer (node : String) : Syncer := ⟨node, some (newK8sLeaseManager node 1000)⟩
    let choices : List Step := [.start (syncer "a") (.requestLease "team-proc" "a" 10), .turn 0 none, .turn 0 none,
      .start (syncer "c") (.requestLease "team" "c" 10), .turn 1 none, .turn 1 none, .turn 1 none, .turn 1 none, .turn 1 none,
      .start (syncer "b") (.reclaimExpiredLeases "team"), .turn 2 none, .turn 2 none, .turn 2 none, .turn 2 none]
    ∃ turn ∈ (Trace.run deployment.step (Machine.boot (.empty [quota])) choices).log,
      ∃ reclaim, reclaimOf turn = some reclaim ∧ (reclaim.SparesAlive ↔ reclaim.AllBeat) := by
  intro quota syncer choices
  have committed : ∃ turn ∈ (Trace.run deployment.step (Machine.boot (.empty [quota])) choices).log, commitsReclaim turn = true := by
    decide +kernel
  obtain ⟨turn, logged, committed⟩ := committed
  exact ⟨turn, logged, spares_alive_iff_all_beat (.empty (by decide)) choices logged committed⟩

/-- Node `a` leases processes, which leaves no heartbeat; node `b` reclaims them at once. -/
theorem alive_process_holder_deprived :
    let quota : ObjectQuota := ⟨"team", "team", 0, ⟨some 100, some 50, none⟩, .empty⟩
    let syncer (node : String) : Syncer := ⟨node, some (newK8sLeaseManager node 1000)⟩
    let choices : List Step := [.start (syncer "a") (.requestLease "team-proc" "a" 10), .turn 0 none, .turn 0 none,
      .start (syncer "b") (.reclaimExpiredLeases "team"), .turn 1 none, .turn 1 none, .turn 1 none, .turn 1 none]
    ∃ reclaim ∈ (Trace.run deployment.step (Machine.boot (.empty [quota])) choices).log.filterMap reclaimOf,
      ¬ reclaim.SparesAlive := by
  intro quota syncer choices
  have deprived : ∃ reclaim ∈ (Trace.run deployment.step (Machine.boot (.empty [quota])) choices).log.filterMap reclaimOf,
      "a" ≠ reclaim.caller ∧ reclaim.Deprived "a" ∧ Alive reclaim.listed reclaim.ns "a" := by decide +kernel
  obtain ⟨reclaim, logged, other, deprived, alive⟩ := deprived
  exact ⟨reclaim, logged, fun spared => spared "a" other deprived alive⟩

end QuotaManager
