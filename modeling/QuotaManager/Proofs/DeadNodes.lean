import QuotaManager.Proofs.Reclaim
import QuotaManager.Proofs.RepeatedRequest

/-! Credits of dead nodes come back. A heartbeat stands for the node in its name, and
only that node renews it, while it is active. So a node that has been inactive for
`leaseDurationSeconds` has no recent heartbeat, and the next renewal tick of any other
node that runs undisturbed takes its credits in every namespace. -/

namespace QuotaManager
open Enforcer

/-- The lease is the heartbeat of the node that holds it. -/
def Lease.Named (lease : Lease) : Prop :=
  ∃ m : K8sLeaseManager, lease.name = m.leaseName lease.ns ∧ lease.holderIdentity = some m.nodeID

theorem leaseName_injective {m other : K8sLeaseManager} {ns : String} (same : m.leaseName ns = other.leaseName ns) :
    m.nodeID = other.nodeID := by
  have letters := congrArg String.toList same
  simp only [K8sLeaseManager.leaseName, String.toList_append] at letters
  exact String.toList_inj.mp (List.append_cancel_left letters)

theorem Lease.Named.holder {lease : Lease} (named : lease.Named) {m : K8sLeaseManager} (own : lease.name = m.leaseName lease.ns) :
    lease.holderIdentity = some m.nodeID := by
  obtain ⟨other, name, holder⟩ := named
  rw [holder, leaseName_injective (own.symm.trans name)]

/-- Heartbeats are named after their nodes, which were active when they renewed them. -/
structure HonestBeats (world : Cluster) : Prop where
  named : ∀ lease ∈ world.leases, lease.Named
  backed : ∀ lease ∈ world.leases, ∀ node ∈ lease.holderIdentity, ∀ renewed ∈ lease.renewTime,
    ∃ time ∈ world.active node lease.ns, renewed ≤ time
  past : ∀ node ns, ∀ time ∈ world.active node ns, time ≤ world.now

/-- Who beats is alive. -/
theorem HonestBeats.alive {world : Cluster} (honest : HonestBeats world) {ns node : String} (beats : Beats world ns node) :
    Alive world ns node := by
  obtain ⟨lease, listed, rfl, holder, renewed, renewal, recent⟩ := beats
  obtain ⟨time, active, later⟩ := honest.backed lease listed node holder renewed renewal
  refine ⟨time, active, ?_⟩
  unfold Recent at *
  omega

/-- Heartbeats are created and renewed by their own nodes, with a clock that was read before. -/
def BeatRule (owner : Syncer) (past : List Seen) : Request → Prop
  | .createLease lease => ∃ m state now, owner.leaser = some m ∧ (⟨state, .clock, now⟩ : Seen) ∈ past ∧
      lease.name = m.leaseName lease.ns ∧ lease.holderIdentity = some m.nodeID ∧ lease.renewTime = some now
  | .updateLease lease => ∃ m state now earlier ns existing, owner.leaser = some m ∧ (⟨state, .clock, now⟩ : Seen) ∈ past ∧
      (⟨earlier, .getLease ns (m.leaseName ns), some existing⟩ : Seen) ∈ past ∧
      lease = { existing with renewTime := some now }
  | _ => True

/-- A reading of the clock stays in the past, and a lease that was read keeps its holder. -/
def BeatTold : Seen → Cluster → Prop
  | ⟨_, .clock, now⟩, world => now ≤ world.now
  | ⟨_, .getLease ns name, some existing⟩, _ => existing.ns = ns ∧ existing.name = name ∧ existing.Named
  | _, _ => True

section obeys
variable {s : Syncer} {m : K8sLeaseManager} (own : s.leaser = some m)

def Request.beats : Request → Bool
  | .createLease _ | .updateLease _ => true
  | _ => false

theorem obeys_of_asks {α : Type} {program : Action α} (asks : program.Asks fun request => request.beats = false)
    (past : List Seen) : program.Obeys (BeatRule s) (fun _ _ => True) past := by
  induction program generalizing past with
  | done value => trivial
  | ask request next ih =>
    refine ⟨?_, fun state answer => ih answer (asks.2 answer) _⟩
    have quiet := asks.1
    cases request with
    | createLease | updateLease => cases quiet
    | _ => trivial

include own

theorem ensureLease_beats (ns : String) (past : List Seen) :
    (m.ensureLease ns).Obeys (BeatRule s) (fun _ _ => True) past := by
  refine ⟨trivial, fun state now => ⟨trivial, fun earlier existing => ?_⟩⟩
  cases existing with
  | none =>
    exact ⟨⟨m, state, now, own, List.mem_cons_of_mem _ List.mem_cons_self, rfl, rfl, rfl⟩, fun _ _ => trivial⟩
  | some existing =>
    refine ⟨⟨m, state, now, earlier, ns, existing, own, ?_, List.mem_cons_self, rfl⟩, fun _ _ => trivial⟩
    exact List.mem_cons_of_mem _ List.mem_cons_self

theorem requestFD_beats (quota : ObjectQuota) (ns nodeID : String) (requested : Int64) (past : List Seen) :
    (m.requestFD quota ns nodeID requested).Obeys (BeatRule s) (fun _ _ => True) past := by
  unfold K8sLeaseManager.requestFD
  split
  · exact (ensureLease_beats own ns past).bind fun _ _ _ => trivial
  · split
    · exact (ensureLease_beats own ns past).bind fun _ _ _ => trivial
    · refine ⟨trivial, fun _ committed => ?_⟩
      cases committed with
      | false => trivial
      | true => exact (ensureLease_beats own ns _).bind fun _ _ _ => trivial

theorem requestLease_beats (ns nodeID : String) (requested : Int64) (past : List Seen) :
    (m.requestLease ns nodeID requested).Obeys (BeatRule s) (fun _ _ => True) past := by
  unfold K8sLeaseManager.requestLease
  simp only
  split
  · trivial
  · refine ⟨trivial, fun _ reply => ?_⟩
    cases reply with
    | none => trivial
    | some quota =>
      simp only [Program.done_bind]
      split
      · apply obeys_of_asks
        unfold K8sLeaseManager.requestProc
        split
        · trivial
        · split
          · trivial
          · refine ⟨rfl, fun committed => ?_⟩
            cases committed <;> trivial
      · exact requestFD_beats own _ _ _ _ _

omit own in
theorem releaseLease_beats (m : K8sLeaseManager) (ns nodeID : String) :
    (m.releaseLease ns nodeID).Asks fun request => request.beats = false := by
  unfold K8sLeaseManager.releaseLease
  refine ⟨rfl, fun reply => ?_⟩
  cases reply with
  | none => trivial
  | some quota =>
    simp only [Program.done_bind]
    split
    · unfold K8sLeaseManager.releaseProc
      split
      · trivial
      · refine ⟨rfl, fun committed => ?_⟩
        cases committed <;> trivial
    · unfold K8sLeaseManager.releaseFD
      split
      · trivial
      · refine ⟨rfl, fun committed => ?_⟩
        cases committed with
        | false => trivial
        | true => exact ⟨rfl, fun _ => trivial⟩

omit own in
theorem reclaimExpiredLeases_beats (m : K8sLeaseManager) (ns : String) :
    (m.reclaimExpiredLeases ns).Asks fun request => request.beats = false := by
  unfold K8sLeaseManager.reclaimExpiredLeases
  refine ⟨rfl, fun reply => ?_⟩
  cases reply with
  | none => trivial
  | some quota =>
    refine ⟨rfl, fun reply => ?_⟩
    cases reply with
    | none => trivial
    | some leases =>
      refine ⟨rfl, fun now => ?_⟩
      simp only [Program.done_bind]
      split
      · trivial
      · refine ⟨rfl, fun committed => ?_⟩
        cases committed <;> trivial

theorem renewAll_beats (items : List ObjectQuota) (past : List Seen) :
    (m.renewAll items).Obeys (BeatRule s) (fun _ _ => True) past := by
  induction items generalizing past with
  | nil => trivial
  | cons quota rest ih =>
    apply (ensureLease_beats own quota.ns past).bind
    intro _ later _
    apply (obeys_of_asks (reclaimExpiredLeases_beats m quota.ns) later).bind
    intro _ later _
    exact ih later

omit own in
theorem sync_beats (resource : Resource) (ns : String) (limit : Int64) (batchSize : Option Int64) :
    (s.sync resource ns limit batchSize).Obeys (BeatRule s) (fun _ _ => True) [] := by
  have effective : (s.effectiveLimit resource ns limit batchSize).Obeys (BeatRule s) (fun _ _ => True) [] := by
    unfold Syncer.effectiveLimit
    split
    · trivial
    next own =>
      apply (requestLease_beats own _ _ _ _).bind
      intro granted _ _
      cases granted <;> trivial
  apply effective.bind
  intro limit later _
  apply obeys_of_asks
  refine ⟨rfl, fun written => ?_⟩
  cases written with
  | false => trivial
  | true =>
    refine ⟨rfl, fun existing => ⟨rfl, fun written => ?_⟩⟩
    cases written with
    | false => trivial
    | true =>
      refine ⟨rfl, fun listed => ?_⟩
      cases listed with
      | none => trivial
      | some pods =>
        refine ⟨rfl, fun mapped => ?_⟩
        cases mapped <;> trivial

omit own in
theorem body_beats (s : Syncer) (operation : Operation) :
    (operation.body s).Obeys (BeatRule s) (fun _ _ => True) [] := by
  cases operation with
  | syncNamespace ns limit batchSize => exact (sync_beats .fd ns limit batchSize).bind fun _ _ _ => trivial
  | syncProcessNamespace ns limit batchSize => exact (sync_beats .proc ns limit batchSize).bind fun _ _ _ => trivial
  | scanAndMapCgroups ns cInfos =>
    apply obeys_of_asks
    refine ⟨rfl, fun existing => ?_⟩
    cases existing with
    | none => trivial
    | some existing => exact ⟨rfl, fun _ => trivial⟩
  | requestLease ns nodeID requested =>
    simp only [Operation.body]
    split
    · trivial
    next own => exact (requestLease_beats own ns nodeID requested []).bind fun _ _ _ => trivial
  | releaseLease ns nodeID =>
    simp only [Operation.body]
    split
    · trivial
    next m _ => exact (obeys_of_asks (releaseLease_beats m ns nodeID) []).bind fun _ _ _ => trivial
  | reclaimExpiredLeases ns =>
    simp only [Operation.body]
    split
    · trivial
    next m _ => exact (obeys_of_asks (reclaimExpiredLeases_beats m ns) []).bind fun _ _ _ => trivial
  | renewalTick =>
    simp only [Operation.body]
    split
    · trivial
    next own =>
      refine ⟨trivial, fun _ items => ?_⟩
      cases items with
      | none => trivial
      | some items => exact renewAll_beats own items _

end obeys

section honest
variable {world : Cluster}

theorem HonestBeats.of_same (honest : HonestBeats world) {after : Cluster} (leases : after.leases = world.leases)
    (active : after.active = world.active) (now : world.now ≤ after.now) : HonestBeats after := by
  refine ⟨?_, ?_, ?_⟩
  · rw [leases]
    exact honest.named
  · rw [leases, active]
    exact honest.backed
  · rw [active]
    exact fun node ns time member => Int.le_trans (honest.past node ns time member) now

theorem HonestBeats.noteActive (honest : HonestBeats world) (node ns : String) : HonestBeats (world.noteActive node ns) := by
  refine ⟨honest.named, fun lease listed holder held renewed renewal => ?_, fun other key time member => ?_⟩
  · obtain ⟨time, active, later⟩ := honest.backed lease listed holder held renewed renewal
    by_cases own : holder = node ∧ lease.ns = ns
    · exact ⟨world.now, if_pos own, Int.le_trans later (honest.past _ _ time active)⟩
    · exact ⟨time, (if_neg own).trans active, later⟩
  · by_cases own : other = node ∧ key = ns
    · have here : (world.noteActive node ns).active other key = some world.now := if_pos own
      rw [here] at member
      exact Int.le_of_eq (Option.some.inj member).symm
    · have here : (world.noteActive node ns).active other key = world.active other key := if_neg own
      rw [here] at member
      exact honest.past other key time member

/-- A heartbeat that its own node has just renewed. -/
theorem HonestBeats.renewed (honest : HonestBeats world) {m : K8sLeaseManager} {lease : Lease} {renewed : Int}
    (name : lease.name = m.leaseName lease.ns) (holder : lease.holderIdentity = some m.nodeID)
    (renewal : lease.renewTime = some renewed) (past : renewed ≤ world.now) {after : Cluster}
    (leases : ∀ other ∈ after.leases, other ∈ world.leases ∨ ∃ version, other = { lease with resourceVersion := version })
    (active : after.active = (world.noteActive m.nodeID lease.ns).active) (now : after.now = world.now) : HonestBeats after := by
  have noted := honest.noteActive m.nodeID lease.ns
  refine ⟨fun other listed => ?_, fun other listed node held time renews => ?_, ?_⟩
  · rcases leases other listed with old | ⟨version, rfl⟩
    · exact honest.named other old
    · exact ⟨m, name, holder⟩
  · rw [active]
    rcases leases other listed with old | ⟨version, rfl⟩
    · exact noted.backed other old node held time renews
    · obtain rfl : m.nodeID = node := Option.some.inj (holder.symm.trans held)
      obtain rfl : renewed = time := Option.some.inj (renewal.symm.trans renews)
      exact ⟨world.now, if_pos ⟨rfl, rfl⟩, past⟩
  · rw [active, now]
    exact noted.past

theorem serve_now (world : Cluster) (owner : Syncer) (request : Request) (fault : Option Nat) :
    (world.serve owner request fault).2.now = world.now := by
  cases request with
  | updateStatus writer quota =>
    simp only [Cluster.serve]
    split
    · rfl
    · split
      · dsimp only
        split <;> rfl
      · rfl
  | updateLease lease =>
    simp only [Cluster.serve]
    split
    · rfl
    · split <;> rfl
  | createLease | deleteLease | updateNsLimit | updateNsCounter =>
    simp only [Cluster.serve]
    split <;> rfl
  | getQuota | listQuotas | getLease | listLeases | clock | listPods | lookupNsCounter | mapPods | tracked | mapScanned => rfl

theorem HonestBeats.serve (honest : HonestBeats world) {owner : Syncer} {past : List Seen} {request : Request}
    (told : ∀ seen ∈ past, BeatTold seen world) (ruled : BeatRule owner past request) (fault : Option Nat) :
    HonestBeats (world.serve owner request fault).2 := by
  have now := Int.le_of_eq (serve_now world owner request fault).symm
  cases request with
  | updateStatus writer quota =>
    simp only [Cluster.serve] at now ⊢
    split
    · exact honest
    · split
      · dsimp only
        have committed : HonestBeats (world.commitStatus writer quota) := honest.of_same rfl rfl (Int.le_refl _)
        split
        · exact committed.noteActive _ _
        · exact committed
      · exact honest
  | getLease ns name => exact honest.noteActive _ _
  | createLease lease =>
    obtain ⟨m, state, renewed, own, clock, name, holder, renewal⟩ := ruled
    have identity : owner.identity = m.nodeID := by simp only [Syncer.identity, own]
    simp only [Cluster.serve, identity]
    split
    · refine honest.renewed name holder renewal (told _ clock) (fun other listed => ?_) rfl rfl
      rcases List.mem_append.mp listed with old | new
      · exact .inl old
      · exact .inr ⟨_, List.mem_singleton.mp new⟩
    · exact honest.noteActive _ _
  | updateLease lease =>
    obtain ⟨m, state, renewed, earlier, ns, existing, own, clock, read, rfl⟩ := ruled
    obtain ⟨sameNs, sameName, named⟩ : existing.ns = ns ∧ existing.name = m.leaseName ns ∧ existing.Named := told _ read
    have name : existing.name = m.leaseName existing.ns := sameNs ▸ sameName
    have identity : owner.identity = m.nodeID := by simp only [Syncer.identity, own]
    simp only [Cluster.serve, identity]
    split
    · exact honest.noteActive _ _
    · split
      · refine @HonestBeats.renewed _ honest m { existing with renewTime := some renewed } renewed name (named.holder name) rfl
          (told _ clock) _ (fun other listed => ?_) rfl rfl
        obtain ⟨stored, old, rfl⟩ := List.mem_map.mp listed
        split
        · exact .inr ⟨_, rfl⟩
        · exact .inl old
      · exact honest.noteActive _ _
  | deleteLease ns name =>
    simp only [Cluster.serve]
    split
    · exact honest
    · exact ⟨fun lease listed => honest.named lease (List.mem_filter.mp listed).1,
        fun lease listed => honest.backed lease (List.mem_filter.mp listed).1, honest.past⟩
  | updateNsLimit | updateNsCounter =>
    simp only [Cluster.serve]
    split
    · exact honest
    · exact honest.of_same rfl rfl (Int.le_refl _)
  | getQuota | listQuotas | listLeases | clock | listPods | lookupNsCounter | mapPods | tracked | mapScanned =>
    exact honest.of_same rfl rfl (Int.le_refl _)

theorem beatTold_fresh (honest : HonestBeats world) (owner : Syncer) (request : Request) (fault : Option Nat) :
    BeatTold ⟨world, request, (world.serve owner request fault).1⟩ world := by
  cases request with
  | clock => exact Int.le_refl _
  | getLease ns name =>
    cases fault with
    | some fault => trivial
    | none =>
      cases found : world.lease ns name with
      | none => simp [Cluster.serve, found, BeatTold]
      | some existing =>
        obtain ⟨sameNs, sameName⟩ := Cluster.lease_named ns world found
        have named := honest.named existing (List.mem_of_find?_eq_some found)
        simp [Cluster.serve, found, BeatTold, sameNs, sameName, named]
  | _ => trivial

theorem BeatTold.later {before after : Cluster} (now : before.now ≤ after.now) {seen : Seen} (told : BeatTold seen before) :
    BeatTold seen after := by
  unfold BeatTold at *
  split
  · exact Int.le_trans told now
  · exact told
  · trivial

end honest

/-- Heartbeats are honest whatever is started, fails or changes around. -/
def beating : Machine.Discipline deployment where
  allowed _ _ := True
  served _ _ _ := True
  drifts _ _ := True
  sound := HonestBeats
  rule := BeatRule
  told _ := BeatTold
  obeys s operation _ := body_beats s operation
  serving world owner past request fault honest told ruled _ := by
    have now := Int.le_of_eq (serve_now world owner request fault).symm
    exact ⟨honest.serve told ruled fault, (beatTold_fresh honest owner request fault).later now, fun _ _ => BeatTold.later now⟩
  drifting world change honest _ := by
    have now : world.now ≤ (world.drift change).now := by
      cases change with
      | tick elapsed => exact Int.le_add_of_nonneg_right (Int.natCast_nonneg elapsed)
      | _ => exact Int.le_refl _
    refine ⟨?_, fun _ _ => BeatTold.later now⟩
    cases change <;> exact honest.of_same rfl rfl now

/-- What a renewal tick of another node meets while it runs alone: a quota of the
namespace, and no sign of the node. -/
structure Silent (ns node : String) (world : Cluster) : Prop where
  honest : HonestBeats world
  dead : ¬ Alive world ns node
  stored : ∃ quota, world.quota ns ns = some quota

/-- The node has no credits left in the namespace. -/
def Cleared (ns node : String) (world : Cluster) : Prop :=
  ∃ quota, world.quota ns ns = some quota ∧ node ∉ quota.status.fdAllocations ∧ node ∉ quota.status.procAllocations

section tick
variable {s : Syncer} {m : K8sLeaseManager} {ns node : String} {world : Cluster} {outcome : Request → Option Nat}

/-- The requests of a node are no sign of life of another one. -/
theorem serve_active (other : node ≠ s.identity) (request : Request) (fault : Option Nat) :
    (world.serve s request fault).2.active node ns = world.active node ns := by
  have noted (later : Cluster) (key : String) : (later.noteActive s.identity key).active node ns = later.active node ns :=
    if_neg fun same => other same.1
  cases request with
  | updateStatus writer quota =>
    simp only [Cluster.serve]
    split
    · rfl
    · split
      · dsimp only
        split
        · exact noted _ _
        · rfl
      · rfl
  | getLease key name => exact noted world key
  | createLease lease =>
    simp only [Cluster.serve]
    split <;> exact noted world lease.ns
  | updateLease lease =>
    simp only [Cluster.serve]
    split
    · exact noted world lease.ns
    · split <;> exact noted world lease.ns
  | deleteLease | updateNsLimit | updateNsCounter =>
    simp only [Cluster.serve]
    split <;> rfl
  | getQuota | listQuotas | listLeases | clock | listPods | lookupNsCounter | mapPods | tracked | mapScanned => rfl

theorem serve_stored (stored : ∃ quota, world.quota ns ns = some quota) (request : Request) (fault : Option Nat) :
    ∃ quota, (world.serve s request fault).2.quota ns ns = some quota := by
  obtain ⟨quota, found⟩ := stored
  rcases serve_quotas world s request fault with same | ⟨writer, written, _, commits⟩
  · exact ⟨quota, (same.quota ns ns).trans found⟩
  · rw [commits.written.quota, Cluster.quota_commitStatus, found]
    exact ⟨_, rfl⟩

/-- What another node does alone gives no sign of life. -/
theorem Silent.exec (silent : Silent ns node world) (other : node ≠ s.identity) {α : Type} {action : Action α}
    (obeys : action.Obeys (BeatRule s) (fun _ _ => True) []) : Silent ns node (action.exec s outcome world).2 := by
  have kept : HonestBeats (action.exec s outcome world).2 := beating.exec_sound obeys (fun _ _ => trivial) silent.honest
    fun _ impossible => absurd impossible List.not_mem_nil
  obtain ⟨active, now, stored⟩ : (action.exec s outcome world).2.active node ns = world.active node ns ∧
      (action.exec s outcome world).2.now = world.now ∧ ∃ quota, (action.exec s outcome world).2.quota ns ns = some quota := by
    refine action.exec_kept (fun later : Cluster => later.active node ns = world.active node ns ∧ later.now = world.now ∧
      ∃ quota, later.quota ns ns = some quota) ?_ ⟨rfl, rfl, silent.stored⟩
    rintro later request ⟨active, now, stored⟩
    exact ⟨(serve_active other request _).trans active, (serve_now later s request _).trans now, serve_stored stored request _⟩
  refine ⟨kept, ?_, stored⟩
  unfold Alive
  rw [active, now]
  exact silent.dead

theorem exec_reclaim (s : Syncer) (outcome : Request → Option Nat) (m : K8sLeaseManager) (key : String) (world : Cluster) :
    Updates key .reclaim (fun _ _ => True) world (Action.exec s outcome (m.reclaimExpiredLeases key) world).2 := by
  unfold K8sLeaseManager.reclaimExpiredLeases
  rw [Action.exec_bind, Action.exec_perform]
  simp only [Cluster.serve]
  split
  · exact .inl (.refl world)
  next quota read =>
    have found : world.quota key key = some quota := by
      split at read
      · cases read
      · exact read
    rw [Action.exec_bind, Action.exec_perform]
    simp only [Cluster.serve]
    split
    · exact .inl (.refl world)
    · rw [Action.exec_bind, Action.exec_perform]
      simp only [Cluster.serve]
      split
      · exact .inl (.refl world)
      · apply exec_commits s outcome found trivial
        intro answer later
        cases answer <;> exact .refl later

theorem Updates.elsewhere {key : String} {writer : Writer} {makes : ObjectQuota → ObjectQuotaStatus → Prop} {before after : Cluster}
    (updates : Updates key writer makes before after) (different : ns ≠ key) : after.quota ns ns = before.quota ns ns := by
  rcases updates with same | ⟨quota, status, found, _, written⟩
  · exact same.quota ns ns
  · obtain ⟨rfl, _⟩ := Cluster.quota_named found
    rw [written.quota, Cluster.quota_commitStatus]
    simp only [different, false_and, ↓reduceIte, Option.map_id']

/-- The calls that a reclaim of the namespace makes succeed; all others may fail. -/
structure Reaches (outcome : Request → Option Nat) (ns : String) : Prop where
  reads : outcome (.getQuota ns ns) = none
  lists : outcome (.listLeases ns) = none
  updates : ∀ quota, quota.ns = ns → outcome (.updateStatus .reclaim quota) = none

/-- A reclaim of the namespace clears a silent node. -/
theorem Silent.reclaimed (silent : Silent ns node world) (other : node ≠ m.nodeID) (reaches : Reaches outcome ns) :
    Cleared ns node (Action.exec s outcome (m.reclaimExpiredLeases ns) world).2 := by
  obtain ⟨quota, found⟩ := silent.stored
  have own : quota.ns = ns := (Cluster.quota_named found).1
  obtain ⟨_, stored, after, reclaimed⟩ := (reclaim_exact s m found reaches.reads reaches.lists).1 fun _ => reaches.updates _ own
  have inactive : ¬ Beats world ns node := fun beats => silent.dead (silent.honest.alive beats)
  refine ⟨stored, after, ?_, ?_⟩
  · exact AList.lookup_eq_none.mp (reclaimed.fd.leaves node other inactive)
  · exact AList.lookup_eq_none.mp (reclaimed.proc.leaves node other inactive)

theorem Silent.renewAll (own : s.leaser = some m) (other : node ≠ m.nodeID) (reaches : Reaches outcome ns) (items : List ObjectQuota)
    (silent : Silent ns node world) (listed : (∃ item ∈ items, item.ns = ns) ∨ Cleared ns node world) :
    Cleared ns node (Action.exec s outcome (m.renewAll items) world).2 := by
  have away : node ≠ s.identity := by simpa only [Syncer.identity, own] using other
  induction items generalizing world with
  | nil =>
    rcases listed with ⟨_, impossible, _⟩ | cleared
    · cases impossible
    · exact cleared
  | cons item rest ih =>
    simp only [K8sLeaseManager.renewAll, Action.exec_bind]
    let first := (Action.exec s outcome (m.ensureLease item.ns) world).2
    have same : SameQuotas world first := sameQuotas_exec (ensureLease_offQuotas m item.ns) world
    have renewed : Silent ns node first := silent.exec away (ensureLease_beats own item.ns [])
    have quiet : Silent ns node (Action.exec s outcome (m.reclaimExpiredLeases item.ns) first).2 :=
      renewed.exec away (obeys_of_asks (reclaimExpiredLeases_beats m item.ns) [])
    refine ih quiet ?_
    by_cases here : item.ns = ns
    · subst here
      exact .inr (renewed.reclaimed other reaches)
    · have elsewhere := Updates.elsewhere (exec_reclaim s outcome m item.ns first) (Ne.symm here)
      rcases listed with ⟨wanted, member, named⟩ | ⟨quota, found, gone⟩
      · rcases List.mem_cons.mp member with rfl | later
        · exact absurd named here
        · exact .inl ⟨wanted, later, named⟩
      · exact .inr ⟨quota, elsewhere.trans ((same.quota ns ns).trans found), gone⟩

end tick

end QuotaManager
