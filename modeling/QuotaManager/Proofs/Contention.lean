import QuotaManager.Proofs.Heartbeat
import QuotaManager.Proofs.LeaseRequest

/-! Several nodes that update one quota. Their reads go to the API server itself, not to
a cache in front of it, and nobody edits the quota's spec. Then an update is only refused
when another one has been taken since the quota was read, so among updates that reach the
API server some update always gets on. And what a node was granted stays its own: nothing
but a release or a reclaim of that resource takes it away or changes the amount. -/

namespace QuotaManager
open Enforcer

/-- A quota that was read is stored as long as nobody has updated it since. -/
def Since : Seen → Cluster → Prop
  | ⟨state, .getQuota ns name, some read⟩, world =>
    read.ns = ns ∧ read.name = name ∧ state.writers ns name <:+ world.writers ns name ∧
      (world.writers ns name = state.writers ns name → world.quota ns name = some read)
  | _, _ => True

theorem SameQuotas.since {before after : Cluster} (same : SameQuotas before after) {seen : Seen} (since : Since seen before) :
    Since seen after := by
  unfold Since at *
  split
  next state ns name read =>
    rw [same.writers, same.quota]
    exact since
  · trivial

theorem Since.commitStatus {world : Cluster} {seen : Seen} (since : Since seen world) (writer : Writer) (quota : ObjectQuota) :
    Since seen (world.commitStatus writer quota) := by
  unfold Since at *
  split
  next state ns name read =>
    obtain ⟨sameNs, sameName, grown, current⟩ := since
    refine ⟨sameNs, sameName, ?_⟩
    by_cases own : ns = quota.ns ∧ name = quota.name
    · have writers : (world.commitStatus writer quota).writers ns name = writer :: world.writers ns name := if_pos own
      rw [writers]
      refine ⟨grown.trans (List.suffix_cons writer _), fun same => ?_⟩
      have := grown.length_le
      have := congrArg List.length same
      simp only [List.length_cons] at this
      omega
    · have writers : (world.commitStatus writer quota).writers ns name = world.writers ns name := if_neg own
      rw [writers, Cluster.quota_commitStatus]
      refine ⟨grown, fun same => ?_⟩
      simp only [current same, Option.map_some, own, ↓reduceIte]
  · trivial

theorem since_fresh (world : Cluster) (owner : Syncer) (request : Request) (fault : Option Nat) :
    Since ⟨world, request, (world.serve owner request fault).1⟩ world := by
  cases request with
  | getQuota ns name =>
    cases fault with
    | some fault => trivial
    | none =>
      cases found : world.quota ns name with
      | none => simp [Cluster.serve, found, Since]
      | some read =>
        obtain ⟨sameNs, sameName⟩ := Cluster.quota_named found
        simp [Cluster.serve, found, Since, sameNs, sameName]
  | _ => trivial

theorem body_allowed (s : Syncer) (operation : Operation) (_ : True) :
    (deployment.body s operation).Obeys (Rule (fun _ _ => True) s) (fun _ _ => True) [] :=
  body_obeys s operation fun _ _ _ => trivial

/-- Status updates reach the API server; any other request may fail. -/
def contended : Machine.Discipline deployment where
  allowed _ _ := True
  served _ request fault := request.writesStatus = true → fault = none
  drifts _ _ := True
  sound _ := True
  rule := Rule fun _ _ => True
  told _ := Since
  obeys := body_allowed
  serving world owner past request fault _ _ _ _ := by
    have fresh := since_fresh world owner request fault
    rcases serve_quotas world owner request fault with same | ⟨writer, quota, _, commits⟩
    · exact ⟨trivial, same.since fresh, fun _ _ since => same.since since⟩
    · exact ⟨trivial, commits.written.since (fresh.commitStatus writer quota),
        fun _ _ since => commits.written.since (since.commitStatus writer quota)⟩
  drifting world change _ _ := ⟨trivial, fun _ _ since => (drift_quotas world change).since since⟩

/-- In every run in which status updates reach the API server: when one is refused,
another one of the same quota was taken after the quota had been read for it. A read
returns the quota that is stored, and no spec is edited during the run; a client that
reads from a cache may be refused for an earlier update of its own. -/
theorem refused_by_another {start : Cluster} {choices : List Step}
    (reaching : Trace.Along deployment.step contended.Valid (Machine.boot start) choices)
    {turn : Served} (logged : turn ∈ (Trace.run deployment.step (Machine.boot start) choices).log)
    {state : Cluster} {writer : Writer} {quota : ObjectQuota} (refused : turn.exchange = ⟨state, .updateStatus writer quota, false⟩) :
    ∃ read before, (⟨before, .getQuota quota.ns quota.name, some read⟩ : Seen) ∈ turn.past ∧
      quota = { read with status := quota.status } ∧ ∃ between, between ≠ [] ∧
        state.writers quota.ns quota.name = between ++ before.writers quota.ns quota.name := by
  have kept := Machine.Discipline.Kept.run contended trivial reaching
  obtain ⟨_, told, ruled, fault, reached, answered⟩ := kept.log turn logged
  rw [refused] at told ruled reached answered
  obtain ⟨before, ns, read, seen, same, _⟩ := ruled.1
  obtain ⟨readNs, readName, ⟨between, grown⟩, current⟩ : Since ⟨before, .getQuota ns ns, some read⟩ state := told _ seen
  have sameNs : quota.ns = ns := by rw [same]; exact readNs
  have sameName : quota.name = ns := by rw [same]; exact readName
  rw [sameNs, sameName]
  refine ⟨read, before, seen, same, between, ?_, grown.symm⟩
  rintro rfl
  have stored := current grown.symm
  have version : read.resourceVersion = quota.resourceVersion := by rw [same]
  have taken : (state.serve turn.owner (.updateStatus writer quota) fault).1 = true := by
    simp only [Cluster.serve, sameNs, sameName, stored, version, reached rfl, and_self, ↓reduceIte]
  exact absurd ((show false = _ from answered).trans taken) Bool.false_ne_true

/-- Two nodes lease for the same namespace. -/
def overlapping : List Step :=
  [.start ⟨"a", some (newK8sLeaseManager "a" 1000)⟩ (.requestLease "team" "a" 40),
    .start ⟨"b", some (newK8sLeaseManager "b" 1000)⟩ (.requestLease "team" "b" 70),
    .turn 0 none, .turn 1 none, .turn 0 none, .turn 1 none]

def refusesUpdate (turn : Served) : Bool :=
  match turn.exchange with
  | ⟨_, .updateStatus _ _, answer⟩ => !answer
  | _ => false

/-- The second node reads before the first one writes. -/
theorem refused_by_another_overlapping :
    let quota : ObjectQuota := ⟨"team", "team", 0, ⟨some 100, some 50, none⟩, .empty⟩
    ∃ turn ∈ (Trace.run deployment.step (Machine.boot (.empty [quota])) overlapping).log, ∃ state writer quota,
      turn.exchange = ⟨state, .updateStatus writer quota, false⟩ ∧
      ∃ read before, (⟨before, .getQuota quota.ns quota.name, some read⟩ : Seen) ∈ turn.past ∧
        quota = { read with status := quota.status } ∧ ∃ between, between ≠ [] ∧
          state.writers quota.ns quota.name = between ++ before.writers quota.ns quota.name := by
  intro quota
  have reaching : Trace.Along deployment.step contended.Valid (Machine.boot (.empty [quota])) overlapping :=
    ⟨trivial, trivial, fun _ _ _ _ _ _ => rfl, fun _ _ _ _ _ _ => rfl, fun _ _ _ _ _ _ => rfl, fun _ _ _ _ _ _ => rfl, trivial⟩
  have refused : ∃ turn ∈ (Trace.run deployment.step (Machine.boot (.empty [quota])) overlapping).log,
      refusesUpdate turn = true := by decide +kernel
  obtain ⟨turn, logged, refused⟩ := refused
  unfold refusesUpdate at refused
  split at refused
  next state writer quota answer exchange =>
    cases answer with
    | true => cases refused
    | false => exact ⟨turn, logged, state, writer, quota, exchange, refused_by_another reaching logged exchange⟩
  · cases refused

/-- The updates that may take credits of a resource away from a node. -/
def Writer.takes (resource : Resource) : Writer → Prop
  | .requestFD | .requestProc => False
  | .releaseFD => resource = .fd
  | .releaseProc => resource = .proc
  | .reclaim => True

/-- A committed release or reclaim that leaves the node without its credits. -/
def TakesAll (ns : String) (resource : Resource) (node : String) (credits : Int64) (turn : Served) : Prop :=
  ∃ state writer quota before, turn.exchange = ⟨state, .updateStatus writer quota, true⟩ ∧ writer.takes resource ∧
    quota.ns = ns ∧ quota.name = ns ∧ state.quota ns ns = some before ∧
    (before.status.allocations resource).lookup node = some credits ∧ node ∉ quota.status.allocations resource

theorem K8sLeaseManager.grant_inserts {m : K8sLeaseManager} {allocations : Allocations} {limit : Option Int64} {nodeID : String}
    {requested : Int64} {granted : Grant} (given : (m.grant allocations limit nodeID requested).value = some granted) :
    ∃ credits, granted.allocations = allocations.insert nodeID credits := by
  simp only [grant, Checked.bind_value] at given
  split at given
  · cases given
  · cases given
    exact ⟨_, rfl⟩

section credits
variable {allocations : Allocations} {node : String} {credits : Int64} (held : allocations.lookup node = some credits)
include held

theorem lookup_drawn (positive : 0 < credits) {nodeID : String} (fresh : (allocations.lookup nodeID).filter (0 < ·) = none)
    (drawn : Int64) : (allocations.insert nodeID drawn).lookup node = some credits := by
  have different : node ≠ nodeID := by
    rintro rfl
    rw [held, Option.filter_some, if_pos (decide_eq_true positive)] at fresh
    cases fresh
  rw [AList.lookup_insert_ne different]
  exact held

theorem lookup_erased (nodeID : String) :
    (allocations.erase nodeID).lookup node = some credits ∨ node ∉ allocations.erase nodeID := by
  by_cases own : node = nodeID
  · exact .inr fun member => (AList.mem_erase.mp member).1 own
  · rw [AList.lookup_erase_ne own]
    exact .inl held

theorem lookup_retained (keep : String → Bool) :
    (Holdings.retain keep allocations).lookup node = some credits ∨ node ∉ Holdings.retain keep allocations := by
  by_cases kept : keep node = true
  · rw [Holdings.lookup_retain, if_pos kept]
    exact .inl held
  · exact .inr fun member => kept (Holdings.mem_retain.mp member).2

end credits

theorem releasedFD_cases {quota : ObjectQuota} {nodeID : String} {status : ObjectQuotaStatus}
    (computed : (releasedFD quota nodeID).value = some status) :
    status.fdAllocations = quota.status.fdAllocations.erase nodeID ∧ status.procAllocations = quota.status.procAllocations := by
  simp only [releasedFD] at computed
  split at computed
  · cases computed
  · simp only [Checked.bind_value, Checked.pure_value, Option.some.injEq] at computed
    subst computed
    exact ⟨rfl, rfl⟩

theorem releasedProc_cases {quota : ObjectQuota} {nodeID : String} {status : ObjectQuotaStatus}
    (computed : (releasedProc quota nodeID).value = some status) :
    status.procAllocations = quota.status.procAllocations.erase nodeID ∧ status.fdAllocations = quota.status.fdAllocations := by
  simp only [releasedProc] at computed
  split at computed
  · cases computed
  · simp only [Checked.pure_value, Option.some.injEq] at computed
    subst computed
    exact ⟨rfl, rfl⟩

theorem reclaimed_cases {quota : ObjectQuota} {caller : String} {active : String → Bool} {status : ObjectQuotaStatus}
    (computed : (reclaimed quota caller active).value = some status) (resource : Resource) : status.allocations resource =
      Holdings.retain (fun node => decide (node = caller ∨ active node = true)) (quota.status.allocations resource) := by
  simp only [reclaimed] at computed
  split at computed
  · simp only [Checked.bind_value, Checked.pure_value, Option.some.injEq] at computed
    subst computed
    cases resource <;> rfl
  · cases computed

/-- An update leaves credits as they are, or takes them away as a whole. -/
theorem Writes.credits_stay {quota : ObjectQuota} {writer : Writer} {status : ObjectQuotaStatus} (writes : Writes quota writer status)
    {resource : Resource} {node : String} {credits : Int64}
    (held : (quota.status.allocations resource).lookup node = some credits) (positive : 0 < credits) :
    (status.allocations resource).lookup node = some credits ∨
      writer.takes resource ∧ node ∉ status.allocations resource := by
  cases writes with
  | requestFD m nodeID requested fresh computed =>
    obtain ⟨granted, given, rfl⟩ := K8sLeaseManager.requestedFD_cases computed
    obtain ⟨drawn, inserted⟩ := K8sLeaseManager.grant_inserts given
    cases resource with
    | fd => exact .inl (by simpa only [ObjectQuotaStatus.allocations, inserted] using lookup_drawn held positive fresh drawn)
    | proc => exact .inl held
  | requestProc m nodeID requested fresh computed =>
    obtain ⟨granted, given, rfl⟩ := K8sLeaseManager.requestedProc_cases computed
    obtain ⟨drawn, inserted⟩ := K8sLeaseManager.grant_inserts given
    cases resource with
    | fd => exact .inl held
    | proc => exact .inl (by simpa only [ObjectQuotaStatus.allocations, inserted] using lookup_drawn held positive fresh drawn)
  | releaseFD nodeID computed =>
    obtain ⟨erased, others⟩ := releasedFD_cases computed
    cases resource with
    | fd =>
      simp only [ObjectQuotaStatus.allocations, erased, Writer.takes, true_and]
      exact lookup_erased held nodeID
    | proc => exact .inl (by simpa only [ObjectQuotaStatus.allocations, others] using held)
  | releaseProc nodeID computed =>
    obtain ⟨erased, others⟩ := releasedProc_cases computed
    cases resource with
    | fd => exact .inl (by simpa only [ObjectQuotaStatus.allocations, others] using held)
    | proc =>
      simp only [ObjectQuotaStatus.allocations, erased, Writer.takes, true_and]
      exact lookup_erased held nodeID
  | reclaim caller active computed =>
    simp only [reclaimed_cases computed resource, Writer.takes, true_and]
    exact lookup_retained held _

section run
variable {ns : String} {resource : Resource} {node : String} {credits : Int64}

/-- The credits are stored, or an update of the turns since took them. -/
def Held (ns : String) (resource : Resource) (node : String) (credits : Int64) (world : Cluster) (since : List Served) : Prop :=
  (∃ quota, world.quota ns ns = some quota ∧ (quota.status.allocations resource).lookup node = some credits) ∨
    ∃ turn ∈ since, TakesAll ns resource node credits turn

theorem Held.same {before after : Cluster} {since : List Served} (held : Held ns resource node credits before since)
    (same : after.quota ns ns = before.quota ns ns) : Held ns resource node credits after since := by
  unfold Held
  rw [same]
  exact held

theorem Held.grown {world : Cluster} {since later : List Served} (held : Held ns resource node credits world since)
    (grown : since ⊆ later) : Held ns resource node credits world later := by
  rcases held with stored | ⟨turn, member, takes⟩
  · exact .inl stored
  · exact .inr ⟨turn, grown member, takes⟩

theorem Commits.held {before after : Cluster} {past : List Seen} {writer : Writer} {quota stored : ObjectQuota}
    (commits : Commits before writer quota after) (told : ∀ seen ∈ past, Told seen before) (justified : Justified past writer quota)
    (current : before.quota ns ns = some stored) (credited : (stored.status.allocations resource).lookup node = some credits)
    (positive : 0 < credits) (owner : Syncer) (older : List Seen) :
    Held ns resource node credits after [⟨owner, older, ⟨before, .updateStatus writer quota, true⟩⟩] := by
  by_cases own : ns = quota.ns ∧ ns = quota.name
  · obtain ⟨found, here, _, writes⟩ := commits.current_read told justified
    rw [← own.1, ← own.2, current] at here
    obtain rfl := Option.some.inj here
    rcases writes.credits_stay credited positive with stays | ⟨takes, gone⟩
    · refine .inl ⟨{ stored with status := quota.status, resourceVersion := before.revision + 1 }, ?_, stays⟩
      rw [commits.written.quota, Cluster.quota_commitStatus, current, Option.map_some, if_pos own]
    · exact .inr ⟨_, List.mem_singleton.mpr rfl, before, writer, quota, stored, rfl, takes, own.1.symm, own.2.symm, current,
        credited, gone⟩
  · refine .inl ⟨stored, ?_, credited⟩
    rw [commits.written.quota, Cluster.quota_commitStatus, current, Option.map_some, if_neg own]

theorem Held.step {system : Deployed} (kept : protocol.Kept system) (positive : 0 < credits) {since before : List Served}
    (logged : system.log = since ++ before) (held : Held ns resource node credits system.world since) (choice : Step) :
    ∃ later, (deployment.step system choice).log = later ++ before ∧
      Held ns resource node credits (deployment.step system choice).world later := by
  cases choice with
  | start owner task => exact ⟨since, logged, held⟩
  | drift change => exact ⟨since, logged, held.same ((drift_quotas system.world change).quota ns ns)⟩
  | turn index fault =>
    rcases deployment.turn_cases system index fault with ⟨idle, _⟩ | ⟨worker, request, next, found, rest, stepped⟩
    · rw [idle]
      exact ⟨since, logged, held⟩
    · obtain ⟨obeys, told⟩ := kept.workers worker (List.mem_of_getElem? found)
      rw [rest] at obeys
      rw [stepped]
      refine ⟨_ :: since, congrArg (_ :: ·) logged, ?_⟩
      rcases serve_quotas system.world worker.owner request fault with same | ⟨writer, quota, rfl, _⟩
      · exact (held.same (same.quota ns ns)).grown (List.subset_cons_self _ _)
      · rcases serve_updateStatus system.world worker.owner writer quota fault with ⟨_, same⟩ | ⟨taken, commits⟩
        · exact (held.same (congrArg (·.quota ns ns) same)).grown (List.subset_cons_self _ _)
        · rcases held with ⟨stored, current, credited⟩ | gone
          · have answered : (deployment.serve system.world worker.owner (.updateStatus writer quota) fault).1 = true := taken
            rw [answered]
            exact (commits.held told obeys.1.1 current credited positive worker.owner worker.past).grown
              (List.cons_subset_cons _ (List.nil_subset since))
          · exact Held.grown (.inr gone) (List.subset_cons_self _ _)

end run

/-- Whatever the nodes do from a state that is reached on: credits that a node has stay
its own, to the same amount, or a release or a reclaim has taken all of them. -/
theorem credits_stay_or_taken {start : Cluster} (versioned : Versioned start) (first last : List Step) {ns node : String}
    {resource : Resource} {credits : Int64} {quota : ObjectQuota} (positive : 0 < credits) :
    let reached : Deployed := Trace.run deployment.step (Machine.boot start) first
    let final : Deployed := Trace.run deployment.step reached last
    reached.world.quota ns ns = some quota → (quota.status.allocations resource).lookup node = some credits →
      ∃ since, final.log = since ++ reached.log ∧
        ((∃ later, final.world.quota ns ns = some later ∧ (later.status.allocations resource).lookup node = some credits) ∨
          ∃ turn ∈ since, TakesAll ns resource node credits turn) := by
  intro reached final stored credited
  have kept : protocol.Kept reached := .run protocol versioned (protocol_valid _ first)
  have both := (protocol_valid reached last).invariant
    (fun system => protocol.Kept system ∧ ∃ since, system.log = since ++ reached.log ∧
      Held ns resource node credits system.world since)
    ⟨kept, [], rfl, .inl ⟨quota, stored, credited⟩⟩ ?_
  · exact both.2
  · rintro system choice ⟨kept, since, logged, held⟩ valid
    exact ⟨kept.step valid, held.step kept positive logged choice⟩

/-- Node `a` holds 40; then `b` requests again and `a` releases. -/
theorem credits_stay_or_taken_overlapping :
    let quota : ObjectQuota := ⟨"team", "team", 0, ⟨some 100, some 50, none⟩, .empty⟩
    let reached : Deployed := Trace.run deployment.step (Machine.boot (.empty [quota])) overlapping
    let final : Deployed := Trace.run deployment.step reached
      [.start ⟨"b", some (newK8sLeaseManager "b" 1000)⟩ (.requestLease "team" "b" 70), .turn 2 none, .turn 2 none,
        .start ⟨"a", some (newK8sLeaseManager "a" 1000)⟩ (.releaseLease "team" "a"), .turn 3 none, .turn 3 none]
    ∃ since, final.log = since ++ reached.log ∧
      ((∃ later, final.world.quota "team" "team" = some later ∧ (later.status.allocations .fd).lookup "a" = some 40) ∨
        ∃ turn ∈ since, TakesAll "team" .fd "a" 40 turn) := by
  intro quota reached final
  have held : (reached.world.quota "team" "team").any (fun quota =>
      decide ((quota.status.allocations .fd).lookup "a" = some 40)) = true := by decide +kernel
  obtain ⟨stored, found, credited⟩ := (Option.any_eq_true _ _).mp held
  exact credits_stay_or_taken (.empty (by decide)) overlapping _ (by decide) found (of_decide_eq_true credited)

end QuotaManager
