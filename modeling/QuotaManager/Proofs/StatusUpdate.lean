import QuotaManager.Proofs.Protocol

/-! The API server takes a status update only if the version that was read is still
current. A quota with the version that was read is the quota that was read, so what
a program has computed from its own reading is computed from what is stored. -/

namespace QuotaManager
open Enforcer

namespace Cluster
variable {world : Cluster} {ns name : String}

theorem quota_named {stored : ObjectQuota} (found : world.quota ns name = some stored) :
    stored.ns = ns ∧ stored.name = name := by
  simpa using List.find?_some found

theorem quota_commitStatus (world : Cluster) (writer : Writer) (quota : ObjectQuota) (ns name : String) :
    (world.commitStatus writer quota).quota ns name = (world.quota ns name).map fun stored =>
      if ns = quota.ns ∧ name = quota.name then
        { stored with status := quota.status, resourceVersion := world.revision + 1 }
      else stored := by
  simp only [Cluster.quota, commitStatus, List.find?_map]
  have same : ((fun quota : ObjectQuota => decide (quota.ns = ns ∧ quota.name = name)) ∘ fun stored =>
      if stored.ns = quota.ns ∧ stored.name = quota.name then
        { stored with status := quota.status, resourceVersion := world.revision + 1 }
      else stored) = fun stored => decide (stored.ns = ns ∧ stored.name = name) := by
    funext stored
    simp only [Function.comp_apply]
    split <;> rfl
  rw [same]
  cases found : world.quotas.find? fun stored => decide (stored.ns = ns ∧ stored.name = name) with
  | none => rfl
  | some stored =>
    obtain ⟨rfl, rfl⟩ := quota_named found
    rfl

end Cluster

/-- Nothing was written to the quotas in between. -/
structure SameQuotas (before after : Cluster) : Prop where
  quotas : after.quotas = before.quotas
  writers : after.writers = before.writers
  revision : before.revision ≤ after.revision

theorem SameQuotas.refl (world : Cluster) : SameQuotas world world := ⟨rfl, rfl, Nat.le_refl _⟩

theorem SameQuotas.quota {before after : Cluster} (same : SameQuotas before after) (ns name : String) :
    after.quota ns name = before.quota ns name := by
  unfold Cluster.quota
  rw [same.quotas]

/-- An update of a quota's status that the API server takes: nobody has updated the
quota since it was read. -/
structure Commits (before : Cluster) (writer : Writer) (quota : ObjectQuota) (after : Cluster) : Prop where
  current : ∃ stored, before.quota quota.ns quota.name = some stored ∧ stored.resourceVersion = quota.resourceVersion
  written : SameQuotas (before.commitStatus writer quota) after

theorem serve_updateStatus (world : Cluster) (owner : Syncer) (writer : Writer) (quota : ObjectQuota) (fault : Option Nat) :
    let served := world.serve owner (.updateStatus writer quota) fault
    served.1 = false ∧ served.2 = world ∨ served.1 = true ∧ Commits world writer quota served.2 := by
  simp only [Cluster.serve]
  split
  · exact .inl ⟨rfl, rfl⟩
  next stored found =>
    split
    next taken =>
      refine .inr ⟨rfl, ⟨stored, found, taken.2⟩, ?_⟩
      dsimp only
      split <;> exact ⟨rfl, rfl, Nat.le_refl _⟩
    · exact .inl ⟨rfl, rfl⟩

/-- The only request that writes to a quota is a status update that is taken. -/
theorem serve_quotas (world : Cluster) (owner : Syncer) (request : Request) (fault : Option Nat) :
    SameQuotas world (world.serve owner request fault).2 ∨
      ∃ writer quota, request = .updateStatus writer quota ∧
        Commits world writer quota (world.serve owner request fault).2 := by
  cases request with
  | updateStatus writer quota =>
    rcases serve_updateStatus world owner writer quota fault with ⟨_, same⟩ | ⟨_, commits⟩
    · rw [same]
      exact .inl (.refl world)
    · exact .inr ⟨writer, quota, rfl, commits⟩
  | createLease lease =>
    simp only [Cluster.serve]
    split
    · exact .inl ⟨rfl, rfl, Nat.le_succ _⟩
    · exact .inl ⟨rfl, rfl, Nat.le_refl _⟩
  | updateLease lease =>
    simp only [Cluster.serve]
    split
    · exact .inl ⟨rfl, rfl, Nat.le_refl _⟩
    · split
      · exact .inl ⟨rfl, rfl, Nat.le_succ _⟩
      · exact .inl ⟨rfl, rfl, Nat.le_refl _⟩
  | deleteLease | updateNsLimit | updateNsCounter =>
    simp only [Cluster.serve]
    split <;> exact .inl ⟨rfl, rfl, Nat.le_refl _⟩
  | getQuota | listQuotas | getLease | listLeases | clock | listPods | lookupNsCounter | mapPods | tracked | mapScanned =>
    exact .inl ⟨rfl, rfl, Nat.le_refl _⟩

theorem drift_quotas (world : Cluster) (change : Change) : SameQuotas world (world.drift change) := by
  cases change <;> exact ⟨rfl, rfl, Nat.le_refl _⟩

/-- Versions only come from the counter of the API server. -/
def Versioned (world : Cluster) : Prop :=
  ∀ ns name quota, world.quota ns name = some quota → quota.resourceVersion ≤ world.revision

theorem Versioned.empty {quotas : List ObjectQuota} (unwritten : ∀ quota ∈ quotas, quota.resourceVersion = 0) :
    Versioned (.empty quotas) := by
  intro ns name quota found
  exact Nat.le_of_eq (unwritten quota (List.mem_of_find?_eq_some found))

/-- What an old reply tells about the present: a quota with the version that was read
is the quota that was read; a list of leases was complete when it was read, and the clock
stood where it says. -/
def Told : Seen → Cluster → Prop
  | ⟨_, .getQuota ns name, some read⟩, world =>
    read.ns = ns ∧ read.name = name ∧ read.resourceVersion ≤ world.revision ∧
      ∀ stored, world.quota ns name = some stored → stored.resourceVersion = read.resourceVersion → stored = read
  | ⟨state, .listLeases ns, some leases⟩, _ => leases = state.leases.filter fun lease => lease.ns = ns
  | ⟨state, .clock, now⟩, _ => now = state.now
  | _, _ => True

theorem SameQuotas.versioned {before after : Cluster} (same : SameQuotas before after) (versioned : Versioned before) :
    Versioned after := by
  intro ns name quota found
  rw [same.quota] at found
  exact Nat.le_trans (versioned ns name quota found) same.revision

theorem SameQuotas.told {before after : Cluster} (same : SameQuotas before after) {seen : Seen} (told : Told seen before) :
    Told seen after := by
  unfold Told at *
  split
  next state ns name read =>
    obtain ⟨sameNs, sameName, old, current⟩ := told
    refine ⟨sameNs, sameName, Nat.le_trans old same.revision, ?_⟩
    intro stored found
    rw [same.quota] at found
    exact current stored found
  · exact told
  · exact told
  · trivial

theorem commitStatus_cases {world : Cluster} {writer : Writer} {quota stored : ObjectQuota} {ns name : String}
    (found : (world.commitStatus writer quota).quota ns name = some stored) :
    world.quota ns name = some stored ∨ stored.resourceVersion = world.revision + 1 := by
  rw [Cluster.quota_commitStatus] at found
  obtain ⟨before, was, changed⟩ := Option.map_eq_some_iff.mp found
  split at changed
  · exact .inr (changed ▸ rfl)
  · exact .inl (changed ▸ was)

theorem Versioned.commitStatus {world : Cluster} (versioned : Versioned world) (writer : Writer) (quota : ObjectQuota) :
    Versioned (world.commitStatus writer quota) := by
  intro ns name stored found
  rcases commitStatus_cases found with old | new
  · exact Nat.le_succ_of_le (versioned ns name stored old)
  · exact Nat.le_of_eq new

theorem Told.commitStatus {world : Cluster} {seen : Seen} (told : Told seen world) (writer : Writer) (quota : ObjectQuota) :
    Told seen (world.commitStatus writer quota) := by
  unfold Told at *
  split
  next state ns name read =>
    obtain ⟨sameNs, sameName, old, current⟩ := told
    refine ⟨sameNs, sameName, Nat.le_succ_of_le old, ?_⟩
    intro stored found same
    rcases commitStatus_cases found with unchanged | new
    · exact current stored unchanged same
    · omega
  · exact told
  · exact told
  · trivial

theorem told_fresh {world : Cluster} (versioned : Versioned world) (owner : Syncer) (request : Request) (fault : Option Nat) :
    Told ⟨world, request, (world.serve owner request fault).1⟩ world := by
  cases request with
  | getQuota ns name =>
    cases fault with
    | some fault => trivial
    | none =>
      cases found : world.quota ns name with
      | none => simp [Cluster.serve, found, Told]
      | some read =>
        have ⟨sameNs, sameName⟩ := Cluster.quota_named found
        simp [Cluster.serve, found, Told, sameNs, sameName, versioned ns name read found]
  | listLeases ns =>
    cases fault with
    | some fault => trivial
    | none => exact rfl
  | clock => exact rfl
  | _ => trivial

/-- All programs and all changes around them keep the protocol. -/
def protocol : Machine.Discipline deployment where
  allowed _ _ := True
  served _ _ _ := True
  drifts _ _ := True
  sound := Versioned
  rule := Rule fun _ _ => True
  told _ := Told
  obeys s operation _ := body_obeys s operation fun _ _ _ => trivial
  serving world owner past request fault versioned _ _ _ := by
    have fresh := told_fresh versioned owner request fault
    rcases serve_quotas world owner request fault with same | ⟨writer, quota, _, commits⟩
    · exact ⟨same.versioned versioned, same.told fresh, fun _ _ told => same.told told⟩
    · exact ⟨commits.written.versioned (versioned.commitStatus writer quota),
        commits.written.told (fresh.commitStatus writer quota),
        fun _ _ told => commits.written.told (told.commitStatus writer quota)⟩
  drifting world change versioned _ :=
    ⟨(drift_quotas world change).versioned versioned, fun _ _ told => (drift_quotas world change).told told⟩

theorem Commits.read_current {before after : Cluster} {writer : Writer} {quota read : ObjectQuota} {state : Cluster}
    {ns : String} (commits : Commits before writer quota after)
    (told : Told ⟨state, .getQuota ns ns, some read⟩ before) (same : quota = { read with status := quota.status }) :
    before.quota quota.ns quota.name = some read := by
  obtain ⟨readNs, readName, _, only⟩ := told
  obtain ⟨stored, found, version⟩ := commits.current
  have sameNs : quota.ns = read.ns := by rw [same]
  have sameName : quota.name = read.name := by rw [same]
  have sameVersion : quota.resourceVersion = read.resourceVersion := by rw [same]
  have unchanged : stored = read := by
    apply only stored _ (version.trans sameVersion)
    rw [← found, sameNs, readNs, sameName, readName]
  rw [found, unchanged]

/-- What a program has computed from a quota that it read is, when the update is
taken, computed from the quota that is stored. -/
theorem Commits.current_read {before after : Cluster} {past : List Seen} {writer : Writer} {quota : ObjectQuota}
    (commits : Commits before writer quota after) (told : ∀ seen ∈ past, Told seen before)
    (justified : Justified past writer quota) :
    ∃ stored, before.quota quota.ns quota.name = some stored ∧ quota = { stored with status := quota.status } ∧
      Writes stored writer quota.status := by
  obtain ⟨state, ns, read, seen, same, writes⟩ := justified
  exact ⟨read, commits.read_current (told _ seen) same, same, writes⟩

/-- One step as one quota sees it. -/
inductive Evolves (before after : Cluster) (ns name : String) : Prop where
  | same (quota : after.quota ns name = before.quota ns name) (writers : after.writers ns name = before.writers ns name)
  | update (stored : ObjectQuota) (writer : Writer) (status : ObjectQuotaStatus) (version : Nat)
      (current : before.quota ns name = some stored) (writes : Writes stored writer status)
      (quota : after.quota ns name = some { stored with status, resourceVersion := version })
      (writers : after.writers ns name = writer :: before.writers ns name)

theorem SameQuotas.evolves {before after : Cluster} (same : SameQuotas before after) (ns name : String) :
    Evolves before after ns name :=
  .same (same.quota ns name) (by rw [same.writers])

theorem Commits.evolves {before after : Cluster} {past : List Seen} {writer : Writer} {quota : ObjectQuota}
    (commits : Commits before writer quota after) (told : ∀ seen ∈ past, Told seen before)
    (justified : Justified past writer quota) (ns name : String) : Evolves before after ns name := by
  have after_quota := commits.written.quota ns name
  have after_writers := congrFun (congrFun commits.written.writers ns) name
  rw [Cluster.quota_commitStatus] at after_quota
  by_cases own : ns = quota.ns ∧ name = quota.name
  · obtain ⟨rfl, rfl⟩ := own
    obtain ⟨stored, found, _, writes⟩ := commits.current_read told justified
    refine .update stored writer quota.status (before.revision + 1) found writes ?_ ?_
    · simpa [found] using after_quota
    · simpa [Cluster.commitStatus] using after_writers
  · refine .same ?_ ?_
    · simpa [own] using after_quota
    · simpa [Cluster.commitStatus, own] using after_writers

/-- However the programs are interleaved, a quota only changes by updates that are
computed from its current status. -/
theorem step_evolves {system : Deployed} (kept : protocol.Kept system) (choice : Step) (ns name : String) :
    Evolves system.world (deployment.step system choice).world ns name := by
  cases choice with
  | start owner task => exact .same rfl rfl
  | drift change => exact (drift_quotas system.world change).evolves ns name
  | turn index outcome =>
    rcases deployment.turn_cases system index outcome with ⟨idle, _⟩ | ⟨worker, request, next, found, rest, stepped⟩
    · rw [idle]
      exact .same rfl rfl
    · rw [stepped]
      have before := kept.workers worker (List.mem_of_getElem? found)
      have obeys := before.obeys
      rw [rest] at obeys
      rcases serve_quotas system.world worker.owner request outcome with same | ⟨writer, quota, rfl, commits⟩
      · exact same.evolves ns name
      · exact commits.evolves before.told obeys.1.1 ns name

theorem protocol_valid (system : Deployed) (choices : List Step) :
    Trace.Along deployment.step protocol.Valid system choices := by
  apply Trace.Along.of_all
  intro system choice
  cases choice with
  | start owner task => trivial
  | drift change => trivial
  | turn index outcome => exact fun _ _ _ _ _ => trivial

/-- The run rule for one quota: what every update of it preserves, every run preserves. -/
theorem run_evolves {start : Cluster} (versioned : Versioned start) {ns name : String}
    (kept : Option ObjectQuota → List Writer → Prop) (initial : kept (start.quota ns name) (start.writers ns name))
    (update : ∀ stored writers writer status version, kept (some stored) writers → Writes stored writer status →
      kept (some { stored with status, resourceVersion := version }) (writer :: writers)) (choices : List Step) :
    let world := (Trace.run deployment.step (Machine.boot start) choices).world
    kept (world.quota ns name) (world.writers ns name) := by
  have both := (protocol_valid (Machine.boot start) choices).invariant
    (fun system => protocol.Kept system ∧ kept (system.world.quota ns name) (system.world.writers ns name))
    ⟨.boot versioned, initial⟩ ?_
  · exact both.2
  · rintro system choice ⟨before, here⟩ valid
    refine ⟨before.step valid, ?_⟩
    cases step_evolves before choice ns name with
    | same quota writers =>
      rw [quota, writers]
      exact here
    | update stored writer status version current writes quota writers =>
      rw [quota, writers]
      rw [current] at here
      exact update stored _ writer status version here writes

end QuotaManager
