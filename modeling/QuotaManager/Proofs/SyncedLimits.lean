import QuotaManager.Proofs.Funding
import QuotaManager.Proofs.Mappings

/-! The limits in force on all nodes against the global limit of a namespace. A limit
is backed by credits or it is the fallback; the sum stays within the global limit as
long as a fallback is never in force next to another limit. -/

namespace QuotaManager
open Enforcer

/-- The limit that a node enforces for a namespace. -/
def limitOn (world : Cluster) (ns node : String) : Option Int64 :=
  ((world.nodes node).bpf.fd.nsLimit (namespaceKey ns)).map UInt64.toInt64

/-- The credits that the quota of a namespace records for a node. -/
def creditsOf (world : Cluster) (ns node : String) : Option Int64 :=
  (world.quota ns ns).bind fun quota => quota.status.fdAllocations.lookup node

theorem limitOn_editNode (world : Cluster) (ns name node : String) (edited : Node) :
    limitOn (world.editNode name edited) ns node =
      if node = name then (edited.bpf.fd.nsLimit (namespaceKey ns)).map UInt64.toInt64 else limitOn world ns node := by
  simp only [limitOn, Cluster.editNode, Function.update_apply]
  split <;> rfl

theorem limitOn_remapped (world : Cluster) (ns name node : String) {edited : Node}
    (same : (edited.bpf.maps .fd).nsLimit = ((world.nodes name).bpf.maps .fd).nsLimit) :
    limitOn (world.editNode name edited) ns node = limitOn world ns node := by
  rw [limitOn_editNode]
  split
  next own =>
    simp only [Bpf.maps] at same
    rw [own, same]
    rfl
  · rfl

/-- The only request of a sync that changes a limit is the one that writes it. -/
theorem serve_limitOn (world : Cluster) {ns : String} {limit : Int64} {owner : Syncer} {past : List Seen} {request : Request}
    (funds : Funds ns limit owner past request) (fault : Option Nat) :
    ((∀ node, limitOn (world.serve owner request fault).2 ns node = limitOn world ns node) ∧
      ∀ amount, request = .updateNsLimit .fd (namespaceKey ns) amount → fault ≠ none) ∨
    ∃ amount, request = .updateNsLimit .fd (namespaceKey ns) amount ∧ fault = none ∧
      ∀ node, limitOn (world.serve owner request fault).2 ns node =
        if node = owner.nodeID then some amount else limitOn world ns node := by
  cases request with
  | updateNsLimit resource nsKey amount =>
    obtain ⟨rfl, rfl, _⟩ := funds
    cases fault with
    | some fault => exact .inl ⟨fun _ => rfl, fun _ _ impossible => by cases impossible⟩
    | none =>
      refine .inr ⟨amount, rfl, rfl, fun node => ?_⟩
      simp only [Cluster.serve, Option.isSome_none, Bool.false_eq_true, ↓reduceIte, limitOn_editNode]
      split
      · simp [Node.edit, Bpf.withMaps, Bpf.maps, ResourceMaps.updateNsLimit]
      · rfl
  | updateNsCounter resource nsKey lease =>
    refine .inl ⟨fun node => ?_, fun _ impossible => by cases impossible⟩
    simp only [Cluster.serve]
    split
    · rfl
    · apply limitOn_remapped
      cases resource with
      | fd => rw [Node.edit_maps]; rfl
      | proc => rw [Node.edit_other _ _ (by decide)]
  | mapPods resource key pods =>
    exact .inl ⟨fun node => limitOn_remapped _ _ _ _ ((Remapped.mapPods _ _ _ _ _).nsLimit .fd), fun _ impossible => by cases impossible⟩
  | mapScanned key existing cInfos =>
    exact .inl ⟨fun node => limitOn_remapped _ _ _ _ ((Remapped.mapScanned _ _ _ _ _).nsLimit .fd), fun _ impossible => by cases impossible⟩
  | _ =>
    refine .inl ⟨fun node => ?_, fun _ impossible => by cases impossible⟩
    unfold limitOn
    rw [(serve_api world owner rfl fault).1]

theorem drift_limitOn (world : Cluster) (change : Change) (ns node : String) :
    limitOn (world.drift change) ns node = limitOn world ns node := by
  cases change with
  | tick | pods => rfl
  | kernel name event =>
    apply limitOn_remapped
    rw [Bpf.after_maps, ResourceMaps.use_nsLimit]
  | resolver name uid answer => exact limitOn_remapped _ _ _ _ rfl

/-- What holds in a cluster that only syncs `ns`: its quota has the given limit, the
ledger is right, and every limit in force is backed by credits or the fallback. The
lease key `ns` does not stand for the process credits of another quota. -/
structure Shared (ns : String) (limit : Int64) (world : Cluster) : Prop where
  versioned : Versioned world
  named : ∀ quota, world.quota (isProcSuffix ns).1 (isProcSuffix ns).1 = some quota → (isProcSuffix ns).2 = false
  stored : ∃ quota, world.quota ns ns = some quota ∧ quota.spec.fileDescriptors = some limit ∧
    Ledger quota.spec (world.writers ns ns) quota.status
  backed : ∀ node amount, limitOn world ns node = some amount → creditsOf world ns node = some amount ∨ amount = limit

/-- What a reply tells a node about its credits stays true. -/
def Backs (ns node : String) (seen : Seen) (world : Cluster) : Prop :=
  (∀ state key name read, seen = ⟨state, .getQuota key name, some read⟩ → (isProcSuffix ns).2 = false ∧ key = ns) ∧
    ∀ amount, credited ns node seen = some amount → creditsOf world ns node = some amount

theorem isProcSuffix_false {ns : String} (key : (isProcSuffix ns).2 = false) : (isProcSuffix ns).1 = ns := by
  unfold isProcSuffix at key ⊢
  simp only at key ⊢
  split at key
  · cases key
  next other => rw [if_neg other]

section syncing
variable {ns : String} {limit : Int64} {before after : Cluster} {owner : Syncer} {past : List Seen}

/-- An update of a sync that is taken is an update of the quota of `ns`. -/
theorem Shared.commits (shared : Shared ns limit before) {writer : Writer} {quota : ObjectQuota}
    (commits : Commits before writer quota after) (told : ∀ seen ∈ past, Told seen before ∧ Backs ns owner.nodeID seen before)
    (justified : Justified past writer quota) :
    (isProcSuffix ns).2 = false ∧ ∃ stored version, before.quota ns ns = some stored ∧
      stored.spec.fileDescriptors = some limit ∧ Ledger stored.spec (before.writers ns ns) stored.status ∧
      Writes stored writer quota.status ∧
      after.quota ns ns = some { stored with status := quota.status, resourceVersion := version } ∧
      after.writers ns ns = writer :: before.writers ns ns := by
  obtain ⟨state, key, read, seen, same, writes⟩ := justified
  obtain ⟨told_read, backs⟩ := told _ seen
  obtain ⟨own, rfl⟩ := backs.1 state key key read rfl
  have current := commits.read_current told_read same
  obtain ⟨stored, found, spec, ledger⟩ := shared.stored
  have sameNs : quota.ns = key := by rw [same]; exact told_read.1
  have sameName : quota.name = key := by rw [same]; exact told_read.2.1
  rw [sameNs, sameName, found] at current
  obtain rfl := Option.some.inj current
  refine ⟨own, stored, before.revision + 1, found, spec, ledger, writes, ?_, ?_⟩
  · rw [commits.written.quota, Cluster.quota_commitStatus, found]
    simp [sameNs, sameName]
  · rw [commits.written.writers]
    simp [Cluster.commitStatus, sameNs, sameName]

/-- What a step of a sync keeps, apart from the limit that it writes. -/
structure Carries (ns : String) (limit : Int64) (before after : Cluster) : Prop where
  named : ∀ quota, after.quota (isProcSuffix ns).1 (isProcSuffix ns).1 = some quota → (isProcSuffix ns).2 = false
  stored : ∃ quota, after.quota ns ns = some quota ∧ quota.spec.fileDescriptors = some limit ∧
    Ledger quota.spec (after.writers ns ns) quota.status
  credits : ∀ node amount, creditsOf before ns node = some amount → creditsOf after ns node = some amount

theorem Shared.carries_same (shared : Shared ns limit before) (same : SameQuotas before after) :
    Carries ns limit before after := by
  refine ⟨?_, ?_, ?_⟩
  · rw [same.quota]
    exact shared.named
  · rw [same.quota, same.writers]
    exact shared.stored
  · unfold creditsOf
    rw [same.quota]
    exact fun _ _ held => held

theorem Shared.carries_commit (shared : Shared ns limit before) {writer : Writer} {quota : ObjectQuota}
    (commits : Commits before writer quota after) (told : ∀ seen ∈ past, Told seen before ∧ Backs ns owner.nodeID seen before)
    (justified : Justified past writer quota) (requests : writer = .requestFD ∨ writer = .requestProc) :
    Carries ns limit before after := by
  obtain ⟨own, stored, version, found, spec, ledger, writes, quota_after, writers⟩ := shared.commits commits told justified
  refine ⟨fun _ _ => own, ⟨_, quota_after, spec, ?_⟩, ?_⟩
  · rw [writers]
    exact ledger.writes writes
  · intro node amount held
    simp only [creditsOf, found, quota_after, Option.bind_some] at held ⊢
    exact ledger.credits_kept writes requests held

theorem Shared.carries (shared : Shared ns limit before) {request : Request}
    (told : ∀ seen ∈ past, Told seen before ∧ Backs ns owner.nodeID seen before) (ruled : Rule (fun _ _ => True) owner past request)
    (funds : Funds ns limit owner past request) (fault : Option Nat) :
    Carries ns limit before (before.serve owner request fault).2 := by
  rcases serve_quotas before owner request fault with same | ⟨writer, quota, rfl, commits⟩
  · exact shared.carries_same same
  · exact shared.carries_commit commits told ruled.1 funds

theorem Shared.backs (shared : Shared ns limit before) {request : Request}
    (told : ∀ seen ∈ past, Told seen before ∧ Backs ns owner.nodeID seen before) (ruled : Rule (fun _ _ => True) owner past request)
    (funds : Funds ns limit owner past request) (fault : Option Nat) :
    Backs ns owner.nodeID ⟨before, request, (before.serve owner request fault).1⟩ (before.serve owner request fault).2 := by
  cases request with
  | getQuota key name =>
    obtain ⟨rfl, rfl⟩ := funds
    simp only [Cluster.serve]
    generalize answered : (if fault.isSome then none else before.quota (isProcSuffix ns).1 (isProcSuffix ns).1) = answer
    cases answer with
    | none => exact ⟨fun _ _ _ _ same => (by cases same), fun _ same => by cases same⟩
    | some read =>
      have found : before.quota (isProcSuffix ns).1 (isProcSuffix ns).1 = some read := by
        split at answered
        · cases answered
        · exact answered
      have own := shared.named read found
      have key := isProcSuffix_false own
      refine ⟨fun _ _ _ _ same => (by cases same; exact ⟨own, key⟩), ?_⟩
      intro amount held
      rw [key] at found
      simp only [credited, pool, own, Bool.false_eq_true, ↓reduceIte] at held
      simp only [creditsOf, found, Option.bind_some]
      exact (Option.filter_eq_some_iff.mp held).1
  | updateStatus writer quota =>
    refine ⟨fun _ _ _ _ same => (by cases same), ?_⟩
    rcases serve_updateStatus before owner writer quota fault with ⟨refused, _⟩ | ⟨taken, commits⟩
    · rw [refused]
      intro amount impossible
      cases impossible
    · rw [taken]
      obtain ⟨own, stored, version, _, _, _, _, quota_after, _⟩ := shared.commits commits told ruled.1
      intro amount held
      simp only [credited, pool, own, Bool.false_eq_true, ↓reduceIte] at held
      simp only [creditsOf, quota_after, Option.bind_some]
      exact (Option.filter_eq_some_iff.mp held).1
  | _ => exact ⟨fun _ _ _ _ same => (by cases same), fun _ same => by cases same⟩

theorem funding_recorded (told : ∀ seen ∈ past, Told seen before ∧ Backs ns owner.nodeID seen before) {amount : Int64}
    (funded : funding ns owner.nodeID past = some amount) : creditsOf before ns owner.nodeID = some amount := by
  obtain ⟨seen, member, credits⟩ := List.exists_of_findSome?_eq_some funded
  exact (told seen member).2.2 amount credits

theorem Shared.backed_after (shared : Shared ns limit before) {request : Request}
    (told : ∀ seen ∈ past, Told seen before ∧ Backs ns owner.nodeID seen before)
    (funds : Funds ns limit owner past request) (fault : Option Nat)
    (carries : Carries ns limit before (before.serve owner request fault).2) (node : String) (amount : Int64)
    (inForce : limitOn (before.serve owner request fault).2 ns node = some amount) :
    creditsOf (before.serve owner request fault).2 ns node = some amount ∨ amount = limit := by
  have old (held : limitOn before ns node = some amount) :
      creditsOf (before.serve owner request fault).2 ns node = some amount ∨ amount = limit :=
    (shared.backed node amount held).imp_left (carries.credits node amount)
  rcases serve_limitOn before funds fault with ⟨same, _⟩ | ⟨written, rfl, _, limits⟩
  · exact old (same node ▸ inForce)
  · rw [limits] at inForce
    split at inForce
    next own =>
      obtain rfl := Option.some.inj inForce
      have source := funds.2.2
      cases funded : funding ns owner.nodeID past with
      | none =>
        rw [funded] at source
        exact .inr source
      | some credits =>
        rw [funded] at source
        subst source
        rw [own]
        exact .inl (carries.credits _ _ (funding_recorded told funded))
    · exact old inForce

end syncing

/-- Nodes that do nothing but sync one namespace with one limit. -/
def syncing (ns : String) (limit : Int64) : Machine.Discipline deployment where
  allowed _ operation := ∃ batchSize, operation = .syncNamespace ns limit batchSize
  served _ _ _ := True
  drifts _ _ := True
  sound := Shared ns limit
  rule owner past request := Rule (fun _ _ => True) owner past request ∧ Funds ns limit owner past request
  told owner seen world := Told seen world ∧ Backs ns owner.nodeID seen world
  obeys := by
    rintro s _ ⟨batchSize, rfl⟩
    have funds : (Operation.body s (.syncNamespace ns limit batchSize)).Obeys (Funds ns limit s) (fun _ _ => True) [] :=
      (syncNamespace_funds s ns limit batchSize).bind fun _ _ _ => trivial
    exact ((body_obeys s (.syncNamespace ns limit batchSize) nofun).and funds).mono fun _ _ _ => trivial
  serving := by
    rintro world owner past request fault shared told ⟨ruled, funds⟩ _
    have carries := shared.carries told ruled funds fault
    obtain ⟨versioned, fresh, kept⟩ := protocol.serving world owner past request fault shared.versioned
      (fun seen member => (told seen member).1) ruled trivial
    refine ⟨⟨versioned, carries.named, carries.stored, shared.backed_after told funds fault carries⟩,
      ⟨fresh, shared.backs told ruled funds fault⟩, ?_⟩
    rintro other seen ⟨before, reads, credits⟩
    exact ⟨kept other seen before, reads, fun amount held => carries.credits _ _ (credits amount held)⟩
  drifting := by
    rintro world change shared _
    obtain ⟨versioned, kept⟩ := protocol.drifting world change shared.versioned trivial
    have carries := shared.carries_same (drift_quotas world change)
    refine ⟨⟨versioned, carries.named, carries.stored, ?_⟩, ?_⟩
    · intro node amount inForce
      have inForce := (drift_limitOn world change ns node).symm.trans inForce
      exact (shared.backed node amount inForce).imp_left (carries.credits node amount)
    · rintro other seen ⟨before, reads, credits⟩
      exact ⟨kept other seen before, reads, fun amount held => carries.credits _ _ (credits amount held)⟩

end QuotaManager
