import QuotaManager.Proofs.SyncedLimits

/-! The global limit of a namespace against the limits that its nodes enforce. The
fallback to the whole limit is sound on a node that is alone with it; next to any
other limit it exceeds the global one. -/

namespace QuotaManager
open Enforcer Holdings

/-- What a node may use: the limit that it enforces, nothing where there is none yet. -/
def amountOn (world : Cluster) (ns node : String) : Int := (limitOn world ns node).elim 0 Int64.toInt

def creditOn (world : Cluster) (ns node : String) : Int := (creditsOf world ns node).elim 0 Int64.toInt

/-- What all nodes may use together stays within the limit. -/
def WithinLimit (ns : String) (limit : Int64) (system : Deployed) : Prop :=
  Fits limit.toInt (amountOn system.world ns)

/-- A limit may be written on a node if the node has got credits and every other node
enforces no more than its credits, or if no other node enforces a limit. -/
def MayWrite (ns : String) (world : Cluster) (node : String) (funded : Option Int64) : Prop :=
  funded.isSome ∧ (∀ other, other ≠ node → amountOn world ns other ≤ creditOn world ns other) ∨
    ∀ other, other ≠ node → limitOn world ns other = none

/-- A step that writes a limit does so when it may. -/
def WritesSoundly (ns : String) (system : Deployed) : Step → Prop
  | .turn index none => ∀ worker amount next, system.workers[index]? = some worker →
      worker.rest = .ask (.updateNsLimit .fd (namespaceKey ns) amount) next →
      MayWrite ns system.world worker.owner.nodeID (funding ns worker.owner.nodeID worker.past)
  | _ => True

section write
variable {ns node : String} {limit amount : Int64} {world after : Cluster}

theorem Shared.held_eq (shared : Shared ns limit world) : ∃ allocations, Holdings.Within Int64.toInt limit.toInt allocations ∧
    ∀ node, held Int64.toInt allocations node = creditOn world ns node := by
  obtain ⟨quota, found, spec, ledger⟩ := shared.stored
  have within := ledger.fd
  rw [Within, spec] at within
  refine ⟨quota.status.fdAllocations, within, fun node => ?_⟩
  simp only [held, creditOn, creditsOf, found, Option.bind_some]

theorem Shared.in_force (shared : Shared ns limit world) (positive : 1 ≤ limit.toInt) {amount : Int64}
    (inForce : limitOn world ns node = some amount) :
    1 ≤ amount.toInt ∧ (amount.toInt = creditOn world ns node ∨ amount = limit) := by
  rcases shared.backed node amount inForce with credits | whole
  · refine ⟨?_, .inl (by simp only [creditOn, credits, Option.elim_some])⟩
    obtain ⟨quota, found, _, ledger⟩ := shared.stored
    simp only [creditsOf, found, Option.bind_some] at credits
    exact ledger.fd.lookup_positive credits
  · exact ⟨by rw [whole]; exact positive, .inr whole⟩

theorem Shared.creditOn_nonneg (shared : Shared ns limit world) (node : String) : 0 ≤ creditOn world ns node := by
  obtain ⟨quota, found, _, ledger⟩ := shared.stored
  simp only [creditOn, creditsOf, found, Option.bind_some]
  cases held : quota.status.fdAllocations.lookup node with
  | none => exact Int.le_refl _
  | some credits =>
    have := ledger.fd.lookup_positive held
    simp only [Option.elim_some]
    omega

theorem Shared.amountOn_zero_iff (shared : Shared ns limit world) (positive : 1 ≤ limit.toInt) :
    amountOn world ns node = 0 ↔ limitOn world ns node = none := by
  cases inForce : limitOn world ns node with
  | none => simp only [amountOn, inForce, Option.elim_none]
  | some amount =>
    have := (shared.in_force positive inForce).1
    simp only [amountOn, inForce, Option.elim_some, reduceCtorEq, iff_false]
    omega

theorem Shared.amountOn_backed (shared : Shared ns limit world) (positive : 1 ≤ limit.toInt) (node : String) :
    0 ≤ amountOn world ns node ∧ (amountOn world ns node ≤ creditOn world ns node ∨ amountOn world ns node = limit.toInt) := by
  cases inForce : limitOn world ns node with
  | none =>
    simp only [amountOn, inForce, Option.elim_none]
    exact ⟨Int.le_refl _, .inl (shared.creditOn_nonneg node)⟩
  | some amount =>
    obtain ⟨low, backed⟩ := shared.in_force positive inForce
    simp only [amountOn, inForce, Option.elim_some]
    refine ⟨by omega, ?_⟩
    rcases backed with credits | whole
    · exact .inl (Int.le_of_eq credits)
    · exact .inr (by rw [whole])

/-- A write keeps the nodes within the limit exactly when the node may write. -/
theorem Shared.fits_write_iff (shared : Shared ns limit world) (positive : 1 ≤ limit.toInt) {funded : Option Int64}
    (recorded : ∀ credits, funded = some credits → creditsOf world ns node = some credits)
    (written : ∀ other, limitOn after ns other = if other = node then some (funded.getD limit) else limitOn world ns other) :
    Fits limit.toInt (amountOn after ns) ↔ MayWrite ns world node funded := by
  obtain ⟨allocations, within, held_eq⟩ := shared.held_eq
  have others (other : String) (different : other ≠ node) : amountOn after ns other = amountOn world ns other := by
    simp only [amountOn, written, different, ↓reduceIte]
  have own : amountOn after ns node = (funded.getD limit).toInt := by
    simp only [amountOn, written, ↓reduceIte, Option.elim_some]
  cases funded with
  | none =>
    -- the fallback: whoever has a limit has at least one unit of it
    rw [fits_whole_iff (by simpa using own) (by omega) fun other different => by
      rw [others other different]; exact (shared.amountOn_backed positive other).1]
    simp only [MayWrite, Option.isSome_none, Bool.false_eq_true, false_and, false_or]
    apply forall_congr'
    intro other
    apply forall_congr'
    intro different
    rw [others other different, shared.amountOn_zero_iff positive]
  | some credits =>
    -- credits: the others fit exactly when none of them has fallen back
    have credit : creditOn world ns node = credits.toInt := by
      simp only [creditOn, recorded credits rfl, Option.elim_some]
    have some_drawn : 1 ≤ amountOn after ns node := by
      obtain ⟨quota, found, _, ledger⟩ := shared.stored
      have held := recorded credits rfl
      simp only [creditsOf, found, Option.bind_some] at held
      rw [own]
      exact ledger.fd.lookup_positive held
    rw [within.fits_backed_iff some_drawn (by rw [own, held_eq, credit]; exact Int.le_refl _) fun other different => by
      rw [others other different, held_eq]; exact (shared.amountOn_backed positive other).2]
    constructor
    · intro backed
      refine .inl ⟨rfl, fun other different => ?_⟩
      rw [← others other different, ← held_eq]
      exact backed other different
    · rintro (⟨_, backed⟩ | idle) other different
      · rw [others other different, held_eq]
        exact backed other different
      · rw [others other different, (shared.amountOn_zero_iff positive).mpr (idle other different), held_eq]
        exact shared.creditOn_nonneg other

end write

/-- The namespace has a quota with this limit, and no node enforces a limit yet. -/
structure Unsynced (ns : String) (limit : Int64) (world : Cluster) : Prop where
  versioned : Versioned world
  named : ∀ quota, world.quota (isProcSuffix ns).1 (isProcSuffix ns).1 = some quota → (isProcSuffix ns).2 = false
  stored : ∃ quota, world.quota ns ns = some quota ∧ quota.spec.fileDescriptors = some limit ∧
    Ledger quota.spec (world.writers ns ns) quota.status
  idle : ∀ node, limitOn world ns node = none
  positive : 1 ≤ limit.toInt

theorem Unsynced.empty (quota : ObjectQuota) (limit : Int64) (key : (isProcSuffix quota.ns).2 = false)
    (name : quota.name = quota.ns) (new : quota.resourceVersion = 0) (status : quota.status = .empty)
    (spec : quota.spec.fileDescriptors = some limit) (positive : 1 ≤ limit.toInt)
    (proc : 0 ≤ (quota.spec.processes.getD 0).toInt) : Unsynced quota.ns limit (.empty [quota]) := by
  refine ⟨.empty (by simpa using new), fun _ _ => key, ⟨quota, ?_, spec, ?_⟩, fun _ => rfl, positive⟩
  · simp only [Cluster.quota, Cluster.empty, name, List.find?_cons, and_self, decide_true]
  · rw [status]
    exact .empty (by rw [spec, Option.getD_some]; omega) proc

/-- Only syncs of the namespace are started. -/
def OnlySyncs (ns : String) (limit : Int64) : Step → Prop
  | .start _ operation => ∃ batchSize, operation = .syncNamespace ns limit batchSize
  | _ => True

theorem syncing_valid {ns : String} {limit : Int64} {choices : List Step} (only : ∀ choice ∈ choices, OnlySyncs ns limit choice)
    (system : Deployed) : Trace.Along deployment.step (syncing ns limit).Valid system choices := by
  apply Trace.Along.of_mem
  intro choice member system
  have allowed := only choice member
  cases choice with
  | start owner task => exact allowed
  | drift change => trivial
  | turn index outcome => exact fun _ _ _ _ _ => trivial

theorem fits_congr {ns : String} {limit : Int64} {before after : Cluster}
    (same : ∀ node, limitOn after ns node = limitOn before ns node) :
    Fits limit.toInt (amountOn after ns) ↔ Fits limit.toInt (amountOn before ns) := by
  have equal : amountOn after ns = amountOn before ns := by
    funext node
    unfold amountOn
    rw [same]
  rw [equal]

/-- One step keeps the limit exactly when it writes soundly. -/
theorem step_within_iff {ns : String} {limit : Int64} (positive : 1 ≤ limit.toInt) {system : Deployed} {choice : Step}
    (kept : (syncing ns limit).Kept system) (within : WithinLimit ns limit system) :
    WithinLimit ns limit (deployment.step system choice) ↔ WritesSoundly ns system choice := by
  cases choice with
  | start owner task => exact iff_of_true within trivial
  | drift change => exact iff_of_true ((fits_congr (drift_limitOn system.world change ns)).mpr within) trivial
  | turn index outcome =>
    rcases deployment.turn_cases system index outcome with ⟨idle, ended⟩ | ⟨worker, request, next, found, rest, stepped⟩
    · rw [idle]
      refine iff_of_true within ?_
      cases outcome with
      | some fault => trivial
      | none => exact fun worker amount next found rest => absurd rest (ended worker _ next found)
    · have before := kept.workers worker (List.mem_of_getElem? found)
      have obeys := before.obeys
      rw [rest] at obeys
      rw [stepped]
      rcases serve_limitOn system.world obeys.1.2 outcome with ⟨same, faulty⟩ | ⟨amount, rfl, rfl, limits⟩
      · refine iff_of_true ((fits_congr same).mpr within) ?_
        cases outcome with
        | some fault => trivial
        | none =>
          intro other amount _ also asking
          obtain rfl := Option.some.inj (found.symm.trans also)
          rw [rest] at asking
          cases asking
          exact absurd rfl (faulty amount rfl)
      · obtain ⟨_, _, source⟩ := obeys.1.2
        have may := kept.sound.fits_write_iff positive (fun credits funded => funding_recorded before.told funded)
          fun other => by rw [limits other, ← source]
        refine may.trans (Iff.intro ?_ ?_)
        · intro allowed other _ _ also _
          obtain rfl := Option.some.inj (found.symm.trans also)
          exact allowed
        · intro soundly
          exact soundly worker amount next found rest

end QuotaManager
