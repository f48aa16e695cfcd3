import QuotaManager.Proofs.StatusUpdate

/-! The ledger of one quota over whole runs: any number of nodes request, release and
reclaim credits in any order, and every update acts on the current status. -/

namespace QuotaManager
open Enforcer

/-- A quota that nobody has leased from. -/
structure Fresh (world : Cluster) (ns : String) (quota : ObjectQuota) : Prop where
  versioned : Versioned world
  stored : world.quota ns ns = some quota
  status : quota.status = .empty
  unwritten : world.writers ns ns = []
  fd : 0 ≤ (quota.spec.fileDescriptors.getD 0).toInt
  proc : 0 ≤ (quota.spec.processes.getD 0).toInt

private theorem run_ledger {start : Cluster} {ns : String} {quota : ObjectQuota} (fresh : Fresh start ns quota)
    (choices : List Step) :
    let world := (Trace.run deployment.step (Machine.boot start) choices).world
    ∃ now, world.quota ns ns = some now ∧ now.spec = quota.spec ∧ Ledger quota.spec (world.writers ns ns) now.status := by
  apply run_evolves fresh.versioned fun stored writers =>
    ∃ now, stored = some now ∧ now.spec = quota.spec ∧ Ledger quota.spec writers now.status
  · refine ⟨quota, fresh.stored, rfl, ?_⟩
    rw [fresh.unwritten, fresh.status]
    exact .empty fresh.fd fresh.proc
  · rintro stored writers writer status version ⟨now, same, spec, ledger⟩ writes
    obtain rfl := Option.some.inj same
    rw [← spec] at ledger ⊢
    exact ⟨_, rfl, rfl, ledger.writes writes⟩

/-- In every state that is reached the ledger is right, and no operation that reads
the quota there overflows. -/
theorem ledger_kept {start : Cluster} {ns : String} {quota : ObjectQuota} (fresh : Fresh start ns quota)
    (choices : List Step) :
    let world := (Trace.run deployment.step (Machine.boot start) choices).world
    ∃ now, world.quota ns ns = some now ∧ now.spec = quota.spec ∧
      Ledger quota.spec (world.writers ns ns) now.status ∧
      ((world.writers ns ns).length < 2 ^ 63 → (now.status.version.getD 0).toInt = (world.writers ns ns).length) ∧
      Exact now := by
  intro world
  obtain ⟨now, stored, spec, ledger⟩ := run_ledger fresh choices
  refine ⟨now, stored, spec, ledger, ?_, ?_⟩
  · intro few
    rw [ledger.version, Int64.toInt_ofNat_of_lt few]
  · rw [← spec] at ledger
    exact ledger.exact

/-- Two nodes lease for the same namespace; the second one reads before the first one writes. -/
theorem ledger_kept_overlapping :
    let quota : ObjectQuota := ⟨"team", "team", 0, ⟨some 100, some 50, none⟩, .empty⟩
    let syncer (node : String) : Syncer := ⟨node, some (newK8sLeaseManager node 1000)⟩
    let choices : List Step := [.start (syncer "a") (.requestLease "team" "a" 40), .start (syncer "b") (.requestLease "team" "b" 70),
      .turn 0 none, .turn 1 none, .turn 0 none, .turn 1 none]
    let world := (Trace.run deployment.step (Machine.boot (.empty [quota])) choices).world
    world.writers "team" "team" = [.requestFD] ∧
    ∃ now, world.quota "team" "team" = some now ∧ now.spec = quota.spec ∧
      Ledger quota.spec (world.writers "team" "team") now.status ∧
      ((world.writers "team" "team").length < 2 ^ 63 →
        (now.status.version.getD 0).toInt = (world.writers "team" "team").length) ∧
      Exact now := by
  intro quota syncer choices world
  have versioned : Versioned (.empty [quota]) := .empty (by decide)
  exact ⟨by decide, ledger_kept ⟨versioned, rfl, rfl, rfl, by decide, by decide⟩ choices⟩

end QuotaManager
