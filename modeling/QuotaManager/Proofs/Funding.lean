import QuotaManager.Proofs.StatusUpdate

/-! Where a synced limit comes from. A sync writes the credits that its lease request
has found or obtained; when there are none it falls back to the whole limit. -/

namespace QuotaManager
open Enforcer

/-- The pool that a lease key stands for. -/
def pool (ns : String) (status : ObjectQuotaStatus) : Allocations :=
  if (isProcSuffix ns).2 then status.procAllocations else status.fdAllocations

/-- Credits of the node in a quota that was read, or in an update that was taken. -/
def credited (ns node : String) : Seen → Option Int64
  | ⟨_, .getQuota _ _, some read⟩ => ((pool ns read.status).lookup node).filter (0 < ·)
  | ⟨_, .updateStatus _ quota, true⟩ => ((pool ns quota.status).lookup node).filter (0 < ·)
  | _ => none

/-- What a lease request of a program has got so far. -/
def funding (ns node : String) (past : List Seen) : Option Int64 := past.findSome? (credited ns node)

/-- A sync that is started for `ns` asks for this quota only, updates it as a lease
request does, and writes what it has got, or else the whole limit. -/
def Funds (ns : String) (limit : Int64) (owner : Syncer) (past : List Seen) : Request → Prop
  | .getQuota key name => key = (isProcSuffix ns).1 ∧ name = (isProcSuffix ns).1
  | .updateStatus writer _ => writer = .requestFD ∨ writer = .requestProc
  | .updateNsLimit resource nsKey amount =>
    resource = .fd ∧ nsKey = namespaceKey ns ∧ amount = (funding ns owner.nodeID past).getD limit
  | _ => True

section obeys
variable {ns : String} {limit : Int64} {s : Syncer} {m : K8sLeaseManager} {past : List Seen}

@[simp] theorem funding_cons (ns node : String) (seen : Seen) (past : List Seen) :
    funding ns node (seen :: past) = (credited ns node seen).or (funding ns node past) := by
  unfold funding
  rw [List.findSome?_cons]
  cases credited ns node seen <;> rfl

/-- What a lease request reports is what it has got. -/
abbrev Reported (ns : String) (s : Syncer) (result : Except LeaseError Int64) (past : List Seen) : Prop :=
  funding ns s.nodeID past = result.toOption.filter (0 < ·)

theorem ensureLease_funds (m : K8sLeaseManager) (base : String) (past : List Seen) :
    (m.ensureLease base).Obeys (Funds ns limit s)
      (fun _ later => funding ns s.nodeID later = funding ns s.nodeID past) past := by
  refine ⟨trivial, fun _ now => ⟨trivial, fun _ existing => ?_⟩⟩
  cases existing with
  | none => exact ⟨trivial, fun _ _ => by simp [credited]⟩
  | some existing => exact ⟨trivial, fun _ _ => by simp [credited]⟩

private theorem filter_getD (credits : Option Int64) : (some (credits.getD 0)).filter (0 < ·) = credits.filter (0 < ·) := by
  cases credits <;> rfl

private theorem filter_found {credits : Option Int64} {existing : Int64} (found : credits.filter (0 < ·) = some existing) :
    (some existing).filter (0 < ·) = some existing := by
  obtain ⟨_, positive⟩ := Option.filter_eq_some_iff.mp found
  simpa [Option.filter] using positive

theorem requestFD_funds {quota : ObjectQuota} (key : (isProcSuffix ns).2 = false) (base : String) (requested : Int64)
    (read : funding ns s.nodeID past = ((pool ns quota.status).lookup s.nodeID).filter (0 < ·)) :
    (m.requestFD quota base s.nodeID requested).Obeys (Funds ns limit s) (Reported ns s) past := by
  simp only [pool, key, Bool.false_eq_true, ↓reduceIte] at read
  unfold K8sLeaseManager.requestFD
  split
  next existing found =>
    apply (ensureLease_funds m base past).bind
    intro _ later same
    exact same.trans (read.trans (found.trans (filter_found found).symm))
  next missing =>
    split
    · apply (ensureLease_funds m base past).bind
      intro _ later same
      exact same.trans (read.trans (filter_getD _).symm)
    next status computed =>
      refine ⟨.inl rfl, fun _ committed => ?_⟩
      cases committed with
      | false => exact (by simp [credited, read, missing, Reported, Except.toOption])
      | true =>
        apply (ensureLease_funds m base _).bind
        intro _ later same
        rw [missing] at read
        simp only [funding_cons, credited, pool, key, read, Bool.false_eq_true, ↓reduceIte, Option.or_none] at same
        exact same.trans (filter_getD _).symm

theorem requestProc_funds {quota : ObjectQuota} (key : (isProcSuffix ns).2 = true) (base : String) (requested : Int64)
    (read : funding ns s.nodeID past = ((pool ns quota.status).lookup s.nodeID).filter (0 < ·)) :
    (m.requestProc quota base s.nodeID requested).Obeys (Funds ns limit s) (Reported ns s) past := by
  simp only [pool, key, ↓reduceIte] at read
  unfold K8sLeaseManager.requestProc
  split
  next existing found => exact read.trans (found.trans (filter_found found).symm)
  next missing =>
    split
    · exact read.trans (filter_getD _).symm
    next status computed =>
      refine ⟨.inr rfl, fun _ committed => ?_⟩
      cases committed with
      | false => exact (by simp [credited, read, missing, Reported, Except.toOption])
      | true =>
        rw [missing] at read
        change Reported ns s (.ok _) _
        simp only [Reported, funding_cons, credited, pool, key, read, ↓reduceIte, Option.or_none]
        exact (filter_getD _).symm

theorem requestLease_funds (m : K8sLeaseManager) (requested : Int64) :
    (m.requestLease ns s.nodeID requested).Obeys (Funds ns limit s) (Reported ns s) [] := by
  unfold K8sLeaseManager.requestLease
  simp only
  split
  · exact rfl
  · refine ⟨⟨rfl, rfl⟩, fun state reply => ?_⟩
    cases reply with
    | none => exact rfl
    | some quota =>
      simp only [Program.done_bind]
      split
      next key => exact requestProc_funds key _ _ (by simp [credited, funding])
      next key => exact requestFD_funds (by simpa using key) _ _ (by simp [credited, funding])

theorem syncNamespace_funds (s : Syncer) (ns : String) (limit : Int64) (batchSize : Option Int64) :
    (s.syncNamespace ns limit batchSize).Obeys (Funds ns limit s) (fun _ _ => True) [] := by
  have effective : (s.effectiveLimit .fd ns limit batchSize).Obeys (Funds ns limit s)
      (fun amount past => amount = (funding ns s.nodeID past).getD limit) [] := by
    unfold Syncer.effectiveLimit
    split
    · exact rfl
    next leaser _ =>
      apply (requestLease_funds leaser (batchSize.getD 0)).bind
      intro result later reported
      cases result with
      | error error => exact (by simp [reported, Except.toOption])
      | ok granted =>
        simp only [Program.pure_eq, Program.obeys_done, reported, Except.toOption, Option.filter, decide_eq_true_eq]
        split <;> rfl
  apply effective.bind
  intro amount past same
  refine ⟨⟨rfl, rfl, same⟩, fun _ written => ?_⟩
  cases written with
  | false => trivial
  | true =>
    refine ⟨trivial, fun _ _ => ⟨trivial, fun _ written => ?_⟩⟩
    cases written with
    | false => trivial
    | true =>
      refine ⟨trivial, fun _ listed => ?_⟩
      cases listed with
      | none => trivial
      | some pods =>
        refine ⟨trivial, fun _ mapped => ?_⟩
        cases mapped <;> trivial

end obeys
end QuotaManager
