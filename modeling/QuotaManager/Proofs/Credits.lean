import Mathlib.Data.List.Perm.Subperm
import QuotaManager.LeaseManager
import QuotaManager.Logic.Words

/-! The credit arithmetic. As long as a pool is within its limit, every sum and
difference that an operation computes is exact, and what the operation writes is
within the limit again. -/

namespace QuotaManager
open Holdings

namespace Checked

/-- Amounts that are nonnegative and fit together add up exactly, in any order. -/
theorem sum_spec {amounts : List Int64} (nonneg : ∀ amount ∈ amounts, 0 ≤ amount.toInt)
    (fits : (amounts.map Int64.toInt).sum < 2 ^ 63) :
    (Checked.sum amounts).exact ∧ (Checked.sum amounts).value.toInt = (amounts.map Int64.toInt).sum := by
  suffices general : ∀ carried : Int64, 0 ≤ carried.toInt →
      carried.toInt + (amounts.map Int64.toInt).sum < 2 ^ 63 →
      (amounts.foldlM Checked.add carried).exact ∧
        (amounts.foldlM Checked.add carried).value.toInt = carried.toInt + (amounts.map Int64.toInt).sum by
    have := general 0 (by decide) (by simpa using fits)
    simpa [Checked.sum] using this
  induction amounts with
  | nil => intro carried _ _; simp
  | cons amount rest ih =>
    intro carried low high
    have positive := nonneg amount List.mem_cons_self
    have tail : 0 ≤ (rest.map Int64.toInt).sum := by
      apply List.sum_nonneg
      intro value member
      obtain ⟨other, inside, rfl⟩ := List.mem_map.mp member
      exact nonneg other (List.mem_cons_of_mem _ inside)
    simp only [List.map_cons, List.sum_cons] at fits high ⊢
    have exact := Words.toInt_add_of_fits (a := carried) (b := amount) (by omega) (by omega)
    obtain ⟨rest_exact, value⟩ := ih (fun other member => nonneg other (List.mem_cons_of_mem _ member)) (by omega)
      (carried + amount) (by omega) (by omega)
    simp only [List.foldlM_cons, Checked.bind_exact, Checked.bind_value, Checked.add_value]
    exact ⟨⟨exact, rest_exact⟩, by omega⟩

/-- Adding up wraps around at most at the end. -/
theorem sum_value (amounts : List Int64) : (Checked.sum amounts).value = Int64.ofInt (amounts.map Int64.toInt).sum := by
  suffices general : ∀ carried : Int64, (amounts.foldlM Checked.add carried).value =
      carried + Int64.ofInt (amounts.map Int64.toInt).sum by
    have whole := general 0
    rwa [Int64.zero_add] at whole
  induction amounts with
  | nil =>
    intro carried
    exact (Int64.add_zero carried).symm
  | cons amount rest ih =>
    intro carried
    rw [List.foldlM_cons, Checked.bind_value, ih, Checked.add_value, List.map_cons, List.sum_cons, Int64.ofInt_add,
      Int64.ofInt_toInt, Int64.add_assoc]

end Checked

/-- A pool of credits under a limit. -/
abbrev Within (limit : Option Int64) (allocations : Allocations) : Prop :=
  Holdings.Within Int64.toInt (limit.getD 0).toInt allocations

def credits (allocations : Allocations) : Int := total Int64.toInt allocations

namespace Within
variable {limit : Option Int64} {allocations : Allocations}

theorem amounts_sum (allocations : Allocations) : ((amounts allocations).map Int64.toInt).sum = credits allocations := by
  simp only [amounts, credits, Holdings.total, List.map_map, Function.comp_def]

theorem part_exact (within : Within limit allocations) {order : List Int64} (part : order.Subperm (amounts allocations)) :
    (Checked.sum order).exact ∧ (Checked.sum order).value.toInt = (order.map Int64.toInt).sum := by
  have nonneg : ∀ amount ∈ amounts allocations, 0 ≤ amount.toInt := by
    intro amount member
    obtain ⟨entry, inside, rfl⟩ := List.mem_map.mp member
    have := within.positive entry inside
    omega
  have whole := amounts_sum allocations
  obtain ⟨chosen, same, fewer⟩ := part
  have less : (order.map Int64.toInt).sum ≤ ((amounts allocations).map Int64.toInt).sum := by
    rw [← (same.map Int64.toInt).sum_eq]
    apply (fewer.map Int64.toInt).sum_le_sum
    intro value member
    obtain ⟨amount, inside, rfl⟩ := List.mem_map.mp member
    exact nonneg amount inside
  have bound := within.bounded
  have fits := (limit.getD 0).toInt_lt
  apply Checked.sum_spec
  · exact fun amount member => nonneg amount (fewer.subset (same.symm.subset member))
  · unfold credits at whole
    omega

theorem sum_exact (within : Within limit allocations) :
    (Checked.sum (amounts allocations)).exact ∧ (Checked.sum (amounts allocations)).value.toInt = credits allocations := by
  obtain ⟨exact, value⟩ := within.part_exact (List.Subperm.refl _)
  exact ⟨exact, value.trans (amounts_sum allocations)⟩

theorem sub_exact (within : Within limit allocations) :
    (Checked.sub (limit.getD 0) (Checked.sum (amounts allocations)).value).exact ∧
      (Checked.sub (limit.getD 0) (Checked.sum (amounts allocations)).value).value.toInt =
        (limit.getD 0).toInt - credits allocations := by
  obtain ⟨_, value⟩ := within.sum_exact
  have bound := within.bounded
  have nonneg := within.total_nonneg
  have fits := (limit.getD 0).toInt_lt
  rw [← value]
  have exact := Words.toInt_sub_of_fits (a := limit.getD 0) (b := (Checked.sum (amounts allocations)).value)
    (by rw [value]; unfold credits; omega) (by rw [value]; unfold credits; omega)
  exact ⟨exact, exact⟩

end Within

theorem batch_positive (m : K8sLeaseManager) {totalLimit : Int64} (positive : 1 ≤ totalLimit.toInt) :
    1 ≤ (m.batch totalLimit).toInt := by
  have batch := Int64.lt_iff_toInt_lt.mp m.positive
  unfold K8sLeaseManager.batch
  simp only [Words.toInt_min, Words.toInt_max, Int64.reduceToInt, Int64.toInt_zero] at batch ⊢
  omega

namespace K8sLeaseManager
variable (m : K8sLeaseManager) {limit : Option Int64} {allocations : Allocations}

/-- What a grant is made of: part of what is left, added to what the node has. -/
structure Granted (limit : Option Int64) (allocations : Allocations) (nodeID : String) (granted : Grant) : Prop where
  limited : granted.totalLimit = limit.getD 0
  allocated : granted.allocated.toInt = credits allocations
  positive : 1 ≤ granted.grant.toInt
  room : granted.grant.toInt ≤ (limit.getD 0).toInt - credits allocations
  credited : granted.allocations =
    allocations.insert nodeID ((allocations.lookup nodeID).getD 0 + granted.grant)

/-- Nothing is granted exactly when nothing is left. -/
theorem grant_spec (within : Within limit allocations) (nodeID : String) (requested : Int64) :
    (m.grant allocations limit nodeID requested).exact ∧
    ((m.grant allocations limit nodeID requested).value = none ∧ (limit.getD 0).toInt ≤ credits allocations ∨
      ∃ granted, (m.grant allocations limit nodeID requested).value = some granted ∧
        Granted limit allocations nodeID granted) := by
  obtain ⟨summed, sum⟩ := within.sum_exact
  obtain ⟨subtracted, available⟩ := within.sub_exact
  have nonneg := within.total_nonneg
  have fits := (limit.getD 0).toInt_lt
  simp only [Checked.sub_value] at available
  simp only [grant, Checked.bind_exact, Checked.bind_value, Checked.sub_value]
  by_cases exhausted : limit.getD 0 - (Checked.sum (amounts allocations)).value ≤ 0
  · have none_left := Int64.le_iff_toInt_le.mp exhausted
    simp only [exhausted, ↓reduceIte, Checked.pure_exact, Checked.pure_value, and_true, true_and]
    simp only [available, Int64.toInt_zero] at none_left
    exact ⟨⟨summed, subtracted⟩, .inl (by omega)⟩
  · have some_left := Int64.lt_iff_toInt_lt.mp (Int64.not_le.mp exhausted)
    simp only [available, Int64.toInt_zero] at some_left
    simp only [exhausted, ↓reduceIte, Checked.bind_exact, Checked.bind_value, Checked.pure_exact, Checked.pure_value,
      and_true, Checked.add_value]
    generalize asked : (if requested ≤ 0 then m.batch (limit.getD 0) else requested) = amount
    have positive : 1 ≤ amount.toInt := by
      rw [← asked]
      split
      · exact batch_positive m (by unfold credits at some_left; omega)
      next more =>
        have := Int64.lt_iff_toInt_lt.mp (Int64.not_le.mp more)
        rw [Int64.toInt_zero] at this
        omega
    have least := Words.toInt_min amount (limit.getD 0 - (Checked.sum (amounts allocations)).value)
    rw [available] at least
    have had : 0 ≤ ((allocations.lookup nodeID).getD 0).toInt ∧
        ((allocations.lookup nodeID).getD 0).toInt ≤ credits allocations := by
      have parts := total_erase Int64.toInt allocations nodeID
      have others := (within.erase nodeID).total_nonneg
      have same : held Int64.toInt allocations nodeID = ((allocations.lookup nodeID).getD 0).toInt := by
        unfold held
        cases allocations.lookup nodeID <;> rfl
      rw [← same]
      unfold credits
      cases found : allocations.lookup nodeID with
      | none => simp only [held, found, Option.elim_none] at parts ⊢; omega
      | some value =>
        have := within.lookup_positive found
        simp only [held, found, Option.elim_some] at parts ⊢
        omega
    have added := Words.toInt_add_of_fits (a := (allocations.lookup nodeID).getD 0)
      (b := min amount (limit.getD 0 - (Checked.sum (amounts allocations)).value)) (by omega) (by omega)
    refine ⟨⟨summed, subtracted, added⟩, .inr ⟨_, rfl, ⟨rfl, sum, ?_, ?_, rfl⟩⟩⟩
    · rw [least]; omega
    · rw [least]; omega

theorem grant_granted (within : Within limit allocations) {nodeID : String} {requested : Int64} {granted : Grant}
    (given : (m.grant allocations limit nodeID requested).value = some granted) :
    Granted limit allocations nodeID granted := by
  rcases (m.grant_spec within nodeID requested).2 with ⟨exhausted, _⟩ | ⟨other, same, spec⟩
  · rw [exhausted] at given
    cases given
  · obtain rfl := Option.some.inj (same.symm.trans given)
    exact spec

section requested
variable {m} {quota : ObjectQuota} {nodeID : String} {amount : Int64} {status : ObjectQuotaStatus}

/-- What a request computes from a grant. -/
theorem requestedFD_cases (computed : (m.requestedFD quota nodeID amount).value = some status) :
    ∃ granted, (m.grant quota.status.fdAllocations quota.spec.fileDescriptors nodeID amount).value = some granted ∧
      status = { quota.status with
        fdAllocations := granted.allocations
        availableFD := granted.totalLimit - granted.allocated - granted.grant
        version := some (incrementVersion quota.status.version) } := by
  simp only [requestedFD, Checked.bind_value] at computed
  split at computed
  · cases computed
  next granted given => exact ⟨granted, given, (Option.some.inj computed).symm⟩

theorem requestedProc_cases (computed : (m.requestedProc quota nodeID amount).value = some status) :
    ∃ granted, (m.grant quota.status.procAllocations quota.spec.processes nodeID amount).value = some granted ∧
      status = { quota.status with
        procAllocations := granted.allocations
        version := some (incrementVersion quota.status.version) } := by
  simp only [requestedProc, Checked.bind_value] at computed
  split at computed
  · cases computed
  next granted given => exact ⟨granted, given, (Option.some.inj computed).symm⟩

end requested
end K8sLeaseManager
/-- The operations that set the available amount anew. -/
def Writer.settlesFD : Writer → Bool
  | .requestFD | .releaseFD | .reclaim => true
  | .requestProc | .releaseProc => false

/-- What the operations write after they have read a quota. -/
inductive Writes (quota : ObjectQuota) : Writer → ObjectQuotaStatus → Prop where
  | requestFD (m : K8sLeaseManager) (nodeID : String) (requested : Int64) {status : ObjectQuotaStatus}
      (fresh : (quota.status.fdAllocations.lookup nodeID).filter (0 < ·) = none)
      (computed : (m.requestedFD quota nodeID requested).value = some status) : Writes quota .requestFD status
  | requestProc (m : K8sLeaseManager) (nodeID : String) (requested : Int64) {status : ObjectQuotaStatus}
      (fresh : (quota.status.procAllocations.lookup nodeID).filter (0 < ·) = none)
      (computed : (m.requestedProc quota nodeID requested).value = some status) : Writes quota .requestProc status
  | releaseFD (nodeID : String) {status : ObjectQuotaStatus}
      (computed : (releasedFD quota nodeID).value = some status) : Writes quota .releaseFD status
  | releaseProc (nodeID : String) {status : ObjectQuotaStatus}
      (computed : (releasedProc quota nodeID).value = some status) : Writes quota .releaseProc status
  | reclaim (caller : String) (active : String → Bool) {status : ObjectQuotaStatus}
      (computed : (reclaimed quota caller active).value = some status) : Writes quota .reclaim status

/-- The credit ledger of one quota: both pools are within their limits, the version
counts the updates, and the available amount is right once it has been set. -/
structure Ledger (spec : ObjectQuotaSpec) (writers : List Writer) (status : ObjectQuotaStatus) : Prop where
  fd : Within spec.fileDescriptors status.fdAllocations
  proc : Within spec.processes status.procAllocations
  version : status.version.getD 0 = Int64.ofNat writers.length
  available : (∃ writer ∈ writers, writer.settlesFD = true) →
    status.availableFD.toInt = (spec.fileDescriptors.getD 0).toInt - credits status.fdAllocations

namespace Ledger
variable {quota : ObjectQuota} {writers : List Writer} {status : ObjectQuotaStatus}

theorem empty {spec : ObjectQuotaSpec} (fd : 0 ≤ (spec.fileDescriptors.getD 0).toInt)
    (proc : 0 ≤ (spec.processes.getD 0).toInt) : Ledger spec [] .empty :=
  ⟨Holdings.Within.empty fd, Holdings.Within.empty proc, rfl, fun ⟨_, impossible, _⟩ => absurd impossible List.not_mem_nil⟩

private theorem incrementVersion_eq (version : Option Int64) : incrementVersion version = version.getD 0 + 1 := by
  cases version <;> rfl

private theorem next_version (ledger : Ledger quota.spec writers quota.status) (writer : Writer) :
    quota.status.version.getD 0 + 1 = Int64.ofNat (writer :: writers).length := by
  rw [List.length_cons, Int64.ofNat_add, ← ledger.version]
  rfl

theorem fresh_notMem {limit : Option Int64} {allocations : Allocations} (within : Within limit allocations)
    {nodeID : String} (fresh : (allocations.lookup nodeID).filter (0 < ·) = none) : nodeID ∉ allocations := by
  apply AList.lookup_eq_none.mp
  cases found : allocations.lookup nodeID with
  | none => rfl
  | some value =>
    have := within.lookup_positive found
    have positive : 0 < value := by rw [Int64.lt_iff_toInt_lt, Int64.toInt_zero]; omega
    simp only [found, Option.filter, decide_eq_true positive, ↓reduceIte, reduceCtorEq] at fresh

theorem granted_within {limit : Option Int64} {allocations : Allocations} {nodeID : String}
    {granted : K8sLeaseManager.Grant} (within : Within limit allocations) (fresh : nodeID ∉ allocations)
    (spec : K8sLeaseManager.Granted limit allocations nodeID granted) :
    Within limit granted.allocations ∧ credits granted.allocations = granted.grant.toInt + credits allocations := by
  have same : granted.allocations = allocations.insert nodeID granted.grant := by
    rw [spec.credited, AList.lookup_eq_none.mpr fresh, Option.getD_none, Int64.zero_add]
  rw [same]
  exact ⟨within.grant fresh spec.positive spec.room, total_grant fresh _⟩

private theorem rest_spec {limit : Option Int64} {allocations : Allocations} {nodeID : String}
    {granted : K8sLeaseManager.Grant} (within : Within limit allocations)
    (spec : K8sLeaseManager.Granted limit allocations nodeID granted) :
    (Checked.sub granted.totalLimit granted.allocated).exact ∧
    (Checked.sub (granted.totalLimit - granted.allocated) granted.grant).exact ∧
    (granted.totalLimit - granted.allocated - granted.grant).toInt =
      (limit.getD 0).toInt - credits allocations - granted.grant.toInt := by
  have nonneg := within.total_nonneg
  have fits := (limit.getD 0).toInt_lt
  have positive := spec.positive
  have room := spec.room
  have allocated := spec.allocated
  have limited := congrArg Int64.toInt spec.limited
  unfold credits at *
  have rest := Words.toInt_sub_of_fits (a := granted.totalLimit) (b := granted.allocated) (by omega) (by omega)
  have left := Words.toInt_sub_of_fits (a := granted.totalLimit - granted.allocated) (b := granted.grant)
    (by omega) (by omega)
  exact ⟨rest, left, by omega⟩

theorem requestFD (ledger : Ledger quota.spec writers quota.status) (m : K8sLeaseManager) (nodeID : String)
    (requested : Int64) (fresh : (quota.status.fdAllocations.lookup nodeID).filter (0 < ·) = none)
    (computed : (m.requestedFD quota nodeID requested).value = some status) :
    Ledger quota.spec (.requestFD :: writers) status := by
  obtain ⟨granted, given, rfl⟩ := K8sLeaseManager.requestedFD_cases computed
  have spec := m.grant_granted ledger.fd given
  obtain ⟨fd, sum⟩ := granted_within ledger.fd (fresh_notMem ledger.fd fresh) spec
  rw [incrementVersion_eq]
  refine ⟨fd, ledger.proc, ledger.next_version _, fun _ => ?_⟩
  simp only [(rest_spec ledger.fd spec).2.2, sum]
  omega

theorem requestProc (ledger : Ledger quota.spec writers quota.status) (m : K8sLeaseManager) (nodeID : String)
    (requested : Int64) (fresh : (quota.status.procAllocations.lookup nodeID).filter (0 < ·) = none)
    (computed : (m.requestedProc quota nodeID requested).value = some status) :
    Ledger quota.spec (.requestProc :: writers) status := by
  obtain ⟨granted, given, rfl⟩ := K8sLeaseManager.requestedProc_cases computed
  have spec := m.grant_granted ledger.proc given
  rw [incrementVersion_eq]
  refine ⟨ledger.fd, (granted_within ledger.proc (fresh_notMem ledger.proc fresh) spec).1, ledger.next_version _, ?_⟩
  rintro ⟨writer, member, settles⟩
  rcases List.mem_cons.mp member with rfl | before
  · cases settles
  · exact ledger.available ⟨writer, before, settles⟩

theorem releaseFD (ledger : Ledger quota.spec writers quota.status) (nodeID : String)
    (computed : (releasedFD quota nodeID).value = some status) :
    Ledger quota.spec (.releaseFD :: writers) status := by
  cases held : quota.status.fdAllocations.lookup nodeID with
  | none => simp only [releasedFD, held, Checked.pure_value, reduceCtorEq] at computed
  | some leased =>
    simp only [releasedFD, held, Checked.bind_value, incrementVersion_eq, Checked.pure_value,
      Option.some.injEq] at computed
    subst computed
    have fewer := ledger.fd.erase nodeID
    exact ⟨fewer, ledger.proc, ledger.next_version _, fun _ => (Within.sub_exact fewer).2⟩

theorem releaseProc (ledger : Ledger quota.spec writers quota.status) (nodeID : String)
    (computed : (releasedProc quota nodeID).value = some status) :
    Ledger quota.spec (.releaseProc :: writers) status := by
  cases held : quota.status.procAllocations.lookup nodeID with
  | none => simp only [releasedProc, held, Checked.pure_value, reduceCtorEq] at computed
  | some leased =>
    simp only [releasedProc, held, incrementVersion_eq, Checked.pure_value,
      Option.some.injEq] at computed
    subst computed
    refine ⟨ledger.fd, ledger.proc.erase nodeID, ledger.next_version _, ?_⟩
    rintro ⟨writer, member, settles⟩
    rcases List.mem_cons.mp member with rfl | before
    · cases settles
    · exact ledger.available ⟨writer, before, settles⟩

theorem reclaim (ledger : Ledger quota.spec writers quota.status) (caller : String) (active : String → Bool)
    (computed : (reclaimed quota caller active).value = some status) :
    Ledger quota.spec (.reclaim :: writers) status := by
  simp only [reclaimed] at computed
  split at computed
  · simp only [Checked.bind_value, Checked.pure_value, Option.some.injEq] at computed
    subst computed
    let keep (nodeID : String) : Bool := nodeID = caller ∨ active nodeID
    have fewer := ledger.fd.retain keep
    exact ⟨fewer, ledger.proc.retain keep, ledger.next_version _, fun _ => (Within.sub_exact fewer).2⟩
  · simp only [Checked.pure_value, reduceCtorEq] at computed

/-- The step lemma: whatever an operation writes after reading a ledger is a ledger again. -/
theorem writes (ledger : Ledger quota.spec writers quota.status) {writer : Writer} (written : Writes quota writer status) :
    Ledger quota.spec (writer :: writers) status := by
  cases written with
  | requestFD m nodeID requested fresh computed => exact ledger.requestFD m nodeID requested fresh computed
  | requestProc m nodeID requested fresh computed => exact ledger.requestProc m nodeID requested fresh computed
  | releaseFD nodeID computed => exact ledger.releaseFD nodeID computed
  | releaseProc nodeID computed => exact ledger.releaseProc nodeID computed
  | reclaim caller active computed => exact ledger.reclaim caller active computed

theorem credits_kept (ledger : Ledger quota.spec writers quota.status) {writer : Writer}
    (written : Writes quota writer status) (requests : writer = .requestFD ∨ writer = .requestProc) {node : String}
    {amount : Int64} (held : quota.status.fdAllocations.lookup node = some amount) :
    status.fdAllocations.lookup node = some amount := by
  cases written with
  | requestFD m nodeID requested fresh computed =>
    have different : node ≠ nodeID := by
      rintro rfl
      exact fresh_notMem ledger.fd fresh (AList.lookup_isSome.mp (by rw [held]; rfl))
    obtain ⟨granted, given, rfl⟩ := K8sLeaseManager.requestedFD_cases computed
    have spec := m.grant_granted ledger.fd given
    simp only [spec.credited, AList.lookup_insert_ne different, held]
  | requestProc m nodeID requested fresh computed =>
    obtain ⟨granted, given, rfl⟩ := K8sLeaseManager.requestedProc_cases computed
    exact held
  | releaseFD | releaseProc | reclaim => rcases requests with impossible | impossible <;> cases impossible

end Ledger

/-- No addition or subtraction of credits overflows in an operation that reads this
quota, in whichever order it adds up what it finds or leaves in a map. -/
structure Exact (quota : ObjectQuota) : Prop where
  requestFD : ∀ (m : K8sLeaseManager) nodeID requested, (m.requestedFD quota nodeID requested).exact
  requestProc : ∀ (m : K8sLeaseManager) nodeID requested, (m.requestedProc quota nodeID requested).exact
  releaseFD : ∀ nodeID, (releasedFD quota nodeID).exact
  releaseProc : ∀ nodeID, (releasedProc quota nodeID).exact
  reclaim : ∀ caller active, (reclaimed quota caller active).exact
  sumFD : ∀ order, order.Subperm (amounts quota.status.fdAllocations) → (Checked.sum order).exact
  sumProc : ∀ order, order.Subperm (amounts quota.status.procAllocations) → (Checked.sum order).exact

namespace Ledger
variable {quota : ObjectQuota} {writers : List Writer}

theorem exact (ledger : Ledger quota.spec writers quota.status) : Exact quota := by
  refine ⟨?_, ?_, ?_, ?_, ?_, ?_, ?_⟩
  · intro m nodeID requested
    obtain ⟨exact, cases⟩ := m.grant_spec ledger.fd nodeID requested
    simp only [K8sLeaseManager.requestedFD, Checked.bind_exact]
    refine ⟨exact, ?_⟩
    rcases cases with ⟨exhausted, _⟩ | ⟨granted, given, spec⟩
    · rw [exhausted]
      trivial
    · rw [given]
      obtain ⟨rest, left, _⟩ := rest_spec ledger.fd spec
      exact ⟨rest, left, trivial⟩
  · intro m nodeID requested
    obtain ⟨exact, cases⟩ := m.grant_spec ledger.proc nodeID requested
    simp only [K8sLeaseManager.requestedProc, Checked.bind_exact]
    refine ⟨exact, ?_⟩
    rcases cases with ⟨exhausted, _⟩ | ⟨granted, given, spec⟩
    · rw [exhausted]
      trivial
    · rw [given]
      trivial
  · intro nodeID
    unfold releasedFD
    split
    · trivial
    · have fewer := ledger.fd.erase nodeID
      exact ⟨(Within.sum_exact fewer).1, (Within.sub_exact fewer).1, trivial⟩
  · intro nodeID
    unfold releasedProc
    split <;> trivial
  · intro caller active
    unfold reclaimed
    simp only
    split
    · have fewer := ledger.fd.retain fun nodeID => decide (nodeID = caller ∨ active nodeID = true)
      exact ⟨(Within.sum_exact fewer).1, (Within.sub_exact fewer).1, trivial⟩
    · trivial
  · exact fun order part => (Within.part_exact ledger.fd part).1
  · exact fun order part => (Within.part_exact ledger.proc part).1

end Ledger
end QuotaManager
