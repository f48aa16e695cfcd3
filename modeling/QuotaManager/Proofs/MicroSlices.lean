import QuotaManager.Logic.Lockstep
import QuotaManager.Proofs.NamespaceCount
import QuotaManager.Proofs.ProgramSteps

/-! The budget of a lease against its limit. A check looks at the budget first and takes
one further slice of the limit when the budget is spent. A caller cannot tell, as long
as one further slice is always enough. -/

namespace QuotaManager.Enforcer

namespace CpuLease
variable (lease : CpuLease) (limit : UInt64)

/-- A lease without its budget. -/
def unsliced : CpuLease := { lease with leaseBudget := 0 }

/-- A check that compares the count with the limit alone. -/
def chargeWhole (task : Task) (nsKey : UInt64) (reason : UInt32) : Outcome × CpuLease :=
  if lease.count ≥ limit then lease.breach task nsKey reason else lease.accept

/-- The budget, or one slice more, has room for the next caller. -/
def Reaches : Prop := lease.count < lease.leaseBudget ∨ lease.count < (lease.expand limit).leaseBudget

variable {lease limit}

theorem unsliced_eq_iff {other : CpuLease} :
    lease.unsliced = other.unsliced ↔ ∃ budget, other = { lease with leaseBudget := budget } := by
  obtain ⟨count, budget, lastUsedNs, topCgid, topCount⟩ := lease
  obtain ⟨count', budget', lastUsedNs', topCgid', topCount'⟩ := other
  simp only [unsliced, mk.injEq, true_and]
  grind

variable (task : Task) (nsKey : UInt64) (reason : UInt32)

theorem charge_reaches (below : lease.count < limit) (reaches : lease.Reaches limit) :
    ∃ budget, lease.charge limit task nsKey reason = CpuLease.accept { lease with leaseBudget := budget } := by
  unfold charge
  rw [if_neg (UInt64.not_le.mpr below)]
  by_cases room : lease.count < lease.leaseBudget
  · rw [if_neg (UInt64.not_le.mpr room)]
    exact ⟨lease.leaseBudget, rfl⟩
  · have reach := reaches.resolve_left room
    rw [if_pos (UInt64.not_lt.mp room)]
    simp only
    rw [expand_eq] at reach ⊢
    rw [if_neg (UInt64.not_le.mpr reach)]
    exact ⟨_, rfl⟩

theorem charge_short (below : lease.count < limit) (short : ¬ lease.Reaches limit) :
    ∃ budget, lease.charge limit task nsKey reason = CpuLease.breach { lease with leaseBudget := budget } task nsKey reason := by
  obtain ⟨spent, short⟩ := not_or.mp short
  unfold charge
  rw [if_neg (UInt64.not_le.mpr below), if_pos (UInt64.not_lt.mp spent)]
  simp only
  rw [expand_eq] at short ⊢
  rw [if_pos (UInt64.not_lt.mp short)]
  exact ⟨_, rfl⟩

/-- As long as a further slice reaches, the budget does not show. -/
theorem charge_whole (reaches : lease.count < limit → lease.Reaches limit) (budget : UInt64) :
    let whole := chargeWhole { lease with leaseBudget := budget } limit task nsKey reason
    (lease.charge limit task nsKey reason).1 = whole.1 ∧ (lease.charge limit task nsKey reason).2.unsliced = whole.2.unsliced := by
  unfold chargeWhole
  by_cases below : lease.count < limit
  · obtain ⟨later, charged⟩ := charge_reaches task nsKey reason below (reaches below)
    rw [charged]
    simp only [ge_iff_le, UInt64.not_le.mpr below, ↓reduceIte]
    exact ⟨rfl, rfl⟩
  · rw [charge_full task nsKey reason below]
    simp only [ge_iff_le, UInt64.not_lt.mp below, ↓reduceIte]
    exact ⟨rfl, rfl⟩

theorem charge_whole_apart (below : lease.count < limit) (short : ¬ lease.Reaches limit) (budget : UInt64) :
    (lease.charge limit task nsKey reason).1 ≠ (chargeWhole { lease with leaseBudget := budget } limit task nsKey reason).1 := by
  obtain ⟨later, charged⟩ := charge_short task nsKey reason below short
  unfold chargeWhole
  rw [charged]
  simp only [ge_iff_le, UInt64.not_le.mpr below, ↓reduceIte]
  intro same
  have verdict := congrArg Outcome.verdict same
  simp only [breach, accept, Outcome.pass] at verdict
  split at verdict
  · cases verdict
  · cases verdict

end CpuLease

abbrev Charge := CpuLease → UInt64 → Task → UInt64 → UInt32 → Outcome × CpuLease

namespace ResourceMaps

/-- The limit check, with one or the other way to charge. -/
def checkBy (charge : Charge) (maps : ResourceMaps) (task : Task) (reason : UInt32) : Outcome × ResourceMaps :=
  match maps.cgroup task.cgid with
  | none => (.pass, maps)
  | some nsKey =>
    let maps := maps.recordInc task.cgid
    match maps.nsLimit nsKey with
    | none => (.pass, maps)
    | some limit =>
      if limit = 0 then (.pass, maps) else
      match maps.nsCounter nsKey with
      | none => (.pass, maps)
      | some lease =>
        let lease := lease.noteTop task.cgid (maps.cgroupCounter task.cgid)
        let lease := { lease with lastUsedNs := task.usedAt }
        let (outcome, lease) := charge lease limit task nsKey reason
        (outcome, { maps with nsCounter := maps.nsCounter.update nsKey lease })

/-- With the way the programs charge, this is their check. -/
theorem checkBy_charge : checkBy CpuLease.charge = check := rfl

section checkBy
variable {maps : ResourceMaps} {task : Task} {nsKey limit : UInt64} {lease : CpuLease} (charge : Charge) (reason : UInt32)

theorem checkBy_unmapped (unmapped : maps.cgroup task.cgid = none) : maps.checkBy charge task reason = (.pass, maps) := by
  simp [checkBy, unmapped]

theorem checkBy_unenforced (mapped : maps.cgroup task.cgid = some nsKey) (free : ∀ limit lease, ¬ maps.Enforced nsKey limit lease) :
    maps.checkBy charge task reason = (.pass, maps.recordInc task.cgid) := by
  simp only [checkBy, mapped, recordInc_eq]
  cases limited : maps.nsLimit nsKey with
  | none => rfl
  | some limit =>
    by_cases zero : limit = 0
    · simp [zero]
    · cases leased : maps.nsCounter nsKey with
      | none => simp [zero]
      | some lease => exact (free limit lease ⟨limited, zero, leased⟩).elim

theorem checkBy_enforced (mapped : maps.cgroup task.cgid = some nsKey) (enforced : maps.Enforced nsKey limit lease) :
    maps.checkBy charge task reason =
      ((charge (maps.noted task lease) limit task nsKey reason).1,
        { maps with
          cgroupCounter := maps.cgroupCounter.raised task.cgid
          nsCounter := maps.nsCounter.update nsKey (charge (maps.noted task lease) limit task nsKey reason).2 }) := by
  simp [checkBy, mapped, recordInc_eq, enforced.limited, enforced.positive, enforced.leased, noted, BpfMap.raised]

theorem noted_sliced (maps : ResourceMaps) (task : Task) (lease : CpuLease) (budget : UInt64) :
    maps.noted task { lease with leaseBudget := budget } = { maps.noted task lease with leaseBudget := budget } := by
  unfold noted CpuLease.noteTop
  dsimp only
  split <;> rfl

theorem noted_reaches : (maps.noted task lease).Reaches limit ↔ lease.Reaches limit := by
  unfold CpuLease.Reaches CpuLease.expand
  simp only [noted_count, noted_leaseBudget]
  split <;> rfl

end checkBy

/-- Below the limit a check finds room in the budget or in one slice more. -/
def OneSliceReaches (maps : ResourceMaps) (task : Task) : Prop :=
  ∀ nsKey limit lease, maps.cgroup task.cgid = some nsKey → maps.Enforced nsKey limit lease → lease.count < limit →
    lease.Reaches limit

/-- The same maps but for the budgets. -/
structure Alike (one two : ResourceMaps) : Prop where
  cgroup : one.cgroup = two.cgroup
  counters : one.cgroupCounter = two.cgroupCounter
  limits : one.nsLimit = two.nsLimit
  leases : ∀ key, (one.nsCounter key).map CpuLease.unsliced = (two.nsCounter key).map CpuLease.unsliced

namespace Alike
variable {one two : ResourceMaps} {nsKey limit : UInt64} {task : Task} {reason : UInt32}

theorem refl (maps : ResourceMaps) : Alike maps maps := ⟨rfl, rfl, rfl, fun _ => rfl⟩

theorem symm (alike : Alike one two) : Alike two one :=
  ⟨alike.cgroup.symm, alike.counters.symm, alike.limits.symm, fun key => (alike.leases key).symm⟩

theorem leased (alike : Alike one two) {lease : CpuLease} (found : one.nsCounter nsKey = some lease) :
    ∃ budget, two.nsCounter nsKey = some { lease with leaseBudget := budget } := by
  have same := alike.leases nsKey
  rw [found, Option.map_some] at same
  obtain ⟨other, stored, unsliced⟩ := Option.map_eq_some_iff.mp same.symm
  obtain ⟨budget, rfl⟩ := CpuLease.unsliced_eq_iff.mp unsliced.symm
  exact ⟨budget, stored⟩

theorem update (alike : Alike one two) (counters : BpfMap UInt64) {first second : CpuLease}
    (same : first.unsliced = second.unsliced) (key : UInt64) :
    Alike { one with cgroupCounter := counters, nsCounter := one.nsCounter.update key first }
      { two with cgroupCounter := counters, nsCounter := two.nsCounter.update key second } := by
  refine ⟨alike.cgroup, rfl, alike.limits, ?_⟩
  intro other
  simp only [BpfMap.update_apply]
  split
  · simp only [Option.map_some, same]
  · exact alike.leases other

theorem enforced (alike : Alike one two) {lease : CpuLease} (held : one.Enforced nsKey limit lease) :
    ∃ budget, two.Enforced nsKey limit { lease with leaseBudget := budget } := by
  obtain ⟨budget, stored⟩ := alike.leased held.leased
  exact ⟨budget, alike.limits ▸ held.limited, held.positive, stored⟩

theorem noted (alike : Alike one two) (task : Task) (lease : CpuLease) : two.noted task lease = one.noted task lease := by
  simp only [ResourceMaps.noted, alike.counters]

theorem check (alike : Alike one two) (reaches : one.OneSliceReaches task) :
    (one.check task reason).1 = (two.checkBy CpuLease.chargeWhole task reason).1 ∧
      Alike (one.check task reason).2 (two.checkBy CpuLease.chargeWhole task reason).2 := by
  cases mapped : one.cgroup task.cgid with
  | none =>
    rw [check_unmapped reason mapped, checkBy_unmapped _ reason (alike.cgroup ▸ mapped)]
    exact ⟨rfl, alike⟩
  | some nsKey =>
    have also : two.cgroup task.cgid = some nsKey := alike.cgroup ▸ mapped
    by_cases counted : ∃ limit lease, one.Enforced nsKey limit lease
    · obtain ⟨limit, lease, held⟩ := counted
      obtain ⟨budget, other⟩ := alike.enforced held
      rw [check_enforced reason mapped held, checkBy_enforced _ reason also other, alike.noted,
        noted_sliced one task lease budget, ← alike.counters]
      have reaches : (one.noted task lease).count < limit → (one.noted task lease).Reaches limit := by
        rw [noted_count, noted_reaches]
        exact reaches nsKey limit lease mapped held
      obtain ⟨same, later⟩ := CpuLease.charge_whole task nsKey reason reaches budget
      exact ⟨same, alike.update _ later nsKey⟩
    · have free : ∀ limit lease, ¬ one.Enforced nsKey limit lease := fun limit lease held => counted ⟨limit, lease, held⟩
      have other : ∀ limit lease, ¬ two.Enforced nsKey limit lease := fun limit lease held =>
        (alike.symm.enforced held).elim fun _ held => free _ _ held
      rw [check_unenforced reason mapped free, checkBy_unenforced _ reason also other, recordInc_eq, recordInc_eq]
      exact ⟨rfl, alike.cgroup, congrArg (BpfMap.raised · _) alike.counters, alike.limits, alike.leases⟩

/-- A check that falls short below the limit is told from one that knows no budgets. -/
theorem check_apart (alike : Alike one two) (short : ¬ one.OneSliceReaches task) :
    (one.check task reason).1 ≠ (two.checkBy CpuLease.chargeWhole task reason).1 := by
  simp only [OneSliceReaches, not_forall] at short
  obtain ⟨nsKey, limit, lease, mapped, held, below, short⟩ := short
  obtain ⟨budget, other⟩ := alike.enforced held
  rw [check_enforced reason mapped held, checkBy_enforced _ reason (alike.cgroup ▸ mapped) other, alike.noted,
    noted_sliced one task lease budget]
  have apart : ¬ (one.noted task lease).Reaches limit := fun reached => short (noted_reaches.mp reached)
  refine CpuLease.charge_whole_apart task nsKey reason ?_ apart budget
  rwa [noted_count]

theorem release (alike : Alike one two) (task : Task) : Alike (one.release task) (two.release task) := by
  have first := release_frame one task
  have second := release_frame two task
  refine ⟨?_, ?_, ?_, ?_⟩
  · rw [first.1, second.1, alike.cgroup]
  · rw [first.2.2, second.2.2, alike.counters]
  · rw [first.2.1, second.2.1, alike.limits]
  · intro key
    by_cases mapped : one.cgroup task.cgid = some key
    · rw [release_mapped mapped, release_mapped (alike.cgroup ▸ mapped)]
      cases found : one.nsCounter key with
      | none =>
        have missing := alike.leases key
        rw [found, Option.map_none] at missing
        rw [Option.map_eq_none_iff.mp missing.symm]
      | some lease =>
        obtain ⟨budget, stored⟩ := alike.leased found
        rw [stored]
        simp only [Option.map_some, released]
        split <;> rfl
    · rw [release_unmapped mapped, release_unmapped (alike.cgroup ▸ mapped)]
      exact alike.leases key

/-- A reset writes the same count whatever the budget was. -/
theorem reset (alike : Alike one two) (nsKey : UInt64) (limit : Int64) :
    Alike (one.resetNsCounter nsKey limit) (two.resetNsCounter nsKey limit) := by
  have same : (renewedLease (one.nsCounter nsKey) limit).unsliced = (renewedLease (two.nsCounter nsKey) limit).unsliced := by
    cases found : one.nsCounter nsKey with
    | none =>
      have missing := alike.leases nsKey
      rw [found, Option.map_none] at missing
      rw [Option.map_eq_none_iff.mp missing.symm]
    | some lease =>
      obtain ⟨budget, stored⟩ := alike.leased found
      rw [stored]
      rfl
  refine ⟨alike.cgroup, alike.counters, alike.limits, ?_⟩
  exact (alike.update one.cgroupCounter same nsKey).leases

theorem apply (alike : Alike one two) (write : MapWrite) : Alike (one.apply write) (two.apply write) := by
  obtain ⟨cgroup, counters, limits, leases⟩ := alike
  cases write with
  | updateNsLimit nsKey limit => exact ⟨cgroup, counters, congrArg (BpfMap.update · nsKey limit.toUInt64) limits, leases⟩
  | deleteNsLimit nsKey => exact ⟨cgroup, counters, congrArg (BpfMap.delete · nsKey) limits, leases⟩
  | resetNsCounter nsKey limit => exact reset ⟨cgroup, counters, limits, leases⟩ nsKey limit
  | deleteNsCounter nsKey =>
    refine ⟨cgroup, counters, limits, ?_⟩
    intro key
    simp only [ResourceMaps.apply, deleteNsCounter, BpfMap.delete, Function.update_apply]
    split
    · rfl
    · exact leases key
  | updateCgroupMapping cgroupID nsKey => exact ⟨congrArg (BpfMap.update · cgroupID nsKey) cgroup, counters, limits, leases⟩
  | deleteCgroupMapping cgroupID =>
    exact ⟨congrArg (BpfMap.delete · cgroupID) cgroup, congrArg (BpfMap.delete · cgroupID) counters, limits, leases⟩

end Alike

end ResourceMaps

/-- Answers an event, with one or the other way to charge. -/
def Bpf.respondBy (charge : Charge) (bpf : Bpf) : MapEvent → Option Outcome × Bpf
  | .write resource write => (none, bpf.withMaps resource ((bpf.maps resource).apply write))
  | .kernel event =>
    let resource := event.resource
    match event.usage resource with
    | .acquire task =>
      let (outcome, maps) := (bpf.maps resource).checkBy charge task resource.reason
      (some outcome, bpf.withMaps resource maps)
    | .release task => (none, bpf.release resource task)
    | .idle => (none, bpf)

/-- With the way the programs charge, this is the object as it runs. -/
theorem Bpf.respondBy_charge (bpf : Bpf) (event : MapEvent) : (bpf.respondBy CpuLease.charge event).2 = bpf.advance event := by
  cases event with
  | write resource write => rfl
  | kernel event =>
    cases event with
    | fdInstall task => rfl
    | kernelClone task => rfl
    | doExit task => rfl
    | filpClose task file =>
      cases file with
      | none => rfl
      | some refs =>
        by_cases shared : refs > 1
        · simp only [respondBy, advance, after, react, trackCloseFd, KernelEvent.resource, KernelEvent.usage, shared, ↓reduceIte]
        · simp only [respondBy, advance, after, react, trackCloseFd, KernelEvent.resource, KernelEvent.usage, shared, ↓reduceIte]

/-- A kernel event meets, below the limit, a budget that a further slice lifts past the count. -/
def SlicesReach (bpf : Bpf) : MapEvent → Prop
  | .write _ _ => True
  | .kernel event => ∀ task, event.usage event.resource = .acquire task → (bpf.maps event.resource).OneSliceReaches task

section respond
variable {one two : Bpf} (alike : ∀ resource, (one.maps resource).Alike (two.maps resource))
include alike

theorem alike_withMaps {resource : Resource} {first second : ResourceMaps} (same : first.Alike second) (other : Resource) :
    ((one.withMaps resource first).maps other).Alike ((two.withMaps resource second).maps other) := by
  by_cases here : other = resource
  · subst here
    rwa [Bpf.withMaps_maps, Bpf.withMaps_maps]
  · rw [Bpf.withMaps_other _ _ here, Bpf.withMaps_other _ _ here]
    exact alike other

/-- The step lemma of the simulation. -/
theorem respond_same {event : MapEvent} (reach : SlicesReach one event) :
    (one.respondBy CpuLease.charge event).1 = (two.respondBy CpuLease.chargeWhole event).1 ∧
      ∀ resource, ((one.respondBy CpuLease.charge event).2.maps resource).Alike
        ((two.respondBy CpuLease.chargeWhole event).2.maps resource) := by
  cases event with
  | write resource write => exact ⟨rfl, alike_withMaps alike ((alike resource).apply write)⟩
  | kernel event =>
    simp only [Bpf.respondBy, ResourceMaps.checkBy_charge]
    cases used : event.usage event.resource with
    | acquire task =>
      obtain ⟨same, later⟩ := (alike event.resource).check (reach task used)
      exact ⟨congrArg some same, alike_withMaps alike later⟩
    | release task => exact ⟨rfl, alike_withMaps alike ((alike event.resource).release task)⟩
    | idle => exact ⟨rfl, alike⟩

theorem respond_apart {event : MapEvent} (short : ¬ SlicesReach one event) :
    (one.respondBy CpuLease.charge event).1 ≠ (two.respondBy CpuLease.chargeWhole event).1 := by
  cases event with
  | write resource write => exact absurd trivial short
  | kernel event =>
    simp only [SlicesReach, not_forall] at short
    obtain ⟨task, used, short⟩ := short
    simp only [Bpf.respondBy, used, ResourceMaps.checkBy_charge]
    exact fun same => (alike event.resource).check_apart short (Option.some.inj same)

end respond

/-- The budgets show exactly when a check below the limit meets one that a further slice
does not lift past the count. Otherwise an object without budgets answers the same,
whatever the controller writes in between. -/
theorem slices_show_iff (bpf : Bpf) (events : List MapEvent) :
    Lockstep.answers (Bpf.respondBy CpuLease.charge) bpf events = Lockstep.answers (Bpf.respondBy CpuLease.chargeWhole) bpf events ↔
      Trace.Along Bpf.advance SlicesReach bpf events := by
  have runs : (fun bpf event => (Bpf.respondBy CpuLease.charge bpf event).2) = Bpf.advance := by
    funext bpf event
    exact bpf.respondBy_charge event
  rw [← runs]
  refine Lockstep.answers_eq_iff (fun one two => ∀ resource, (one.maps resource).Alike (two.maps resource)) SlicesReach ?_ ?_
    (fun resource => .refl (bpf.maps resource)) events
  · intro one two event alike reach
    exact respond_same alike reach
  · intro one two event alike short
    exact respond_apart alike short

end QuotaManager.Enforcer
