import QuotaManager.Proofs.Accounting
import QuotaManager.Logic.Trace

/-! When a namespace below its limit may be refused. Kernel events alone keep the
budget within reach of the count. The two writes of a re-sync move the limit and the
budget and keep the count, so each decides whether the next check can still catch up. -/

namespace QuotaManager.Enforcer

/-- Kernel events and the writes of re-syncs of one namespace, in the order they take effect. -/
inductive Event where
  | kernel (event : KernelEvent)
  | updateNsLimit (resource : Resource) (limit : PositiveLimit)
  | resetNsCounter (resource : Resource) (limit : PositiveLimit)

/-- From a usage that is or falls below the limit, one expansion of the budget is enough. -/
def Catches (usage : Nat) (budget limit : UInt64) : Prop :=
  min usage (limit.toNat - 1) < budget.toNat + (CpuLease.expansion limit).toNat

instance (usage : Nat) (budget limit : UInt64) : Decidable (Catches usage budget limit) := Nat.decLt _ _

namespace Bpf

def step (nsKey : UInt64) (bpf : Bpf) : Event → Bpf
  | .kernel event => bpf.after event
  | .updateNsLimit resource limit => bpf.withMaps resource ((bpf.maps resource).updateNsLimit nsKey limit.value)
  | .resetNsCounter resource limit => bpf.withMaps resource ((bpf.maps resource).resetNsCounter nsKey limit.value)

/-- Whoever takes one more unit while the namespace is below its limit is let
through: the check returns 0, counts the event, reports nothing, signals nobody. -/
def Spared (nsKey : UInt64) (resource : Resource) (bpf : Bpf) (event : Event) : Prop :=
  ∀ task, event = .kernel (resource.acquire task) → (bpf.maps resource).cgroup task.cgid = some nsKey →
    ∀ limit lease, (bpf.maps resource).Enforced nsKey limit lease → lease.count < limit →
      (bpf.check resource task).1.verdict = .allow ∧ (react bpf (resource.acquire task)).1 = .none ∧
      ∃ after, ((bpf.step nsKey event).maps resource).nsCounter nsKey = some after ∧
        after.count.toNat = lease.count.toNat + 1

/-- The usage that a reset finds. -/
def counted (bpf : Bpf) (resource : Resource) (nsKey : UInt64) : Nat :=
  match (bpf.maps resource).nsCounter nsKey with
  | some lease => lease.count.toNat
  | none => 0

/-- A write of the limit is harmless when the budget in force catches up with the usage
under the new limit; a reset, when the slice that it writes does so under the limit in force. -/
def Reaching (nsKey : UInt64) (resource : Resource) (bpf : Bpf) : Event → Prop
  | .kernel _ => True
  | .updateNsLimit other limit => other = resource → ∀ lease, (bpf.maps resource).nsCounter nsKey = some lease →
      Catches lease.count.toNat lease.leaseBudget limit.stored
  | .resetNsCounter other limit => other = resource → ∀ inForce, (bpf.maps resource).nsLimit nsKey = some inForce →
      Catches (bpf.counted resource nsKey) (microSlice limit.value) inForce

end Bpf

/-- The namespace is enforced, and its budget catches up. -/
structure CatchesUp (maps : ResourceMaps) (nsKey limit : UInt64) (lease : CpuLease) : Prop
    extends maps.Enforced nsKey limit lease where
  small : limit.toNat < 2 ^ 63
  reach : Catches lease.count.toNat lease.leaseBudget limit

namespace CatchesUp
variable {maps : ResourceMaps} {nsKey limit : UInt64} {lease : CpuLease} {task : Task} (reason : UInt32)

theorem covered (ready : CatchesUp maps nsKey limit lease) (room : lease.count < limit) : lease.Covered limit := by
  have reach := ready.reach
  have := UInt64.lt_iff_toNat_lt.mp room
  unfold Catches at reach
  unfold CpuLease.Covered
  omega

theorem admits (ready : CatchesUp maps nsKey limit lease) (mapped : maps.cgroup task.cgid = some nsKey)
    (room : lease.count < limit) :
    ∃ after, (maps.check task reason).1 = .pass ∧ (maps.check task reason).2.nsCounter nsKey = some after ∧
      after.count.toNat = lease.count.toNat + 1 ∧ after.WithinBudget := by
  obtain ⟨budget, counted, above⟩ :=
    ResourceMaps.check_covered reason mapped ready.toEnforced ready.small room (ready.covered room)
  have raised := Words.toNat_succ_of_lt room
  simp only [counted, BpfMap.update_self]
  refine ⟨_, trivial, rfl, raised, ?_⟩
  simp only [CpuLease.WithinBudget, UInt64.le_iff_toNat_le, raised]
  exact UInt64.lt_iff_toNat_lt.mp above

theorem use (ready : CatchesUp maps nsKey limit lease) (usage : Usage) :
    ∃ after, CatchesUp (maps.use reason usage) nsKey limit after := by
  have unchanged (same : (maps.use reason usage).nsCounter nsKey = maps.nsCounter nsKey) :
      CatchesUp (maps.use reason usage) nsKey limit lease :=
    ⟨⟨by simpa using ready.limited, ready.positive, same.trans ready.leased⟩, ready.small, ready.reach⟩
  cases usage with
  | idle => exact ⟨lease, ready⟩
  | acquire task =>
    by_cases mapped : maps.cgroup task.cgid = some nsKey
    · by_cases room : lease.count < limit
      · obtain ⟨after, _, stored, _, within⟩ := ready.admits reason mapped room
        have := within.covered limit
        refine ⟨after, ⟨⟨by simpa using ready.limited, ready.positive, stored⟩, ready.small, ?_⟩⟩
        unfold CpuLease.Covered at this
        unfold Catches
        omega
      · have full : ¬ (maps.noted task lease).count < limit := by simpa using room
        refine ⟨maps.noted task lease, ⟨⟨by simpa using ready.limited, ready.positive, ?_⟩, ready.small, ?_⟩⟩
        · simp only [ResourceMaps.use, ResourceMaps.check_enforced reason mapped ready.toEnforced,
            CpuLease.charge_full task nsKey reason full, BpfMap.update_self, CpuLease.breach]
        · simpa using ready.reach
    · exact ⟨lease, unchanged (ResourceMaps.check_other reason mapped)⟩
  | release task =>
    by_cases mapped : maps.cgroup task.cgid = some nsKey
    · have stored := ResourceMaps.release_mapped mapped
      rw [ready.leased] at stored
      have reach := ready.reach
      refine ⟨_, ⟨⟨by simpa using ready.limited, ready.positive, stored⟩, ready.small, ?_⟩⟩
      unfold ResourceMaps.released
      split
      · exact reach
      next nonzero =>
        unfold Catches at reach ⊢
        simp only [Words.toNat_sub_one nonzero]
        omega
    · exact ⟨lease, unchanged (ResourceMaps.release_unmapped mapped)⟩

end CatchesUp

theorem renewedLease_budget (existing : Option CpuLease) (limit : Int64) :
    (renewedLease existing limit).leaseBudget = microSlice limit := by
  cases existing with
  | none => rfl
  | some lease => rfl

theorem renewedLease_counted (bpf : Bpf) (resource : Resource) (nsKey : UInt64) (limit : Int64) :
    (renewedLease ((bpf.maps resource).nsCounter nsKey) limit).count.toNat = bpf.counted resource nsKey := by
  unfold Bpf.counted
  cases (bpf.maps resource).nsCounter nsKey with
  | none => rfl
  | some lease => rfl

/-- Kernel events neither start nor end a lease. -/
theorem use_leased {maps : ResourceMaps} {nsKey : UInt64} (reason : UInt32) (usage : Usage) :
    ((maps.use reason usage).nsCounter nsKey).isSome = (maps.nsCounter nsKey).isSome := by
  cases usage with
  | idle => rfl
  | acquire task =>
    by_cases mapped : maps.cgroup task.cgid = some nsKey
    · by_cases counted : ∃ limit lease, maps.Enforced nsKey limit lease
      · obtain ⟨limit, lease, enforced⟩ := counted
        simp only [ResourceMaps.use, ResourceMaps.check_enforced reason mapped enforced, BpfMap.update_self, enforced.leased,
          Option.isSome_some]
      · have free : ∀ limit lease, ¬ maps.Enforced nsKey limit lease := fun limit lease enforced => counted ⟨limit, lease, enforced⟩
        simp only [ResourceMaps.use, ResourceMaps.check_unenforced reason mapped free, ResourceMaps.recordInc_eq]
    · exact congrArg Option.isSome (ResourceMaps.check_other reason mapped)
  | release task =>
    by_cases mapped : maps.cgroup task.cgid = some nsKey
    · simp only [ResourceMaps.use, ResourceMaps.release_mapped mapped, Option.isSome_map]
    · exact congrArg Option.isSome (ResourceMaps.release_unmapped mapped)

/-- Whenever the namespace is enforced, its budget catches up. -/
structure Calm (maps : ResourceMaps) (nsKey : UInt64) : Prop where
  small : ∀ limit, maps.nsLimit nsKey = some limit → limit.toNat < 2 ^ 63
  reach : ∀ limit lease, maps.Enforced nsKey limit lease → Catches lease.count.toNat lease.leaseBudget limit

theorem CatchesUp.calm {maps : ResourceMaps} {nsKey limit : UInt64} {lease : CpuLease}
    (ready : CatchesUp maps nsKey limit lease) : Calm maps nsKey := by
  refine ⟨fun other limited => ?_, fun other later enforced => ?_⟩
  · obtain rfl : limit = other := Option.some.inj (ready.limited.symm.trans limited)
    exact ready.small
  · obtain rfl : limit = other := Option.some.inj (ready.limited.symm.trans enforced.limited)
    obtain rfl : lease = later := Option.some.inj (ready.leased.symm.trans enforced.leased)
    exact ready.reach

namespace Calm
variable {maps : ResourceMaps} {nsKey : UInt64} (reason : UInt32)

theorem ready (calm : Calm maps nsKey) {limit : UInt64} {lease : CpuLease} (enforced : maps.Enforced nsKey limit lease) :
    CatchesUp maps nsKey limit lease :=
  ⟨enforced, calm.small limit enforced.limited, calm.reach limit lease enforced⟩

theorem use (calm : Calm maps nsKey) (usage : Usage) : Calm (maps.use reason usage) nsKey := by
  by_cases counted : ∃ limit lease, maps.Enforced nsKey limit lease
  · obtain ⟨limit, lease, enforced⟩ := counted
    obtain ⟨after, later⟩ := (calm.ready enforced).use reason usage
    exact later.calm
  · have same : (maps.use reason usage).nsLimit = maps.nsLimit := ResourceMaps.use_nsLimit reason usage
    refine ⟨fun limit limited => calm.small limit (same ▸ limited), fun limit lease enforced => ?_⟩
    obtain ⟨before, leased⟩ := Option.isSome_iff_exists.mp
      ((use_leased reason usage).symm.trans (Option.isSome_iff_exists.mpr ⟨lease, enforced.leased⟩))
    exact absurd ⟨limit, before, same ▸ enforced.limited, enforced.positive, leased⟩ counted

theorem updateNsLimit (limit : PositiveLimit)
    (reaching : ∀ lease, maps.nsCounter nsKey = some lease → Catches lease.count.toNat lease.leaseBudget limit.stored) :
    Calm (maps.updateNsLimit nsKey limit.value) nsKey := by
  have written : (maps.updateNsLimit nsKey limit.value).nsLimit nsKey = some limit.stored := BpfMap.update_self _ _ _
  refine ⟨fun other limited => ?_, fun other lease enforced => ?_⟩
  · obtain rfl : limit.stored = other := Option.some.inj (written.symm.trans limited)
    exact limit.stored_lt
  · obtain rfl : limit.stored = other := Option.some.inj (written.symm.trans enforced.limited)
    exact reaching lease enforced.leased

theorem resetNsCounter (calm : Calm maps nsKey) (limit : PositiveLimit)
    (reaching : ∀ inForce, maps.nsLimit nsKey = some inForce →
      Catches (renewedLease (maps.nsCounter nsKey) limit.value).count.toNat (microSlice limit.value) inForce) :
    Calm (maps.resetNsCounter nsKey limit.value) nsKey := by
  have written : (maps.resetNsCounter nsKey limit.value).nsCounter nsKey = some (renewedLease (maps.nsCounter nsKey) limit.value) :=
    BpfMap.update_self _ _ _
  refine ⟨calm.small, fun inForce lease enforced => ?_⟩
  obtain rfl := Option.some.inj (written.symm.trans enforced.leased)
  rw [renewedLease_budget]
  exact reaching inForce enforced.limited

theorem step {bpf : Bpf} {resource : Resource} (calm : Calm (bpf.maps resource) nsKey) {event : Event}
    (reaching : bpf.Reaching nsKey resource event) : Calm ((bpf.step nsKey event).maps resource) nsKey := by
  cases event with
  | kernel event =>
    simp only [Bpf.step, Bpf.after_maps]
    exact calm.use _ _
  | updateNsLimit other limit =>
    by_cases same : other = resource
    · subst same
      simp only [Bpf.step, Bpf.withMaps_maps]
      exact updateNsLimit limit (reaching rfl)
    · simpa only [Bpf.step, Bpf.withMaps_other bpf _ (Ne.symm same)] using calm
  | resetNsCounter other limit =>
    by_cases same : other = resource
    · subst same
      simp only [Bpf.step, Bpf.withMaps_maps]
      refine calm.resetNsCounter limit fun inForce limited => ?_
      rw [renewedLease_counted]
      exact reaching rfl inForce limited
    · simpa only [Bpf.step, Bpf.withMaps_other bpf _ (Ne.symm same)] using calm

theorem spared {bpf : Bpf} {resource : Resource} (calm : Calm (bpf.maps resource) nsKey) (event : Event) :
    bpf.Spared nsKey resource event := by
  rintro task rfl mapped limit lease enforced room
  obtain ⟨after, passed, stored, counted, _⟩ := (calm.ready enforced).admits resource.reason mapped room
  have outcome := (bpf.check_outcome resource task).trans passed
  refine ⟨by rw [outcome]; rfl, by rw [resource.react_acquire, outcome]; rfl, after, ?_, counted⟩
  simpa only [Bpf.step, Bpf.after_maps, Resource.acquire_usage, ResourceMaps.use] using stored

end Calm

/-- Any number of releases by one mapped task only lowers the count. -/
private theorem releases (resource : Resource) (nsKey : UInt64) (task : Task) (times : Nat) (bpf : Bpf)
    (limit : UInt64) (lease : CpuLease) (mapped : (bpf.maps resource).cgroup task.cgid = some nsKey)
    (enforced : (bpf.maps resource).Enforced nsKey limit lease) :
    let final := Trace.run (Bpf.step nsKey) bpf (List.replicate times (.kernel (resource.release task)))
    (final.maps resource).cgroup task.cgid = some nsKey ∧
    ∃ after, (final.maps resource).Enforced nsKey limit after ∧
      after.count.toNat = lease.count.toNat - times ∧ after.leaseBudget = lease.leaseBudget := by
  induction times generalizing bpf lease with
  | zero => exact ⟨mapped, lease, enforced, rfl, rfl⟩
  | succ times ih =>
    have stepped : ((bpf.step nsKey (.kernel (resource.release task))).maps resource) =
        (bpf.maps resource).use resource.reason (.release task) := by
      simp only [Bpf.step, Bpf.after_maps, Resource.release_usage]
    have stored := ResourceMaps.release_mapped mapped
    rw [enforced.leased] at stored
    obtain ⟨still, after, later, fewer, budget⟩ :=
      ih (bpf.step nsKey (.kernel (resource.release task))) (ResourceMaps.released task lease)
        (by rw [stepped]; simpa using mapped)
        (by rw [stepped]; exact ⟨by simpa using enforced.limited, enforced.positive, stored⟩)
    refine ⟨still, after, later, ?_, ?_⟩
    · rw [fewer]
      unfold ResourceMaps.released
      split
      next zero => simp [zero]
      next nonzero =>
        rw [Words.toNat_sub_one nonzero]
        omega
    · rw [budget]
      unfold ResourceMaps.released
      split <;> rfl

/-- A budget out of reach leaves a namespace that can be refused below its limit:
releases first bring the count under the limit, then the next check is a breach. -/
private theorem unreached {bpf : Bpf} {resource : Resource} {nsKey limit : UInt64} {lease : CpuLease} {cgid : UInt64}
    (mapped : (bpf.maps resource).cgroup cgid = some nsKey) (enforced : (bpf.maps resource).Enforced nsKey limit lease)
    (small : limit.toNat < 2 ^ 63) (short : ¬ Catches lease.count.toNat lease.leaseBudget limit) :
    ∃ tail : List KernelEvent, ¬ Trace.Along (Bpf.step nsKey) (Bpf.Spared nsKey resource) bpf (tail.map .kernel) := by
  unfold Catches at short
  have positive : 0 < limit.toNat := Nat.pos_of_ne_zero fun zero => enforced.positive (UInt64.toNat_inj.mp zero)
  have growth := CpuLease.expansion_bounds limit
  let task : Task := ⟨cgid, 0, 0, 0, true⟩
  let excess := lease.count.toNat - (limit.toNat - 1)
  refine ⟨List.replicate excess (resource.release task) ++ [resource.acquire task], ?_⟩
  intro spared
  rw [List.map_append, List.map_replicate, Trace.Along.append_iff] at spared
  obtain ⟨still, after, later, count, sameBudget⟩ := releases resource nsKey task excess bpf limit lease mapped enforced
  generalize Trace.run (Bpf.step nsKey) bpf _ = final at spared still later
  have room : after.count < limit := by rw [UInt64.lt_iff_toNat_lt]; omega
  obtain ⟨allowed, _⟩ := spared.2.1 task rfl still limit after later room
  have uncovered : ¬ ((final.maps resource).noted task after).Covered limit := by
    rw [ResourceMaps.noted_covered, CpuLease.Covered, sameBudget]
    omega
  obtain ⟨grown, refused, _⟩ := CpuLease.charge_breach task nsKey resource.reason small
    fun admissible => uncovered admissible.2
  rw [Bpf.check_outcome, ResourceMaps.check_enforced resource.reason still later, refused] at allowed
  simp only [CpuLease.breach] at allowed
  split at allowed <;> cases allowed

/-- What a write out of reach leaves. -/
private theorem unreaching_short {bpf : Bpf} {resource : Resource} {nsKey : UInt64} {event : Event}
    (small : ∀ limit, (bpf.maps resource).nsLimit nsKey = some limit → limit.toNat < 2 ^ 63)
    (unreaching : ¬ bpf.Reaching nsKey resource event) : ∃ limit lease, limit.toNat < 2 ^ 63 ∧
      ((bpf.step nsKey event).maps resource).Enforced nsKey limit lease ∧
      ¬ Catches lease.count.toNat lease.leaseBudget limit := by
  cases event with
  | kernel event => exact absurd trivial unreaching
  | updateNsLimit other limit =>
    simp only [Bpf.Reaching, not_forall] at unreaching
    obtain ⟨rfl, lease, leased, short⟩ := unreaching
    refine ⟨limit.stored, lease, limit.stored_lt, ?_, short⟩
    rw [Bpf.step, Bpf.withMaps_maps]
    exact ⟨BpfMap.update_self _ _ _, limit.stored_ne_zero, leased⟩
  | resetNsCounter other limit =>
    simp only [Bpf.Reaching, not_forall] at unreaching
    obtain ⟨rfl, inForce, limited, short⟩ := unreaching
    refine ⟨inForce, renewedLease ((bpf.maps other).nsCounter nsKey) limit.value, small inForce limited, ?_, ?_⟩
    · rw [Bpf.step, Bpf.withMaps_maps]
      refine ⟨limited, ?_, BpfMap.update_self _ _ _⟩
      rintro rfl
      have growth := CpuLease.expansion_bounds 0
      unfold Catches at short
      simp only [UInt64.toNat_zero] at short
      omega
    · rwa [renewedLease_counted, renewedLease_budget]

theorem step_cgroup (nsKey : UInt64) (resource : Resource) (bpf : Bpf) (event : Event) :
    ((bpf.step nsKey event).maps resource).cgroup = (bpf.maps resource).cgroup := by
  cases event with
  | kernel event => simp only [Bpf.step, Bpf.after_maps, ResourceMaps.use_cgroup]
  | updateNsLimit other limit | resetNsCounter other limit =>
    by_cases same : other = resource
    · subst same
      rw [Bpf.step, Bpf.withMaps_maps]
      rfl
    · rw [Bpf.step, Bpf.withMaps_other bpf _ (Ne.symm same)]

/-- Limits in force stay below 2^63. -/
theorem step_small {nsKey : UInt64} {resource : Resource} {bpf : Bpf} (event : Event)
    (small : ∀ limit, (bpf.maps resource).nsLimit nsKey = some limit → limit.toNat < 2 ^ 63) :
    ∀ limit, ((bpf.step nsKey event).maps resource).nsLimit nsKey = some limit → limit.toNat < 2 ^ 63 := by
  intro limit limited
  cases event with
  | kernel event =>
    rw [Bpf.step, Bpf.after_maps, ResourceMaps.use_nsLimit] at limited
    exact small limit limited
  | updateNsLimit other written =>
    by_cases same : other = resource
    · subst same
      rw [Bpf.step, Bpf.withMaps_maps] at limited
      obtain rfl : written.stored = limit := Option.some.inj ((BpfMap.update_self _ _ _).symm.trans limited)
      exact written.stored_lt
    · rw [Bpf.step, Bpf.withMaps_other bpf _ (Ne.symm same)] at limited
      exact small limit limited
  | resetNsCounter other written =>
    by_cases same : other = resource
    · subst same
      rw [Bpf.step, Bpf.withMaps_maps] at limited
      exact small limit limited
    · rw [Bpf.step, Bpf.withMaps_other bpf _ (Ne.symm same)] at limited
      exact small limit limited

/-- When a namespace below its limit is never refused: exactly when, in a namespace with
mapped cgroups, every write of a limit finds a budget that catches up with the usage under
it, and every reset writes one that does so under the limit in force. Runs start without a
lease and are followed by any further kernel events; the two writes of a re-sync may have
any events in between, other re-syncs included. -/
theorem spared_iff_reaching (nsKey : UInt64) (resource : Resource) (bpf : Bpf)
    (unleased : (bpf.maps resource).nsCounter nsKey = none)
    (small : ∀ limit, (bpf.maps resource).nsLimit nsKey = some limit → limit.toNat < 2 ^ 63) (events : List Event) :
    (∀ first (tail : List KernelEvent), first <+: events →
      Trace.Along (Bpf.step nsKey) (Bpf.Spared nsKey resource) bpf (first ++ tail.map .kernel)) ↔
    ((∃ cgid, (bpf.maps resource).cgroup cgid = some nsKey) →
      Trace.Along (Bpf.step nsKey) (Bpf.Reaching nsKey resource) bpf events) := by
  constructor
  · rintro spared ⟨cgid, mapped⟩
    rw [Trace.Along.iff_split]
    rintro first event last rfl
    by_contra unreaching
    have still : ((Trace.run (Bpf.step nsKey) bpf first).maps resource).cgroup cgid = some nsKey := by
      refine Trace.run_invariant (Bpf.step nsKey) (fun bpf => (bpf.maps resource).cgroup cgid = some nsKey) ?_ mapped first
      intro bpf event held
      rw [step_cgroup]
      exact held
    have low := Trace.run_invariant (Bpf.step nsKey)
      (fun bpf => ∀ limit, (bpf.maps resource).nsLimit nsKey = some limit → limit.toNat < 2 ^ 63)
      (fun _ event small => step_small event small) small first
    obtain ⟨limit, lease, under, enforced, short⟩ := unreaching_short low unreaching
    obtain ⟨tail, refused⟩ := unreached ((step_cgroup nsKey resource _ event).symm ▸ still) enforced under short
    have all := spared (first ++ [event]) tail (by simp)
    rw [Trace.Along.append_iff, Trace.run_append] at all
    exact refused all.2
  · intro reaching first tail early
    by_cases mapped : ∃ cgid, (bpf.maps resource).cgroup cgid = some nsKey
    · have permitted : Trace.Along (Bpf.step nsKey) (Bpf.Reaching nsKey resource) bpf (first ++ tail.map .kernel) := by
        rw [Trace.Along.append_iff]
        refine ⟨(reaching mapped).initial early, ?_⟩
        generalize Trace.run (Bpf.step nsKey) bpf first = start
        induction tail generalizing start with
        | nil => trivial
        | cons event rest ih => exact ⟨trivial, ih _⟩
      have calm : Calm (bpf.maps resource) nsKey :=
        ⟨small, fun _ _ enforced => nomatch unleased.symm.trans enforced.leased⟩
      exact permitted.transfer (fun bpf => Calm (bpf.maps resource) nsKey) calm
        (fun _ _ calm reaching => calm.step reaching) (fun _ event calm _ => calm.spared event)
    · have nobody : Trace.Along (Bpf.step nsKey) (fun _ _ => True) bpf (first ++ tail.map .kernel) :=
        Trace.Along.of_all fun _ _ => trivial
      refine nobody.transfer (fun bpf => ¬ ∃ cgid, (bpf.maps resource).cgroup cgid = some nsKey) mapped ?_ ?_
      · intro bpf event held _
        rw [step_cgroup]
        exact held
      · intro bpf event held _ task _ present
        exact (held ⟨_, present⟩).elim

/-- A re-sync with no event between its writes. -/
def resynced (resource : Resource) (limit : PositiveLimit) : List Event :=
  [.updateNsLimit resource limit, .resetNsCounter resource limit]

/-- A limit raised from 50 to 200, with one install before and one between the two writes. -/
theorem spared_iff_reaching_raised :
    let bpf : Bpf := ⟨.mapping 1 [7], .mapping 1 [7]⟩
    let install : Event := .kernel (.fdInstall ⟨7, 0, 0, 0, true⟩)
    let events : List Event := resynced .fd ⟨50, by decide⟩ ++
      [install, .updateNsLimit .fd ⟨200, by decide⟩, install, .resetNsCounter .fd ⟨200, by decide⟩]
    ∀ first (tail : List KernelEvent), first <+: events →
      Trace.Along (Bpf.step 1) (Bpf.Spared 1 .fd) bpf (first ++ tail.map .kernel) := by
  intro bpf install events
  refine (spared_iff_reaching 1 .fd bpf rfl nofun events).mpr fun _ => ⟨?_, ?_, trivial, ?_, trivial, ?_, trivial⟩
  · intro _ lease leased
    cases leased
  · intro _ inForce limited
    cases limited
    decide
  · intro _ lease leased
    cases leased
    decide
  · intro _ inForce limited
    cases limited
    decide

set_option maxRecDepth 10000 in
/-- Under a limit of 101 the budget starts at 10. With 20 descriptors open a re-sync
writes 10 again, and the next install is a breach although 81 are free. -/
theorem breached_below_limit :
    let limit : PositiveLimit := ⟨101, by decide⟩
    let install : Event := .kernel (.fdInstall ⟨7, 0, 0, 0, true⟩)
    ¬ Trace.Along (Bpf.step 1) (Bpf.Spared 1 .fd) ⟨.mapping 1 [7], .mapping 1 [7]⟩
      (resynced .fd limit ++ List.replicate 20 install ++ (resynced .fd limit ++ [install])) := by
  intro limit install spared
  rw [Trace.Along.append_iff] at spared
  obtain ⟨_, _, _, spared, _⟩ := spared
  obtain ⟨allowed, _⟩ := spared ⟨7, 0, 0, 0, true⟩ rfl (by decide) 101 ⟨20, 10, 0, 7, 20⟩
    ⟨by decide, by decide, by decide⟩ (by decide)
  exact absurd allowed (by decide)

end QuotaManager.Enforcer
