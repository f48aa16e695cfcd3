import Mathlib.Data.List.MinMax
import QuotaManager.Proofs.Accounting
import QuotaManager.Logic.Trace

/-! How far a namespace's count can go while kernel events and controller writes
alternate. Only a check raises the count, and only below the limit in force; so the
largest limit that was ever written bounds it, and no arithmetic on the way wraps. -/

namespace QuotaManager.Enforcer

/-- What the controller does to the maps of one resource. A reset is one step. -/
inductive MapWrite where
  | updateNsLimit (nsKey : UInt64) (limit : Int64)
  | deleteNsLimit (nsKey : UInt64)
  | resetNsCounter (nsKey : UInt64) (limit : Int64)
  | deleteNsCounter (nsKey : UInt64)
  | updateCgroupMapping (cgroupID nsKey : UInt64)
  | deleteCgroupMapping (cgroupID : UInt64)

inductive MapEvent where
  | kernel (event : KernelEvent)
  | write (resource : Resource) (write : MapWrite)

namespace ResourceMaps
variable (maps : ResourceMaps) (nsKey : UInt64)

def apply : MapWrite → ResourceMaps
  | .updateNsLimit nsKey limit => maps.updateNsLimit nsKey limit
  | .deleteNsLimit nsKey => maps.deleteNsLimit nsKey
  | .resetNsCounter nsKey limit => maps.resetNsCounter nsKey limit
  | .deleteNsCounter nsKey => maps.deleteNsCounter nsKey
  | .updateCgroupMapping cgroupID nsKey => maps.updateCgroupMapping cgroupID nsKey
  | .deleteCgroupMapping cgroupID => maps.deleteCgroupMapping cgroupID

/-- `lease->count` of the namespace, zero without a lease. -/
def usage : Nat := (maps.nsCounter nsKey).elim 0 fun lease => lease.count.toNat

variable {maps nsKey}

theorem usage_leased {lease : CpuLease} (leased : maps.nsCounter nsKey = some lease) :
    maps.usage nsKey = lease.count.toNat := by
  simp only [usage, leased, Option.elim_some]

theorem usage_congr {other : ResourceMaps} (same : other.nsCounter nsKey = maps.nsCounter nsKey) :
    other.usage nsKey = maps.usage nsKey := by
  simp only [usage, same]

end ResourceMaps

def Bpf.advance (bpf : Bpf) : MapEvent → Bpf
  | .kernel event => bpf.after event
  | .write resource write => bpf.withMaps resource ((bpf.maps resource).apply write)

namespace MapEvent
variable (resource : Resource) (nsKey : UInt64)

/-- The limit that the event writes for the namespace. -/
def limit : MapEvent → Option Int64
  | .write other (.updateNsLimit key limit) => if other = resource ∧ key = nsKey then some limit else none
  | _ => none

/-- What one resource sees of the event. -/
def usage : MapEvent → Usage
  | .kernel event => event.usage resource
  | .write _ _ => .idle

end MapEvent

section Counts
variable (resource : Resource) (nsKey : UInt64)

/-- The arithmetic of one event. The count rises by one, and only below the limit in
force; a counter that is given back stops at zero; a budget that is spent below the
limit grows without wrapping, up to the limit. -/
structure Counts (bpf : Bpf) (event : MapEvent) : Prop where
  raises : (bpf.maps resource).usage nsKey < ((bpf.advance event).maps resource).usage nsKey →
    ((bpf.advance event).maps resource).usage nsKey = (bpf.maps resource).usage nsKey + 1 ∧
    ∃ limit, (bpf.maps resource).nsLimit nsKey = some limit ∧ (bpf.maps resource).usage nsKey < limit.toNat
  lowers : ∀ task, event.usage resource = .release task →
    ((bpf.advance event).maps resource).usage nsKey =
      (bpf.maps resource).usage nsKey - (if (bpf.maps resource).cgroup task.cgid = some nsKey then 1 else 0) ∧
    ∀ cgid, (((bpf.advance event).maps resource).cgroupCounter.count cgid).toNat =
      ((bpf.maps resource).cgroupCounter.count cgid).toNat - (if cgid = task.cgid then 1 else 0)
  expands : ∀ task limit lease, event.usage resource = .acquire task →
    (bpf.maps resource).cgroup task.cgid = some nsKey → (bpf.maps resource).Enforced nsKey limit lease →
    lease.leaseBudget ≤ lease.count → lease.count < limit →
    (lease.leaseBudget + CpuLease.expansion limit).toNat =
      lease.leaseBudget.toNat + (CpuLease.expansion limit).toNat ∧
    ∃ after, ((bpf.advance event).maps resource).nsCounter nsKey = some after ∧
      after.leaseBudget.toNat = min (lease.leaseBudget.toNat + (CpuLease.expansion limit).toNat) limit.toNat

/-- The limits written for a namespace, the one that is there at the start included. -/
def written (bpf : Bpf) (events : List MapEvent) : List Nat :=
  ((bpf.maps resource).nsLimit nsKey).toList.map (·.toNat) ++
    (events.filterMap (·.limit resource nsKey)).map fun limit => limit.toUInt64.toNat

def largest (limits : List Nat) : Nat := limits.foldr max 0

end Counts

namespace ResourceMaps
variable {maps : ResourceMaps} {task : Task} {nsKey limit : UInt64} {lease : CpuLease} (reason : UInt32)

theorem check_usage (maps : ResourceMaps) (task : Task) (nsKey : UInt64) :
    (maps.check task reason).2.usage nsKey = maps.usage nsKey ∨
    (maps.check task reason).2.usage nsKey = maps.usage nsKey + 1 ∧
      ∃ limit, maps.nsLimit nsKey = some limit ∧ maps.usage nsKey < limit.toNat := by
  by_cases mapped : maps.cgroup task.cgid = some nsKey
  · by_cases counted : ∃ limit lease, maps.Enforced nsKey limit lease
    · obtain ⟨limit, lease, enforced⟩ := counted
      have before := usage_leased enforced.leased
      have after : (maps.check task reason).2.nsCounter nsKey =
          some ((maps.noted task lease).charge limit task nsKey reason).2 := by
        rw [check_enforced reason mapped enforced]
        exact BpfMap.update_self _ _ _
      rw [before, usage_leased after]
      obtain ⟨budget, breached | ⟨below, admitted⟩⟩ :=
        CpuLease.charge_cases task nsKey reason (maps.noted task lease) limit
      · left
        rw [breached]
        exact congrArg UInt64.toNat noted_count
      · right
        have raised := Words.toNat_succ_of_lt below
        rw [noted_count] at raised below
        rw [admitted]
        simp only [noted_count]
        exact ⟨raised, limit, enforced.limited, UInt64.lt_iff_toNat_lt.mp below⟩
    · left
      rw [check_unenforced reason mapped fun limit lease enforced => counted ⟨limit, lease, enforced⟩, recordInc_eq]
      rfl
  · exact .inl (usage_congr (check_other reason mapped))

theorem release_usage (maps : ResourceMaps) (task : Task) (nsKey : UInt64) :
    (maps.release task).usage nsKey =
      maps.usage nsKey - if maps.cgroup task.cgid = some nsKey then 1 else 0 := by
  by_cases mapped : maps.cgroup task.cgid = some nsKey
  · have after := release_mapped mapped
    rw [if_pos mapped]
    cases leased : maps.nsCounter nsKey with
    | none =>
      rw [leased] at after
      simp only [usage, after, leased, Option.map_none, Option.elim_none]
    | some lease =>
      rw [leased] at after
      rw [usage_leased after, usage_leased leased]
      unfold released
      split
      next zero => simp [zero]
      next nonzero => exact Words.toNat_sub_one nonzero
  · rw [if_neg mapped]
    exact usage_congr (release_unmapped mapped)

/-- A reset keeps the count, and a lease that it makes counts nothing. -/
theorem reset_usage (maps : ResourceMaps) (key : UInt64) (limit : Int64) (nsKey : UInt64) :
    (maps.resetNsCounter key limit).usage nsKey = maps.usage nsKey := by
  by_cases here : nsKey = key
  · subst here
    have after : (maps.resetNsCounter nsKey limit).nsCounter nsKey = some (renewedLease (maps.nsCounter nsKey) limit) :=
      BpfMap.update_self _ _ _
    rw [usage_leased after]
    cases leased : maps.nsCounter nsKey with
    | none => rw [usage, leased]; rfl
    | some lease => exact (usage_leased leased).symm
  · exact usage_congr (BpfMap.update_of_ne _ _ _ _ here)

theorem delete_usage (maps : ResourceMaps) (key nsKey : UInt64) :
    (maps.deleteNsCounter key).usage nsKey = if nsKey = key then 0 else maps.usage nsKey := by
  split
  next here =>
    subst here
    have after : (maps.deleteNsCounter nsKey).nsCounter nsKey = none := BpfMap.delete_self _ _
    simp only [usage, after, Option.elim_none]
  next different => exact usage_congr (BpfMap.delete_of_ne _ _ _ different)

theorem apply_usage (maps : ResourceMaps) (write : MapWrite) (nsKey : UInt64) :
    (maps.apply write).usage nsKey ≤ maps.usage nsKey := by
  cases write with
  | resetNsCounter key limit => exact Nat.le_of_eq (maps.reset_usage key limit nsKey)
  | deleteNsCounter key =>
    rw [apply, delete_usage]
    split
    · exact Nat.zero_le _
    · exact Nat.le_refl _
  | _ => exact Nat.le_refl _

theorem check_budget (mapped : maps.cgroup task.cgid = some nsKey) (enforced : maps.Enforced nsKey limit lease)
    (small : limit.toNat < 2 ^ 63) (spent : lease.leaseBudget ≤ lease.count) (below : lease.count < limit) :
    ∃ after, (maps.check task reason).2.nsCounter nsKey = some after ∧
      after.leaseBudget.toNat = min (lease.leaseBudget.toNat + (CpuLease.expansion limit).toNat) limit.toNat := by
  have charged : ((maps.noted task lease).charge limit task nsKey reason).2.leaseBudget =
      ((maps.noted task lease).expand limit).leaseBudget := by
    unfold CpuLease.charge
    rw [if_neg (by simpa using UInt64.not_le.mpr below), if_pos (by simpa using spent)]
    simp only
    split <;> rfl
  have grown := @CpuLease.expand_budget (maps.noted task lease) limit small
    (by simpa using UInt64.le_trans spent (UInt64.le_of_lt below))
  rw [noted_leaseBudget] at grown
  refine ⟨((maps.noted task lease).charge limit task nsKey reason).2, ?_, charged ▸ grown⟩
  rw [check_enforced reason mapped enforced]
  exact BpfMap.update_self _ _ _

end ResourceMaps

section step
variable {resource : Resource} {nsKey : UInt64} {bpf : Bpf}

theorem Bpf.advance_maps (bpf : Bpf) (event : MapEvent) (resource : Resource) :
    (bpf.advance event).maps resource = (bpf.maps resource).use resource.reason (event.usage resource) ∨
    ∃ write, event = .write resource write ∧ (bpf.advance event).maps resource = (bpf.maps resource).apply write := by
  cases event with
  | kernel event => exact .inl (bpf.after_maps event resource)
  | write other write =>
    by_cases same : other = resource
    · subst same
      exact .inr ⟨write, rfl, bpf.withMaps_maps other _⟩
    · exact .inl (bpf.withMaps_other _ (Ne.symm same))

theorem Bpf.advance_limit (bpf : Bpf) (event : MapEvent) {limit : UInt64}
    (found : ((bpf.advance event).maps resource).nsLimit nsKey = some limit) :
    (bpf.maps resource).nsLimit nsKey = some limit ∨
    ∃ value, event.limit resource nsKey = some value ∧ value.toUInt64 = limit := by
  rcases bpf.advance_maps event resource with used | ⟨write, rfl, written⟩
  · rw [used, ResourceMaps.use_nsLimit] at found
    exact .inl found
  · rw [written] at found
    cases write with
    | updateNsLimit key value =>
      by_cases here : nsKey = key
      · subst here
        simp only [ResourceMaps.apply, ResourceMaps.updateNsLimit, BpfMap.update_self, Option.some.injEq] at found
        exact .inr ⟨value, by simp [MapEvent.limit], found⟩
      · simp only [ResourceMaps.apply, ResourceMaps.updateNsLimit, BpfMap.update_of_ne _ _ _ _ here] at found
        exact .inl found
    | deleteNsLimit key =>
      by_cases here : nsKey = key
      · subst here
        simp only [ResourceMaps.apply, ResourceMaps.deleteNsLimit, BpfMap.delete_self, reduceCtorEq] at found
      · simp only [ResourceMaps.apply, ResourceMaps.deleteNsLimit, BpfMap.delete_of_ne _ _ _ here] at found
        exact .inl found
    | _ => exact .inl found

variable (resource nsKey) in
/-- The limit in force, if any, is an `int64`. -/
def Small (bpf : Bpf) : Prop := ∀ limit, (bpf.maps resource).nsLimit nsKey = some limit → limit.toNat < 2 ^ 63

variable (resource nsKey) in
/-- The limits that are written to the namespace are `int64` values from zero on. -/
def Unsigned (event : MapEvent) : Prop := ∀ limit, event.limit resource nsKey = some limit → 0 ≤ limit

theorem Small.advance (small : Small resource nsKey bpf) {event : MapEvent} (valid : Unsigned resource nsKey event) :
    Small resource nsKey (bpf.advance event) := by
  intro limit found
  rcases bpf.advance_limit event found with kept | ⟨value, writes, rfl⟩
  · exact small limit kept
  · have := Words.toNat_toUInt64 (valid value writes)
    have := value.toInt_lt
    omega

/-- The step lemma. Its one assumption is that the limit in force is an `int64`. -/
theorem counts (small : Small resource nsKey bpf)
    (event : MapEvent) : Counts resource nsKey bpf event := by
  rcases bpf.advance_maps event resource with used | ⟨write, rfl, written⟩
  · refine ⟨?_, ?_, ?_⟩ <;> rw [used]
    · intro more
      cases here : event.usage resource with
      | acquire task =>
        rw [here] at more
        rcases ResourceMaps.check_usage resource.reason (bpf.maps resource) task nsKey with same | raised
        · exact absurd more (Nat.not_lt.mpr (Nat.le_of_eq same))
        · exact raised
      | release task =>
        rw [here] at more
        have := ResourceMaps.release_usage (bpf.maps resource) task nsKey
        simp only [ResourceMaps.use] at more
        omega
      | idle =>
        rw [here] at more
        exact absurd more (Nat.lt_irrefl _)
    · intro task releasing
      rw [releasing]
      refine ⟨ResourceMaps.release_usage _ task nsKey, ?_⟩
      intro cgid
      simp only [ResourceMaps.use, (ResourceMaps.release_frame _ task).2.2, BpfMap.count_lowered]
      split
      next same => rw [same]
      · rfl
    · intro task limit lease acquiring mapped enforced spent below
      rw [acquiring]
      have := CpuLease.expansion_bounds limit
      have := small limit enforced.limited
      have := UInt64.le_iff_toNat_le.mp spent
      have := UInt64.lt_iff_toNat_lt.mp below
      exact ⟨Words.toNat_add_of_lt (by omega),
        ResourceMaps.check_budget resource.reason mapped enforced (small limit enforced.limited) spent below⟩
  · refine ⟨?_, ?_, ?_⟩
    · rw [written]
      intro more
      exact absurd more (Nat.not_lt.mpr (ResourceMaps.apply_usage _ write nsKey))
    · intro task impossible
      cases impossible
    · intro task limit lease impossible
      cases impossible

theorem usage_bounded {bound : Nat}
    (limited : ∀ limit, (bpf.maps resource).nsLimit nsKey = some limit → limit.toNat ≤ bound)
    (bounded : (bpf.maps resource).usage nsKey ≤ bound) (event : MapEvent) (counts : Counts resource nsKey bpf event) :
    ((bpf.advance event).maps resource).usage nsKey ≤ bound := by
  by_cases more : (bpf.maps resource).usage nsKey < ((bpf.advance event).maps resource).usage nsKey
  · obtain ⟨raised, limit, inForce, below⟩ := counts.raises more
    have := limited limit inForce
    omega
  · omega

variable (resource nsKey) in
/-- Limit and count are within a bound. -/
structure Capped (bound : Nat) (bpf : Bpf) : Prop where
  limited : ∀ limit, (bpf.maps resource).nsLimit nsKey = some limit → limit.toNat ≤ bound
  bounded : (bpf.maps resource).usage nsKey ≤ bound

theorem Capped.advance {bound : Nat} (capped : Capped resource nsKey bound bpf) {event : MapEvent}
    (counts : Counts resource nsKey bpf event)
    (below : ∀ limit, event.limit resource nsKey = some limit → limit.toUInt64.toNat ≤ bound) :
    Capped resource nsKey bound (bpf.advance event) := by
  refine ⟨?_, usage_bounded capped.limited capped.bounded event counts⟩
  intro limit found
  rcases bpf.advance_limit event found with kept | ⟨value, writes, rfl⟩
  · exact capped.limited limit kept
  · exact below value writes

theorem le_largest {limits : List Nat} {limit : Nat} (member : limit ∈ limits) : limit ≤ largest limits :=
  List.le_max_of_le' 0 member (Nat.le_refl limit)

end step

variable (resource : Resource) (nsKey : UInt64)

/-- From any state without a lease, whatever cgroups are mapped then or later: the count
never passes the largest limit written, every event keeps the arithmetic of `Counts`,
and a limit that stays in force over a count that it bounds goes on bounding it. -/
theorem namespace_count_within_limits {bpf : Bpf} {events : List MapEvent}
    (unleased : (bpf.maps resource).nsCounter nsKey = none)
    (small : Small resource nsKey bpf)
    (unsigned : ∀ event ∈ events, Unsigned resource nsKey event) :
    ((Trace.run Bpf.advance bpf events).maps resource).usage nsKey ≤ largest (written resource nsKey bpf events) ∧
    Trace.Along Bpf.advance (Counts resource nsKey) bpf events ∧
    ∀ first last limit, events = first ++ last →
      Trace.Throughout Bpf.advance (fun later => (later.maps resource).nsLimit nsKey = some limit)
        (Trace.run Bpf.advance bpf first) last →
      ((Trace.run Bpf.advance bpf first).maps resource).usage nsKey ≤ limit.toNat →
      ((Trace.run Bpf.advance bpf events).maps resource).usage nsKey ≤ limit.toNat := by
  have counting : Trace.Along Bpf.advance (Counts resource nsKey) bpf events := by
    apply (Trace.Along.of_mem fun event member _ => unsigned event member).transfer (Small resource nsKey) small
    · intro _ _ small valid
      exact small.advance valid
    · intro _ event small _
      exact counts small event
  refine ⟨?_, counting, ?_⟩
  · have capped : Capped resource nsKey (largest (written resource nsKey bpf events)) bpf := by
      refine ⟨?_, ?_⟩
      · intro limit found
        apply le_largest
        simp [written, found]
      · rw [ResourceMaps.usage, unleased]
        exact Nat.zero_le _
    have within : Trace.Along Bpf.advance (fun _ event => ∀ limit, event.limit resource nsKey = some limit →
        limit.toUInt64.toNat ≤ largest (written resource nsKey bpf events)) bpf events := by
      apply Trace.Along.of_mem
      intro event member _ limit writes
      apply le_largest
      apply List.mem_append_right
      exact List.mem_map_of_mem (List.mem_filterMap.mpr ⟨event, member, writes⟩)
    have final := (counting.and within).invariant (Capped resource nsKey _) capped
      fun _ _ capped step => capped.advance step.1 step.2
    exact final.bounded
  · rintro first last limit rfl kept bounded
    rw [Trace.run_append]
    have along := (Trace.Along.append_iff.mp counting).2
    apply (along.and kept.along).invariant (fun later => (later.maps resource).usage nsKey ≤ limit.toNat) bounded
    intro later event bounded step
    apply usage_bounded _ bounded event step.1
    intro other found
    rw [Option.some.inj (found.symm.trans step.2)]

/-- Two tasks of one cgroup under a limit that is lowered below the count. -/
theorem namespace_count_lowered :
    let task : Task := ⟨5, 0, 0, 0, true⟩
    let events : List MapEvent := [.write .fd (.updateNsLimit 9 2), .write .fd (.resetNsCounter 9 2),
      .kernel (.fdInstall task), .kernel (.fdInstall task), .write .fd (.updateNsLimit 9 1), .kernel (.fdInstall task)]
    let bpf : Bpf := ⟨.mapping 9 [5], .empty⟩
    ((Trace.run Bpf.advance bpf events).maps .fd).usage 9 = 2 ∧
    ((Trace.run Bpf.advance bpf events).maps .fd).usage 9 ≤ largest (written .fd 9 bpf events) :=
  ⟨by decide +kernel, (@namespace_count_within_limits .fd 9 ⟨.mapping 9 [5], .empty⟩ _ rfl nofun
    (by simp [Unsigned, MapEvent.limit])).1⟩

end QuotaManager.Enforcer
