import QuotaManager.MapAccess
import QuotaManager.Logic.Words

/-! What one limit check, one release and one re-sync do to the lease of a
namespace. Everything later about counts and budgets is derived from these facts;
nothing below this module unfolds the enforcer again. -/

namespace QuotaManager.Enforcer

namespace BpfMap

theorem update_apply {β : Type} (map : BpfMap β) (key other : UInt64) (value : β) :
    map.update key value other = if other = key then some value else map other := by
  by_cases same : other = key <;> simp [update, same]

/-- A counter, read as zero where the map has no entry. -/
def count (counters : BpfMap UInt64) (key : UInt64) : UInt64 := (counters key).getD 0

def raised (counters : BpfMap UInt64) (key : UInt64) : BpfMap UInt64 :=
  counters.update key (counters.count key + 1)

def lowered (counters : BpfMap UInt64) (key : UInt64) : BpfMap UInt64 :=
  match counters key with
  | some count => if count > 0 then counters.update key (count - 1) else counters
  | none => counters

variable (counters : BpfMap UInt64) (key other : UInt64)

theorem count_raised :
    (counters.raised key).count other = if other = key then counters.count key + 1 else counters.count other := by
  simp only [count, raised, update_apply]
  split <;> rfl

theorem count_lowered : ((counters.lowered key).count other).toNat =
    if other = key then (counters.count key).toNat - 1 else (counters.count other).toNat := by
  unfold lowered count
  cases present : counters key with
  | none => by_cases same : other = key <;> simp [same, present]
  | some value =>
    by_cases positive : value > 0
    · have nonzero : value ≠ 0 := by rintro rfl; exact absurd positive (by decide)
      by_cases same : other = key <;> simp [positive, same, update_apply, Words.toNat_sub_one nonzero]
    · have zero : value = 0 := by
        have := UInt64.le_iff_toNat_le.mp (UInt64.not_lt.mp positive)
        exact UInt64.toNat_inj.mp (by simpa using this)
      by_cases same : other = key <;> simp [same, present, zero]

end BpfMap

namespace CpuLease

theorem expansion_toNat (limit : UInt64) :
    (expansion limit).toNat = min (max (limit.toNat / 10) 10) 100 := by
  have tenth : (limit / 10).toNat = limit.toNat / 10 := by simp
  unfold expansion
  by_cases low : limit / 10 < 10
  · have := UInt64.lt_iff_toNat_lt.mp low
    simp only [low, ↓reduceIte, tenth, UInt64.reduceToNat] at this ⊢
    rw [if_neg (by decide)]
    simp only [UInt64.reduceToNat]
    omega
  · have := UInt64.le_iff_toNat_le.mp (UInt64.not_lt.mp low)
    simp only [low, ↓reduceIte, tenth, UInt64.reduceToNat] at this ⊢
    by_cases high : limit / 10 > 100
    · have := UInt64.lt_iff_toNat_lt.mp high
      simp only [high, ↓reduceIte, tenth, UInt64.reduceToNat] at this ⊢
      omega
    · have := UInt64.le_iff_toNat_le.mp (UInt64.not_lt.mp high)
      simp only [high, ↓reduceIte, tenth, UInt64.reduceToNat] at this ⊢
      omega

theorem expansion_bounds (limit : UInt64) :
    10 ≤ (expansion limit).toNat ∧ (expansion limit).toNat ≤ 100 := by
  rw [expansion_toNat]
  omega

/-- One expansion of the budget reaches past the count. -/
def Covered (lease : CpuLease) (limit : UInt64) : Prop :=
  lease.count.toNat < lease.leaseBudget.toNat + (expansion limit).toNat

/-- The count has not outgrown the budget. -/
def WithinBudget (lease : CpuLease) : Prop := lease.count ≤ lease.leaseBudget

theorem WithinBudget.covered {lease : CpuLease} (within : lease.WithinBudget) (limit : UInt64) :
    lease.Covered limit := by
  have := UInt64.le_iff_toNat_le.mp within
  have := expansion_bounds limit
  unfold Covered
  omega

section noteTop
variable (lease : CpuLease) (cgid : UInt64) (cgCount : Option UInt64)

@[simp] theorem noteTop_count : (lease.noteTop cgid cgCount).count = lease.count := by
  unfold noteTop; split <;> (try split) <;> rfl

@[simp] theorem noteTop_leaseBudget : (lease.noteTop cgid cgCount).leaseBudget = lease.leaseBudget := by
  unfold noteTop; split <;> (try split) <;> rfl

end noteTop

/-- The budget after an expansion, when the count is below the limit but not below
the old budget. No addition wraps: the old budget is below a limit under 2^63. -/
theorem expand_budget {lease : CpuLease} {limit : UInt64} (small : limit.toNat < 2 ^ 63)
    (spent : lease.leaseBudget ≤ limit) :
    (lease.expand limit).leaseBudget.toNat =
      min (lease.leaseBudget.toNat + (expansion limit).toNat) limit.toNat := by
  have bounds := expansion_bounds limit
  have low := UInt64.le_iff_toNat_le.mp spent
  have sum := @Words.toNat_add_of_lt lease.leaseBudget (expansion limit) (by omega)
  unfold expand
  split
  next fits =>
    have := UInt64.le_iff_toNat_le.mp fits
    simp only [sum] at this ⊢
    omega
  next exceeds =>
    have := UInt64.lt_iff_toNat_lt.mp (UInt64.not_le.mp exceeds)
    simp only [sum] at this ⊢
    omega

theorem expand_eq (lease : CpuLease) (limit : UInt64) :
    lease.expand limit = { lease with leaseBudget := (lease.expand limit).leaseBudget } := by
  unfold expand; split <;> rfl

def SameTop (first second : CpuLease) : Prop :=
  first.topCgid = second.topCgid ∧ first.topCount = second.topCount

variable {lease : CpuLease} {limit : UInt64} (task : Task) (nsKey : UInt64) (reason : UInt32)

/-- A check either breaches or admits; whichever it does, only the budget and, when
it admits, the count change. It never admits at the limit. -/
theorem charge_cases (lease : CpuLease) (limit : UInt64) : ∃ budget,
    lease.charge limit task nsKey reason = CpuLease.breach { lease with leaseBudget := budget } task nsKey reason ∨
    lease.count < limit ∧ lease.charge limit task nsKey reason =
      (.pass, { lease with count := lease.count + 1, leaseBudget := budget }) := by
  unfold charge
  split
  · exact ⟨lease.leaseBudget, .inl rfl⟩
  next below =>
    have below : lease.count < limit := by simpa using below
    split
    next spent =>
      simp only
      rw [expand_eq]
      split
      · exact ⟨_, .inl rfl⟩
      · exact ⟨_, .inr ⟨below, rfl⟩⟩
    · exact ⟨lease.leaseBudget, .inr ⟨below, rfl⟩⟩

theorem charge_top (lease : CpuLease) (limit : UInt64) : (lease.charge limit task nsKey reason).2.SameTop lease := by
  obtain ⟨budget, breached | ⟨_, admitted⟩⟩ := charge_cases task nsKey reason lease limit
  · rw [breached]; exact ⟨rfl, rfl⟩
  · rw [admitted]; exact ⟨rfl, rfl⟩

/-- The report of a breach names the caller and the recorded top consumer, and the
caller is stopped exactly when they are the same. -/
theorem charge_reports {event : BreachEvent}
    (reported : (lease.charge limit task nsKey reason).1.emitted = some event) :
    emitBreachEvent task nsKey task.cgid lease.topCgid reason = some event ∧
    ((lease.charge limit task nsKey reason).1.verdict = .kill ↔ task.cgid = lease.topCgid) := by
  obtain ⟨budget, breached | ⟨_, admitted⟩⟩ := charge_cases task nsKey reason lease limit
  · rw [breached] at reported ⊢
    refine ⟨reported, ?_⟩
    simp only [breach]
    split <;> simp [*]
  · rw [admitted] at reported
    cases reported

/-- Below the limit and covered, a check admits: it counts the caller under a
budget that has room for it. -/
theorem charge_covered (small : limit.toNat < 2 ^ 63) (below : lease.count < limit)
    (covered : lease.Covered limit) :
    ∃ budget, lease.charge limit task nsKey reason =
        (.pass, { lease with count := lease.count + 1, leaseBudget := budget }) ∧
      lease.count < budget ∧ (budget = lease.leaseBudget ∨ budget ≤ limit) := by
  unfold charge
  rw [if_neg (by simpa using UInt64.not_le.mpr below)]
  by_cases room : lease.count < lease.leaseBudget
  · rw [if_neg (by simpa using UInt64.not_le.mpr room)]
    exact ⟨lease.leaseBudget, rfl, room, .inl rfl⟩
  · rw [if_pos (by simpa using UInt64.not_lt.mp room)]
    have spent : lease.leaseBudget ≤ limit := UInt64.le_trans (UInt64.not_lt.mp room) (UInt64.le_of_lt below)
    have grown := expand_budget small spent
    have reach : lease.count < (lease.expand limit).leaseBudget := by
      rw [UInt64.lt_iff_toNat_lt] at below ⊢
      unfold Covered at covered
      omega
    have same : (lease.expand limit).count = lease.count := by rw [expand_eq]
    simp only [same, ge_iff_le, UInt64.not_le.mpr reach, ↓reduceIte]
    refine ⟨(lease.expand limit).leaseBudget, ?_, reach, .inr ?_⟩
    · rw [accept, expand_eq]
    · rw [UInt64.le_iff_toNat_le]; omega

theorem charge_full (full : ¬ lease.count < limit) :
    lease.charge limit task nsKey reason = lease.breach task nsKey reason := by
  unfold charge
  rw [if_pos (by simpa using UInt64.not_lt.mp full)]

/-- Every other check is a breach, which leaves all but the budget as it was. -/
theorem charge_breach (small : limit.toNat < 2 ^ 63)
    (refused : ¬ (lease.count < limit ∧ lease.Covered limit)) :
    ∃ budget, lease.charge limit task nsKey reason =
        CpuLease.breach { lease with leaseBudget := budget } task nsKey reason ∧
      lease.leaseBudget ≤ budget ∧ (budget = lease.leaseBudget ∨ budget ≤ limit) := by
  by_cases below : lease.count < limit
  · have uncovered : ¬ lease.Covered limit := fun covered => refused ⟨below, covered⟩
    have spent : lease.leaseBudget ≤ lease.count := by
      rw [UInt64.le_iff_toNat_le]
      unfold Covered at uncovered
      omega
    have under := UInt64.le_trans spent (UInt64.le_of_lt below)
    have grown := expand_budget small under
    have short : (lease.expand limit).leaseBudget ≤ lease.count := by
      rw [UInt64.le_iff_toNat_le]
      unfold Covered at uncovered
      omega
    have same : (lease.expand limit).count = lease.count := by rw [expand_eq]
    unfold charge
    rw [if_neg (by simpa using UInt64.not_le.mpr below), if_pos (by simpa using spent)]
    simp only [same, ge_iff_le, short, ↓reduceIte]
    refine ⟨(lease.expand limit).leaseBudget, by rw [← expand_eq], ?_, .inr ?_⟩ <;>
      rw [UInt64.le_iff_toNat_le] at * <;> omega
  · exact ⟨lease.leaseBudget, charge_full task nsKey reason below, UInt64.le_refl _, .inl rfl⟩

end CpuLease

namespace PositiveLimit
variable (limit : PositiveLimit)

theorem stored_pos : 0 < limit.stored.toNat := by
  have := Int64.lt_iff_toInt_lt.mp limit.positive
  have := Words.toNat_toUInt64 (Int64.le_of_lt limit.positive)
  rw [Int64.toInt_zero] at *
  unfold stored
  omega

theorem stored_ne_zero : limit.stored ≠ 0 := by
  intro zero
  have := limit.stored_pos
  simp [zero] at this

theorem stored_lt : limit.stored.toNat < 2 ^ 63 := by
  have := limit.value.toInt_lt
  have := Words.toNat_toUInt64 (Int64.le_of_lt limit.positive)
  unfold stored
  omega

end PositiveLimit

namespace ResourceMaps
variable {maps : ResourceMaps} {task : Task} {nsKey limit : UInt64} {lease : CpuLease} (reason : UInt32)

theorem recordInc_eq (maps : ResourceMaps) (cgid : UInt64) :
    maps.recordInc cgid = { maps with cgroupCounter := maps.cgroupCounter.raised cgid } := by
  unfold recordInc BpfMap.raised BpfMap.count
  cases maps.cgroupCounter cgid <;> rfl

theorem recordDec_eq (maps : ResourceMaps) (cgid : UInt64) :
    maps.recordDec cgid = { maps with cgroupCounter := maps.cgroupCounter.lowered cgid } := by
  unfold recordDec BpfMap.lowered
  cases maps.cgroupCounter cgid with
  | none => rfl
  | some count =>
    simp only
    split <;> rfl

/-- The namespace has a limit in force and a lease to count against it. -/
structure Enforced (maps : ResourceMaps) (nsKey limit : UInt64) (lease : CpuLease) : Prop where
  limited : maps.nsLimit nsKey = some limit
  positive : limit ≠ 0
  leased : maps.nsCounter nsKey = some lease

/-- The lease a check decides on: the caller's counter, just raised, has been
compared with the recorded top consumer. -/
def noted (maps : ResourceMaps) (task : Task) (lease : CpuLease) : CpuLease :=
  { lease.noteTop task.cgid (some (maps.cgroupCounter.count task.cgid + 1)) with lastUsedNs := task.usedAt }

@[simp] theorem noted_count : (maps.noted task lease).count = lease.count := by simp [noted]

@[simp] theorem noted_leaseBudget : (maps.noted task lease).leaseBudget = lease.leaseBudget := by simp [noted]

theorem noted_covered : (maps.noted task lease).Covered limit ↔ lease.Covered limit := by
  simp [CpuLease.Covered]

theorem check_unmapped (unmapped : maps.cgroup task.cgid = none) : maps.check task reason = (.pass, maps) := by
  simp [check, unmapped]

theorem check_enforced (mapped : maps.cgroup task.cgid = some nsKey) (enforced : maps.Enforced nsKey limit lease) :
    maps.check task reason =
      (((maps.noted task lease).charge limit task nsKey reason).1,
        { maps with
          cgroupCounter := maps.cgroupCounter.raised task.cgid
          nsCounter := maps.nsCounter.update nsKey
            ((maps.noted task lease).charge limit task nsKey reason).2 }) := by
  simp [check, mapped, recordInc_eq, enforced.limited, enforced.positive, enforced.leased, noted, BpfMap.raised]

theorem check_covered (mapped : maps.cgroup task.cgid = some nsKey) (enforced : maps.Enforced nsKey limit lease)
    (small : limit.toNat < 2 ^ 63) (room : lease.count < limit) (covered : lease.Covered limit) :
    ∃ budget, maps.check task reason =
        (.pass, { maps with
          cgroupCounter := maps.cgroupCounter.raised task.cgid
          nsCounter := maps.nsCounter.update nsKey
            { maps.noted task lease with count := lease.count + 1, leaseBudget := budget } }) ∧
      lease.count < budget := by
  have below : (maps.noted task lease).count < limit := by simpa using room
  obtain ⟨budget, charged, above, _⟩ :=
    CpuLease.charge_covered task nsKey reason small below (noted_covered.mpr covered)
  rw [check_enforced reason mapped enforced]
  simp only [charged, noted_count]
  exact ⟨budget, rfl, by simpa using above⟩

theorem emitted_fields {cgid topCgid : UInt64} {event : BreachEvent}
    (emitted : emitBreachEvent task nsKey cgid topCgid reason = some event) :
    event.nsKey = nsKey ∧ event.cgid = cgid ∧ event.reason = reason ∧ event.topCgid = topCgid := by
  unfold emitBreachEvent at emitted
  split at emitted
  · cases emitted; exact ⟨rfl, rfl, rfl, rfl⟩
  · cases emitted

theorem check_unenforced (mapped : maps.cgroup task.cgid = some nsKey)
    (free : ∀ limit lease, ¬ maps.Enforced nsKey limit lease) :
    maps.check task reason = (.pass, maps.recordInc task.cgid) := by
  simp only [check, mapped, recordInc_eq]
  cases limited : maps.nsLimit nsKey with
  | none => rfl
  | some limit =>
    by_cases zero : limit = 0
    · simp [zero]
    · cases leased : maps.nsCounter nsKey with
      | none => simp [zero]
      | some lease => exact (free limit lease ⟨limited, zero, leased⟩).elim

/-- A report comes from the enforced lease of the caller's namespace. It names the
caller and the top consumer just noted, who alone is stopped on the spot. -/
theorem check_reports {event : BreachEvent} (reported : (maps.check task reason).1.emitted = some event) :
    ∃ limit lease, maps.cgroup task.cgid = some event.nsKey ∧ maps.Enforced event.nsKey limit lease ∧
      event.cgid = task.cgid ∧ event.reason = reason ∧ event.topCgid = (maps.noted task lease).topCgid ∧
      ((maps.check task reason).1.verdict = .kill ↔ task.cgid = event.topCgid) := by
  cases mapped : maps.cgroup task.cgid with
  | none =>
    rw [check_unmapped reason mapped] at reported
    cases reported
  | some nsKey =>
    by_cases counted : ∃ limit lease, maps.Enforced nsKey limit lease
    · obtain ⟨limit, lease, enforced⟩ := counted
      rw [check_enforced reason mapped enforced] at reported ⊢
      obtain ⟨emitted, stopped⟩ := CpuLease.charge_reports task nsKey reason reported
      obtain ⟨rfl, named, because, top⟩ := emitted_fields reason emitted
      exact ⟨limit, lease, rfl, enforced, named, because, top, top ▸ stopped⟩
    · rw [check_unenforced reason mapped (fun limit lease enforced => counted ⟨limit, lease, enforced⟩)] at reported
      cases reported

/-- A lease after one unit was given back. -/
def released (task : Task) (lease : CpuLease) : CpuLease :=
  if lease.count = 0 then lease else { lease with count := lease.count - 1, lastUsedNs := task.usedAt }

section resync
variable (maps : ResourceMaps) (nsKey other : UInt64) (limit : PositiveLimit)

@[simp] theorem resync_cgroup : (maps.resync nsKey limit).cgroup = maps.cgroup := rfl

@[simp] theorem resync_cgroupCounter : (maps.resync nsKey limit).cgroupCounter = maps.cgroupCounter := rfl

@[simp] theorem resync_nsLimit : (maps.resync nsKey limit).nsLimit nsKey = some limit.stored :=
  BpfMap.update_self _ _ _

@[simp] theorem resync_nsCounter :
    (maps.resync nsKey limit).nsCounter nsKey = some (renewedLease (maps.nsCounter nsKey) limit.value) :=
  BpfMap.update_self _ _ _

variable {other} (different : other ≠ nsKey)
include different

theorem resync_nsLimit_other : (maps.resync nsKey limit).nsLimit other = maps.nsLimit other :=
  BpfMap.update_of_ne _ _ _ _ different

theorem resync_nsCounter_other : (maps.resync nsKey limit).nsCounter other = maps.nsCounter other :=
  BpfMap.update_of_ne _ _ _ _ different

end resync

theorem release_unmapped (unmapped : maps.cgroup task.cgid ≠ some nsKey) :
    (maps.release task).nsCounter nsKey = maps.nsCounter nsKey := by
  simp only [release, recordDec_eq]
  cases mapped : maps.cgroup task.cgid with
  | none => rfl
  | some other =>
    have different : nsKey ≠ other := by rintro rfl; exact unmapped mapped
    cases leased : maps.nsCounter other with
    | none => simp [leased]
    | some lease =>
      by_cases zero : lease.count = 0
      · simp [leased, zero]
      · simp [leased, zero, BpfMap.update_of_ne _ _ _ _ different]

theorem release_mapped (mapped : maps.cgroup task.cgid = some nsKey) :
    (maps.release task).nsCounter nsKey = (maps.nsCounter nsKey).map (released task) := by
  simp only [release, recordDec_eq, mapped]
  cases leased : maps.nsCounter nsKey with
  | none => simp [leased]
  | some lease =>
    by_cases zero : lease.count = 0
    · simp [zero, leased, released]
    · simp [zero, released]

end ResourceMaps
end QuotaManager.Enforcer
