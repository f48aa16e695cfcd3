import QuotaManager.Proofs.LimitCheck
import QuotaManager.Logic.Gauge

/-! A lease whose count stays within its budget counts like a gauge capped at the
limit. The budget then never refuses anybody the limit would admit. -/

namespace QuotaManager.Enforcer

namespace ResourceMaps
variable {maps : ResourceMaps} {task : Task} {nsKey limit : UInt64} {lease : CpuLease} (reason : UInt32)

theorem check_frame (maps : ResourceMaps) (task : Task) :
    (maps.check task reason).2.cgroup = maps.cgroup ∧ (maps.check task reason).2.nsLimit = maps.nsLimit ∧
    (maps.check task reason).2.cgroupCounter =
      if (maps.cgroup task.cgid).isSome then maps.cgroupCounter.raised task.cgid else maps.cgroupCounter := by
  cases mapped : maps.cgroup task.cgid with
  | none => rw [check_unmapped reason mapped]; exact ⟨rfl, rfl, rfl⟩
  | some nsKey =>
    by_cases counted : ∃ limit lease, maps.Enforced nsKey limit lease
    · obtain ⟨limit, lease, enforced⟩ := counted
      rw [check_enforced reason mapped enforced]
      exact ⟨rfl, rfl, rfl⟩
    · rw [check_unenforced reason mapped (fun limit lease enforced => counted ⟨limit, lease, enforced⟩), recordInc_eq]
      exact ⟨rfl, rfl, rfl⟩

theorem release_frame (maps : ResourceMaps) (task : Task) :
    (maps.release task).cgroup = maps.cgroup ∧ (maps.release task).nsLimit = maps.nsLimit ∧
    (maps.release task).cgroupCounter = maps.cgroupCounter.lowered task.cgid := by
  simp only [release, recordDec_eq]
  cases mapped : maps.cgroup task.cgid with
  | none => exact ⟨rfl, rfl, rfl⟩
  | some nsKey =>
    cases leased : maps.nsCounter nsKey with
    | none => simp [leased]
    | some lease =>
      simp only [leased]
      split <;> exact ⟨rfl, rfl, rfl⟩

@[simp] theorem use_cgroup (usage : Usage) : (maps.use reason usage).cgroup = maps.cgroup := by
  cases usage with
  | acquire task => exact (check_frame reason maps task).1
  | release task => exact (release_frame maps task).1
  | idle => rfl

@[simp] theorem use_nsLimit (usage : Usage) : (maps.use reason usage).nsLimit = maps.nsLimit := by
  cases usage with
  | acquire task => exact (check_frame reason maps task).2.1
  | release task => exact (release_frame maps task).2.1
  | idle => rfl

theorem check_other (unmapped : maps.cgroup task.cgid ≠ some nsKey) :
    (maps.check task reason).2.nsCounter nsKey = maps.nsCounter nsKey := by
  cases mapped : maps.cgroup task.cgid with
  | none => rw [check_unmapped reason mapped]
  | some other =>
    have different : nsKey ≠ other := by rintro rfl; exact unmapped mapped
    by_cases counted : ∃ limit lease, maps.Enforced other limit lease
    · obtain ⟨limit, lease, enforced⟩ := counted
      rw [check_enforced reason mapped enforced]
      exact BpfMap.update_of_ne _ _ _ _ different
    · rw [check_unenforced reason mapped (fun limit lease enforced => counted ⟨limit, lease, enforced⟩), recordInc_eq]

end ResourceMaps

/-- How an event moves the gauge of a namespace. -/
def Usage.move (usage : Usage) (maps : ResourceMaps) (nsKey : UInt64) : Gauge.Move :=
  match usage with
  | .acquire task => if maps.cgroup task.cgid = some nsKey then .up else .stay
  | .release task => if maps.cgroup task.cgid = some nsKey then .down else .stay
  | .idle => .stay

/-- An enforced lease that has neither outgrown its budget nor passed its limit. -/
structure Sound (maps : ResourceMaps) (nsKey limit : UInt64) (lease : CpuLease) : Prop
    extends maps.Enforced nsKey limit lease where
  small : limit.toNat < 2 ^ 63
  within : lease.WithinBudget
  bounded : lease.count ≤ limit

namespace Sound
variable {maps : ResourceMaps} {task : Task} {nsKey limit : UInt64} {lease : CpuLease} (reason : UInt32)

theorem counted (sound : Sound maps nsKey limit lease) (mapped : maps.cgroup task.cgid = some nsKey)
    (room : lease.count < limit) :
    ∃ budget, maps.check task reason =
        (.pass, { maps with
          cgroupCounter := maps.cgroupCounter.raised task.cgid
          nsCounter := maps.nsCounter.update nsKey
            { maps.noted task lease with count := lease.count + 1, leaseBudget := budget } }) ∧
      lease.count < budget :=
  ResourceMaps.check_covered reason mapped sound.toEnforced sound.small room (sound.within.covered limit)

theorem refused (sound : Sound maps nsKey limit lease) (mapped : maps.cgroup task.cgid = some nsKey)
    (full : ¬ lease.count < limit) :
    maps.check task reason =
      (((maps.noted task lease).breach task nsKey reason).1, { maps with
        cgroupCounter := maps.cgroupCounter.raised task.cgid
        nsCounter := maps.nsCounter.update nsKey (maps.noted task lease) }) := by
  rw [ResourceMaps.check_enforced reason mapped sound.toEnforced]
  rw [CpuLease.charge_full task nsKey reason (by simpa using full)]
  rfl

/-- The step lemma: a sound lease stays sound and moves like its gauge. -/
theorem use (sound : Sound maps nsKey limit lease) (usage : Usage) :
    ∃ after, Sound (maps.use reason usage) nsKey limit after ∧
      after.count.toNat = Gauge.step limit.toNat lease.count.toNat (usage.move maps nsKey) := by
  have unchanged (same : (maps.use reason usage).nsCounter nsKey = maps.nsCounter nsKey) :
      Sound (maps.use reason usage) nsKey limit lease :=
    ⟨⟨by simpa using sound.limited, sound.positive, same.trans sound.leased⟩, sound.small, sound.within, sound.bounded⟩
  cases usage with
  | idle => exact ⟨lease, sound, rfl⟩
  | acquire task =>
    by_cases mapped : maps.cgroup task.cgid = some nsKey
    · simp only [Usage.move, mapped, ↓reduceIte, Gauge.step, ← UInt64.lt_iff_toNat_lt]
      by_cases room : lease.count < limit
      · obtain ⟨budget, admitted, above⟩ := sound.counted reason mapped room
        have raised := Words.toNat_succ_of_lt room
        simp only [ResourceMaps.use, admitted, room, ↓reduceIte]
        refine ⟨_, ⟨⟨sound.limited, sound.positive, BpfMap.update_self _ _ _⟩, sound.small, ?_, ?_⟩, raised⟩
        · simp only [CpuLease.WithinBudget, UInt64.le_iff_toNat_le, raised]
          exact UInt64.lt_iff_toNat_lt.mp above
        · simp only [UInt64.le_iff_toNat_le, raised]
          exact UInt64.lt_iff_toNat_lt.mp room
      · simp only [ResourceMaps.use, sound.refused reason mapped room, room, ↓reduceIte]
        refine ⟨_, ⟨⟨sound.limited, sound.positive, BpfMap.update_self _ _ _⟩, sound.small, ?_, ?_⟩, ?_⟩
        · simpa [CpuLease.WithinBudget] using sound.within
        · simpa using sound.bounded
        · simp
    · exact ⟨lease, unchanged (ResourceMaps.check_other reason mapped), by simp [Usage.move, mapped, Gauge.step]⟩
  | release task =>
    by_cases mapped : maps.cgroup task.cgid = some nsKey
    · have stored := ResourceMaps.release_mapped mapped
      rw [sound.leased] at stored
      have frame := ResourceMaps.release_frame maps task
      refine ⟨_, ⟨⟨frame.2.1 ▸ sound.limited, sound.positive, stored⟩, sound.small, ?_, ?_⟩, ?_⟩
      all_goals
        have within := UInt64.le_iff_toNat_le.mp sound.within
        have bounded := UInt64.le_iff_toNat_le.mp sound.bounded
        simp only [ResourceMaps.released, Usage.move, mapped, ↓reduceIte, Gauge.step, CpuLease.WithinBudget,
          UInt64.le_iff_toNat_le]
        split
        next zero => simp [zero] at within bounded ⊢
        next nonzero =>
          simp only [Words.toNat_sub_one nonzero]
          try omega
    · exact ⟨lease, unchanged (ResourceMaps.release_unmapped mapped), by simp [Usage.move, mapped, Gauge.step]⟩

end Sound

/-- A namespace that never had a lease gets a sound one from its first re-sync. -/
theorem Sound.fresh {maps : ResourceMaps} {nsKey : UInt64} (missing : maps.nsCounter nsKey = none)
    (limit : PositiveLimit) :
    Sound (maps.resync nsKey limit) nsKey limit.stored (renewedLease none limit.value) := by
  refine ⟨⟨ResourceMaps.resync_nsLimit .., limit.stored_ne_zero, by simp [missing]⟩, limit.stored_lt, ?_, ?_⟩
  · simp [CpuLease.WithinBudget, renewedLease]
  · simp [renewedLease]

theorem Sound.enforcing (maps : ResourceMaps) (nsKey : UInt64) (limit : PositiveLimit) :
    Sound (maps.enforcing nsKey limit) nsKey limit.stored (renewedLease none limit.value) :=
  Sound.fresh (BpfMap.delete_self _ _) limit

end QuotaManager.Enforcer
