import QuotaManager.Proofs.Accounting
import QuotaManager.Logic.Trace

/-! Whom a breach blames. The recorded top consumer is the largest counter seen so
far, not the largest counter now: installs raise the record, closes never lower
it. The blame is right as long as the holder of the record still stands there. -/

namespace QuotaManager.Enforcer

namespace BpfMap
variable (counters : BpfMap UInt64)

theorem count_lowered_le (key other : UInt64) : (counters.lowered key).count other ≤ counters.count other := by
  rw [UInt64.le_iff_toNat_le, count_lowered]
  split
  next same => subst same; omega
  · exact Nat.le_refl _

end BpfMap

/-- Nobody in the namespace stands above the recorded peak. -/
structure Peaked (maps : ResourceMaps) (nsKey limit : UInt64) (lease : CpuLease) : Prop
    extends maps.Enforced nsKey limit lease where
  peak : ∀ cgid, maps.cgroup cgid = some nsKey → maps.cgroupCounter.count cgid ≤ lease.topCount

namespace Peaked
variable {maps : ResourceMaps} {task : Task} {nsKey limit : UInt64} {lease : CpuLease} (reason : UInt32)

theorem noted (peaked : Peaked maps nsKey limit lease) {cgid : UInt64} (mapped : maps.cgroup cgid = some nsKey) :
    (maps.cgroupCounter.raised task.cgid).count cgid ≤ (maps.noted task lease).topCount := by
  have below := peaked.peak cgid mapped
  simp only [BpfMap.count_raised, ResourceMaps.noted, CpuLease.noteTop]
  split
  next caller =>
    subst caller
    split
    · exact UInt64.le_refl _
    next lower => exact UInt64.not_lt.mp lower
  · split
    next higher => exact UInt64.le_trans below (UInt64.le_of_lt higher)
    · exact below

/-- The step lemma: checks and releases keep everybody below the peak. -/
theorem use (peaked : Peaked maps nsKey limit lease) (usage : Usage) :
    ∃ after, Peaked (maps.use reason usage) nsKey limit after := by
  cases usage with
  | idle => exact ⟨lease, peaked⟩
  | acquire task =>
    have frame := ResourceMaps.check_frame reason maps task
    by_cases mapped : maps.cgroup task.cgid = some nsKey
    · have checked := ResourceMaps.check_enforced reason mapped peaked.toEnforced
      have top := CpuLease.charge_top task nsKey reason (maps.noted task lease) limit
      refine ⟨((maps.noted task lease).charge limit task nsKey reason).2,
        ⟨⟨frame.2.1 ▸ peaked.limited, peaked.positive, ?_⟩, ?_⟩⟩
      · simp only [ResourceMaps.use, checked, BpfMap.update_self]
      · intro cgid member
        simp only [ResourceMaps.use, checked] at member ⊢
        rw [top.2]
        exact peaked.noted member
    · refine ⟨lease, ⟨⟨frame.2.1 ▸ peaked.limited, peaked.positive, ?_⟩, ?_⟩⟩
      · exact (ResourceMaps.check_other reason mapped).trans peaked.leased
      · intro cgid member
        have member : maps.cgroup cgid = some nsKey := by simpa using member
        have different : cgid ≠ task.cgid := by rintro rfl; exact mapped member
        simp only [ResourceMaps.use, frame.2.2]
        split
        · rw [BpfMap.count_raised, if_neg different]
          exact peaked.peak cgid member
        · exact peaked.peak cgid member
  | release task =>
    have frame := ResourceMaps.release_frame maps task
    have lowered (top : UInt64) (below : lease.topCount = top) : ∀ cgid, maps.cgroup cgid = some nsKey →
        (maps.cgroupCounter.lowered task.cgid).count cgid ≤ top := by
      intro cgid member
      exact UInt64.le_trans (BpfMap.count_lowered_le _ _ _) (below ▸ peaked.peak cgid member)
    by_cases mapped : maps.cgroup task.cgid = some nsKey
    · have stored := ResourceMaps.release_mapped mapped
      rw [peaked.leased] at stored
      refine ⟨_, ⟨⟨frame.2.1 ▸ peaked.limited, peaked.positive, stored⟩, ?_⟩⟩
      simp only [ResourceMaps.use, frame]
      refine lowered _ ?_
      unfold ResourceMaps.released
      split <;> rfl
    · refine ⟨lease, ⟨⟨frame.2.1 ▸ peaked.limited, peaked.positive, ?_⟩, ?_⟩⟩
      · exact (ResourceMaps.release_unmapped mapped).trans peaked.leased
      · simp only [ResourceMaps.use, frame]
        exact lowered _ rfl

end Peaked

namespace Bpf

/-- Whomever a breach blames holds the largest counter of the namespace when it is reported. -/
def BlamesTop (resource : Resource) (nsKey : UInt64) (bpf : Bpf) (event : KernelEvent) : Prop :=
  ∀ task report, event = resource.acquire task → (react bpf event).1.emitted = some report → report.nsKey = nsKey →
    ∀ cgid, (bpf.maps resource).cgroup cgid = some nsKey →
      ((bpf.after event).maps resource).cgroupCounter.count cgid ≤
        ((bpf.after event).maps resource).cgroupCounter.count report.topCgid

/-- A call that cannot be admitted comes from somebody now above the recorded peak,
or while the holder of the record, the call included, still stands at that peak. -/
def PeakStands (resource : Resource) (nsKey : UInt64) (bpf : Bpf) (event : KernelEvent) : Prop :=
  ∀ task, event = resource.acquire task → (bpf.maps resource).cgroup task.cgid = some nsKey →
    ∀ limit lease, (bpf.maps resource).Enforced nsKey limit lease → ¬ (lease.count < limit ∧ lease.Covered limit) →
      lease.topCount < (bpf.maps resource).cgroupCounter.count task.cgid + 1 ∨
      ((bpf.maps resource).cgroupCounter.raised task.cgid).count lease.topCgid = lease.topCount

end Bpf

/-- A refused caller is compared with the peak before it is reported, so the noted
record is current whenever the condition holds. -/
private theorem noted_current {maps : ResourceMaps} {task : Task} {lease : CpuLease}
    (stands : lease.topCount < maps.cgroupCounter.count task.cgid + 1 ∨
      (maps.cgroupCounter.raised task.cgid).count lease.topCgid = lease.topCount) :
    (maps.cgroupCounter.raised task.cgid).count (maps.noted task lease).topCgid =
      (maps.noted task lease).topCount := by
  simp only [ResourceMaps.noted, CpuLease.noteTop]
  split
  · simp only [BpfMap.count_raised, ↓reduceIte]
  next lower => exact stands.resolve_left lower

/-- The blamed cgroup is the real top consumer in every run in which the recorded
peak stands at every refused call. -/
theorem blames_top (resource : Resource) (nsKey : UInt64) (limit : PositiveLimit) (lease : CpuLease) (bpf : Bpf)
    (events : List KernelEvent) (enforced : (bpf.maps resource).Enforced nsKey limit.stored lease)
    (unused : ∀ cgid, (bpf.maps resource).cgroupCounter.count cgid = 0)
    (stands : Trace.Along Bpf.after (Bpf.PeakStands resource nsKey) bpf events) :
    Trace.Along Bpf.after (Bpf.BlamesTop resource nsKey) bpf events := by
  have start : Peaked (bpf.maps resource) nsKey limit.stored lease := by
    refine ⟨enforced, fun cgid _ => ?_⟩
    rw [unused]
    exact UInt64.le_iff_toNat_le.mpr (Nat.zero_le _)
  refine stands.transfer (fun bpf => ∃ lease, Peaked (bpf.maps resource) nsKey limit.stored lease) ⟨lease, start⟩ ?_ ?_
  · rintro bpf event ⟨lease, peaked⟩ _
    rw [Bpf.after_maps]
    exact peaked.use _ _
  · rintro bpf _ ⟨lease, peaked⟩ stands task report rfl reported rfl cgid member
    rw [resource.react_acquire] at reported
    obtain ⟨_, found, mapped, held, _, _, top, _⟩ := ResourceMaps.check_reports resource.reason reported
    obtain rfl : found = lease := Option.some.inj (held.leased.symm.trans peaked.leased)
    have refused : ¬ (found.count < limit.stored ∧ found.Covered limit.stored) := by
      rintro ⟨room, covered⟩
      obtain ⟨_, passed, _⟩ :=
        ResourceMaps.check_covered resource.reason mapped peaked.toEnforced limit.stored_lt room covered
      rw [bpf.check_outcome, passed] at reported
      cases reported
    have current := noted_current (stands task rfl mapped _ _ peaked.toEnforced refused)
    have frame := ResourceMaps.check_frame resource.reason (bpf.maps resource) task
    rw [Bpf.after_maps, Resource.acquire_usage, ResourceMaps.use, frame.2.2, mapped, top]
    simp only [Option.isSome_some, ↓reduceIte, current]
    exact peaked.noted member

/-- Cgroup 7 installs two descriptors and 8 one, under a limit of 3. The next install by
8 is a breach that blames 7. -/
theorem blames_top_two :
    let install : UInt64 → KernelEvent := fun cgid => .fdInstall ⟨cgid, 0, 0, 0, true⟩
    let start : Bpf := ⟨(ResourceMaps.mapping 1 [7, 8]).resync 1 ⟨3, by decide⟩, .empty⟩
    (react (Trace.run Bpf.after start [install 7, install 7, install 8]) (install 8)).1.emitted = some ⟨1, 8, 0, 0, 0, 7⟩ ∧
      Trace.Along Bpf.after (Bpf.BlamesTop .fd 1) start [install 7, install 7, install 8, install 8] := by
  intro install start
  refine ⟨by decide, ?_⟩
  refine blames_top .fd 1 ⟨3, by decide⟩ ⟨0, 3, 0, 0, 0⟩ start _ ⟨by decide, by decide, by decide⟩ (fun _ => rfl)
    ⟨?_, ?_, ?_, ?_, trivial⟩
  all_goals
    rintro task ⟨⟩ _ limit lease enforced _
    obtain rfl := Option.some.inj enforced.leased
    -- 7 rises above the record with either install, and 8 stays below it
    first | exact .inl (by decide) | exact .inr (by decide)

/-- Cgroup 7 opens four descriptors and closes them all, 8 then holds three and 9
one. The next install by 9 is a breach that blames 7. -/
theorem blames_idle_cgroup :
    let install : UInt64 → KernelEvent := fun cgid => .fdInstall ⟨cgid, 0, 0, 0, true⟩
    let close : UInt64 → KernelEvent := fun cgid => .filpClose ⟨cgid, 0, 0, 0, true⟩ (some 1)
    ¬ Trace.Along Bpf.after (Bpf.BlamesTop .fd 1)
      ⟨(ResourceMaps.mapping 1 [7, 8, 9]).resync 1 ⟨4, by decide⟩, .empty⟩
      (List.replicate 4 (install 7) ++ List.replicate 4 (close 7) ++ List.replicate 3 (install 8) ++
        [install 9, install 9]) := by
  intro install close blamed
  rw [Trace.Along.append_iff] at blamed
  obtain ⟨_, _, blamed, _⟩ := blamed
  have higher := blamed ⟨9, 0, 0, 0, true⟩ ⟨1, 9, 0, 0, 0, 7⟩ rfl (by decide) rfl 8 (by decide)
  exact absurd higher (by decide)

end QuotaManager.Enforcer
