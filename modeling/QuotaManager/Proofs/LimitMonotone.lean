import QuotaManager.Proofs.Accounting
import QuotaManager.Logic.Trace

/-! The same events under two limits. The two runs differ only in what they hold
for the namespace itself; there the counts are coupled gauges and the recorded top
consumer is the same, so a larger limit never turns anybody away earlier. -/

namespace QuotaManager.Enforcer

theorem CpuLease.SameTop.noted {first second : CpuLease} (same : first.SameTop second) (one two : ResourceMaps)
    (counters : one.cgroupCounter = two.cgroupCounter) (task : Task) :
    (one.noted task first).SameTop (two.noted task second) := by
  obtain ⟨cgid, count⟩ := same
  unfold ResourceMaps.noted CpuLease.noteTop SameTop
  rw [counters, count]
  simp only
  split
  · exact ⟨rfl, rfl⟩
  · exact ⟨cgid, count⟩

/-- Two maps that may differ only in the limit and the lease of one namespace. -/
structure Apart (nsKey : UInt64) (one two : ResourceMaps) : Prop where
  cgroup : one.cgroup = two.cgroup
  counters : one.cgroupCounter = two.cgroupCounter
  limits : ∀ key, key ≠ nsKey → one.nsLimit key = two.nsLimit key
  leases : ∀ key, key ≠ nsKey → one.nsCounter key = two.nsCounter key

namespace Apart
variable {nsKey other : UInt64} {one two : ResourceMaps} {task : Task} (reason : UInt32)

theorem enforced (apart : Apart nsKey one two) (different : other ≠ nsKey) (limit : UInt64) (lease : CpuLease) :
    one.Enforced other limit lease ↔ two.Enforced other limit lease := by
  have limits := apart.limits other different
  have leases := apart.leases other different
  exact ⟨fun held => ⟨limits ▸ held.limited, held.positive, leases ▸ held.leased⟩,
    fun held => ⟨limits ▸ held.limited, held.positive, leases ▸ held.leased⟩⟩

theorem check (apart : Apart nsKey one two) (unmapped : one.cgroup task.cgid ≠ some nsKey) :
    (one.check task reason).1 = (two.check task reason).1 := by
  cases mapped : one.cgroup task.cgid with
  | none =>
    have also : two.cgroup task.cgid = none := apart.cgroup ▸ mapped
    rw [ResourceMaps.check_unmapped reason mapped, ResourceMaps.check_unmapped reason also]
  | some other =>
    have different : other ≠ nsKey := by rintro rfl; exact unmapped mapped
    have also : two.cgroup task.cgid = some other := apart.cgroup ▸ mapped
    by_cases counted : ∃ limit lease, one.Enforced other limit lease
    · obtain ⟨limit, lease, held⟩ := counted
      rw [ResourceMaps.check_enforced reason mapped held,
        ResourceMaps.check_enforced reason also ((apart.enforced different limit lease).mp held)]
      simp only [ResourceMaps.noted, apart.counters]
    · have free : ∀ limit lease, ¬ one.Enforced other limit lease := fun limit lease held => counted ⟨limit, lease, held⟩
      rw [ResourceMaps.check_unenforced reason mapped free, ResourceMaps.check_unenforced reason also
        (fun limit lease held => free limit lease ((apart.enforced different limit lease).mpr held))]

private theorem check_leases (apart : Apart nsKey one two) (different : other ≠ nsKey) :
    (one.check task reason).2.nsCounter other = (two.check task reason).2.nsCounter other := by
  by_cases mapped : one.cgroup task.cgid = some other
  · have also : two.cgroup task.cgid = some other := apart.cgroup ▸ mapped
    by_cases counted : ∃ limit lease, one.Enforced other limit lease
    · obtain ⟨limit, lease, held⟩ := counted
      rw [ResourceMaps.check_enforced reason mapped held,
        ResourceMaps.check_enforced reason also ((apart.enforced different limit lease).mp held)]
      simp only [ResourceMaps.noted, apart.counters, BpfMap.update_self]
    · have free : ∀ limit lease, ¬ one.Enforced other limit lease := fun limit lease held => counted ⟨limit, lease, held⟩
      rw [ResourceMaps.check_unenforced reason mapped free, ResourceMaps.check_unenforced reason also
        (fun limit lease held => free limit lease ((apart.enforced different limit lease).mpr held)),
        ResourceMaps.recordInc_eq, ResourceMaps.recordInc_eq]
      exact apart.leases other different
  · have also : two.cgroup task.cgid ≠ some other := apart.cgroup ▸ mapped
    rw [ResourceMaps.check_other reason mapped, ResourceMaps.check_other reason also]
    exact apart.leases other different

private theorem release_leases (apart : Apart nsKey one two) (different : other ≠ nsKey) :
    (one.release task).nsCounter other = (two.release task).nsCounter other := by
  by_cases mapped : one.cgroup task.cgid = some other
  · have also : two.cgroup task.cgid = some other := apart.cgroup ▸ mapped
    rw [ResourceMaps.release_mapped mapped, ResourceMaps.release_mapped also, apart.leases other different]
  · have also : two.cgroup task.cgid ≠ some other := apart.cgroup ▸ mapped
    rw [ResourceMaps.release_unmapped mapped, ResourceMaps.release_unmapped also]
    exact apart.leases other different

theorem use (apart : Apart nsKey one two) (usage : Usage) :
    Apart nsKey (one.use reason usage) (two.use reason usage) := by
  refine ⟨by simpa using apart.cgroup, ?_, fun key different => by simpa using apart.limits key different, ?_⟩
  · cases usage with
    | acquire task =>
      simp only [ResourceMaps.use, ResourceMaps.check_frame reason, apart.cgroup, apart.counters]
    | release task => simp only [ResourceMaps.use, ResourceMaps.release_frame, apart.counters]
    | idle => exact apart.counters
  · intro key different
    cases usage with
    | acquire task => exact check_leases reason apart different
    | release task => exact release_leases apart different
    | idle => exact apart.leases key different

end Apart

/-- The relation kept between the runs under a smaller and a larger limit. -/
structure Lockstep (nsKey low high : UInt64) (one two : ResourceMaps) : Prop where
  apart : Apart nsKey one two
  leases : ∃ first second, Sound one nsKey low first ∧ Sound two nsKey high second ∧
    first.SameTop second ∧ Gauge.Coupled low.toNat high.toNat first.count.toNat second.count.toNat

namespace Lockstep
variable {nsKey low high : UInt64} {one two : ResourceMaps} (reason : UInt32)

/-- The lease whose top consumer is recorded when an event has been handled. -/
def consulted (maps : ResourceMaps) (nsKey : UInt64) (lease : CpuLease) : Usage → CpuLease
  | .acquire task => if maps.cgroup task.cgid = some nsKey then maps.noted task lease else lease
  | .release _ | .idle => lease

/-- Which top consumer a lease records does not depend on whether the caller is admitted. -/
theorem use_top {maps : ResourceMaps} {limit : UInt64} {lease after : CpuLease}
    (sound : Sound maps nsKey limit lease) (usage : Usage)
    (stored : (maps.use reason usage).nsCounter nsKey = some after) :
    after.SameTop (consulted maps nsKey lease usage) := by
  cases usage with
  | idle => exact Option.some.inj (sound.leased.symm.trans stored) ▸ ⟨rfl, rfl⟩
  | release task =>
    by_cases mapped : maps.cgroup task.cgid = some nsKey
    · have same := (ResourceMaps.release_mapped mapped).symm.trans stored
      rw [sound.leased] at same
      cases same
      unfold ResourceMaps.released
      split <;> exact ⟨rfl, rfl⟩
    · have same := (ResourceMaps.release_unmapped mapped).symm.trans stored
      exact Option.some.inj (sound.leased.symm.trans same) ▸ ⟨rfl, rfl⟩
  | acquire task =>
    by_cases mapped : maps.cgroup task.cgid = some nsKey
    · simp only [consulted, mapped, ↓reduceIte]
      by_cases room : lease.count < limit
      · obtain ⟨budget, admitted, _⟩ := sound.counted reason mapped room
        simp only [ResourceMaps.use, admitted, BpfMap.update_self] at stored
        cases stored
        exact ⟨rfl, rfl⟩
      · simp only [ResourceMaps.use, sound.refused reason mapped room, BpfMap.update_self] at stored
        cases stored
        exact ⟨rfl, rfl⟩
    · simp only [consulted, mapped, ↓reduceIte]
      have same := (ResourceMaps.check_other reason mapped).symm.trans stored
      exact Option.some.inj (sound.leased.symm.trans same) ▸ ⟨rfl, rfl⟩

/-- The step lemma: one event keeps the two runs in lockstep. -/
theorem use (lockstep : Lockstep nsKey low high one two) (usage : Usage) :
    Lockstep nsKey low high (one.use reason usage) (two.use reason usage) := by
  obtain ⟨apart, first, second, soundOne, soundTwo, top, coupled⟩ := lockstep
  obtain ⟨firstAfter, soundFirst, countFirst⟩ := soundOne.use reason usage
  obtain ⟨secondAfter, soundSecond, countSecond⟩ := soundTwo.use reason usage
  have moves : usage.move one nsKey = usage.move two nsKey := by
    cases usage <;> simp only [Usage.move, apart.cgroup]
  refine ⟨apart.use reason usage, firstAfter, secondAfter, soundFirst, soundSecond, ?_, ?_⟩
  · have left := use_top reason soundOne usage soundFirst.leased
    have right := use_top reason soundTwo usage soundSecond.leased
    have between : (consulted one nsKey first usage).SameTop (consulted two nsKey second usage) := by
      cases usage with
      | acquire task =>
        simp only [consulted, apart.cgroup]
        split
        · exact top.noted one two apart.counters task
        · exact top
      | release task => exact top
      | idle => exact top
    exact ⟨left.1.trans (between.1.trans right.1.symm), left.2.trans (between.2.trans right.2.symm)⟩
  · rw [countFirst, countSecond, moves]
    exact coupled.step _

/-- Whoever is admitted under the smaller limit is admitted under the larger one. -/
theorem admits (lockstep : Lockstep nsKey low high one two) (task : Task)
    (admitted : (one.check task reason).1.verdict = .allow) : (two.check task reason).1.verdict = .allow := by
  obtain ⟨apart, first, second, soundOne, soundTwo, top, coupled⟩ := lockstep
  by_cases mapped : one.cgroup task.cgid = some nsKey
  · have also : two.cgroup task.cgid = some nsKey := apart.cgroup ▸ mapped
    have room : first.count < low := by
      by_contra full
      rw [soundOne.refused reason mapped full] at admitted
      simp only [CpuLease.breach] at admitted
      split at admitted <;> cases admitted
    have larger := UInt64.lt_iff_toNat_lt.mpr (coupled.admits (UInt64.lt_iff_toNat_lt.mp room))
    obtain ⟨budget, counted, _⟩ := soundTwo.counted reason also larger
    rw [counted]
    rfl
  · rw [← apart.check reason mapped]
    exact admitted

/-- Whoever is signalled under the larger limit is signalled under the smaller one. -/
theorem kills (lockstep : Lockstep nsKey low high one two) (task : Task)
    (killed : (two.check task reason).1.verdict = .kill) : (one.check task reason).1.verdict = .kill := by
  obtain ⟨apart, first, second, soundOne, soundTwo, top, coupled⟩ := lockstep
  by_cases mapped : one.cgroup task.cgid = some nsKey
  · have also : two.cgroup task.cgid = some nsKey := apart.cgroup ▸ mapped
    have full : ¬ second.count < high := by
      intro room
      obtain ⟨budget, counted, _⟩ := soundTwo.counted reason also room
      rw [counted] at killed
      cases killed
    have smaller : ¬ first.count < low := fun room =>
      full (UInt64.lt_iff_toNat_lt.mpr (coupled.admits (UInt64.lt_iff_toNat_lt.mp room)))
    have blamed := (top.noted one two apart.counters task).1
    rw [soundTwo.refused reason also full] at killed
    rw [soundOne.refused reason mapped smaller]
    simpa only [CpuLease.breach, blamed] using killed
  · rw [apart.check reason mapped]
    exact killed

theorem start (maps : ResourceMaps) (nsKey : UInt64) {low high : PositiveLimit} (ordered : low.value ≤ high.value) :
    Lockstep nsKey low.stored high.stored (maps.enforcing nsKey low) (maps.enforcing nsKey high) := by
  have missing : (maps.deleteNsCounter nsKey).nsCounter nsKey = none := BpfMap.delete_self _ _
  have caps : low.stored.toNat ≤ high.stored.toNat :=
    UInt64.le_iff_toNat_le.mp (Int64.toUInt64_le (Int64.le_of_lt low.positive) ordered)
  refine ⟨⟨?_, ?_, ?_, ?_⟩, _, _, Sound.fresh missing low, Sound.fresh missing high, ⟨rfl, rfl⟩,
    by simpa [renewedLease] using Gauge.Coupled.start caps⟩
  · simp only [ResourceMaps.enforcing, ResourceMaps.resync_cgroup]
  · simp only [ResourceMaps.enforcing, ResourceMaps.resync_cgroupCounter]
  · intro key different
    simp only [ResourceMaps.enforcing, ResourceMaps.resync_nsLimit_other _ _ _ different]
  · intro key different
    simp only [ResourceMaps.enforcing, ResourceMaps.resync_nsCounter_other _ _ _ different]

end Lockstep

theorem trackInstallFd_signalled (bpf : Bpf) (task : Task) :
    (trackInstallFd bpf task).1.signalled = true ↔ (overLimit bpf task).1.verdict = .kill := by
  simp [trackInstallFd, Outcome.reaction]

/-- The two runs of the file-descriptor half stay in lockstep along any events. -/
theorem lockstep_run (bpf : Bpf) (nsKey : UInt64) {low high : PositiveLimit} (ordered : low.value ≤ high.value)
    (events : List KernelEvent) :
    Lockstep nsKey low.stored high.stored
      (Trace.run Bpf.after (bpf.withMaps .fd (bpf.fd.enforcing nsKey low)) events).fd
      (Trace.run Bpf.after (bpf.withMaps .fd (bpf.fd.enforcing nsKey high)) events).fd := by
  have start := Lockstep.start bpf.fd nsKey ordered
  generalize bpf.fd.enforcing nsKey low = one at start ⊢
  generalize bpf.fd.enforcing nsKey high = two at start ⊢
  have general : ∀ first second : Bpf, Lockstep nsKey low.stored high.stored first.fd second.fd →
      Lockstep nsKey low.stored high.stored (Trace.run Bpf.after first events).fd (Trace.run Bpf.after second events).fd := by
    induction events with
    | nil => exact fun _ _ same => same
    | cons event rest ih =>
      intro first second same
      apply ih
      have left := first.after_maps event .fd
      have right := second.after_maps event .fd
      simp only [Bpf.maps] at left right
      rw [left, right]
      exact same.use _ _
  exact general _ _ start

/-- Enforcement is monotone in the limit. After any events from fresh leases, the
count under the smaller limit is the smaller one and the counts differ by no more
than the limits; the next install, whoever makes it, is admitted under the larger
limit if under the smaller, and signalled under the smaller if under the larger. -/
theorem enforcement_monotone (bpf : Bpf) (nsKey : UInt64) (low high : PositiveLimit)
    (ordered : low.value ≤ high.value) (events : List KernelEvent) (task : Task) :
    let one := Trace.run Bpf.after (bpf.withMaps .fd (bpf.fd.enforcing nsKey low)) events
    let two := Trace.run Bpf.after (bpf.withMaps .fd (bpf.fd.enforcing nsKey high)) events
    (∃ first second, one.fd.nsCounter nsKey = some first ∧ two.fd.nsCounter nsKey = some second ∧
      first.count.toNat ≤ second.count.toNat ∧
      second.count.toNat ≤ first.count.toNat + (high.stored.toNat - low.stored.toNat)) ∧
    ((overLimit one task).1.verdict = .allow → (overLimit two task).1.verdict = .allow) ∧
    ((trackInstallFd two task).1.signalled = true → (trackInstallFd one task).1.signalled = true) := by
  intro one two
  have lockstep := lockstep_run bpf nsKey ordered events
  refine ⟨?_, lockstep.admits _ task, ?_⟩
  · obtain ⟨_, first, second, soundOne, soundTwo, _, coupled⟩ := lockstep
    exact ⟨first, second, soundOne.leased, soundTwo.leased, coupled.below, coupled.apart⟩
  · rw [trackInstallFd_signalled, trackInstallFd_signalled]
    exact lockstep.kills _ task

/-- A second descriptor under limits 1 and 2. -/
theorem enforcement_monotone_second :
    let task : Task := ⟨7, 0, 0, 0, true⟩
    let bpf : Bpf := ⟨.mapping 1 [7], .empty⟩
    let low : PositiveLimit := ⟨1, by decide⟩
    let high : PositiveLimit := ⟨2, by decide⟩
    let one := Trace.run Bpf.after (bpf.withMaps .fd (bpf.fd.enforcing 1 low)) [.fdInstall task]
    let two := Trace.run Bpf.after (bpf.withMaps .fd (bpf.fd.enforcing 1 high)) [.fdInstall task]
    (∃ first second, one.fd.nsCounter 1 = some first ∧ two.fd.nsCounter 1 = some second ∧
      first.count.toNat ≤ second.count.toNat ∧
      second.count.toNat ≤ first.count.toNat + (high.stored.toNat - low.stored.toNat)) ∧
    ((overLimit one task).1.verdict = .allow → (overLimit two task).1.verdict = .allow) ∧
    ((trackInstallFd two task).1.signalled = true → (trackInstallFd one task).1.signalled = true) :=
  enforcement_monotone ⟨.mapping 1 [7], .empty⟩ 1 ⟨1, by decide⟩ ⟨2, by decide⟩ (by decide)
    [.fdInstall ⟨7, 0, 0, 0, true⟩] ⟨7, 0, 0, 0, true⟩

end QuotaManager.Enforcer
