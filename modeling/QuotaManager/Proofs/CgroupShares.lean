import QuotaManager.Proofs.NamespaceCount
import QuotaManager.Logic.Shares

/-! A namespace's count next to the counters of its cgroups. A check raises the caller's
counter before it looks for a limit, and a release lowers it before it looks for the
mapping; the counters may be ahead of the count, and they never fall behind it. -/

namespace QuotaManager.Enforcer

theorem BpfMap.count_delete (counters : BpfMap UInt64) (key other : UInt64) :
    (counters.delete key).count other = if other = key then 0 else counters.count other := by
  unfold count
  split
  next same => rw [same, delete_self]; rfl
  next different => rw [delete_of_ne _ _ _ different]

/-- No mapping is taken away, and none is moved to another namespace. -/
def MapWrite.Settled (maps : ResourceMaps) : MapWrite → Prop
  | .updateCgroupMapping cgroupID nsKey => ∀ other, maps.cgroup cgroupID = some other → other = nsKey
  | .deleteCgroupMapping _ => False
  | _ => True

def MapEvent.Settled (resource : Resource) (bpf : Bpf) : MapEvent → Prop
  | .kernel _ => True
  | .write other change => other = resource → change.Settled (bpf.maps resource)

namespace ResourceMaps

/-- The cgroups that are mapped to the namespace have their counters as shares. -/
def shares (maps : ResourceMaps) (nsKey : UInt64) : Shares UInt64 where
  members := {cgid | maps.cgroup cgid = some nsKey}
  share cgid := (maps.cgroupCounter.count cgid).toNat
  reading := maps.usage nsKey

variable {maps : ResourceMaps} {nsKey : UInt64} {task : Task} (reason : UInt32)

theorem mem_shares {cgid : UInt64} : cgid ∈ (maps.shares nsKey).members ↔ maps.cgroup cgid = some nsKey := by
  simp only [shares, Finset.mem_filter, Finset.mem_univ, true_and]

theorem check_shares (roomy : (maps.cgroupCounter.count task.cgid).toNat + 1 < 2 ^ 64) :
    ∃ move, (maps.check task reason).2.shares nsKey = (maps.shares nsKey).step move := by
  obtain ⟨cgroup, -, counters⟩ := check_frame reason maps task
  cases mapped : maps.cgroup task.cgid with
  | none => exact ⟨.stay, by rw [check_unmapped reason mapped]; rfl⟩
  | some key =>
    rw [mapped, Option.isSome_some, if_pos rfl] at counters
    obtain ⟨counted, reading⟩ : ∃ counted : Bool, (maps.check task reason).2.usage nsKey =
        if task.cgid ∈ (maps.shares nsKey).members ∧ counted then maps.usage nsKey + 1 else maps.usage nsKey := by
      rcases check_usage reason maps task nsKey with same | ⟨raised, -⟩
      · exact ⟨false, by rw [same, if_neg fun both => Bool.false_ne_true both.2]⟩
      · have member : maps.cgroup task.cgid = some nsKey := by
          by_contra stranger
          have same := usage_congr (check_other reason stranger)
          omega
        exact ⟨true, by rw [raised, if_pos ⟨mem_shares.mpr member, rfl⟩]⟩
    refine ⟨.take task.cgid counted, ?_⟩
    have share : (fun cgid => (((maps.check task reason).2.cgroupCounter).count cgid).toNat) =
        Function.update (maps.shares nsKey).share task.cgid ((maps.shares nsKey).share task.cgid + 1) := by
      funext cgid
      rw [counters, BpfMap.count_raised, Function.update_apply]
      split
      · exact Words.toNat_add_of_lt (by simpa using roomy)
      · rfl
    rw [shares, share, reading, cgroup]
    rfl

theorem release_shares : (maps.release task).shares nsKey = (maps.shares nsKey).step (.giveBack task.cgid) := by
  obtain ⟨cgroup, -, counters⟩ := release_frame maps task
  have share : (fun cgid => ((maps.release task).cgroupCounter.count cgid).toNat) =
      Function.update (maps.shares nsKey).share task.cgid ((maps.shares nsKey).share task.cgid - 1) := by
    funext cgid
    rw [counters, BpfMap.count_lowered, Function.update_apply]
    rfl
  have reading : (maps.release task).usage nsKey =
      if task.cgid ∈ (maps.shares nsKey).members then maps.usage nsKey - 1 else maps.usage nsKey := by
    rw [release_usage]
    by_cases member : maps.cgroup task.cgid = some nsKey
    · rw [if_pos member, if_pos (mem_shares.mpr member)]
    · rw [if_neg member, if_neg fun inside => member (mem_shares.mp inside)]
      rfl
  rw [shares, share, reading, cgroup]
  rfl

theorem apply_shares {write : MapWrite} (settled : write.Settled maps) :
    ∃ move, (maps.apply write).shares nsKey = (maps.shares nsKey).step move := by
  cases write with
  | updateNsLimit | deleteNsLimit => exact ⟨.stay, rfl⟩
  | resetNsCounter key limit =>
    have same : (maps.apply (.resetNsCounter key limit)).usage nsKey = maps.usage nsKey := maps.reset_usage key limit nsKey
    exact ⟨.stay, Shares.ext rfl rfl same⟩
  | deleteNsCounter key =>
    have left : (maps.apply (.deleteNsCounter key)).usage nsKey = if nsKey = key then 0 else maps.usage nsKey :=
      maps.delete_usage key nsKey
    by_cases here : nsKey = key
    · exact ⟨.clear, Shares.ext rfl rfl (left.trans (if_pos here))⟩
    · exact ⟨.stay, Shares.ext rfl rfl (left.trans (if_neg here))⟩
  | updateCgroupMapping cgroupID key =>
    have mapped (cgid : UInt64) : (maps.apply (.updateCgroupMapping cgroupID key)).cgroup cgid =
        if cgid = cgroupID then some key else maps.cgroup cgid := BpfMap.update_apply _ _ _ _
    by_cases here : key = nsKey
    · have joined : ((maps.apply (.updateCgroupMapping cgroupID key)).shares nsKey).members =
          insert cgroupID (maps.shares nsKey).members := by
        ext cgid
        rw [Finset.mem_insert, mem_shares, mem_shares, mapped, here]
        by_cases same : cgid = cgroupID <;> simp [same]
      exact ⟨.join cgroupID, Shares.ext joined rfl rfl⟩
    · have kept : ((maps.apply (.updateCgroupMapping cgroupID key)).shares nsKey).members = (maps.shares nsKey).members := by
        ext cgid
        rw [mem_shares, mem_shares, mapped]
        split
        next same =>
          subst same
          exact iff_of_false (fun moved => here (Option.some.inj moved)) fun before => here (settled nsKey before).symm
        · rfl
      exact ⟨.stay, Shares.ext kept rfl rfl⟩
  | deleteCgroupMapping => exact settled.elim

theorem use_count_le (usage : Usage) (cgid : UInt64) :
    ((maps.use reason usage).cgroupCounter.count cgid).toNat ≤ (maps.cgroupCounter.count cgid).toNat + 1 := by
  cases usage with
  | acquire task =>
    rw [use, (check_frame reason maps task).2.2]
    split
    · rw [BpfMap.count_raised]
      split
      next same =>
        rw [same, UInt64.toNat_add]
        exact Nat.mod_le _ _
      · exact Nat.le_succ _
    · exact Nat.le_succ _
  | release task =>
    rw [use, (release_frame maps task).2.2, BpfMap.count_lowered]
    split
    next same => rw [same]; omega
    · exact Nat.le_succ _
  | idle => exact Nat.le_succ _

theorem apply_count_le (write : MapWrite) (cgid : UInt64) :
    ((maps.apply write).cgroupCounter.count cgid).toNat ≤ (maps.cgroupCounter.count cgid).toNat := by
  cases write with
  | deleteCgroupMapping cgroupID =>
    have left : (maps.apply (.deleteCgroupMapping cgroupID)).cgroupCounter.count cgid =
        if cgid = cgroupID then 0 else maps.cgroupCounter.count cgid := BpfMap.count_delete _ _ _
    rw [left]
    split
    · exact Nat.zero_le _
    · exact Nat.le_refl _
  | _ => exact Nat.le_refl _

end ResourceMaps

section run
variable (resource : Resource) (nsKey : UInt64)

/-- Each counter of the resource can be raised once more. -/
def Roomy (bpf : Bpf) : Prop := ∀ cgid, ((bpf.maps resource).cgroupCounter.count cgid).toNat + 1 < 2 ^ 64

variable {resource} {bpf : Bpf} {event : MapEvent}

/-- The step lemma: whatever happens moves the shares of the namespace by the rules. -/
theorem advance_shares (roomy : Roomy resource bpf) (settled : event.Settled resource bpf) :
    ∃ move, ((bpf.advance event).maps resource).shares nsKey = ((bpf.maps resource).shares nsKey).step move := by
  rcases bpf.advance_maps event resource with used | ⟨write, rfl, written⟩
  · rw [used]
    cases event.usage resource with
    | acquire task => exact ResourceMaps.check_shares resource.reason (roomy task.cgid)
    | release task => exact ⟨.giveBack task.cgid, ResourceMaps.release_shares⟩
    | idle => exact ⟨.stay, rfl⟩
  · rw [written]
    exact ResourceMaps.apply_shares (settled rfl)

theorem advance_count_le (bpf : Bpf) (event : MapEvent) (cgid : UInt64) :
    (((bpf.advance event).maps resource).cgroupCounter.count cgid).toNat ≤
      ((bpf.maps resource).cgroupCounter.count cgid).toNat + 1 := by
  rcases bpf.advance_maps event resource with used | ⟨write, rfl, written⟩
  · rw [used]
    exact ResourceMaps.use_count_le resource.reason (event.usage resource) cgid
  · rw [written]
    exact Nat.le_succ_of_le (ResourceMaps.apply_count_le write cgid)

variable (resource) in
/-- A run that is short enough leaves room in every counter. -/
theorem along_roomy {events : List MapEvent} (few : events.length < 2 ^ 64) :
    Trace.Along Bpf.advance (fun bpf _ => Roomy resource bpf) .empty events := by
  apply Trace.Along.iff_split.mpr
  rintro first event last rfl cgid
  have grown := Trace.run_growth Bpf.advance (fun bpf : Bpf => ((bpf.maps resource).cgroupCounter.count cgid).toNat)
    (fun bpf event => advance_count_le bpf event cgid) .empty first
  have none_yet : ((Bpf.empty.maps resource).cgroupCounter.count cgid).toNat = 0 := by
    cases resource <;> rfl
  rw [List.length_append, List.length_cons] at few
  omega

end run

/-- In every state that is reached, the cgroups of a namespace have counted at least what
the namespace has. -/
theorem count_le_cgroups (resource : Resource) (nsKey : UInt64) {events : List MapEvent} (few : events.length < 2 ^ 64)
    (settled : Trace.Along Bpf.advance (MapEvent.Settled resource) .empty events) :
    Trace.Throughout Bpf.advance (fun bpf => (bpf.maps resource).usage nsKey ≤
      ∑ cgid with (bpf.maps resource).cgroup cgid = some nsKey, ((bpf.maps resource).cgroupCounter.count cgid).toNat)
      .empty events := by
  intro first early
  have along := ((along_roomy resource few).and settled).initial early
  apply along.invariant (fun bpf => ((bpf.maps resource).shares nsKey).Backed)
  · have unleased : (Bpf.empty.maps resource).usage nsKey = 0 := by
      cases resource <;> rfl
    rw [Shares.Backed, ResourceMaps.shares, unleased]
    exact Nat.zero_le _
  · intro bpf event backed ⟨roomy, settled⟩
    obtain ⟨move, moved⟩ := advance_shares nsKey roomy settled
    rw [moved]
    exact backed.step move

/-- A descriptor that one cgroup opens is closed by another one of the namespace; the
counter of the first stays behind. -/
theorem count_le_cgroups_passed :
    let opener : Task := ⟨5, 0, 0, 0, true⟩
    let closer : Task := ⟨6, 0, 0, 0, true⟩
    let events : List MapEvent := [.write .fd (.updateCgroupMapping 5 9), .write .fd (.updateCgroupMapping 6 9),
      .write .fd (.updateNsLimit 9 2), .write .fd (.resetNsCounter 9 2), .kernel (.fdInstall opener),
      .kernel (.filpClose closer (some 1))]
    let after := (Trace.run Bpf.advance .empty events).maps .fd
    after.usage 9 = 0 ∧ after.cgroupCounter.count 5 = 1 ∧
    Trace.Throughout Bpf.advance (fun bpf => (bpf.maps .fd).usage 9 ≤
      ∑ cgid with (bpf.maps .fd).cgroup cgid = some 9, ((bpf.maps .fd).cgroupCounter.count cgid).toNat) .empty events := by
  intro opener closer events after
  refine ⟨by decide +kernel, by decide +kernel, ?_⟩
  apply count_le_cgroups .fd 9 (by decide)
  refine ⟨?_, ?_, fun _ => trivial, fun _ => trivial, trivial, trivial, trivial⟩
  · intro _ other impossible
    cases impossible
  · intro _ other impossible
    cases impossible

end QuotaManager.Enforcer
