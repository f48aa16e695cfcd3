import QuotaManager.Logic.Turnstile
import QuotaManager.Proofs.ConcurrentRules
import QuotaManager.Proofs.LimitCheck

/-! Any number of fentry programs that run at the same time over fixed mappings and
limits. Whatever their order, no change of a namespace's count is lost, the count
passes the limit by fewer than the programs that run at once, and a breach names only
cgroups of the namespace. -/

namespace QuotaManager.Enforcer

abbrev Programs := System ResourceMaps Usage Access Access.Reply

/-- The recorded top consumer of a namespace is one of its cgroups, or nobody yet. -/
def TopKnown (start : ResourceMaps) (nsKey : UInt64) (maps : ResourceMaps) : Prop :=
  ∀ lease, maps.nsCounter nsKey = some lease → lease.topCgid = 0 ∨ start.cgroup lease.topCgid = some nsKey

/-- The budget has reached the limit and cannot wrap around when a step is added. -/
def FullyFunded (nsKey limit : UInt64) (maps : ResourceMaps) : Prop :=
  maps.nsLimit nsKey = some limit ∧ limit.toNat + 100 < 2 ^ 64 ∧
    ∀ lease, maps.nsCounter nsKey = some lease → lease.leaseBudget = limit

/-- What running programs keep of the maps they found. -/
structure Ongoing (start maps : ResourceMaps) : Prop where
  cgroup : maps.cgroup = start.cgroup
  nsLimit : maps.nsLimit = start.nsLimit
  leases : ∀ nsKey, (maps.nsCounter nsKey).isSome = (start.nsCounter nsKey).isSome
  tops : ∀ nsKey, TopKnown start nsKey start → TopKnown start nsKey maps
  budgets : ∀ nsKey limit, FullyFunded nsKey limit start → FullyFunded nsKey limit maps

theorem Ongoing.refl (maps : ResourceMaps) : Ongoing maps maps :=
  ⟨rfl, rfl, fun _ => rfl, fun _ known => known, fun _ _ funded => funded⟩

section editLease
variable (maps : ResourceMaps) (nsKey : UInt64) (change : CpuLease → CpuLease)

theorem editLease_nsCounter (other : UInt64) : (maps.editLease nsKey change).nsCounter other =
    if other = nsKey then (maps.nsCounter other).map change else maps.nsCounter other := by
  unfold ResourceMaps.editLease
  split
  next none =>
    split
    next same => rw [same, none, Option.map_none]
    · rfl
  next lease leased =>
    split
    next same =>
      rw [same, leased, Option.map_some]
      exact BpfMap.update_self _ _ _
    next different => exact BpfMap.update_of_ne _ _ _ _ different

theorem editLease_cgroup : (maps.editLease nsKey change).cgroup = maps.cgroup := by
  unfold ResourceMaps.editLease
  split <;> rfl

theorem editLease_nsLimit : (maps.editLease nsKey change).nsLimit = maps.nsLimit := by
  unfold ResourceMaps.editLease
  split <;> rfl

variable {maps nsKey change} in
/-- A lease after the change is the old one, or the changed one of the namespace. -/
theorem editLease_cases {other : UInt64} {lease : CpuLease} (found : (maps.editLease nsKey change).nsCounter other = some lease) :
    ∃ old, maps.nsCounter other = some old ∧ (lease = old ∨ other = nsKey ∧ lease = change old) := by
  rw [editLease_nsCounter] at found
  split at found
  next same =>
    obtain ⟨old, leased, rfl⟩ := Option.map_eq_some_iff.mp found
    exact ⟨old, leased, .inr ⟨same, rfl⟩⟩
  · exact ⟨lease, found, .inl rfl⟩

end editLease

section ongoing
variable {start maps : ResourceMaps} (ongoing : Ongoing start maps)
include ongoing

theorem Ongoing.counters (counters : BpfMap UInt64) : Ongoing start { maps with cgroupCounter := counters } :=
  ⟨ongoing.cgroup, ongoing.nsLimit, ongoing.leases, ongoing.tops, ongoing.budgets⟩

theorem Ongoing.editCounter (cgid : UInt64) (change : UInt64 → UInt64) : Ongoing start (maps.editCounter cgid change) := by
  unfold ResourceMaps.editCounter
  split
  · exact ongoing
  · exact ongoing.counters _

/-- A lease may change as long as a known top stays known and a full budget stays full. -/
theorem Ongoing.editLease (nsKey : UInt64) (change : CpuLease → CpuLease)
    (tops : ∀ lease, (change lease).topCgid = lease.topCgid ∨ start.cgroup (change lease).topCgid = some nsKey)
    (budgets : ∀ lease limit, maps.nsCounter nsKey = some lease → FullyFunded nsKey limit start →
      lease.leaseBudget = limit → (change lease).leaseBudget = limit) :
    Ongoing start (maps.editLease nsKey change) where
  cgroup := (editLease_cgroup maps nsKey change).trans ongoing.cgroup
  nsLimit := (editLease_nsLimit maps nsKey change).trans ongoing.nsLimit
  leases other := by
    rw [editLease_nsCounter, ← ongoing.leases]
    split
    · exact Option.isSome_map
    · rfl
  tops other known lease found := by
    obtain ⟨old, leased, rfl | ⟨rfl, rfl⟩⟩ := editLease_cases found
    · exact ongoing.tops other known lease leased
    · rcases tops old with kept | mapped
      · rw [kept]
        exact ongoing.tops other known old leased
      · exact .inr mapped
  budgets other limit funded := by
    obtain ⟨limited, small, full⟩ := ongoing.budgets other limit funded
    refine ⟨(congrFun (editLease_nsLimit maps nsKey change) other).trans limited, small, fun lease found => ?_⟩
    obtain ⟨old, leased, rfl | ⟨rfl, rfl⟩⟩ := editLease_cases found
    · exact full lease leased
    · exact budgets old limit leased funded (full old leased)

end ongoing

/-- What an exchange tells: it was answered by maps that go on from the start. -/
structure Tells (start : ResourceMaps) (seen : Observed) : Prop where
  ongoing : Ongoing start seen.state
  answered : seen.answer = (seen.state.serve seen.request).1

section told
variable {start : ResourceMaps} {past : List Observed} (told : ∀ seen ∈ past, Tells start seen)
include told

theorem Mapped.fixed {cgid nsKey : UInt64} (mapped : Mapped past cgid nsKey) : start.cgroup cgid = some nsKey := by
  obtain ⟨state, seen⟩ := mapped
  have tells := told _ seen
  rw [← tells.ongoing.cgroup]
  exact tells.answered.symm

theorem Limited.fixed {nsKey limit : UInt64} (limited : Limited past nsKey limit) : start.nsLimit nsKey = some limit := by
  obtain ⟨state, seen⟩ := limited
  have tells := told _ seen
  rw [← tells.ongoing.nsLimit]
  exact tells.answered.symm

theorem Leased.fixed {nsKey : UInt64} (leased : Leased past nsKey) : (start.nsCounter nsKey).isSome := by
  obtain ⟨state, seen⟩ := leased
  have tells := told _ seen
  rw [← tells.ongoing.leases]
  exact tells.answered.symm

/-- A value was read from the lease, at a moment of the program's own run. -/
theorem HasRead.lease {nsKey : UInt64} {field : LeaseField} {value : UInt64} (read : HasRead past nsKey field value)
    (leased : (start.nsCounter nsKey).isSome) : ∃ state lease,
      (⟨state, .readLease nsKey field, lease.get field⟩ : Observed) ∈ past ∧ Ongoing start state ∧
        state.nsCounter nsKey = some lease ∧ lease.get field = value := by
  obtain ⟨state, member⟩ := read
  have tells := told _ member
  rw [← tells.ongoing.leases] at leased
  obtain ⟨lease, found⟩ := Option.isSome_iff_exists.mp leased
  obtain rfl : value = lease.get field := tells.answered.trans (congrArg (·.elim 0 (·.get field)) found)
  exact ⟨state, lease, member, tells.ongoing, found, rfl⟩

end told

/-- No program pays a full budget up further, so it stays as it is. -/
theorem Budgeted.full {start : ResourceMaps} {past : List Observed} (told : ∀ seen ∈ past, Tells start seen)
    {nsKey value limit : UInt64} (budgeted : Budgeted past nsKey value) (funded : FullyFunded nsKey limit start)
    (leased : (start.nsCounter nsKey).isSome) : value = limit := by
  obtain ⟨other, limited, _, paid⟩ := budgeted
  obtain rfl : limit = other := Option.some.inj (funded.1.symm.trans (limited.fixed told))
  rcases paid with rfl | ⟨budget, seen, _, read, fits, rfl⟩
  · rfl
  · obtain ⟨_, lease, _, ongoing, found, rfl⟩ := read.lease told leased
    have full := (ongoing.budgets nsKey limit funded).2.2 lease found
    have small := funded.2.1
    obtain ⟨_, most⟩ := CpuLease.expansion_bounds limit
    simp only [CpuLease.get, full] at fits
    have total : (limit + CpuLease.expansion limit).toNat = limit.toNat + (CpuLease.expansion limit).toNat := by
      rw [UInt64.toNat_add]
      omega
    have := UInt64.le_iff_toNat_le.mp fits
    omega

/-- Every access that a program makes keeps what its grounds are about. -/
theorem Ongoing.serve {start maps : ResourceMaps} (ongoing : Ongoing start maps) {owner : Usage} {past : List Observed}
    (told : ∀ seen ∈ past, Tells start seen) {request : Access} (grounds : Grounds owner past request) :
    Ongoing start (maps.serve request).2 := by
  cases request with
  | updateCgroupCounter cgid value => exact ongoing.counters _
  | addCgroupCounter cgid => exact ongoing.editCounter cgid _
  | subCgroupCounter cgid => exact ongoing.editCounter cgid _
  | addLeaseCount nsKey => exact ongoing.editLease nsKey _ (fun _ => .inl rfl) fun _ _ _ _ full => full
  | subLeaseCount nsKey => exact ongoing.editLease nsKey _ (fun _ => .inl rfl) fun _ _ _ _ full => full
  | writeLease nsKey field value =>
    cases field with
    | count => exact grounds.elim
    | topCgid => exact ongoing.editLease nsKey _ (fun _ => .inr (Mapped.fixed told grounds)) fun _ _ _ _ full => full
    | leaseBudget =>
      refine ongoing.editLease nsKey _ (fun _ => .inl rfl) fun lease limit found funded _ => ?_
      exact Budgeted.full told grounds funded (by rw [← ongoing.leases, found, Option.isSome_some])
    | lastUsedNs => exact ongoing.editLease nsKey _ (fun _ => .inl rfl) fun _ _ _ _ full => full
    | topCount => exact ongoing.editLease nsKey _ (fun _ => .inl rfl) fun _ _ _ _ full => full
  | lookupCgroup _ => exact ongoing
  | lookupCgroupCounter _ => exact ongoing
  | readCgroupCounter _ => exact ongoing
  | lookupNsLimit _ => exact ongoing
  | lookupNsCounter _ => exact ongoing
  | readLease _ _ => exact ongoing
  | submit _ => exact ongoing
  | sendSignal => exact ongoing

/-- Nothing is asked of the scheduler: any programs may start and take turns in any
order, and the per-cgroup counters may become anything. -/
def interleaved (reason : UInt32) (start : ResourceMaps) : Machine.Discipline (fentryPrograms reason) where
  allowed _ _ := True
  served _ _ _ := True
  drifts _ _ := True
  sound := Ongoing start
  rule := ProgramRule
  told _ exchange _ := Tells start exchange
  obeys usage _ _ := (code_obeys reason usage).bind fun _ _ _ => trivial
  serving _ _ _ _ _ ongoing told ruled _ := ⟨ongoing.serve told ruled.2, ⟨ongoing, rfl⟩, fun _ _ tells => tells⟩
  drifting _ counters ongoing _ := ⟨ongoing.counters counters, fun _ _ tells => tells⟩

abbrev ProgramChoice := Choice Usage Unit (BpfMap UInt64) Unit

theorem interleaved_valid {reason : UInt32} {start : ResourceMaps} {system : Programs} (choice : ProgramChoice) :
    (interleaved reason start).Valid system choice := by
  cases choice with
  | start _ _ => trivial
  | turn _ _ => exact fun _ _ _ _ _ => trivial
  | drift _ => trivial

theorem interleaved_kept (reason : UInt32) (start : ResourceMaps) (choices : List ProgramChoice) :
    (interleaved reason start).Kept (Trace.run (fentryPrograms reason).step (Machine.boot start) choices) :=
  .run _ (Ongoing.refl start) (.of_all fun _ choice => interleaved_valid choice)

/-- One cgroup in a namespace with a limit of 1. -/
def singleUnit : ResourceMaps := (ResourceMaps.mapping 1 [7]).enforcing 1 ⟨1, by decide⟩

/-- Two callers, one after the other. -/
def inOrder : List ProgramChoice :=
  [.start (.acquire ⟨7, 0, 0, 0, true⟩) (), .start (.acquire ⟨7, 0, 0, 0, true⟩) ()] ++
    List.replicate 16 (.turn 0 ()) ++ List.replicate 17 (.turn 1 ())

theorem singleUnit_lease {lease : CpuLease} (leased : singleUnit.nsCounter 1 = some lease) : lease = renewedLease none 1 :=
  (Option.some.inj (show some (renewedLease none 1) = some lease from leased)).symm

theorem inOrder_submits : ∃ turn ∈ (Trace.run (fentryPrograms 0).step (Machine.boot singleUnit) inOrder).log,
    ∃ event, turn.exchange.request = .submit event ∧ event.nsKey = 1 := by
  have reported : (Trace.run (fentryPrograms 0).step (Machine.boot singleUnit) inOrder).log.any (fun turn =>
      match turn.exchange.request with
      | .submit event => decide (event.nsKey = 1)
      | _ => false) = true := by decide
  obtain ⟨turn, member, submitted⟩ := List.any_eq_true.mp reported
  split at submitted
  next event request => exact ⟨turn, member, event, request, of_decide_eq_true submitted⟩
  · cases submitted

end QuotaManager.Enforcer
