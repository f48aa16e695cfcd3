import QuotaManager.Proofs.Accounting
import QuotaManager.Logic.Trace

/-! A counter reset reads a whole lease, edits the budget and writes the whole lease
back. Kernel events keep the count equal to what was admitted less what was closed;
the write-back keeps it exactly when nothing moved the count since the read. -/

namespace QuotaManager.Enforcer

namespace ResourceMaps
variable {maps : ResourceMaps} {nsKey limit : UInt64} {lease : CpuLease} (reason : UInt32)

/-- The event is an admission by a task of the namespace. -/
def admits (maps : ResourceMaps) (nsKey : UInt64) : Usage → Bool
  | .acquire task => maps.cgroup task.cgid = some nsKey ∧ (maps.check task reason).1.verdict = .allow
  | .release _ | .idle => false

/-- The event gives back a unit that is still counted. -/
def decrements (maps : ResourceMaps) (nsKey : UInt64) : Usage → Bool
  | .release task => maps.cgroup task.cgid = some nsKey ∧ (maps.nsCounter nsKey).any (·.count ≠ 0)
  | .acquire _ | .idle => false

/-- The accounting law of one kernel event, whatever the budget. -/
theorem Enforced.use (enforced : maps.Enforced nsKey limit lease) (usage : Usage) :
    ∃ after, (maps.use reason usage).Enforced nsKey limit after ∧
      after.count.toNat + (maps.decrements nsKey usage).toNat =
        lease.count.toNat + (maps.admits reason nsKey usage).toNat := by
  have unchanged (same : (maps.use reason usage).nsCounter nsKey = maps.nsCounter nsKey) :
      (maps.use reason usage).Enforced nsKey limit lease :=
    ⟨by simpa using enforced.limited, enforced.positive, same.trans enforced.leased⟩
  cases usage with
  | idle => exact ⟨lease, enforced, rfl⟩
  | acquire task =>
    by_cases mapped : maps.cgroup task.cgid = some nsKey
    · have checked := check_enforced reason mapped enforced
      refine ⟨((maps.noted task lease).charge limit task nsKey reason).2,
        ⟨by simpa using enforced.limited, enforced.positive, ?_⟩, ?_⟩
      · simp only [ResourceMaps.use, checked, BpfMap.update_self]
      · simp only [admits, decrements, mapped, checked, true_and]
        obtain ⟨budget, breached | ⟨below, admitted⟩⟩ :=
          CpuLease.charge_cases task nsKey reason (maps.noted task lease) limit
        · rw [breached]
          simp only [CpuLease.breach]
          split <;> simp
        · rw [admitted]
          have raised := Words.toNat_succ_of_lt below
          simp only [noted_count] at raised
          simp [raised, Outcome.pass]
    · refine ⟨lease, unchanged (check_other reason mapped), ?_⟩
      simp [admits, decrements, mapped]
  | release task =>
    by_cases mapped : maps.cgroup task.cgid = some nsKey
    · have stored := release_mapped mapped
      rw [enforced.leased] at stored
      refine ⟨_, ⟨by simpa using enforced.limited, enforced.positive, stored⟩, ?_⟩
      simp only [admits, decrements, mapped, enforced.leased, released, true_and]
      split
      next zero => simp [zero]
      next nonzero =>
        have positive : lease.count.toNat ≠ 0 := fun zero => nonzero (UInt64.toNat_inj.mp zero)
        simp only [Words.toNat_sub_one nonzero]
        simp [nonzero]
        omega
    · refine ⟨lease, unchanged (release_unmapped mapped), ?_⟩
      simp [admits, decrements, mapped]

end ResourceMaps

/-- A loaded object, the record that each running reset has looked up and not yet
written back, and the tallies of the kernel events so far. -/
structure Resetting where
  bpf : Bpf
  existing : Nat → Option CpuLease
  admitted : Nat
  decremented : Nat

/-- The two map operations of a reset are steps of their own; resets are numbered. -/
inductive ResetStep where
  | kernel (event : KernelEvent)
  | lookup (reset : Nat)
  | update (reset : Nat) (limit : Int64)

namespace Resetting

def begin (bpf : Bpf) : Resetting := ⟨bpf, fun _ => none, 0, 0⟩

variable (resource : Resource) (nsKey : UInt64)

def step (state : Resetting) : ResetStep → Resetting
  | .kernel event =>
    let maps := state.bpf.maps resource
    { state with
      bpf := state.bpf.after event
      admitted := state.admitted + (maps.admits resource.reason nsKey (event.usage resource)).toNat
      decremented := state.decremented + (maps.decrements nsKey (event.usage resource)).toNat }
  | .lookup reset =>
    { state with existing := Function.update state.existing reset ((state.bpf.maps resource).nsCounter nsKey) }
  | .update reset limit =>
    match state.existing reset with
    | none => state
    | some existing =>
      { state with
        bpf := state.bpf.withMaps resource
          ((state.bpf.maps resource).updateNsCounter nsKey (renewedLease (some existing) limit))
        existing := Function.update state.existing reset none }

/-- The count is what was there, plus what was admitted, less what was decremented. -/
def Balanced (start : CpuLease) (state : Resetting) : Prop :=
  ∃ lease, (state.bpf.maps resource).nsCounter nsKey = some lease ∧
    lease.count.toNat + state.decremented = start.count.toNat + state.admitted

/-- The write-back changes the budget and nothing else. -/
def OnlyBudget (state : Resetting) (event : ResetStep) : Prop :=
  ∀ reset limit existing lease, event = .update reset limit → state.existing reset = some existing →
    (state.bpf.maps resource).nsCounter nsKey = some lease →
    ((state.step resource nsKey event).bpf.maps resource).nsCounter nsKey =
      some { lease with leaseBudget := microSlice limit }

/-- A write-back finds the count that its lookup read. -/
def SameCount (state : Resetting) (event : ResetStep) : Prop :=
  ∀ reset limit existing lease, event = .update reset limit → state.existing reset = some existing →
    (state.bpf.maps resource).nsCounter nsKey = some lease → existing.count = lease.count

/-- A write-back finds the record that its lookup read, up to the budget. -/
def SameRecord (state : Resetting) (event : ResetStep) : Prop :=
  ∀ reset limit existing lease, event = .update reset limit → state.existing reset = some existing →
    (state.bpf.maps resource).nsCounter nsKey = some lease →
    { existing with leaseBudget := lease.leaseBudget } = lease

variable {resource nsKey} {limit : UInt64} {state : Resetting}

variable (resource nsKey) in
theorem update_leased {reset : Nat} {existing : CpuLease} (looked : state.existing reset = some existing)
    (limit : Int64) : ((state.step resource nsKey (.update reset limit)).bpf.maps resource).nsCounter nsKey =
      some { existing with leaseBudget := microSlice limit } := by
  simp only [step, looked, Bpf.withMaps_maps]
  exact BpfMap.update_self _ _ _

theorem step_enforced (enforced : ∃ lease, (state.bpf.maps resource).Enforced nsKey limit lease) (event : ResetStep) :
    ∃ lease, ((state.step resource nsKey event).bpf.maps resource).Enforced nsKey limit lease := by
  obtain ⟨lease, enforced⟩ := enforced
  cases event with
  | kernel event =>
    obtain ⟨after, later, _⟩ := enforced.use resource.reason (event.usage resource)
    exact ⟨after, by simpa only [step, Bpf.after_maps] using later⟩
  | lookup reset => exact ⟨lease, enforced⟩
  | update reset limit =>
    cases looked : state.existing reset with
    | none => exact ⟨lease, by simpa only [step, looked] using enforced⟩
    | some existing =>
      refine ⟨_, ?_, enforced.positive, update_leased resource nsKey looked limit⟩
      simp only [step, looked, Bpf.withMaps_maps]
      exact enforced.limited

/-- Only a write-back can break the balance, and it does unless it finds the count it read. -/
theorem step_balanced {start : CpuLease} (enforced : ∃ lease, (state.bpf.maps resource).Enforced nsKey limit lease)
    (balanced : state.Balanced resource nsKey start) (event : ResetStep) :
    (state.step resource nsKey event).Balanced resource nsKey start ↔ state.SameCount resource nsKey event := by
  obtain ⟨lease, enforced⟩ := enforced
  obtain ⟨found, leased, balance⟩ := balanced
  obtain rfl : found = lease := Option.some.inj (leased.symm.trans enforced.leased)
  cases event with
  | kernel event =>
    refine iff_of_true ?_ (fun _ _ _ _ impossible => nomatch impossible)
    obtain ⟨after, later, law⟩ := enforced.use resource.reason (event.usage resource)
    refine ⟨after, by simpa only [step, Bpf.after_maps] using later.leased, ?_⟩
    simp only [step]
    omega
  | lookup reset => exact iff_of_true ⟨found, leased, balance⟩ (fun _ _ _ _ impossible => nomatch impossible)
  | update reset limit =>
    cases looked : state.existing reset with
    | none =>
      refine iff_of_true ⟨found, by simpa only [step, looked] using leased, by simpa only [step, looked] using balance⟩ ?_
      rintro _ _ existing _ ⟨⟩ present
      exact absurd present (by simp [looked])
    | some existing =>
      have written := update_leased resource nsKey looked limit
      have tallies : (state.step resource nsKey (.update reset limit)).admitted = state.admitted ∧
          (state.step resource nsKey (.update reset limit)).decremented = state.decremented := by
        simp only [step, looked, and_self]
      constructor
      · rintro ⟨after, stored, later⟩ _ _ other other' ⟨⟩ present held
        obtain rfl : existing = other := Option.some.inj (looked.symm.trans present)
        obtain rfl : found = other' := Option.some.inj (leased.symm.trans held)
        rw [written] at stored
        cases stored
        rw [tallies.1, tallies.2] at later
        exact UInt64.toNat_inj.mp (by simp only at later; omega)
      · intro same
        refine ⟨_, written, ?_⟩
        rw [tallies.1, tallies.2]
        simpa only [same reset limit existing found rfl looked leased] using balance

theorem step_budget (event : ResetStep) :
    state.OnlyBudget resource nsKey event ↔ state.SameRecord resource nsKey event := by
  constructor
  · rintro only reset limit existing lease rfl looked leased
    have written := only reset limit existing lease rfl looked leased
    rw [update_leased resource nsKey looked] at written
    cases existing
    cases lease
    simp only [Option.some.injEq, CpuLease.mk.injEq] at written ⊢
    simpa using written
  · rintro same reset limit existing lease rfl looked leased
    rw [update_leased resource nsKey looked, ← same reset limit existing lease rfl looked leased]

end Resetting

/-- No usage update is lost exactly when every write-back finds the count that its
lookup read; it changes only the budget exactly when it finds the whole record. -/
theorem balanced_iff_same_count (resource : Resource) (nsKey limit : UInt64) (lease : CpuLease) (bpf : Bpf)
    (enforced : (bpf.maps resource).Enforced nsKey limit lease) (events : List ResetStep) :
    (Trace.Throughout (Resetting.step resource nsKey) (Resetting.Balanced resource nsKey lease) (.begin bpf) events ↔
      Trace.Along (Resetting.step resource nsKey) (Resetting.SameCount resource nsKey) (.begin bpf) events) ∧
    (Trace.Along (Resetting.step resource nsKey) (Resetting.OnlyBudget resource nsKey) (.begin bpf) events ↔
      Trace.Along (Resetting.step resource nsKey) (Resetting.SameRecord resource nsKey) (.begin bpf) events) := by
  constructor
  · refine Trace.Throughout.iff_along
      (fun state => ∃ lease, (state.bpf.maps resource).Enforced nsKey limit lease)
      (Trace.Along.of_all fun _ _ => trivial) ⟨lease, enforced⟩ ⟨lease, enforced.leased, rfl⟩ ?_ ?_
    · exact fun _ event held _ => Resetting.step_enforced held event
    · exact fun _ event held _ balanced => Resetting.step_balanced held balanced event
  · exact ⟨fun only => only.mono fun _ event => (Resetting.step_budget event).mp,
      fun same => same.mono fun _ event => (Resetting.step_budget event).mpr⟩

/-- An install between two undisturbed resets. -/
theorem balanced_iff_same_count_undisturbed :
    Trace.Throughout (Resetting.step .fd 1) (Resetting.Balanced .fd 1 ⟨0, 10, 0, 0, 0⟩)
      (.begin ⟨(ResourceMaps.mapping 1 [7]).resync 1 ⟨10, by decide⟩, .empty⟩)
      [.lookup 0, .update 0 10, .kernel (.fdInstall ⟨7, 0, 0, 0, true⟩), .lookup 0, .update 0 10] := by
  refine (balanced_iff_same_count .fd 1 10 _ _ ⟨by decide, by decide, by decide⟩ _).1.mpr
    ⟨?_, ?_, ?_, ?_, ?_, trivial⟩ <;> rintro reset limit existing lease ⟨⟩ looked leased
  all_goals
    obtain rfl := Option.some.inj looked
    obtain rfl := Option.some.inj leased
    rfl

/-- An install between the lookup and the write-back of a reset is forgotten. -/
theorem install_forgotten :
    ¬ Resetting.Balanced .fd 1 ⟨0, 10, 0, 0, 0⟩
      (Trace.run (Resetting.step .fd 1) (.begin ⟨(ResourceMaps.mapping 1 [7]).resync 1 ⟨10, by decide⟩, .empty⟩)
        [.lookup 0, .kernel (.fdInstall ⟨7, 0, 0, 0, true⟩), .update 0 10]) := by
  rintro ⟨lease, leased, balance⟩
  obtain rfl := Option.some.inj leased
  exact absurd balance (by decide)

end QuotaManager.Enforcer
