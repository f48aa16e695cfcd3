import QuotaManager.Logic.Record
import QuotaManager.Proofs.LiveProcesses
import QuotaManager.Proofs.OpenDescriptors

/-! How far the counters are off. What is open and what is counted drift apart by the
descriptors closed while their file was shared, which are never counted back, by the calls
that were refused and went through, and by the releases that met a counter of zero; by
nothing else. -/

namespace QuotaManager.Enforcer

/-- The reading of a counter, zero without a lease. -/
def ResourceMaps.reading (maps : ResourceMaps) (nsKey : UInt64) : Nat :=
  match maps.nsCounter nsKey with
  | none => 0
  | some lease => lease.count.toNat

theorem Sound.reading {maps : ResourceMaps} {nsKey limit : UInt64} {lease : CpuLease} (sound : Sound maps nsKey limit lease) :
    maps.reading nsKey = lease.count.toNat := by
  rw [ResourceMaps.reading, sound.leased]

/-- The call is refused: it is not counted, although it is not stopped either. -/
def ResourceMaps.refuses (maps : ResourceMaps) (reason : UInt32) (task : Task) : Prop := (maps.check task reason).1.verdict ≠ .allow

instance (maps : ResourceMaps) (reason : UInt32) (task : Task) : Decidable (maps.refuses reason task) :=
  inferInstanceAs (Decidable (_ ≠ _))

namespace Sound
variable {maps : ResourceMaps} {nsKey limit : UInt64} {lease : CpuLease}

theorem refuses_iff (sound : Sound maps nsKey limit lease) (reason : UInt32) {task : Task}
    (mapped : maps.cgroup task.cgid = some nsKey) : maps.refuses reason task ↔ limit.toNat ≤ lease.count.toNat := by
  unfold ResourceMaps.refuses
  rw [← UInt64.le_iff_toNat_le]
  by_cases room : lease.count < limit
  · obtain ⟨_, counted, _⟩ := sound.counted reason mapped room
    rw [counted]
    exact iff_of_false (fun refused => refused rfl) (UInt64.not_le.mpr room)
  · rw [sound.refused reason mapped room]
    refine iff_of_true ?_ (UInt64.not_lt.mp room)
    simp only [CpuLease.breach]
    split <;> decide

/-- A call of the namespace is counted unless it is refused. -/
theorem acquire_reading (sound : Sound maps nsKey limit lease) (reason : UInt32) {task : Task}
    (mapped : maps.cgroup task.cgid = some nsKey) :
    (maps.use reason (.acquire task)).reading nsKey =
      if maps.refuses reason task then maps.reading nsKey else maps.reading nsKey + 1 := by
  obtain ⟨after, later, moved⟩ := sound.use reason (.acquire task)
  rw [later.reading, sound.reading, moved]
  simp only [Usage.move, mapped, ↓reduceIte, Gauge.step, sound.refuses_iff reason mapped]
  split <;> split <;> omega

theorem release_reading (sound : Sound maps nsKey limit lease) (reason : UInt32) {task : Task}
    (mapped : maps.cgroup task.cgid = some nsKey) : (maps.use reason (.release task)).reading nsKey = maps.reading nsKey - 1 := by
  obtain ⟨after, later, moved⟩ := sound.use reason (.release task)
  rw [later.reading, sound.reading, moved]
  simp only [Usage.move, mapped, ↓reduceIte, Gauge.step]

end Sound

namespace Descriptors

/-- Tasks are in the namespace, and only what is open is closed. -/
def Member (nsKey : UInt64) (state : Descriptors) (event : FileEvent) : Prop :=
  state.bpf.fd.cgroup event.task.cgid = some nsKey ∧ ∀ task file, event = .close task file → file ∈ state.files

/-- An install that is refused, by its file. -/
def uncounted (state : Descriptors) : FileEvent → List Nat
  | .openFile task file | .duplicate task file => if state.bpf.fd.refuses Resource.fd.reason task then [file] else []
  | .close _ _ => []

/-- A close that is not counted back: the file is shared, or the counter is at zero. -/
def unreturned (nsKey : UInt64) (state : Descriptors) : FileEvent → List Nat
  | .openFile _ _ | .duplicate _ _ => []
  | .close _ file => if state.files.count file > 1 ∨ state.bpf.fd.reading nsKey = 0 then [file] else []

/-- What the accounting of an event rests on. -/
structure Accountable (nsKey : UInt64) (limit : PositiveLimit) (state : Descriptors) (event : FileEvent) : Prop where
  member : state.Member nsKey event
  few : state.files.length < 2 ^ 63
  sound : ∃ lease, Sound state.bpf.fd nsKey limit.stored lease

variable {nsKey : UInt64} {limit : PositiveLimit}

theorem Accountable.balanced {state : Descriptors} {event : FileEvent} (accountable : state.Accountable nsKey limit event) :
    (state.step event).bpf.fd.reading nsKey + (state.uncounted event).length + state.files.length =
      state.bpf.fd.reading nsKey + (state.unreturned nsKey event).length + (state.step event).files.length := by
  obtain ⟨⟨mapped, opened⟩, few, lease, sound⟩ := accountable
  have installed (task : Task) (file : Nat) (mapped : state.bpf.fd.cgroup task.cgid = some nsKey) :
      (state.bpf.fd.use Resource.fd.reason (.acquire task)).reading nsKey +
          (if state.bpf.fd.refuses Resource.fd.reason task then [file] else []).length + state.files.length =
        state.bpf.fd.reading nsKey + 0 + (state.files.length + 1) := by
    rw [sound.acquire_reading _ mapped]
    split <;> simp only [List.length_singleton, List.length_nil] <;> omega
  rw [step_fd]
  cases event with
  | openFile task file => exact installed task file mapped
  | duplicate task file => exact installed task file mapped
  | close task file =>
    have here : state.bpf.fd.cgroup task.cgid = some nsKey := mapped
    have inside := opened task file rfl
    have nonempty := List.length_pos_of_mem inside
    have fewer : ((state.step (.close task file)).files).length = state.files.length - 1 := List.length_erase_of_mem inside
    have shared : Int64.ofNat (state.files.count file) > 1 ↔ state.files.count file > 1 := by
      have within : state.files.count file ≤ state.files.length := List.count_le_length
      rw [gt_iff_lt, Int64.lt_iff_toInt_lt, Int64.toInt_ofNat_of_lt (by omega)]
      simp only [Int64.reduceToInt]
      omega
    rw [fewer]
    simp only [FileEvent.call, KernelEvent.usage, shared, uncounted, unreturned, List.length_nil]
    by_cases several : state.files.count file > 1
    · simp only [several, true_or, ↓reduceIte, ResourceMaps.use, List.length_singleton]
      omega
    · simp only [several, false_or, ↓reduceIte]
      rw [sound.release_reading Resource.fd.reason here]
      split <;> simp only [List.length_singleton, List.length_nil] <;> omega

theorem sound_step {state : Descriptors} (sound : ∃ lease, Sound state.bpf.fd nsKey limit.stored lease) (event : FileEvent) :
    ∃ lease, Sound (state.step event).bpf.fd nsKey limit.stored lease := by
  obtain ⟨lease, sound⟩ := sound
  obtain ⟨after, later, -⟩ := sound.use Resource.fd.reason ((event.call state.files).usage .fd)
  exact ⟨after, by rw [step_fd]; exact later⟩

theorem accountable {bpf : Bpf} {events : List FileEvent}
    (members : Trace.Along step (Member nsKey) (.begin bpf nsKey limit) events) (few : events.length < 2 ^ 63) :
    Trace.Along step (Accountable nsKey limit) (.begin bpf nsKey limit) events := by
  have slow (state : Descriptors) (event : FileEvent) : (state.step event).files.length ≤ state.files.length + 1 := by
    cases event with
    | openFile | duplicate => exact Nat.le_refl _
    | close => exact Nat.le_trans List.length_erase_le (Nat.le_succ _)
  have short : Trace.Along step (fun state _ => state.files.length < 2 ^ 63) (.begin bpf nsKey limit) events :=
    Trace.along_growth (fun state : Descriptors => state.files.length) slow (by
      change 0 + events.length < 2 ^ 63
      omega)
  refine (members.and short).transfer (fun state => ∃ lease, Sound state.bpf.fd nsKey limit.stored lease)
    ⟨_, Sound.enforcing bpf.fd nsKey limit⟩ (fun _ event sound _ => sound_step sound event) ?_
  rintro state event sound ⟨member, few⟩
  exact ⟨member, few, sound⟩

end Descriptors

/-- The descriptors that a namespace has open are those that are counted and those whose
installs were refused, less the closes that were not counted back. Such closes use up the
limit: when they exceed it, calls have been refused. -/
theorem descriptors_conserved (bpf : Bpf) (nsKey : UInt64) (limit : PositiveLimit) {events : List FileEvent}
    (members : Trace.Along Descriptors.step (Descriptors.Member nsKey) (.begin bpf nsKey limit) events)
    (few : events.length < 2 ^ 63) :
    let last := Trace.run Descriptors.step (.begin bpf nsKey limit) events
    let uncounted := Trace.log Descriptors.step Descriptors.uncounted (.begin bpf nsKey limit) events
    let unreturned := Trace.log Descriptors.step (Descriptors.unreturned nsKey) (.begin bpf nsKey limit) events
    last.bpf.fd.reading nsKey + uncounted.length = last.files.length + unreturned.length ∧
      last.files.length + unreturned.length ≤ limit.stored.toNat + uncounted.length := by
  intro last uncounted unreturned
  have accountable := Descriptors.accountable members few
  have balance := Trace.log_balance (fun state : Descriptors => state.bpf.fd.reading nsKey) (fun state => state.files.length)
    accountable fun _ _ accountable => accountable.balanced
  have fresh : (Descriptors.begin bpf nsKey limit).bpf.fd.reading nsKey = 0 :=
    (Sound.enforcing bpf.fd nsKey limit).reading
  have bounded : last.bpf.fd.reading nsKey ≤ limit.stored.toNat := by
    obtain ⟨lease, sound⟩ := accountable.invariant (fun state => ∃ lease, Sound state.bpf.fd nsKey limit.stored lease)
      ⟨_, Sound.enforcing bpf.fd nsKey limit⟩ fun _ event sound _ => Descriptors.sound_step sound event
    rw [sound.reading]
    exact UInt64.le_iff_toNat_le.mp sound.bounded
  have unopened : (Descriptors.begin bpf nsKey limit).files.length = 0 := rfl
  have conserved : last.bpf.fd.reading nsKey + uncounted.length = last.files.length + unreturned.length := by
    change last.bpf.fd.reading nsKey + uncounted.length + _ = _ + unreturned.length + last.files.length at balance
    omega
  exact ⟨conserved, by omega⟩

/-- One file under a limit of 2. It is duplicated and closed again until a duplicate is
refused, although no more than two descriptors are ever open. -/
theorem descriptors_conserved_duplicates :
    let task : Task := ⟨7, 0, 0, 0, true⟩
    let start := Descriptors.begin ⟨.mapping 1 [7], .empty⟩ 1 ⟨2, by decide⟩
    let events := [FileEvent.openFile task 0, .duplicate task 0, .close task 0, .duplicate task 0]
    let last := Trace.run Descriptors.step start events
    let uncounted := Trace.log Descriptors.step Descriptors.uncounted start events
    let unreturned := Trace.log Descriptors.step (Descriptors.unreturned 1) start events
    uncounted.length = 1 ∧ unreturned.length = 1 ∧
      last.bpf.fd.reading 1 + uncounted.length = last.files.length + unreturned.length ∧
      last.files.length + unreturned.length ≤ (2 : Int64).toUInt64.toNat + uncounted.length := by
  intro task start events last uncounted unreturned
  refine ⟨by decide +kernel, by decide +kernel, descriptors_conserved ⟨.mapping 1 [7], .empty⟩ 1 ⟨2, by decide⟩ ?_ (by decide)⟩
  refine ⟨⟨rfl, nofun⟩, ⟨rfl, nofun⟩, ⟨rfl, ?_⟩, ⟨rfl, nofun⟩, trivial⟩
  rintro task file ⟨⟩
  exact List.mem_cons_self

namespace Processes

/-- A clone that is reported: its process is created and not counted. -/
def uncounted (state : Processes) : KernelEvent → List UInt64
  | .kernelClone task => if (overProcLimit state.bpf task).1.verdict = .report then [task.cgid] else []
  | _ => []

/-- An exit that meets a counter of zero. -/
def unreturned (nsKey : UInt64) (state : Processes) : KernelEvent → List UInt64
  | .doExit task => if state.bpf.proc.reading nsKey = 0 then [task.cgid] else []
  | _ => []

/-- The namespace is enforced, and what lives in it is mapped. -/
structure Enforced (nsKey : UInt64) (limit : PositiveLimit) (state : Processes) : Prop where
  sound : ∃ lease, Sound state.bpf.proc nsKey limit.stored lease
  mapped : ∀ cgid ∈ state.live, state.bpf.proc.cgroup cgid = some nsKey

variable {nsKey : UInt64} {limit : PositiveLimit} {state : Processes} {event : KernelEvent}

theorem Enforced.step (enforced : Enforced nsKey limit state) (valid : state.Valid nsKey event) :
    Enforced nsKey limit (state.step event) := by
  obtain ⟨⟨lease, sound⟩, mapped⟩ := enforced
  obtain ⟨after, later, -⟩ := sound.use Resource.proc.reason (event.usage .proc)
  refine ⟨⟨after, by rw [step_proc]; exact later⟩, fun cgid alive => ?_⟩
  rw [step_proc, ResourceMaps.use_cgroup]
  cases event with
  | fdInstall | filpClose => exact mapped cgid alive
  | doExit task => exact mapped cgid (List.mem_of_mem_erase alive)
  | kernelClone task =>
    simp only [Processes.step] at alive
    split at alive
    · exact mapped cgid alive
    · rcases List.mem_cons.mp alive with rfl | before
      · exact valid
      · exact mapped cgid before

theorem Enforced.balanced (enforced : Enforced nsKey limit state) (valid : state.Valid nsKey event) :
    (state.step event).bpf.proc.reading nsKey + (state.uncounted event).length + state.live.length =
      state.bpf.proc.reading nsKey + (state.unreturned nsKey event).length + (state.step event).live.length := by
  obtain ⟨⟨lease, sound⟩, mapped⟩ := enforced
  rw [step_proc]
  cases event with
  | fdInstall task => rfl
  | filpClose task file =>
    cases file <;> rfl
  | doExit task =>
    have alive : task.cgid ∈ state.live := valid
    have nonempty := List.length_pos_of_mem alive
    have fewer : ((state.step (.doExit task)).live).length = state.live.length - 1 := List.length_erase_of_mem alive
    rw [fewer]
    simp only [KernelEvent.usage, uncounted, unreturned, List.length_nil]
    rw [sound.release_reading Resource.proc.reason (mapped _ alive)]
    split <;> simp only [List.length_singleton, List.length_nil] <;> omega
  | kernelClone task =>
    have inside : state.bpf.proc.cgroup task.cgid = some nsKey := valid
    simp only [KernelEvent.usage, uncounted, unreturned, List.length_nil, Processes.step]
    rw [sound.acquire_reading Resource.proc.reason inside]
    change (if (overProcLimit state.bpf task).1.verdict ≠ .allow then _ else _) + _ + _ = _
    cases (overProcLimit state.bpf task).1.verdict <;>
      simp only [ne_eq, not_true_eq_false, not_false_eq_true, reduceCtorEq, ↓reduceIte, List.length_nil, List.length_cons] <;>
        omega

end Processes

/-- The processes that live in a namespace are those that are counted and those whose
clones were only reported, less the exits that met a counter of zero. So a limit is
exceeded by reported clones only. -/
theorem processes_conserved (bpf : Bpf) (nsKey : UInt64) (limit : PositiveLimit) {events : List KernelEvent}
    (valid : Trace.Along Processes.step (Processes.Valid nsKey) (.begin bpf nsKey limit) events) :
    let last := Trace.run Processes.step (.begin bpf nsKey limit) events
    let uncounted := Trace.log Processes.step Processes.uncounted (.begin bpf nsKey limit) events
    let unreturned := Trace.log Processes.step (Processes.unreturned nsKey) (.begin bpf nsKey limit) events
    last.bpf.proc.reading nsKey + uncounted.length = last.live.length + unreturned.length ∧
      last.live.length + unreturned.length ≤ limit.stored.toNat + uncounted.length := by
  intro last uncounted unreturned
  have enforced : Processes.Enforced nsKey limit (.begin bpf nsKey limit) :=
    ⟨⟨_, Sound.enforcing bpf.proc nsKey limit⟩, fun _ alive => absurd alive List.not_mem_nil⟩
  have accountable : Trace.Along Processes.step (fun state event => Processes.Enforced nsKey limit state ∧ state.Valid nsKey event)
      (.begin bpf nsKey limit) events :=
    valid.transfer (Processes.Enforced nsKey limit) enforced (fun _ _ enforced valid => enforced.step valid)
      fun _ _ enforced valid => ⟨enforced, valid⟩
  have balance := Trace.log_balance (fun state : Processes => state.bpf.proc.reading nsKey) (fun state => state.live.length)
    accountable fun _ _ accountable => accountable.1.balanced accountable.2
  have fresh : (Processes.begin bpf nsKey limit).bpf.proc.reading nsKey = 0 := (Sound.enforcing bpf.proc nsKey limit).reading
  have bounded : last.bpf.proc.reading nsKey ≤ limit.stored.toNat := by
    obtain ⟨lease, sound⟩ := (valid.invariant (Processes.Enforced nsKey limit) enforced fun _ _ enforced valid => enforced.step valid).sound
    rw [sound.reading]
    exact UInt64.le_iff_toNat_le.mp sound.bounded
  have nobody : (Processes.begin bpf nsKey limit).live.length = 0 := rfl
  have conserved : last.bpf.proc.reading nsKey + uncounted.length = last.live.length + unreturned.length := by
    change last.bpf.proc.reading nsKey + uncounted.length + _ = _ + unreturned.length + last.live.length at balance
    omega
  exact ⟨conserved, by omega⟩

/-- Cgroup 8 is only reported while 7 is the top consumer; its process lives and is not counted. -/
theorem processes_conserved_reported :
    let clone (cgid : UInt64) : KernelEvent := .kernelClone ⟨cgid, 0, 0, 0, true⟩
    let start := Processes.begin ⟨.empty, .mapping 1 [7, 8]⟩ 1 ⟨2, by decide⟩
    let events := [clone 7, clone 7, clone 8, .doExit ⟨8, 0, 0, 0, true⟩]
    let last := Trace.run Processes.step start events
    let uncounted := Trace.log Processes.step Processes.uncounted start events
    let unreturned := Trace.log Processes.step (Processes.unreturned 1) start events
    uncounted.length = 1 ∧ last.live.length = 2 ∧ last.bpf.proc.reading 1 + uncounted.length = last.live.length + unreturned.length ∧
      last.live.length + unreturned.length ≤ (2 : Int64).toUInt64.toNat + uncounted.length := by
  intro clone start events last uncounted unreturned
  refine ⟨by decide +kernel, by decide +kernel, processes_conserved ⟨.empty, .mapping 1 [7, 8]⟩ 1 ⟨2, by decide⟩ ?_⟩
  refine ⟨rfl, rfl, rfl, ?_, trivial⟩
  change (8 : UInt64) ∈ _
  decide +kernel

end QuotaManager.Enforcer
