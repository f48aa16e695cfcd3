import QuotaManager.FentryPrograms

/-! What each access of a fentry program relies on. A program counts its caller only
after it has read a count below the limit, gives back only for a caller of the
namespace, and names only the caller as top consumer. -/

namespace QuotaManager.Enforcer

abbrev Observed := Exchange ResourceMaps Access Access.Reply

/-- The program has got this answer. -/
def Replied (past : List Observed) (request : Access) (answer : request.Reply) : Prop :=
  ∃ state, (⟨state, request, answer⟩ : Observed) ∈ past

abbrev Mapped (past : List Observed) (cgid nsKey : UInt64) : Prop := Replied past (.lookupCgroup cgid) (some nsKey)

abbrev Limited (past : List Observed) (nsKey limit : UInt64) : Prop := Replied past (.lookupNsLimit nsKey) (some limit)

abbrev Leased (past : List Observed) (nsKey : UInt64) : Prop := Replied past (.lookupNsCounter nsKey) true

abbrev HasRead (past : List Observed) (nsKey : UInt64) (field : LeaseField) (value : UInt64) : Prop :=
  Replied past (.readLease nsKey field) value

/-- An access that leaves the counts of all leases alone. -/
def Access.Quiet (access : Access) : Prop := ∀ nsKey, access ≠ .addLeaseCount nsKey ∧ access ≠ .subLeaseCount nsKey

/-- The program has neither counted anybody nor given back. -/
def Untouched (past : List Observed) : Prop := ∀ seen ∈ past, seen.request.Quiet

def Uncounted (past : List Observed) : Prop := ∀ seen ∈ past, ∀ nsKey, seen.request ≠ .addLeaseCount nsKey

/-- A breach is reported after a count at the limit or at the budget. -/
def Refused (past : List Observed) (nsKey : UInt64) : Prop :=
  ∃ limit count, Limited past nsKey limit ∧ HasRead past nsKey .count count ∧
    (limit ≤ count ∨ ∃ budget, HasRead past nsKey .leaseBudget budget ∧ budget ≤ count)

/-- A budget becomes the limit, or grows by a step that was seen to stay below it. The
budget that grows is read again after that look. -/
def Budgeted (past : List Observed) (nsKey value : UInt64) : Prop :=
  ∃ limit, Limited past nsKey limit ∧ limit ≠ 0 ∧
    (value = limit ∨ ∃ budget seen, HasRead past nsKey .leaseBudget budget ∧ HasRead past nsKey .leaseBudget seen ∧
      seen + CpuLease.expansion limit ≤ limit ∧ value = budget + CpuLease.expansion limit)

def Grounds (owner : Usage) (past : List Observed) : Access → Prop
  | .addLeaseCount nsKey => Untouched past ∧ ∃ task limit count, owner = .acquire task ∧ Mapped past task.cgid nsKey ∧
      Limited past nsKey limit ∧ HasRead past nsKey .count count ∧ count < limit
  | .subLeaseCount nsKey => Untouched past ∧ ∃ task count, owner = .release task ∧ Mapped past task.cgid nsKey ∧
      HasRead past nsKey .count count ∧ count ≠ 0
  | .writeLease nsKey .leaseBudget value => Budgeted past nsKey value
  | .writeLease nsKey .topCgid value => Mapped past value nsKey
  | .writeLease _ .count _ => False
  | .submit event => ∃ task, owner = .acquire task ∧ event.cgid = task.cgid ∧ Mapped past task.cgid event.nsKey ∧
      Leased past event.nsKey ∧ HasRead past event.nsKey .topCgid event.topCgid ∧ Refused past event.nsKey
  | .sendSignal => ∃ task nsKey, owner = .acquire task ∧ Mapped past task.cgid nsKey ∧ Leased past nsKey ∧
      HasRead past nsKey .topCgid task.cgid ∧ Refused past nsKey
  | _ => True

/-- Nobody asks for anything after having counted. -/
def ProgramRule (owner : Usage) (past : List Observed) (request : Access) : Prop :=
  Uncounted past ∧ Grounds owner past request

theorem Untouched.uncounted {past : List Observed} (untouched : Untouched past) : Uncounted past :=
  fun seen member nsKey => (untouched seen member nsKey).1

theorem Replied.grown {past later : List Observed} {request : Access} {answer : request.Reply}
    (replied : Replied past request answer) (suffix : past <:+ later) : Replied later request answer := by
  obtain ⟨state, seen⟩ := replied
  exact ⟨state, suffix.subset seen⟩

theorem Refused.grown {past later : List Observed} {nsKey : UInt64} (refused : Refused past nsKey) (suffix : past <:+ later) :
    Refused later nsKey := by
  obtain ⟨limit, count, limited, counted, refusal⟩ := refused
  refine ⟨limit, count, limited.grown suffix, counted.grown suffix, ?_⟩
  rcases refusal with full | ⟨budget, funded, spent⟩
  · exact .inl full
  · exact .inr ⟨budget, funded.grown suffix, spent⟩

/-- A part of a program that has changed no count. -/
structure Onward (past later : List Observed) : Prop where
  grown : past <:+ later
  untouched : Untouched later

theorem Onward.trans {first second third : List Observed} (one : Onward first second) (two : Onward second third) :
    Onward first third :=
  ⟨one.grown.trans two.grown, two.untouched⟩

section obeys
variable {α : Type} {owner : Usage} {past : List Observed} {task : Task} {nsKey limit : UInt64} {reason : UInt32}

/-- A quiet access on the way; what follows starts from counts that nobody has changed. -/
theorem quiet_obeys {request : Access} {next : request.Reply → Code α} {goal : α → List Observed → Prop}
    (untouched : Untouched past) (grounds : Grounds owner past request)
    (onward : ∀ answer later, Onward past later → Replied later request answer →
      (next answer).Obeys (ProgramRule owner) goal later)
    (quiet : request.Quiet := by intro nsKey; exact ⟨nofun, nofun⟩) :
    (Program.ask request next).Obeys (ProgramRule owner) goal past := by
  refine ⟨⟨untouched.uncounted, grounds⟩, fun state answer => onward answer _ ⟨⟨[_], rfl⟩, ?_⟩ ⟨state, List.mem_cons_self⟩⟩
  intro seen member
  rcases List.mem_cons.mp member with rfl | old
  · exact quiet
  · exact untouched seen old

/-- A quiet access for which nothing has to be shown. -/
theorem free_obeys {request : Access} {next : request.Reply → Code α} {goal : α → List Observed → Prop}
    (untouched : Untouched past) (onward : ∀ answer later, Onward past later → Replied later request answer →
      (next answer).Obeys (ProgramRule owner) goal later)
    (quiet : request.Quiet := by intro nsKey; exact ⟨nofun, nofun⟩) (grounds : Grounds owner past request := by trivial) :
    (Program.ask request next).Obeys (ProgramRule owner) goal past :=
  quiet_obeys untouched grounds onward quiet

theorem recordCgroupInc_obeys (untouched : Untouched past) (cgid : UInt64) :
    (recordCgroupInc cgid).Obeys (ProgramRule owner) (fun _ later => Onward past later) past := by
  apply free_obeys untouched
  intro counted later looked _
  cases counted with
  | false => exact free_obeys looked.untouched fun _ _ changed _ => looked.trans changed
  | true => exact free_obeys looked.untouched fun _ _ changed _ => looked.trans changed

theorem recordCgroupDec_obeys (untouched : Untouched past) (cgid : UInt64) :
    (recordCgroupDec cgid).Obeys (ProgramRule owner) (fun _ later => Onward past later) past := by
  apply free_obeys untouched
  intro counted later looked _
  cases counted with
  | false => exact looked
  | true =>
    apply free_obeys looked.untouched
    intro count later read _
    simp only [Program.done_bind]
    split
    · exact free_obeys read.untouched fun _ _ changed _ => (looked.trans read).trans changed
    · exact looked.trans read

theorem noteTop_obeys (untouched : Untouched past) {cgid : UInt64} (mapped : Mapped past cgid nsKey) :
    (noteTop nsKey cgid).Obeys (ProgramRule owner) (fun _ later => Onward past later) past := by
  apply free_obeys untouched
  intro counted later looked _
  cases counted with
  | false => exact looked
  | true =>
    apply free_obeys looked.untouched
    intro cgCount later read _
    apply free_obeys read.untouched
    intro topCount later compared _
    have far := (looked.trans read).trans compared
    simp only [Program.done_bind]
    split
    · have grounds : Grounds owner later (.writeLease nsKey .topCgid cgid) := mapped.grown far.grown
      apply quiet_obeys far.untouched grounds
      intro _ later named _
      apply free_obeys named.untouched
      intro cgCount later again _
      exact free_obeys again.untouched fun _ _ changed _ => ((far.trans named).trans again).trans changed
    · exact far

theorem spent_obeys (untouched : Untouched past) : (spent nsKey).Obeys (ProgramRule owner)
    (fun full later => Onward past later ∧ ∃ count budget, HasRead later nsKey .count count ∧
      HasRead later nsKey .leaseBudget budget ∧ (full = true → budget ≤ count)) past := by
  apply free_obeys untouched
  intro count later counted counting
  apply free_obeys counted.untouched
  intro budget later funded funding
  refine ⟨counted.trans funded, count, budget, counting.grown funded.grown, funding, ?_⟩
  intro full
  exact of_decide_eq_true full

theorem expand_obeys (untouched : Untouched past) (limited : Limited past nsKey limit) (positive : limit ≠ 0) :
    (expand nsKey limit).Obeys (ProgramRule owner) (fun _ later => Onward past later) past := by
  apply free_obeys untouched
  intro seen later read reading
  simp only [Program.done_bind]
  split
  next fits =>
    apply free_obeys read.untouched
    intro budget later again funding
    have far := read.trans again
    have grounds : Grounds owner later (.writeLease nsKey .leaseBudget (budget + CpuLease.expansion limit)) :=
      ⟨limit, limited.grown far.grown, positive,
        .inr ⟨budget, seen, funding, reading.grown again.grown, fits, rfl⟩⟩
    exact quiet_obeys again.untouched grounds fun _ _ changed _ => far.trans changed
  · have grounds : Grounds owner later (.writeLease nsKey .leaseBudget limit) :=
      ⟨limit, limited.grown read.grown, positive, .inl rfl⟩
    exact quiet_obeys read.untouched grounds fun _ _ changed _ => read.trans changed

/-- What is known when the program turns to its caller with a return code. -/
def Stopped (past : List Observed) (nsKey : UInt64) (task : Task) (outcome : Outcome) (later : List Observed) : Prop :=
  outcome.verdict = .kill → Onward past later ∧ HasRead later nsKey .topCgid task.cgid ∧ Refused later nsKey

theorem Stopped.after {first second later : List Observed} {outcome : Outcome} (one : Onward first second)
    (stopped : Stopped second nsKey task outcome later) : Stopped first nsKey task outcome later :=
  fun killed => ⟨one.trans (stopped killed).1, (stopped killed).2⟩

theorem submitEvent_obeys (untouched : Untouched past) {emitted : Option BreachEvent}
    (grounds : ∀ evt, emitted = some evt → Grounds owner past (.submit evt)) :
    (submitEvent emitted).Obeys (ProgramRule owner) (fun _ later => Onward past later) past := by
  cases emitted with
  | none => exact ⟨List.suffix_refl _, untouched⟩
  | some evt => exact quiet_obeys untouched (grounds evt rfl) fun _ _ changed _ => changed

theorem breach_obeys (untouched : Untouched past) (mapped : Mapped past task.cgid nsKey) (leased : Leased past nsKey)
    (refused : Refused past nsKey) :
    (breach task nsKey reason).Obeys (ProgramRule (.acquire task)) (Stopped past nsKey task) past := by
  apply free_obeys untouched
  intro topCgid later read reading
  have grounds (evt : BreachEvent) (emitted : emitBreachEvent task nsKey task.cgid topCgid reason = some evt) :
      Grounds (.acquire task) later (.submit evt) := by
    unfold emitBreachEvent at emitted
    split at emitted
    · cases emitted
      exact ⟨task, rfl, rfl, mapped.grown read.grown, leased.grown read.grown, reading, refused.grown read.grown⟩
    · cases emitted
  refine (submitEvent_obeys read.untouched grounds).bind fun _ later submitted => ?_
  apply free_obeys submitted.untouched
  intro topCgid later again rereading killed
  have far := (read.trans submitted).trans again
  refine ⟨far, ?_, refused.grown far.grown⟩
  split at killed
  next top =>
    rw [top]
    exact rereading
  · cases killed

theorem accept_obeys (untouched : Untouched past) (mapped : Mapped past task.cgid nsKey) (limited : Limited past nsKey limit)
    {count : UInt64} (reading : HasRead past nsKey .count count) (room : count < limit) :
    (accept nsKey).Obeys (ProgramRule (.acquire task)) (Stopped past nsKey task) past :=
  ⟨⟨untouched.uncounted, untouched, task, limit, count, rfl, mapped, limited, reading, room⟩, fun _ _ => nofun⟩

theorem charge_obeys (untouched : Untouched past) (mapped : Mapped past task.cgid nsKey) (limited : Limited past nsKey limit)
    (positive : limit ≠ 0) (leased : Leased past nsKey) :
    (charge task nsKey limit reason).Obeys (ProgramRule (.acquire task)) (Stopped past nsKey task) past := by
  apply free_obeys untouched
  intro count later read reading
  simp only [Program.done_bind]
  split
  next full =>
    have refused : Refused later nsKey := ⟨limit, count, limited.grown read.grown, reading, .inl full⟩
    exact (breach_obeys read.untouched (mapped.grown read.grown) (leased.grown read.grown) refused).mono
      fun _ _ stopped => stopped.after read
  next below =>
    have room : count < limit := UInt64.not_le.mp below
    refine (spent_obeys read.untouched).bind fun full later tested => ?_
    have far := read.trans tested.1
    cases full with
    | false =>
      exact (accept_obeys far.untouched (mapped.grown far.grown) (limited.grown far.grown)
        (reading.grown tested.1.grown) room).mono fun _ _ stopped => stopped.after far
    | true =>
      refine (expand_obeys far.untouched (limited.grown far.grown) positive).bind fun _ later expanded => ?_
      refine (spent_obeys expanded.untouched).bind fun full later again => ?_
      have farther := (far.trans expanded).trans again.1
      cases full with
      | false =>
        have since := (tested.1.trans expanded).trans again.1
        exact (accept_obeys farther.untouched (mapped.grown farther.grown) (limited.grown farther.grown)
          (reading.grown since.grown) room).mono fun _ _ stopped => stopped.after farther
      | true =>
        obtain ⟨_, count, budget, counting, funding, spent⟩ := again
        have refused : Refused later nsKey :=
          ⟨limit, count, limited.grown farther.grown, counting, .inr ⟨budget, funding, spent rfl⟩⟩
        exact (breach_obeys farther.untouched (mapped.grown farther.grown) (leased.grown farther.grown) refused).mono
          fun _ _ stopped => stopped.after farther

theorem overLimitCode_obeys (task : Task) (reason : UInt32) :
    (overLimitCode task reason).Obeys (ProgramRule (.acquire task)) (fun outcome later =>
      outcome.verdict = .kill → Untouched later ∧ ∃ nsKey, Mapped later task.cgid nsKey ∧ Leased later nsKey ∧
        HasRead later nsKey .topCgid task.cgid ∧ Refused later nsKey) [] := by
  apply free_obeys (fun _ impossible => absurd impossible List.not_mem_nil)
  intro found later looked mapped
  cases found with
  | none => exact nofun
  | some nsKey =>
    refine (recordCgroupInc_obeys looked.untouched task.cgid).bind fun _ later recorded => ?_
    apply free_obeys recorded.untouched
    intro found later limiting limited
    cases found with
    | none => exact nofun
    | some limit =>
      simp only [Program.done_bind]
      split
      · exact nofun
      next positive =>
        apply free_obeys limiting.untouched
        intro found later leasing leased
        cases found with
        | false => exact nofun
        | true =>
          have since := (recorded.trans limiting).trans leasing
          refine (noteTop_obeys leasing.untouched (mapped.grown since.grown)).bind fun _ later noted => ?_
          apply free_obeys noted.untouched
          intro _ later used _
          have far := noted.trans used
          have farther := leasing.trans far
          have farthest := (recorded.trans limiting).trans farther
          refine (charge_obeys used.untouched (mapped.grown farthest.grown) (limited.grown farther.grown) positive
            (leased.grown far.grown)).mono ?_
          intro outcome later stopped killed
          obtain ⟨last, top⟩ := stopped killed
          exact ⟨last.untouched, nsKey, mapped.grown (farthest.trans last).grown, leased.grown (far.trans last).grown, top⟩

theorem acquireCode_obeys (task : Task) (reason : UInt32) :
    (acquireCode task reason).Obeys (ProgramRule (.acquire task)) (fun _ _ => True) [] := by
  refine (overLimitCode_obeys task reason).bind fun outcome later stopped => ?_
  simp only [sendSignal]
  cases verdict : outcome.verdict with
  | allow => trivial
  | report => trivial
  | kill =>
    obtain ⟨untouched, nsKey, mapped, leased, top⟩ := stopped verdict
    exact ⟨⟨untouched.uncounted, task, nsKey, rfl, mapped, leased, top⟩, fun _ _ => trivial⟩

theorem releaseCode_obeys (task : Task) :
    (releaseCode task).Obeys (ProgramRule (.release task)) (fun _ _ => True) [] := by
  refine (recordCgroupDec_obeys (fun _ impossible => absurd impossible List.not_mem_nil) task.cgid).bind fun _ later recorded => ?_
  apply free_obeys recorded.untouched
  intro found later looked mapped
  cases found with
  | none => trivial
  | some nsKey =>
    apply free_obeys looked.untouched
    intro found later leasing _
    cases found with
    | false => trivial
    | true =>
      apply free_obeys leasing.untouched
      intro count later read reading
      simp only [Program.done_bind]
      split
      · trivial
      next positive =>
        have still := mapped.grown (leasing.trans read).grown
        refine ⟨⟨read.untouched.uncounted, read.untouched, task, count, rfl, still, reading, positive⟩, ?_⟩
        refine fun state _ => ⟨⟨?_, trivial⟩, fun _ _ => trivial⟩
        intro seen member other
        rcases List.mem_cons.mp member with rfl | old
        · exact nofun
        · exact read.untouched.uncounted seen old other

theorem code_obeys (reason : UInt32) (usage : Usage) :
    (usage.code reason).Obeys (ProgramRule usage) (fun _ _ => True) [] := by
  cases usage with
  | acquire task => exact acquireCode_obeys task reason
  | release task => exact releaseCode_obeys task
  | idle => trivial

end obeys

end QuotaManager.Enforcer
