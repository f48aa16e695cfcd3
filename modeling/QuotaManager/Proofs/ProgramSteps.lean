import QuotaManager.FentryPrograms
import QuotaManager.Logic.Lockstep
import QuotaManager.Proofs.LimitCheck

/-! The fentry programs one at a time. Without another program in between, the accesses
of a program add up to the check or the release of the serialised model, and the records
it submits and the signals it sends are those of the model's reaction. -/

namespace QuotaManager.Enforcer

/-- What an access does is seen outside the maps. -/
def Access.outward : Access → Bool
  | .submit _ | .sendSignal => true
  | _ => false

/-- The accesses that carry a reaction out. -/
def Reaction.accesses (reaction : Reaction) : List Access :=
  reaction.emitted.toList.map .submit ++ if reaction.signalled then [.sendSignal] else []

namespace Code
variable {α β : Type}

/-- Runs a program with nothing in between. -/
def alone (code : Code α) (maps : ResourceMaps) : α × ResourceMaps :=
  code.exec (fun maps access (_ : Unit) => maps.serve access) (fun _ => ()) maps

@[simp] theorem alone_done (value : α) (maps : ResourceMaps) : Code.alone (.done value) maps = (value, maps) := rfl

@[simp] theorem alone_ask (request : Access) (next : request.Reply → Code α) (maps : ResourceMaps) :
    Code.alone (.ask request next) maps = (next (maps.serve request).1).alone (maps.serve request).2 := rfl

@[simp] theorem alone_bind (code : Code α) (next : α → Code β) (maps : ResourceMaps) :
    Code.alone (Program.bind code next) maps = (next (code.alone maps).1).alone (code.alone maps).2 :=
  Program.exec_bind _ _ code next maps

/-- The records and signals of a program that runs with nothing in between. -/
def reports (code : Code α) (maps : ResourceMaps) : List Access :=
  (code.requests (fun maps access (_ : Unit) => maps.serve access) (fun _ => ()) maps).filter Access.outward

@[simp] theorem reports_done (value : α) (maps : ResourceMaps) : Code.reports (.done value) maps = [] := rfl

@[simp] theorem reports_ask (request : Access) (next : request.Reply → Code α) (maps : ResourceMaps) :
    Code.reports (.ask request next) maps =
      (if request.outward then [request] else []) ++ (next (maps.serve request).1).reports (maps.serve request).2 := by
  by_cases seen : request.outward <;> simp [reports, Program.requests, seen]

@[simp] theorem reports_bind (code : Code α) (next : α → Code β) (maps : ResourceMaps) :
    Code.reports (Program.bind code next) maps = code.reports maps ++ (next (code.alone maps).1).reports (code.alone maps).2 := by
  rw [reports, ← Program.bind_eq, Program.requests_bind, List.filter_append]
  rfl

/-- The program only reads and writes maps. -/
abbrev Silent (code : Code α) : Prop := code.Asks (·.outward = false)

theorem Silent.reports {code : Code α} (silent : code.Silent) (maps : ResourceMaps) : code.reports maps = [] :=
  List.filter_eq_nil_iff.mpr fun request asked => by simp [Program.Asks.requests silent request asked]

end Code

namespace ResourceMaps
variable {maps : ResourceMaps} {nsKey : UInt64} {lease : CpuLease}

theorem editLease_found (leased : maps.nsCounter nsKey = some lease) (change : CpuLease → CpuLease) :
    maps.editLease nsKey change = { maps with nsCounter := maps.nsCounter.update nsKey (change lease) } := by
  simp only [editLease, leased]

theorem editLease_same (leased : maps.nsCounter nsKey = some lease) : maps.editLease nsKey (fun _ => lease) = maps := by
  rw [editLease_found leased]
  unfold BpfMap.update
  rw [← leased, Function.update_eq_self]

theorem editLease_editLease (first second : CpuLease → CpuLease) :
    (maps.editLease nsKey first).editLease nsKey second = maps.editLease nsKey fun lease => second (first lease) := by
  cases leased : maps.nsCounter nsKey with
  | none => simp only [editLease, leased]
  | some lease =>
    rw [editLease_found leased, editLease_found (BpfMap.update_self _ _ _), editLease_found leased]
    simp only [BpfMap.update, Function.update_idem]

theorem editLease_congr {first second : CpuLease → CpuLease} (leased : maps.nsCounter nsKey = some lease)
    (same : first lease = second lease) : maps.editLease nsKey first = maps.editLease nsKey second := by
  rw [editLease_found leased, editLease_found leased, same]

theorem nsCounter_editLease (leased : maps.nsCounter nsKey = some lease) (change : CpuLease → CpuLease) :
    (maps.editLease nsKey change).nsCounter nsKey = some (change lease) := by
  rw [editLease_found leased]
  exact BpfMap.update_self _ _ _

@[simp] theorem cgroupCounter_editLease (change : CpuLease → CpuLease) :
    (maps.editLease nsKey change).cgroupCounter = maps.cgroupCounter := by
  unfold editLease
  split <;> rfl

end ResourceMaps

/-- What a program does besides updating maps. -/
def Usage.reaction (reason : UInt32) (maps : ResourceMaps) : Usage → Reaction
  | .acquire task => (maps.check task reason).1.reaction
  | .release _ | .idle => .none

section alone
variable {maps : ResourceMaps} {nsKey limit : UInt64} {lease : CpuLease} (task : Task) (reason : UInt32)

theorem recordCgroupInc_alone (maps : ResourceMaps) (cgid : UInt64) :
    (recordCgroupInc cgid).alone maps = ((), maps.recordInc cgid) := by
  unfold recordCgroupInc ResourceMaps.recordInc
  cases counted : maps.cgroupCounter cgid <;>
    simp [Program.call, ResourceMaps.serve, ResourceMaps.editCounter, counted]

theorem recordCgroupDec_alone (maps : ResourceMaps) (cgid : UInt64) :
    (recordCgroupDec cgid).alone maps = ((), maps.recordDec cgid) := by
  unfold recordCgroupDec ResourceMaps.recordDec
  cases counted : maps.cgroupCounter cgid with
  | none => simp [ResourceMaps.serve, counted]
  | some count =>
    by_cases positive : count > 0 <;>
      simp [Program.call, ResourceMaps.serve, ResourceMaps.editCounter, counted, positive]

theorem noteTop_alone (leased : maps.nsCounter nsKey = some lease) (cgid : UInt64) :
    (noteTop nsKey cgid).alone maps =
      ((), maps.editLease nsKey fun _ => lease.noteTop cgid (maps.cgroupCounter cgid)) := by
  unfold noteTop CpuLease.noteTop
  cases counted : maps.cgroupCounter cgid with
  | none => simp [ResourceMaps.serve, counted, ResourceMaps.editLease_same leased]
  | some count =>
    by_cases higher : count > lease.topCount
    · simp only [Program.call, Program.pure_eq, Program.bind_eq, Program.ask_bind, Program.done_bind, Code.alone_ask, Code.alone_done,
        ResourceMaps.serve, counted, Option.isSome_some, Option.getD_some, leased, CpuLease.get, Option.elim_some, higher, ↓reduceIte,
        ResourceMaps.cgroupCounter_editLease, ResourceMaps.editLease_editLease]
      exact congrArg (Prod.mk _) (ResourceMaps.editLease_congr leased rfl)
    · simp [ResourceMaps.serve, counted, leased, CpuLease.get, higher, ResourceMaps.editLease_same leased]

theorem breach_alone (leased : maps.nsCounter nsKey = some lease) :
    (breach task nsKey reason).alone maps = ((lease.breach task nsKey reason).1, maps) := by
  unfold breach CpuLease.breach
  cases emitted : emitBreachEvent task nsKey task.cgid lease.topCgid reason <;>
    simp [submitEvent, Program.call, ResourceMaps.serve, leased, CpuLease.get, emitted]

theorem spent_alone (leased : maps.nsCounter nsKey = some lease) :
    (spent nsKey).alone maps = (decide (lease.count ≥ lease.leaseBudget), maps) := by
  simp [spent, ResourceMaps.serve, leased, CpuLease.get]

theorem accept_alone (leased : maps.nsCounter nsKey = some lease) :
    (accept nsKey).alone maps = (.pass, maps.editLease nsKey fun _ => lease.accept.2) := by
  simp only [accept, Program.bind_eq, Program.call_bind, Program.pure_eq, Code.alone_ask, Code.alone_done, ResourceMaps.serve]
  exact congrArg (Prod.mk _) (ResourceMaps.editLease_congr leased rfl)

theorem expand_alone (leased : maps.nsCounter nsKey = some lease) :
    (expand nsKey limit).alone maps = ((), maps.editLease nsKey fun _ => lease.expand limit) := by
  unfold expand CpuLease.expand
  by_cases fits : lease.leaseBudget + CpuLease.expansion limit ≤ limit
  · simp only [Program.call, Program.bind_eq, Program.ask_bind, Program.done_bind, Code.alone_ask, Code.alone_done, ResourceMaps.serve,
      leased, CpuLease.get, Option.elim_some, fits, ↓reduceIte]
    exact congrArg (Prod.mk _) (ResourceMaps.editLease_congr leased rfl)
  · simp only [Program.call, Program.bind_eq, Program.ask_bind, Program.done_bind, Code.alone_ask, Code.alone_done, ResourceMaps.serve,
      leased, CpuLease.get, Option.elim_some, fits, ↓reduceIte]
    exact congrArg (Prod.mk _) (ResourceMaps.editLease_congr leased rfl)

theorem charge_alone (leased : maps.nsCounter nsKey = some lease) :
    (charge task nsKey limit reason).alone maps =
      ((lease.charge limit task nsKey reason).1,
        maps.editLease nsKey fun _ => (lease.charge limit task nsKey reason).2) := by
  have same := ResourceMaps.editLease_same leased
  unfold charge CpuLease.charge
  by_cases full : lease.count ≥ limit
  · simp [ResourceMaps.serve, leased, CpuLease.get, full, breach_alone, same, CpuLease.breach]
  · by_cases low : lease.count ≥ lease.leaseBudget
    · have grown := ResourceMaps.nsCounter_editLease leased fun _ => lease.expand limit
      by_cases again : (lease.expand limit).count ≥ (lease.expand limit).leaseBudget
      · simp [ResourceMaps.serve, leased, CpuLease.get, full, low, again, spent_alone, expand_alone, grown, breach_alone,
          CpuLease.breach]
      · simp [ResourceMaps.serve, leased, CpuLease.get, full, low, again, spent_alone, expand_alone, grown, accept_alone,
          ResourceMaps.editLease_editLease, CpuLease.accept]
    · simp [ResourceMaps.serve, leased, CpuLease.get, full, low, spent_alone, accept_alone, CpuLease.accept]

theorem overLimitCode_alone (maps : ResourceMaps) : (overLimitCode task reason).alone maps = maps.check task reason := by
  unfold overLimitCode ResourceMaps.check
  cases mapped : maps.cgroup task.cgid with
  | none => simp [ResourceMaps.serve, mapped]
  | some nsKey =>
    simp only [Program.bind_eq, Program.call_bind, Code.alone_ask, Code.alone_bind, ResourceMaps.serve, mapped,
      recordCgroupInc_alone]
    cases limited : (maps.recordInc task.cgid).nsLimit nsKey with
    | none => rfl
    | some limit =>
      by_cases zero : limit = 0
      · simp [zero]
      · cases leased : (maps.recordInc task.cgid).nsCounter nsKey with
        | none => simp [zero, ResourceMaps.serve, leased]
        | some lease =>
          have noted (lease : CpuLease) := ResourceMaps.nsCounter_editLease leased fun _ => lease
          simp only [zero, ↓reduceIte, Code.alone_ask, Code.alone_bind, ResourceMaps.serve, leased, Option.isSome_some,
            noteTop_alone leased, ResourceMaps.editLease_editLease, CpuLease.set, charge_alone task reason (noted _)]
          rw [ResourceMaps.editLease_found leased]

theorem acquireCode_alone (maps : ResourceMaps) :
    (acquireCode task reason).alone maps = ((maps.check task reason).1.reaction, (maps.check task reason).2) := by
  simp only [acquireCode, Program.bind_eq, Code.alone_bind, overLimitCode_alone, Program.pure_eq, Code.alone_done]
  cases (maps.check task reason).1.verdict <;> rfl

theorem releaseCode_alone (maps : ResourceMaps) : (releaseCode task).alone maps = (.none, maps.release task) := by
  unfold releaseCode ResourceMaps.release
  simp only [Program.bind_eq, Program.call_bind, Code.alone_ask, Code.alone_bind, ResourceMaps.serve, recordCgroupDec_alone]
  cases mapped : (maps.recordDec task.cgid).cgroup task.cgid with
  | none => rfl
  | some nsKey =>
    cases leased : (maps.recordDec task.cgid).nsCounter nsKey with
    | none => simp [ResourceMaps.serve, leased]
    | some lease =>
      by_cases zero : lease.count = 0
      · simp [ResourceMaps.serve, leased, CpuLease.get, zero]
      · simp only [ResourceMaps.serve, leased, Option.isSome_some, Program.pure_eq, Code.alone_ask, Code.alone_done,
          Option.elim_some, CpuLease.get, zero, ↓reduceIte, ResourceMaps.editLease_editLease, CpuLease.set]
        rw [ResourceMaps.editLease_found leased]

theorem code_alone (usage : Usage) (maps : ResourceMaps) :
    (usage.code reason).alone maps = (usage.reaction reason maps, maps.use reason usage) := by
  cases usage with
  | acquire task => exact acquireCode_alone task reason maps
  | release task => exact releaseCode_alone task maps
  | idle => rfl

end alone

section reports
variable {maps : ResourceMaps} {nsKey limit : UInt64} {lease : CpuLease} (task : Task) (reason : UInt32)

theorem recordCgroupInc_silent (cgid : UInt64) : (recordCgroupInc cgid).Silent :=
  ⟨rfl, fun found => by cases found <;> exact ⟨rfl, fun _ => trivial⟩⟩

theorem recordCgroupDec_silent (cgid : UInt64) : (recordCgroupDec cgid).Silent := by
  refine ⟨rfl, fun found => ?_⟩
  cases found with
  | false => trivial
  | true =>
    refine ⟨rfl, fun count => ?_⟩
    by_cases positive : count > 0 <;> simp only [Program.done_bind, positive, ↓reduceIte]
    · exact ⟨rfl, fun _ => trivial⟩
    · trivial

theorem noteTop_silent (nsKey cgid : UInt64) : (noteTop nsKey cgid).Silent := by
  refine ⟨rfl, fun found => ?_⟩
  cases found with
  | false => trivial
  | true =>
    refine ⟨rfl, fun cgCount => ⟨rfl, fun topCount => ?_⟩⟩
    by_cases higher : cgCount > topCount <;> simp only [Program.done_bind, higher, ↓reduceIte]
    · exact ⟨rfl, fun _ => ⟨rfl, fun _ => ⟨rfl, fun _ => trivial⟩⟩⟩
    · trivial

theorem expand_silent (nsKey limit : UInt64) : (expand nsKey limit).Silent := by
  refine ⟨rfl, fun budget => ?_⟩
  by_cases fits : budget + CpuLease.expansion limit ≤ limit <;> simp only [Program.done_bind, fits, ↓reduceIte]
  · exact ⟨rfl, fun _ => ⟨rfl, fun _ => trivial⟩⟩
  · exact ⟨rfl, fun _ => trivial⟩

theorem spent_silent (nsKey : UInt64) : (spent nsKey).Silent := ⟨rfl, fun _ => ⟨rfl, fun _ => trivial⟩⟩

theorem accept_silent (nsKey : UInt64) : (accept nsKey).Silent := ⟨rfl, fun _ => trivial⟩

theorem breach_reports (leased : maps.nsCounter nsKey = some lease) :
    (breach task nsKey reason).reports maps = (lease.breach task nsKey reason).1.emitted.toList.map .submit := by
  unfold breach CpuLease.breach
  cases emitted : emitBreachEvent task nsKey task.cgid lease.topCgid reason <;>
    simp [submitEvent, Program.call, ResourceMaps.serve, leased, CpuLease.get, emitted, Access.outward]

theorem charge_reports (leased : maps.nsCounter nsKey = some lease) :
    (charge task nsKey limit reason).reports maps = (lease.charge limit task nsKey reason).1.emitted.toList.map .submit := by
  unfold charge CpuLease.charge
  by_cases full : lease.count ≥ limit
  · simp [ResourceMaps.serve, leased, CpuLease.get, full, breach_reports, Access.outward]
  · by_cases low : lease.count ≥ lease.leaseBudget
    · have grown := ResourceMaps.nsCounter_editLease leased fun _ => lease.expand limit
      by_cases again : (lease.expand limit).count ≥ (lease.expand limit).leaseBudget
      · simp [ResourceMaps.serve, leased, CpuLease.get, full, low, again, spent_alone, expand_alone, grown, breach_reports,
          (spent_silent nsKey).reports, (expand_silent nsKey limit).reports, Access.outward]
      · simp [ResourceMaps.serve, leased, CpuLease.get, full, low, again, spent_alone, expand_alone, grown,
          (spent_silent nsKey).reports, (expand_silent nsKey limit).reports, (accept_silent nsKey).reports, CpuLease.accept,
          Outcome.pass, Access.outward]
    · simp [ResourceMaps.serve, leased, CpuLease.get, full, low, spent_alone, (spent_silent nsKey).reports,
        (accept_silent nsKey).reports, CpuLease.accept, Outcome.pass, Access.outward]

theorem overLimitCode_reports (maps : ResourceMaps) :
    (overLimitCode task reason).reports maps = (maps.check task reason).1.emitted.toList.map .submit := by
  unfold overLimitCode ResourceMaps.check
  cases mapped : maps.cgroup task.cgid with
  | none => simp [ResourceMaps.serve, mapped, Outcome.pass, Access.outward]
  | some nsKey =>
    simp only [Program.bind_eq, Program.call_bind, Code.reports_ask, Code.reports_bind, ResourceMaps.serve, mapped, Access.outward,
      Bool.false_eq_true, ↓reduceIte, List.nil_append, (recordCgroupInc_silent task.cgid).reports, recordCgroupInc_alone]
    cases limited : (maps.recordInc task.cgid).nsLimit nsKey with
    | none => rfl
    | some limit =>
      by_cases zero : limit = 0
      · simp [zero, Outcome.pass]
      · cases leased : (maps.recordInc task.cgid).nsCounter nsKey with
        | none => simp [zero, ResourceMaps.serve, leased, Outcome.pass, Access.outward]
        | some lease =>
          have noted (lease : CpuLease) := ResourceMaps.nsCounter_editLease leased fun _ => lease
          simp only [zero, ↓reduceIte, Code.reports_ask, Code.reports_bind, ResourceMaps.serve, leased, Option.isSome_some,
            (noteTop_silent nsKey task.cgid).reports, noteTop_alone leased, ResourceMaps.editLease_editLease, CpuLease.set,
            charge_reports task reason (noted _), Access.outward, Bool.false_eq_true, List.nil_append]

theorem sendSignal_reports (verdict : Verdict) (maps : ResourceMaps) :
    (sendSignal verdict).reports maps = if verdict == .kill then [.sendSignal] else [] := by
  cases verdict <;> rfl

theorem acquireCode_reports (maps : ResourceMaps) :
    (acquireCode task reason).reports maps = (maps.check task reason).1.reaction.accesses := by
  simp only [acquireCode, Program.bind_eq, Code.reports_bind, overLimitCode_reports, overLimitCode_alone, sendSignal_reports,
    Program.pure_eq, Code.reports_done, List.append_nil, Reaction.accesses, Outcome.reaction]
  rfl

theorem releaseCode_silent : (releaseCode task).Silent := by
  refine (recordCgroupDec_silent task.cgid).bind fun _ => ⟨rfl, fun mapped => ?_⟩
  cases mapped with
  | none => trivial
  | some nsKey =>
    refine ⟨rfl, fun leased => ?_⟩
    cases leased with
    | false => trivial
    | true =>
      refine ⟨rfl, fun count => ?_⟩
      by_cases zero : count = 0 <;> simp only [Program.done_bind, zero, ↓reduceIte]
      · trivial
      · exact ⟨rfl, fun _ => ⟨rfl, fun _ => trivial⟩⟩

theorem code_reports (usage : Usage) (maps : ResourceMaps) :
    (usage.code reason).reports maps = (usage.reaction reason maps).accesses := by
  cases usage with
  | acquire task => exact acquireCode_reports task reason maps
  | release task => exact (releaseCode_silent task).reports maps
  | idle => rfl

end reports

/-- The half of the object that has a program at the event. -/
def KernelEvent.resource : KernelEvent → Resource
  | .fdInstall _ | .filpClose _ _ => .fd
  | .kernelClone _ | .doExit _ => .proc

namespace Bpf

/-- The program of an event runs to its end. -/
def runProgram (bpf : Bpf) (event : KernelEvent) : Reaction × Bpf :=
  let resource := event.resource
  let (reaction, maps) := ((event.usage resource).code resource.reason).alone (bpf.maps resource)
  (reaction, bpf.withMaps resource maps)

/-- The same run by the records it submits and the signals it sends. -/
def reportProgram (bpf : Bpf) (event : KernelEvent) : List Access × Bpf :=
  let resource := event.resource
  (((event.usage resource).code resource.reason).reports (bpf.maps resource), (bpf.runProgram event).2)

end Bpf

theorem react_eq (bpf : Bpf) (event : KernelEvent) : react bpf event =
    ((event.usage event.resource).reaction event.resource.reason (bpf.maps event.resource),
      bpf.withMaps event.resource ((bpf.maps event.resource).use event.resource.reason (event.usage event.resource))) := by
  cases event with
  | fdInstall task => rfl
  | kernelClone task => rfl
  | doExit task => rfl
  | filpClose task file =>
    cases file with
    | none => rfl
    | some refs =>
      simp only [KernelEvent.resource, KernelEvent.usage, react, trackCloseFd]
      split <;> rfl

theorem runProgram_react (bpf : Bpf) (event : KernelEvent) : bpf.runProgram event = react bpf event := by
  simp only [Bpf.runProgram, code_alone, react_eq]

/-- The serialised model is what the programs do one after another: whatever the events,
they submit the records and send the signals of its reactions, in that order, and leave
the same maps. -/
theorem programs_serialise (bpf : Bpf) (events : List KernelEvent) :
    Lockstep.answers Bpf.reportProgram bpf events = (Lockstep.answers react bpf events).map Reaction.accesses ∧
      Lockstep.answers Bpf.runProgram bpf events = Lockstep.answers react bpf events ∧
      Trace.run (fun bpf event => (bpf.runProgram event).2) bpf events = Trace.run Bpf.after bpf events := by
  have same : Bpf.runProgram = react := funext fun bpf => funext fun event => runProgram_react bpf event
  refine ⟨?_, by rw [same], by rw [same]; rfl⟩
  induction events generalizing bpf with
  | nil => rfl
  | cons event rest ih =>
    have reported : (bpf.reportProgram event).1 = (react bpf event).1.accesses := by
      simp only [Bpf.reportProgram, code_reports, react_eq]
    have moved : (bpf.reportProgram event).2 = (react bpf event).2 := congrArg Prod.snd (runProgram_react bpf event)
    simp only [Lockstep.answers, List.map_cons, reported, moved, ih]

end QuotaManager.Enforcer
