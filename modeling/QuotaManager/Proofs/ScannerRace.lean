import QuotaManager.Logic.Trace
import QuotaManager.Proofs.Bookkeeping

/-! The scanner among syncs and removals. A mapped cgroup has to be covered: its key is
that of a tracked namespace. Each locked section keeps this under a condition of its
own, and the one of the scanner is the one that also keeps it from panicking. -/

namespace QuotaManager
open Enforcer

namespace Book
variable {book : Book} {resource : Resource} {ns : String}

def Tracks (book : Book) (nsKey : UInt64) : Prop := ∃ ns, (book.nsCgroups ns).isSome ∧ namespaceKey ns = nsKey

/-- No cgroup is mapped to the key of a namespace that is not tracked. -/
def Covered (book : Book) : Prop :=
  ∀ resource cgroupID nsKey, book.cgroup resource cgroupID = some nsKey → book.Tracks nsKey

/-- A removal finds what is mapped to its key tracked and takes the mapping back, or leaves
it to another namespace with the same key. -/
def AllKnown (book : Book) (ns : String) (stays : Resource → UInt64 → Bool) : Prop :=
  ∀ resource cgroupID, book.cgroup resource cgroupID = some (namespaceKey ns) →
    cgroupID ∈ (book.nsCgroups ns).getD ∅ ∧ stays resource cgroupID = false ∨
    ∃ other, other ≠ ns ∧ (book.nsCgroups other).isSome ∧ namespaceKey other = namespaceKey ns

theorem Tracks.grown {after : Book} {nsKey : UInt64} (tracks : book.Tracks nsKey)
    (grown : ∀ ns, (book.nsCgroups ns).isSome → (after.nsCgroups ns).isSome) : after.Tracks nsKey := by
  obtain ⟨ns, tracked, same⟩ := tracks
  exact ⟨ns, grown ns tracked, same⟩

theorem Covered.grown {after : Book} {nsKey : UInt64} (covered : book.Covered) (tracks : after.Tracks nsKey)
    (grown : ∀ ns, (book.nsCgroups ns).isSome → (after.nsCgroups ns).isSome)
    (mapped : ∀ resource cgroupID key, after.cgroup resource cgroupID = some key →
      key = nsKey ∨ book.cgroup resource cgroupID = some key) : after.Covered := by
  intro resource cgroupID key entry
  rcases mapped resource cgroupID key entry with rfl | old
  · exact tracks
  · exact (covered resource cgroupID key old).grown grown

theorem Covered.sync_iff (covered : book.Covered) (cInfos : List CgroupInfo) (complete : Bool) :
    (book.sync resource ns cInfos complete).Covered ↔
      complete = true ∨ cInfos = [] ∨ book.Tracks (namespaceKey ns) := by
  have entries := @sync_cgroup resource ns book cInfos complete
  have tracking := @sync_nsCgroups resource ns book cInfos complete
  have grown : ∀ other, (book.nsCgroups other).isSome →
      ((book.sync resource ns cInfos complete).nsCgroups other).isSome := by
    intro other tracked
    rw [tracking]
    split
    · by_cases here : other = ns
      · subst here
        simp
      · rwa [Function.update_of_ne here]
    · exact tracked
  have mapped : ∀ other cgroupID key, (book.sync resource ns cInfos complete).cgroup other cgroupID = some key →
      key = namespaceKey ns ∨ book.cgroup other cgroupID = some key := by
    intro other cgroupID key entry
    rw [entries] at entry
    split at entry
    · exact .inl (Option.some.inj entry).symm
    · exact .inr entry
  constructor
  · intro after
    cases complete with
    | true => exact .inl rfl
    | false =>
      refine .inr ?_
      cases cInfos with
      | nil => exact .inl rfl
      | cons cInfo rest =>
        -- the section has mapped the first cgroup, and has not tracked anything
        have first : cInfo.cgroupID ∈ identifiers (cInfo :: rest) := by simp [identifiers]
        have entered := entries resource cInfo.cgroupID
        rw [if_pos ⟨rfl, first⟩] at entered
        refine .inr ((after resource cInfo.cgroupID _ entered).grown fun other tracked => ?_)
        rwa [tracking, if_neg Bool.false_ne_true] at tracked
  · rintro (rfl | rfl | tracks)
    · refine covered.grown ⟨ns, ?_, rfl⟩ grown mapped
      rw [tracking, if_pos rfl, Function.update_self]
      rfl
    · intro other cgroupID key entry
      rw [entries, if_neg (by simp [identifiers])] at entry
      exact (covered other cgroupID key entry).grown grown
    · exact covered.grown (tracks.grown grown) grown mapped

theorem Covered.remove_iff (covered : book.Covered) (stays : Resource → UInt64 → Bool) :
    (book.remove ns stays).Covered ↔ book.AllKnown ns stays := by
  have tracked : ∀ other, ((book.remove ns stays).nsCgroups other).isSome ↔ other ≠ ns ∧ (book.nsCgroups other).isSome := by
    intro other
    by_cases here : other = ns
    · simp [remove, here]
    · simp [remove, here]
  constructor
  · intro after resource cgroupID mapped
    by_cases gone : cgroupID ∈ (book.nsCgroups ns).getD ∅ ∧ stays resource cgroupID = false
    · exact .inl gone
    · have kept : (book.remove ns stays).cgroup resource cgroupID = some (namespaceKey ns) := by
        rw [← mapped]
        exact if_neg fun deleted => gone ⟨deleted.1, Bool.eq_false_iff.mpr deleted.2⟩
      obtain ⟨other, left, same⟩ := after resource cgroupID _ kept
      exact .inr ⟨other, ((tracked other).mp left).1, ((tracked other).mp left).2, same⟩
  · intro known resource cgroupID nsKey kept
    have outside : ¬ (cgroupID ∈ (book.nsCgroups ns).getD ∅ ∧ stays resource cgroupID = false) := by
      rintro ⟨inside, succeeds⟩
      rw [show (book.remove ns stays).cgroup resource cgroupID = none from
        if_pos ⟨inside, Bool.eq_false_iff.mp succeeds⟩] at kept
      cases kept
    have mapped : book.cgroup resource cgroupID = some nsKey := by
      rw [← kept]
      exact (if_neg fun deleted => outside ⟨deleted.1, Bool.eq_false_iff.mpr deleted.2⟩).symm
    by_cases own : nsKey = namespaceKey ns
    · subst own
      rcases known resource cgroupID mapped with gone | ⟨other, different, left, same⟩
      · exact absurd gone outside
      · exact ⟨other, (tracked other).mpr ⟨different, left⟩, same⟩
    · obtain ⟨other, left, same⟩ := covered resource cgroupID nsKey mapped
      have different : other ≠ ns := by
        rintro rfl
        exact own same.symm
      exact ⟨other, (tracked other).mpr ⟨different, left⟩, same⟩

end Book

namespace Node
variable {node : Node} {ns : String} {existing : Finset UInt64}

/-- The locked section of a scan finds its namespace tracked, or gets by without: each
cgroup is skipped, or its first write fails, or its second write fails while another
namespace is tracked under the same key. -/
def FindsTracked (node : Node) (ns : String) (existing : Finset UInt64) (cInfos : List CgroupInfo)
    (fails : Nat → Bool) : Prop :=
  (node.nsCgroups ns).isSome ∨ ∀ index cInfo, cInfos[index]? = some cInfo →
    cInfo.cgroupID ∈ existing ∨ fails (2 * index) = true ∨
      fails (2 * index + 1) = true ∧ node.book.Tracks (namespaceKey ns)

theorem updateCgroupMapping_cgroup (node : Node) (resource other : Resource) (cgroupID nsKey key : UInt64) :
    (node.updateCgroupMapping resource cgroupID nsKey).book.cgroup other key =
      if other = resource ∧ key = cgroupID then some nsKey else node.book.cgroup other key := by
  unfold updateCgroupMapping book
  by_cases same : other = resource
  · subst same
    by_cases here : key = cgroupID
    · simp [here, ResourceMaps.updateCgroupMapping]
    · simp [here, ResourceMaps.updateCgroupMapping, BpfMap.update_of_ne]
  · simp [edit_other, same]

theorem updateCgroupMapping_covered_iff (covered : node.book.Covered) (resource : Resource) (cgroupID nsKey : UInt64) :
    (node.updateCgroupMapping resource cgroupID nsKey).book.Covered ↔ node.book.Tracks nsKey := by
  have entries := fun other key => node.updateCgroupMapping_cgroup resource other cgroupID nsKey key
  constructor
  · intro after
    have entered := entries resource cgroupID
    rw [if_pos ⟨rfl, rfl⟩] at entered
    exact after resource cgroupID nsKey entered
  · intro tracks
    refine covered.grown tracks (fun _ tracked => tracked) ?_
    intro other key stored entry
    rw [entries] at entry
    split at entry
    · exact .inl (Option.some.inj entry).symm
    · exact .inr entry

theorem track_covered (covered : node.book.Covered) (known : Finset UInt64) : (node.track ns known).book.Covered := by
  intro resource cgroupID nsKey entry
  apply (covered resource cgroupID nsKey entry).grown
  intro other tracked
  by_cases here : other = ns
  · subst here
    simp [track, book]
  · simpa [track, book, here] using tracked

/-- While the namespace stays tracked, the section neither panics nor uncovers anything. -/
theorem mapScanned_tracked (tracked : (node.nsCgroups ns).isSome) (covered : node.book.Covered)
    (cInfos : List CgroupInfo) (fails : Nat → Bool) (existing : Finset UInt64) :
    (mapScanned ns cInfos fails existing node).1 = true ∧ (mapScanned ns cInfos fails existing node).2.book.Covered := by
  induction cInfos generalizing fails existing node with
  | nil => exact ⟨rfl, covered⟩
  | cons cInfo rest ih =>
    have own : node.book.Tracks (namespaceKey ns) := ⟨ns, tracked, rfl⟩
    have one := (updateCgroupMapping_covered_iff covered .fd cInfo.cgroupID (namespaceKey ns)).mpr own
    have both := (updateCgroupMapping_covered_iff one .proc cInfo.cgroupID (namespaceKey ns)).mpr own
    obtain ⟨known, found⟩ := Option.isSome_iff_exists.mp tracked
    unfold mapScanned
    split
    · exact ih tracked covered _ existing
    · split
      · exact ih tracked covered _ existing
      · simp only
        split
        · apply ih _ one
          exact tracked
        · split
          next missing =>
            rw [show node.nsCgroups ns = none from missing] at found
            cases found
          · apply ih
            · simp [track, recordPath]
            · exact track_covered both _

/-- While it is not tracked, what is mapped to its key stays so to the end of the section. -/
theorem mapScanned_strands (node : Node) (untracked : node.nsCgroups ns = none) {resource : Resource} {cgroupID : UInt64}
    (mapped : node.book.cgroup resource cgroupID = some (namespaceKey ns)) {cInfos : List CgroupInfo} {fails : Nat → Bool}
    (covered : (mapScanned ns cInfos fails existing node).2.book.Covered) : node.book.Tracks (namespaceKey ns) := by
  have still {node : Node} (mapped : node.book.cgroup resource cgroupID = some (namespaceKey ns)) (other : Resource) (key : UInt64) :
      (node.updateCgroupMapping other key (namespaceKey ns)).book.cgroup resource cgroupID = some (namespaceKey ns) := by
    rw [updateCgroupMapping_cgroup]
    split
    · rfl
    · exact mapped
  induction cInfos generalizing fails node with
  | nil => exact covered resource cgroupID _ mapped
  | cons cInfo rest ih =>
    unfold mapScanned at covered
    split at covered
    · exact ih node untracked mapped covered
    · split at covered
      · exact ih node untracked mapped covered
      · simp only at covered
        split at covered
        · exact ih (node.updateCgroupMapping .fd cInfo.cgroupID (namespaceKey ns)) untracked (still mapped _ _) covered
        · split at covered
          · exact covered resource cgroupID _ (still (still mapped _ _) _ _)
          next found =>
            rw [show node.nsCgroups ns = some _ from found] at untracked
            cases untracked

private theorem each_cons {α : Type} {first : α} {rest : List α} {property : Nat → α → Prop} :
    (∀ index item, (first :: rest)[index]? = some item → property index item) ↔
      property 0 first ∧ ∀ index item, rest[index]? = some item → property (index + 1) item := by
  constructor
  · exact fun all => ⟨all 0 first rfl, fun index item found => all (index + 1) item found⟩
  · rintro ⟨here, later⟩ index item found
    cases index with
    | zero => exact Option.some.inj found ▸ here
    | succ index => exact later index item found

theorem mapScanned_untracked_iff (node : Node) (untracked : node.nsCgroups ns = none) (covered : node.book.Covered)
    (cInfos : List CgroupInfo) (fails : Nat → Bool) :
    (mapScanned ns cInfos fails existing node).1 = true ∧ (mapScanned ns cInfos fails existing node).2.book.Covered ↔
      ∀ index cInfo, cInfos[index]? = some cInfo → cInfo.cgroupID ∈ existing ∨ fails (2 * index) = true ∨
        fails (2 * index + 1) = true ∧ node.book.Tracks (namespaceKey ns) := by
  induction cInfos generalizing fails node with
  | nil => exact ⟨fun _ => nofun, fun _ => ⟨rfl, covered⟩⟩
  | cons cInfo rest ih =>
    rw [each_cons]
    have later := ih node untracked covered fun operation => fails (operation + 2)
    by_cases skipped : cInfo.cgroupID ∈ existing
    · rw [mapScanned, if_pos skipped, later]
      exact (and_iff_right (.inl skipped)).symm
    by_cases first : fails 0 = true
    · rw [mapScanned, if_neg skipped, if_pos first, later]
      exact (and_iff_right (.inr (.inl first))).symm
    rw [mapScanned, if_neg skipped, if_neg first]
    simp only
    by_cases second : fails 1 = true
    · rw [if_pos second]
      have entered := (node.updateCgroupMapping_cgroup .fd .fd cInfo.cgroupID (namespaceKey ns) cInfo.cgroupID).trans (if_pos ⟨rfl, rfl⟩)
      by_cases tracks : node.book.Tracks (namespaceKey ns)
      · have one := (updateCgroupMapping_covered_iff covered .fd cInfo.cgroupID (namespaceKey ns)).mpr tracks
        rw [ih (node.updateCgroupMapping .fd cInfo.cgroupID (namespaceKey ns)) untracked one]
        exact (and_iff_right (.inr (.inr ⟨second, tracks⟩))).symm
      · refine iff_of_false ?_ ?_
        · exact fun after => tracks (mapScanned_strands (node.updateCgroupMapping .fd _ _) untracked entered after.2)
        · exact fun met => met.1.elim skipped fun failed => failed.elim first fun failed => tracks failed.2
    · rw [if_neg second]
      refine iff_of_false ?_ ?_
      · split
        · exact fun after => Bool.false_ne_true after.1
        next found =>
          rw [show node.nsCgroups ns = some _ from found] at untracked
          cases untracked
      · exact fun met => met.1.elim skipped fun failed => failed.elim first fun failed => second failed.1

theorem mapScanned_iff (covered : node.book.Covered) (cInfos : List CgroupInfo) (fails : Nat → Bool) :
    (mapScanned ns cInfos fails existing node).1 = true ∧ (mapScanned ns cInfos fails existing node).2.book.Covered ↔
      node.FindsTracked ns existing cInfos fails := by
  unfold FindsTracked
  by_cases tracked : (node.nsCgroups ns).isSome
  · have kept := mapScanned_tracked tracked covered cInfos fails existing
    exact ⟨fun _ => .inl tracked, fun _ => kept⟩
  · rw [mapScanned_untracked_iff node (Option.not_isSome_iff_eq_none.mp tracked) covered]
    exact ⟨.inr, fun met => met.resolve_left tracked⟩

end Node

abbrev Controlled := System Cluster Syncer ControllerRequest ControllerRequest.Reply

abbrev ControllerStep := Choice Syncer Job Change (Option Nat)

/-- The scanner has assigned into a missing map. -/
def ControllerRequest.panicked : (request : ControllerRequest) → request.Reply → Bool
  | .sync request, answer =>
    match request, answer with
    | .mapScanned _ _ _, mapped => !mapped
    | _, _ => false
  | .mapScanned _ _ _, mapped => mapped.isNone
  | _, _ => false

def Cluster.Covered (world : Cluster) : Prop := ∀ name, (world.nodes name).book.Covered

/-- What each locked section has to find: the scanner its namespace, a removal all that is
mapped to its key, with deletions that succeed, and a sync whose writes fail halfway a
namespace tracked under its key. -/
def Cluster.Finds (world : Cluster) (owner : Syncer) : ControllerRequest → Option Nat → Prop
  | .mapScanned ns existing cInfos, fault => (world.nodes owner.nodeID).FindsTracked ns existing cInfos (fails fault)
  | .sync (.mapScanned ns existing cInfos), fault => (world.nodes owner.nodeID).FindsTracked ns existing cInfos (fails fault)
  | .removeCgroups ns, fault =>
    (world.nodes owner.nodeID).book.AllKnown ns fun resource cgroupID => fails fault (mappingDeletion resource cgroupID)
  | .sync (.mapPods _ ns pods), fault =>
    let cInfos := (world.nodes owner.nodeID).resolved pods
    Node.completes cInfos fault = true ∨ Node.taken cInfos fault = [] ∨
      (world.nodes owner.nodeID).book.Tracks (namespaceKey ns)
  | _, _ => True

namespace Cluster
variable {world : Cluster}

theorem Covered.editNode_iff (covered : world.Covered) (name : String) (node : Node) :
    (world.editNode name node).Covered ↔ node.book.Covered := by
  constructor
  · intro after
    simpa using after name
  · intro edited other
    by_cases here : other = name
    · subst here
      simpa using edited
    · rw [editNode_other world node here]
      exact covered other

theorem Covered.edit (covered : world.Covered) (name : String) (resource : Resource)
    {change : ResourceMaps → ResourceMaps} (same : ∀ maps, (change maps).cgroup = maps.cgroup) :
    (world.editNode name ((world.nodes name).edit resource change)).Covered := by
  rw [covered.editNode_iff, Node.edit_book _ _ same]
  exact covered name

/-- One request: it neither panics nor uncovers anything exactly if it finds what it has to. -/
theorem Covered.control_iff (covered : world.Covered) (owner : Syncer) (request : ControllerRequest) (fault : Option Nat) :
    request.panicked (world.control owner request fault).1 = false ∧ (world.control owner request fault).2.Covered ↔
      world.Finds owner request fault := by
  have own := covered owner.nodeID
  cases request with
  | mapScanned ns existing cInfos =>
    change _ ↔ Node.FindsTracked _ _ _ _ _
    rw [← Node.mapScanned_iff own, ← covered.editNode_iff owner.nodeID]
    simp only [control, ControllerRequest.panicked]
    cases (Node.mapScanned ns cInfos (fails fault) existing (world.nodes owner.nodeID)).1 <;> simp
  | removeCgroups ns =>
    change _ ↔ Book.AllKnown _ _ _
    rw [← own.remove_iff, ← Node.removeCgroups_book, ← covered.editNode_iff owner.nodeID]
    simp [control, ControllerRequest.panicked]
  | getQuota | listQuotas | snapshot => exact ⟨fun _ => trivial, fun _ => ⟨rfl, covered⟩⟩
  | deleteNsLimit resource nsKey | deleteNsCounter resource nsKey =>
    refine ⟨fun _ => trivial, fun _ => ⟨rfl, ?_⟩⟩
    simp only [control]
    split
    · exact covered
    · exact covered.edit owner.nodeID resource fun _ => rfl
  | sync request =>
    cases request with
    | mapScanned ns existing cInfos =>
      change _ ↔ Node.FindsTracked _ _ _ _ _
      rw [← Node.mapScanned_iff own, ← covered.editNode_iff owner.nodeID]
      simp [control, serve, ControllerRequest.panicked]
    | mapPods resource ns pods =>
      change _ ↔ Node.completes _ _ = true ∨ Node.taken _ _ = [] ∨ Book.Tracks _ _
      rw [← @Book.Covered.sync_iff _ resource ns own, ← Node.mapPods_book, ← covered.editNode_iff owner.nodeID]
      simp [control, serve, ControllerRequest.panicked]
    | updateNsLimit resource nsKey limit | updateNsCounter resource nsKey lease =>
      refine ⟨fun _ => trivial, fun _ => ⟨rfl, ?_⟩⟩
      simp only [control, serve]
      split
      · exact covered
      · exact covered.edit owner.nodeID resource fun _ => rfl
    | _ =>
      refine ⟨fun _ => trivial, fun _ => ⟨rfl, fun name => ?_⟩⟩
      unfold control
      rw [(serve_api world owner rfl fault).1]
      exact covered name

theorem Covered.drift (covered : world.Covered) (change : Change) : (world.drift change).Covered := by
  cases change with
  | tick | pods => exact covered
  | resolver name uid answer => exact (covered.editNode_iff name _).mpr (covered name)
  | kernel name event =>
    apply (covered.editNode_iff name _).mpr
    intro resource cgroupID nsKey entry
    apply covered name resource cgroupID nsKey
    rw [← entry]
    change _ = (((world.nodes name).bpf.after event).maps resource).cgroup cgroupID
    rw [Bpf.after_maps, ResourceMaps.use_cgroup]
    rfl

end Cluster

/-- No scan has panicked, and no cgroup is mapped to the key of a namespace that is not tracked. -/
structure Controlled.ScansSafely (system : Controlled) : Prop where
  calm : ∀ turn ∈ system.log, turn.exchange.request.panicked turn.exchange.answer = false
  covered : system.world.Covered

/-- The request that is served finds what it has to. -/
def Controlled.Finds (system : Controlled) : ControllerStep → Prop
  | .turn index fault =>
    match system.workers[index]? with
    | some ⟨owner, _, .ask request _⟩ => system.world.Finds owner request fault
    | _ => True
  | _ => True

theorem Controlled.ScansSafely.step_iff {system : Controlled} (safe : system.ScansSafely) (choice : ControllerStep) :
    Controlled.ScansSafely (controllers.step system choice) ↔ system.Finds choice := by
  cases choice with
  | start owner task => exact ⟨fun _ => trivial, fun _ => ⟨safe.calm, safe.covered⟩⟩
  | drift change => exact ⟨fun _ => trivial, fun _ => ⟨safe.calm, safe.covered.drift change⟩⟩
  | turn index fault =>
    rcases controllers.turn_cases system index fault with ⟨idle, nobody⟩ | ⟨worker, request, next, found, rest, stepped⟩
    · rw [idle]
      refine ⟨fun _ => ?_, fun _ => safe⟩
      simp only [Finds]
      split
      next found => exact absurd rfl (nobody _ _ _ found)
      · trivial
    · have served := safe.covered.control_iff worker.owner request fault
      have finds : system.Finds (.turn index fault) ↔ system.world.Finds worker.owner request fault := by
        obtain ⟨owner, past, asking⟩ := worker
        obtain rfl : asking = .ask request next := rest
        simp only [Finds, found]
      rw [finds, ← served, stepped]
      constructor
      · intro after
        exact ⟨after.calm _ List.mem_cons_self, after.covered⟩
      · rintro ⟨calm, covered⟩
        refine ⟨fun turn member => ?_, covered⟩
        rcases List.mem_cons.mp member with rfl | old
        · exact calm
        · exact safe.calm turn old

/-- From a covered start, a run keeps the scans safe exactly when each locked section
finds what it has to. -/
theorem scans_safe_iff_sections_find {start : Cluster} (covered : start.Covered) (choices : List ControllerStep) :
    Trace.Throughout controllers.step Controlled.ScansSafely (Machine.boot start) choices ↔
      Trace.Along controllers.step Controlled.Finds (Machine.boot start) choices := by
  have permitted : Trace.Along controllers.step (fun _ _ => True) (Machine.boot start) choices :=
    .of_all fun _ _ => trivial
  have safe : Controlled.ScansSafely (Machine.boot start) :=
    ⟨fun _ impossible => absurd impossible List.not_mem_nil, covered⟩
  exact Trace.Throughout.iff_along (fun _ => True) permitted trivial safe (fun _ _ _ _ => trivial)
    fun _ choice _ _ safe => safe.step_iff choice

section runs

def scanningSyncer : Syncer := ⟨"node", none⟩

/-- A pod that the sync could not resolve, and a scan that has found its directory. The
removal of some namespace comes before the scan's locked section. -/
def scanAround (removed : String) : List ControllerStep :=
  let turns (index count : Nat) : List ControllerStep := List.replicate count (.turn index none)
  [.drift (.pods "team" [⟨"pod", .running⟩]), .start scanningSyncer (.syncNamespace "team" 10 none)] ++ turns 0 5 ++
    [.start scanningSyncer (.scanAndMapCgroups [("team", [⟨some ⟨7, "path"⟩, some "pod", []⟩])])] ++ turns 1 2 ++
    [.start scanningSyncer (.removeNamespace removed)] ++ turns 2 5 ++ turns 1 1

theorem other_removed_scans_safely :
    Trace.Throughout controllers.step Controlled.ScansSafely (Machine.boot (.empty [])) (scanAround "other") := by
  have covered : (Cluster.empty []).Covered := fun _ resource _ _ => by cases resource <;> exact nofun
  refine (scans_safe_iff_sections_find covered (scanAround "other")).mpr ?_
  refine ⟨trivial, trivial, trivial, trivial, trivial, trivial, .inl ?_, trivial, trivial, trivial, trivial, trivial,
    trivial, trivial, trivial, ?_, .inl ?_, trivial⟩
  · decide +kernel
  · intro resource _
    cases resource <;> exact nofun
  · decide +kernel

/-- The namespace of the scan is removed after the snapshot. -/
theorem removed_while_scanned :
    let ended : Controlled := Trace.run controllers.step (Machine.boot (.empty [])) (scanAround "team")
    ended.workers.map (·.rest) = [.done (), .done (), .done ()] ∧
      (ended.log.any fun turn => turn.exchange.request.panicked turn.exchange.answer) = true ∧
      (ended.world.nodes "node").bpf.fd.cgroup 7 = some (namespaceKey "team") ∧
      (ended.world.nodes "node").nsCgroups "team" = none := by
  exact ⟨rfl, by decide +kernel⟩

end runs
end QuotaManager
