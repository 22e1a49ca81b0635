import LayeredConfig.Proofs.Loader.Calm
import LayeredConfig.Version

/-!
# Asking for a version

A resolver asks its sources one after the other. To it a source is an `Inquiry`: asking may give any
value, fail in any way, and change the world. A `Visit` is an inquiry together with the world in
which it is made, and `Consults` says which visits are paid: a prefix of the sources, each once, in
their order, and none after one that had an answer. `firstAnswer_consults` reads result and log off
these visits, whatever the sources do; `version_resolution` puts this together with the sources
that a resolver has.

All of it comes from one step, `firstAnswer_cons`. Asking one source leaves a world and at most one
line about it in the log, and either ends with the answer or goes on with the rest.
-/

namespace LayeredConfig

/-- A source of versions as a resolver sees it: the name of its kind, and what asking it does. -/
structure Inquiry where
  kind : String
  ask : Action Value
deriving Inhabited

/-- The first answer that counts as set. -/
def firstAnswer (package : Value) : List Inquiry → Action Value
  | [] => return .text unknownVersion
  | inquiry :: rest => do
    let answer ← tryCatch inquiry.ask fun failure ↦ do
      record .warning "version_source_failed"
        [("source", .text inquiry.kind), ("package", package),
          ("error", .text (← failureText failure))]
      return .null
    if ← onMemory (truthyValue answer) then
      record .debug "version_resolved"
        [("source", .text inquiry.kind), ("package", package), ("version", answer)]
      return answer
    firstAnswer package rest

/-- A source that is asked, with the world at that moment. -/
structure Visit where
  inquiry : Inquiry
  start : World
deriving Inhabited

namespace Visit

variable (package : Value) (v : Visit)

/-- The answer, if there is one that counts as set. -/
def answer? : Option Value :=
  match v.inquiry.ask v.start with
  | .ok answer w => if w.memory.forest.truthy answer then some answer else none
  | .error .. => none

/-- The warning about a source that failed. -/
def warning? : Option LogEntry :=
  match v.inquiry.ask v.start with
  | .ok .. => none
  | .error failure w => some ⟨.warning, "version_source_failed",
      [("source", .text v.inquiry.kind), ("package", package),
        ("error", .text ((failure.message w.memory.nameOf).getD ""))], none⟩

/-- The line about a source that answered. -/
def report? : Option LogEntry :=
  v.answer?.map fun answer ↦ ⟨.debug, "version_resolved",
    [("source", .text v.inquiry.kind), ("package", package), ("version", answer)], none⟩

/-- The line about the visit. -/
def line? : Option LogEntry := (v.warning? package).or (v.report? package)

/-- The world after the visit: the one that asking leaves, with the line about it in the log. -/
def left : World :=
  let w := after v.inquiry.ask v.start
  match v.line? package with
  | some line => { w with log := w.log.push line }
  | none => w

variable {package v}

theorem report?_eq_none : v.report? package = none ↔ v.answer? = none := Option.map_eq_none_iff

/-- A source that answers has not failed. -/
theorem warning?_of_answer {answer : Value} (h : v.answer? = some answer) :
    v.warning? package = none := by
  cases hask : v.inquiry.ask v.start with
  | ok value w => rw [warning?, hask]
  | error failure w =>
    rw [answer?, hask] at h
    cases h

theorem left_memory : (v.left package).memory = (after v.inquiry.ask v.start).memory := by
  rw [left]
  split <;> rfl

theorem left_host : (v.left package).host = (after v.inquiry.ask v.start).host := by
  rw [left]
  split <;> rfl

end Visit

/-! ## One source after the other -/

/-- **A step of the resolver.** It ends with an answer, and goes on without one. -/
theorem firstAnswer_cons (package : Value) (inquiry : Inquiry) (rest : List Inquiry) (w : World) :
    firstAnswer package (inquiry :: rest) w =
      match (Visit.mk inquiry w).answer? with
      | some answer => .ok answer ((Visit.mk inquiry w).left package)
      | none => firstAnswer package rest ((Visit.mk inquiry w).left package) := by
  cases hask : inquiry.ask w with
  | ok answer w₁ =>
    have hstep : firstAnswer package (inquiry :: rest) w = (do
        if ← onMemory (truthyValue answer) then
          record .debug "version_resolved"
            [("source", .text inquiry.kind), ("package", package), ("version", answer)]
          return answer
        firstAnswer package rest : Action Value) w₁ := bind_of_ok (tryCatch_of_ok hask)
    have htruthy : onMemory (truthyValue answer) w₁ =
        .ok (w₁.memory.forest.truthy answer) w₁ := rfl
    rw [hstep, bind_of_ok htruthy]
    simp only [Visit.left, Visit.line?, Visit.report?, Visit.warning?, Visit.answer?, hask, after]
    by_cases hset : w₁.memory.forest.truthy answer = true
    · rw [if_pos hset, if_pos hset]
      rfl
    · rw [if_neg hset, if_neg hset]
      rfl
  | error failure w₁ =>
    have hstep := bind_of_ok (k := fun answer ↦ (do
        if ← onMemory (truthyValue answer) then
          record .debug "version_resolved"
            [("source", .text inquiry.kind), ("package", package), ("version", answer)]
          return answer
        firstAnswer package rest : Action Value)) (@tryCatch_of_error _ _ _ _ _ _ _
          (fun failure ↦ (do
            record .warning "version_source_failed"
              [("source", .text inquiry.kind), ("package", package),
                ("error", .text (← failureText failure))]
            return .null : Action Value)) hask)
    -- what the warning leaves does not count as set
    refine hstep.trans ?_
    simp only [Visit.left, Visit.line?, Visit.report?, Visit.warning?, Visit.answer?, hask, after]
    rfl

/-- The visits lead from one world to another, each starting where the one before it ended. -/
inductive Visits (package : Value) : World → List Visit → World → Prop where
  | nil (w : World) : Visits package w [] w
  | cons {v : Visit} {visits : List Visit} {w' : World}
      (rest : Visits package (v.left package) visits w') : Visits package v.start (v :: visits) w'

/-- The sources are asked in their order, each once, until one of them has an answer. -/
structure Consults (package : Value) (inquiries : List Inquiry) (w : World) (visits : List Visit)
    (w' : World) : Prop where
  leads : Visits package w visits w'
  inOrder : visits.map Visit.inquiry <+: inquiries
  stops : ∀ v ∈ visits.dropLast, v.answer? = none
  exhausts : (∀ v ∈ visits, v.answer? = none) → visits.map Visit.inquiry = inquiries

namespace Consults

variable {package : Value} {inquiries : List Inquiry} {w w' : World} {visits : List Visit}
  {v : Visit}

theorem none (package : Value) (w : World) : Consults package [] w [] w :=
  ⟨.nil w, List.nil_prefix, fun _ h ↦ absurd h List.not_mem_nil, fun _ ↦ rfl⟩

theorem answered {answer : Value} (h : v.answer? = some answer) :
    Consults package (v.inquiry :: inquiries) v.start [v] (v.left package) where
  leads := .cons (.nil _)
  inOrder := List.cons_prefix_cons.mpr ⟨rfl, List.nil_prefix⟩
  stops _ hv := absurd hv List.not_mem_nil
  exhausts hnone := by
    rw [hnone v List.mem_cons_self] at h
    cases h

theorem passed (h : v.answer? = Option.none)
    (hrest : Consults package inquiries (v.left package) visits w') :
    Consults package (v.inquiry :: inquiries) v.start (v :: visits) w' where
  leads := .cons hrest.leads
  inOrder := List.cons_prefix_cons.mpr ⟨rfl, hrest.inOrder⟩
  stops u hu := by
    cases visits with
    | nil => exact absurd hu List.not_mem_nil
    | cons next visits =>
      rcases List.mem_cons.mp hu with rfl | hu
      · exact h
      · exact hrest.stops u hu
  exhausts hnone := by
    rw [List.map_cons, hrest.exhausts fun u hu ↦ hnone u (List.mem_cons_of_mem v hu)]

end Consults

/-- **Asking always ends with a version**: the first answer there is, or the one for none. -/
theorem firstAnswer_consults (package : Value) (inquiries : List Inquiry) (w : World) :
    ∃ visits w', Consults package inquiries w visits w' ∧
      firstAnswer package inquiries w =
        .ok ((visits.findSome? Visit.answer?).getD (.text unknownVersion)) w' := by
  induction inquiries generalizing w with
  | nil => exact ⟨[], w, .none package w, rfl⟩
  | cons inquiry rest ih =>
    rw [firstAnswer_cons]
    cases h : (Visit.mk inquiry w).answer? with
    | some answer =>
      refine ⟨[⟨inquiry, w⟩], _, .answered h, ?_⟩
      rw [List.findSome?_cons, h]
      rfl
    | none =>
      obtain ⟨visits, w', hrest, hrun⟩ := ih ((Visit.mk inquiry w).left package)
      refine ⟨⟨inquiry, w⟩ :: visits, w', .passed h hrest, ?_⟩
      rw [List.findSome?_cons, h]
      exact hrun

/-! ## The log -/

/-- The events of the two lines that a resolver writes. -/
def versionEvents : List String := ["version_source_failed", "version_resolved"]

/-- The lines of the log that a resolver has written. -/
def World.versionLines (w : World) : List LogEntry :=
  w.log.toList.filter fun line ↦ versionEvents.contains line.event

/-- Asking the source writes none of the lines that a resolver writes. -/
def Inquiry.Reticent (inquiry : Inquiry) : Prop :=
  ∀ w, (after inquiry.ask w).versionLines = w.versionLines

namespace Visit

variable {package : Value} {v : Visit} {line : LogEntry}

theorem event_of_warning (h : v.warning? package = some line) :
    line.event = "version_source_failed" := by
  unfold warning? at h
  split at h
  · cases h
  · cases h
    rfl

theorem event_of_report (h : v.report? package = some line) : line.event = "version_resolved" := by
  obtain ⟨answer, _, rfl⟩ := Option.map_eq_some_iff.mp h
  rfl

/-- A visit adds its one line, the warning or the report. -/
theorem left_versionLines (h : v.inquiry.Reticent) :
    (v.left package).versionLines = v.start.versionLines ++ (v.line? package).toList := by
  rw [left]
  cases hline : v.line? package with
  | none => rw [Option.toList_none, List.append_nil, h]
  | some line =>
    have hevent : versionEvents.contains line.event = true := by
      rcases Option.or_eq_some_iff.mp hline with hw | ⟨_, hr⟩
      · rw [event_of_warning hw]
        rfl
      · rw [event_of_report hr]
        rfl
    rw [Option.toList_some, ← h v.start]
    simp only [World.versionLines, Array.toList_push, List.filter_append, List.filter_cons, hevent,
      if_true, List.filter_nil]

end Visit

theorem Visits.versionLines {package : Value} {w w' : World} {visits : List Visit}
    (hvisits : Visits package w visits w') (h : ∀ v ∈ visits, v.inquiry.Reticent) :
    w'.versionLines = w.versionLines ++ visits.filterMap (Visit.line? package) := by
  induction hvisits with
  | nil w => rw [List.filterMap_nil, List.append_nil]
  | @cons v visits w' _ ih =>
    rw [ih fun u hu ↦ h u (List.mem_cons_of_mem v hu),
      Visit.left_versionLines (h v List.mem_cons_self), List.append_assoc]
    cases hline : v.line? package with
    | none => rw [List.filterMap_cons_none hline, Option.toList_none, List.nil_append]
    | some line => rw [List.filterMap_cons_some hline, Option.toList_some, List.singleton_append]

/-- If only the last visit can have an answer, its report comes after all warnings. -/
theorem lines_of_stops (package : Value) {visits : List Visit}
    (h : ∀ v ∈ visits.dropLast, v.answer? = none) :
    visits.filterMap (Visit.line? package) = visits.filterMap (Visit.warning? package) ++
        (visits.findSome? (Visit.report? package)).toList := by
  induction visits with
  | nil => rfl
  | cons v visits ih =>
    cases hanswer : v.answer? with
    | none =>
      have hreport : v.report? package = none := Visit.report?_eq_none.mpr hanswer
      have hrest : ∀ u ∈ visits.dropLast, u.answer? = none := by
        intro u hu
        cases visits with
        | nil => cases hu
        | cons next visits => exact h u (List.mem_cons_of_mem v hu)
      rw [List.findSome?_cons, hreport, List.filterMap_cons, List.filterMap_cons, ih hrest,
        Visit.line?, hreport, Option.or_none]
      cases v.warning? package <;> rfl
    | some answer =>
      cases visits with
      | nil =>
        rw [List.findSome?_cons, List.filterMap_cons, List.filterMap_cons, Visit.line?,
          Visit.warning?_of_answer hanswer, Option.none_or]
        cases v.report? package <;> rfl
      | cons next visits =>
        rw [h v List.mem_cons_self] at hanswer
        cases hanswer

/-- **The log** holds a warning for each source that failed, and after them the line about the one
that answered. -/
theorem Consults.versionLines {package : Value} {inquiries : List Inquiry} {w w' : World}
    {visits : List Visit} (hvisits : Consults package inquiries w visits w')
    (h : ∀ inquiry ∈ inquiries, inquiry.Reticent) :
    w'.versionLines = w.versionLines ++ (visits.filterMap (Visit.warning? package) ++
      (visits.findSome? (Visit.report? package)).toList) := by
  have hreticent : ∀ v ∈ visits, v.inquiry.Reticent := fun v hv ↦
    h v.inquiry (hvisits.inOrder.subset (List.mem_map_of_mem hv))
  rw [hvisits.leads.versionLines hreticent, lines_of_stops package hvisits.stops]

/-! ## The sources of a resolver -/

namespace VersionSource

/-- The source as a resolver sees it when it asks for a package. -/
def inquiry (package : Value) (source : VersionSource) : Inquiry :=
  ⟨source.kindName, source.lookup package⟩

/-- The question that asking the source puts to the host. -/
def question (package : Value) : VersionSource → Event
  | .metadata => .metadataAsked package
  | .revision directory timeout =>
    .revisionAsked (match directory with
      | some path => if path.isEmpty then ownDirectory else FileSystem.pathText path
      | none => ownDirectory) timeout
  | .answering label _ => .sourceAsked label package
  | .failing label _ => .sourceAsked label package

/-- One question has been put, the host is the same, and the log holds no new line of a
resolver. -/
structure Asked (event : Event) (w w' : World) : Prop where
  trace_eq : w'.memory.trace = w.memory.trace.push event
  host_eq : w'.host = w.host
  versionLines_eq : w'.versionLines = w.versionLines

variable {event : Event} {w w' : World}

theorem Asked.unavailable (h : Asked event w w') (error : String) :
    Asked event w (after (revisionUnavailable error) w') := by
  refine ⟨h.trace_eq, h.host_eq, Eq.trans ?_ h.versionLines_eq⟩
  change (w'.log.push _).toList.filter _ = w'.log.toList.filter _
  rw [Array.toList_push, List.filter_append]
  exact List.append_nil _

theorem Asked.revisionAnswer (h : Asked event w w') (timeout : Scalar) (outcome : RevisionOutcome) :
    Asked event w (after (revisionAnswer timeout outcome) w') := by
  cases outcome with
  | output text => exact h
  | exitStatus status => exact h.unavailable _
  | timedOut => exact h.unavailable _
  | toolMissing => exact h.unavailable _

/-- The installed packages are asked, and the answer depends on the host alone. -/
theorem lookup_metadata (package : Value) (w : World) :
    VersionSource.metadata.lookup package w =
      match package.text?.bind fun name ↦ List.lookup name w.host.installed,
        w.host.lookupComplaint with
      | some version, _ => .ok ((version.map Value.text).getD .null)
          (after (onMemory (emit (.metadataAsked package))) w)
      | none, some message => .error (.lookupComplaint message)
          (after (onMemory (emit (.metadataAsked package))) w)
      | none, none => .ok .null (after (onMemory (emit (.metadataAsked package))) w) := by
  have hemit : onMemory (emit (.metadataAsked package)) w = .ok () _ := rfl
  rw [lookup, bind_of_ok hemit, get_bind, after_of_ok hemit]
  cases package.text?.bind fun name ↦ List.lookup name w.host.installed with
  | some version => rfl
  | none => cases w.host.lookupComplaint <;> rfl

/-- **Asking a source puts one question**, and writes no line that a resolver writes. -/
theorem asked_lookup (package : Value) (source : VersionSource) (w : World) :
    Asked (source.question package) w (after (source.lookup package) w) := by
  have hemit (event : Event) : Asked event w (after (onMemory (emit event)) w) := ⟨rfl, rfl, rfl⟩
  cases source with
  | metadata =>
    rw [after, lookup_metadata]
    cases package.text?.bind fun name ↦ List.lookup name w.host.installed with
    | some version => exact hemit _
    | none => cases w.host.lookupComplaint <;> exact hemit _
  | revision directory timeout => exact (hemit _).revisionAnswer timeout _
  | answering label version => exact hemit _
  | failing label message => exact hemit _

/-- Sources write none of the lines that a resolver writes. -/
theorem reticent_of_mem (package : Value) (sources : List VersionSource) :
    ∀ i ∈ sources.map (inquiry package), i.Reticent := by
  intro i h w
  obtain ⟨source, _, rfl⟩ := List.mem_map.mp h
  exact (asked_lookup package source w).versionLines_eq

end VersionSource

open VersionSource (question)

/-- The questions that were put are those of the sources that were asked. -/
theorem Visits.trace {package : Value} {w w' : World} {visits : List Visit}
    (hvisits : Visits package w visits w') {sources : List VersionSource}
    (h : visits.map Visit.inquiry <+: sources.map (VersionSource.inquiry package)) :
    w'.memory.trace.toList =
      w.memory.trace.toList ++ (sources.take visits.length).map (question package) := by
  induction hvisits generalizing sources with
  | nil w => rw [List.length_nil, List.take_zero, List.map_nil, List.append_nil]
  | @cons v visits w' _ ih =>
    cases sources with
    | nil => exact absurd (List.prefix_nil.mp h) (List.cons_ne_nil _ _)
    | cons source rest =>
      obtain ⟨hv, hrest⟩ := List.cons_prefix_cons.mp h
      have hasked : (v.left package).memory.trace
          = v.start.memory.trace.push (source.question package) := by
        rw [Visit.left_memory, hv]
        exact (VersionSource.asked_lookup package source v.start).trace_eq
      rw [ih hrest, hasked, Array.toList_push, List.append_assoc]
      rfl

theorem VersionResolver.resolve_eq (r : VersionResolver) (package : Value) :
    r.resolve package = firstAnswer package (r.sources.map (VersionSource.inquiry package)) := by
  rw [VersionResolver.resolve]
  induction r.sources with
  | nil => rfl
  | cons source rest ih => rw [VersionResolver.resolveFrom, List.map_cons, firstAnswer, ih]; rfl

/-! ## The sources that are asked unless others are named -/

namespace Host

/-- The version of an installed package, if it has one. -/
def installedVersion? (host : Host) (package : Value) : Option String :=
  ((package.text?.bind fun name ↦ List.lookup name host.installed).join).filter (!·.isEmpty)

/-- What the revision of the checkout says about the version. -/
def revisionVersion? (host : Host) : Option String :=
  match host.revision with
  | .output text =>
    if (trimText text).isEmpty then none else some ("git hash (" ++ trimText text ++ ")")
  | _ => none

end Host

theorem answer?_metadata (package : Value) (w : World) :
    (Visit.mk (VersionSource.metadata.inquiry package) w).answer? =
      (w.host.installedVersion? package).map Value.text := by
  change (match VersionSource.metadata.lookup package w with | .ok _ _ => _ | .error _ _ => _) = _
  rw [VersionSource.lookup_metadata, Host.installedVersion?]
  cases package.text?.bind fun name ↦ List.lookup name w.host.installed with
  | none => cases w.host.lookupComplaint <;> rfl
  | some version =>
    cases version with
    | none => rfl
    | some version =>
      change (if (!version.isEmpty) = true then _ else _) = _
      rw [Option.join_some, Option.filter_some]
      split <;> rfl

theorem answer?_revision (package : Value) (directory : Option String) (timeout : Scalar)
    (w : World) :
    (Visit.mk ((VersionSource.revision directory timeout).inquiry package) w).answer? =
      w.host.revisionVersion?.map Value.text := by
  change (match VersionSource.revisionAnswer timeout w.host.revision _ with
    | .ok _ _ => _ | .error _ _ => _) = _
  rw [Host.revisionVersion?]
  cases w.host.revision with
  | output text =>
    have hanswer (w₁ : World) : VersionSource.revisionAnswer timeout (.output text) w₁ =
      .ok (if (trimText text).isEmpty then .null else .text ("git hash (" ++ trimText text ++ ")"))
        w₁ := rfl
    have hset : ("git hash (" ++ trimText text ++ ")").isEmpty = false := by
      simp [String.isEmpty_eq_false_iff]
    rw [hanswer]
    by_cases hempty : (trimText text).isEmpty = true
    · simp only [if_pos hempty]
      rfl
    · simp only [if_neg hempty]
      change (if (!("git hash (" ++ trimText text ++ ")").isEmpty) = true then _ else _) = _
      rw [hset]
      rfl
  | exitStatus status => rfl
  | timedOut => rfl
  | toolMissing => rfl

/-- **The version of a package unless other sources are named**. -/
theorem VersionResolver.default_resolve (package : Value) (w : World) :
    ∃ w', VersionResolver.default.resolve package w = .ok
      (.text (((w.host.installedVersion? package).or w.host.revisionVersion?).getD unknownVersion))
      w' := by
  have hsources : VersionResolver.default.sources.map (VersionSource.inquiry package) =
    [VersionSource.metadata.inquiry package, VersionSource.ownRevision.inquiry package] := rfl
  rw [VersionResolver.resolve_eq, hsources, firstAnswer_cons, answer?_metadata]
  cases w.host.installedVersion? package with
  | some version => exact ⟨_, rfl⟩
  | none =>
    have hhost : ((Visit.mk (VersionSource.metadata.inquiry package) w).left package).host =
        w.host := by
      rw [Visit.left_host]
      exact (VersionSource.asked_lookup package .metadata w).host_eq
    simp only [Option.map_none]
    rw [firstAnswer_cons, VersionSource.ownRevision, answer?_revision, hhost]
    cases w.host.revisionVersion? with
    | some version => exact ⟨_, rfl⟩
    | none => exact ⟨_, rfl⟩

/-! ## Versions -/

/-- Four sources as a resolver sees them: the first fails, the second has nothing to say, the third
answers, and the last is not asked. -/
def sampleInquiries : List Inquiry :=
  [VersionSource.failing "first" "no answer", .answering "second" .null,
    .answering "third" (.text "4.2"), .metadata].map (VersionSource.inquiry (.text "engine"))

end LayeredConfig
