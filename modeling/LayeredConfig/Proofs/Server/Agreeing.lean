import LayeredConfig.Proofs.Server.Staging

/-!
# Status and health agree

Requests come one after the other, and between them files and the process environment may change in
any way. Every request leaves the loader of the server at the same or a later stage, and at each of
them both endpoints answer by what asking for the configuration comes to.
-/

namespace LayeredConfig

namespace Endpoint

variable {l : Loader} {d : Deployment} {environment : Option String} {w w₀ w₁ : World} {c : NodeId}
  {version mode : String} {f : Failure} {e : ConfigurationError} {r : Request} {a : Answer}
  {database : Option String} {reply : Response} {past : List (Request × Answer)}

/-! ## One request -/

/-- How a server answers requests for its status and for its health while its database can be
reached. -/
structure Answers (l : Loader) (w : World) (forStatus forHealth : Response) : Prop where
  status : ∀ r database, r.Gets statusPath → r.TakesJson →
    ∃ w', answer l database r w = .ok ⟨forStatus, identifierOf r⟩ w'
  health : ∀ r, r.Gets healthPath → ∃ w', answer l none r w = .ok ⟨forHealth, identifierOf r⟩ w'

/-- A response that either endpoint comes to is sent as it is. -/
theorem answer_of_gets {path : String} (hr : r.Gets path) (hpath : path ∈ [healthPath, statusPath])
    (h : responseTo l database r w = .ok reply w₁) :
    ∃ w', answer l database r w = .ok ⟨reply, identifierOf r⟩ w' := by
  obtain ⟨log, hanswer⟩ := answer_of_response h
  rw [sent_of_gets hr hpath] at hanswer
  exact ⟨_, hanswer⟩

theorem answers_of_replies {forStatus forHealth : Response} {u u' : World}
    (hstatus : status l w = .ok forStatus u) (hhealth : health l none w = .ok forHealth u') :
    Answers l w forStatus forHealth where
  status r database hr hjson := by
    rw [← answerStatus_of_takesJson hr hjson] at hstatus
    exact answer_of_gets hr (by simp) (responseTo_status hr.route hstatus)
  health r hr := answer_of_gets hr (by simp) (responseTo_health hr.route hhealth)

/-- **Both endpoints tell of the configuration** if there is one. -/
theorem answers_of_ok (h : l.config w = .ok c w₁) (hc : w₁.memory.Introduces c version mode)
    (hm : w₁.memory.forest.Sound) : ∃ v m, w₁.memory.Reads c "app_name" v m ∧
      Answers l w (statusReply (m.display v) version mode) healthyReply := by
  obtain ⟨v, m, w₂, hname, _, hstatus⟩ := status_of_ok h hc hm
  exact ⟨v, m, hname, answers_of_replies hstatus (health_of_ok h)⟩

/-- **Both endpoints tell of the error** if there is one that says something. -/
theorem answers_of_error (h : l.config w = .error (.configuration e) w₁)
    (he : (Failure.configuration e).Worded) (hm : w₁.memory.forest.Sound) :
    Answers l w (unavailableReply (e.message w₁.memory.nameOf))
      (degradedReply (e.message w₁.memory.nameOf)) := by
  obtain ⟨reply, w₂, hstatus, _, _, hreply⟩ := status_of_error h hm
  obtain ⟨w₃, hhealth⟩ := health_of_error h
  rw [hreply e rfl he] at hstatus
  exact answers_of_replies hstatus hhealth

/-! ## What a request leaves -/

open Loader (Advances Stage)

theorem advances_databaseState (database : Option String) :
    Keeps l.Advances (databaseState database) := by
  cases database with
  | none => exact .pure _
  | some error => exact .bind (Loader.advances_record _ _ _) fun _ ↦ .pure _

section Serves

variable (hl : l.Serves d) (henvironment : d.environment = environmentValue environment)

include hl henvironment

theorem advances_status : Keeps l.Advances (status l) := by
  intro w hplain h
  cases h.outcome hl henvironment hplain with
  | given config advance known =>
    obtain ⟨version, mode, hc⟩ := advance.stage.introduces known
    obtain ⟨_, _, w₂, _, hstill, hstatus⟩ := status_of_ok config hc advance.stage.sound
    rw [after_of_ok hstatus]
    exact advance.still hstill
  | failed config advance _ =>
    obtain ⟨_, w₂, hstatus, hstill, _⟩ := status_of_error config advance.stage.sound
    rw [after_of_ok hstatus]
    exact advance.still hstill

theorem advances_health (database : Option String) : Keeps l.Advances (health l database) := by
  refine .bind (advances_databaseState database) fun _ ↦ .bind (.tryCatch ?_ fun f ↦ ?_) fun _ ↦
    .pure _
  · exact .bind ((Loader.advances_config hl henvironment).map _) fun _ ↦ .pure _
  · split
    · refine .bind (.bind .get fun _ ↦ .pure _) fun _ ↦ ?_
      exact .bind (Loader.advances_record _ _ _) fun _ ↦ .pure _
    · exact .throw _

theorem advances_responseTo (database : Option String) (r : Request) :
    Keeps l.Advances (responseTo l database r) := by
  refine .tryCatch ?_ fun _ ↦ .pure _
  split
  · exact advances_health hl henvironment database
  split
  · rcases answerStatus_cases l r with h | ⟨reason, h, _⟩ | ⟨_, h⟩ <;> rw [h]
    · exact advances_status hl henvironment
    · intro w
      obtain ⟨body, hrefused⟩ := refuseStatus_eq reason w
      rw [after_of_ok hrefused]
      exact Std.Refl.refl w
    · exact .pure _
  · exact .pure _

/-- **Every request** leaves the loader at the same or a later stage. -/
theorem advances_answer (database : Option String) (r : Request) :
    Keeps l.Advances (answer l database r) := by
  refine (advances_responseTo hl henvironment database r).bind fun reply ↦ ?_
  refine (Loader.advances_record _ _ _).bind fun _ ↦ ?_
  split
  · exact .pure _
  · exact .pure _

/-! ### What is known if it is well -/

theorem known_of_status (hplain : w.files.Plain) (h : l.Stage w)
    (hstatus : status l w = .ok reply w₁) (hreply : reply.status = 200) :
    ∃ c, (w₁.memo l.number).config = some c := by
  cases h.outcome hl henvironment hplain with
  | given config advance known =>
    obtain ⟨version, mode, hc⟩ := advance.stage.introduces known
    obtain ⟨_, _, _, _, hstill, hok⟩ := status_of_ok config hc advance.stage.sound
    cases hok.symm.trans hstatus
    exact ⟨_, (congrArg Memo.config (hstill.memo_eq _)).trans known⟩
  | failed config advance _ =>
    obtain ⟨_, _, hok, _, hother, _⟩ := status_of_error config advance.stage.sound
    cases hok.symm.trans hstatus
    exact absurd hreply hother

theorem known_of_health (hplain : w.files.Plain) (h : l.Stage w)
    (hhealth : health l database w = .ok reply w₁) (hreply : reply.status = 200) :
    ∃ c, (w₁.memo l.number).config = some c := by
  obtain ⟨_, w', c, hdatabase, hconfig⟩ := config_of_health hhealth hreply
  have hadvance := (advances_databaseState database).of_ok hdatabase hplain h
  cases hadvance.stage.outcome hl henvironment (hadvance.files_eq ▸ hplain) with
  | given config _ known =>
    cases config.symm.trans hconfig
    exact ⟨c, known⟩
  | failed config _ _ => cases config.symm.trans hconfig

omit hl henvironment in
/-- A failure that nothing answers is no answer that all is well. -/
theorem ok_of_guarded {x : Action Response} (hreply : reply.status = 200)
    (h : tryCatch x (fun _ ↦ pure ⟨500, none⟩) w = .ok reply w₁) : x w = .ok reply w₁ := by
  cases hx : x w with
  | ok b u => exact (tryCatch_of_ok hx).symm.trans h
  | error f u =>
    rw [tryCatch_of_error hx] at h
    cases h
    cases hreply

/-- **Once the status or the health is well**, the configuration is known. -/
theorem known_of_answer (hplain : w.files.Plain) (h : l.Stage w)
    (hanswer : answer l database r w = .ok a w₁) (hr : r.Gets statusPath ∨ r.Gets healthPath)
    (ha : a.response.status = 200) : ∃ c, (w₁.memo l.number).config = some c := by
  obtain ⟨reply, w₂, hresponse, _⟩ := bind_eq_ok.mp hanswer
  obtain ⟨log, hsent⟩ := answer_of_response hresponse
  cases hsent.symm.trans hanswer
  suffices hknown : ∃ c, (w₂.memo l.number).config = some c from hknown
  rcases hr with hr | hr
  · rw [sent_of_gets hr (by simp)] at ha
    rw [responseTo, hr.route, if_neg (by decide), if_pos rfl] at hresponse
    have hstatus := ok_of_guarded ha hresponse
    rcases answerStatus_cases l r with heq | ⟨reason, heq, hother⟩ | ⟨hverb, _⟩
    · rw [heq] at hstatus
      exact known_of_status hl henvironment hplain h hstatus ha
    · obtain ⟨body, hrefused⟩ := refuseStatus_eq reason w
      rw [heq, hrefused] at hstatus
      cases hstatus
      exact absurd ha hother
    · exact absurd (hverb.symm.trans hr.verb) (by decide)
  · rw [sent_of_gets hr (by simp)] at ha
    rw [responseTo, if_pos hr.route] at hresponse
    exact known_of_health hl henvironment hplain h (ok_of_guarded ha hresponse) ha

end Serves

/-! ## Requests one after the other -/

/-- The server has answered these requests, the latest first, and files and the process environment
may have changed before each of them. -/
inductive Served (l : Loader) (w₀ : World) : List (Request × Answer) → World → Prop
  | start : Served l w₀ [] w₀
  | answered {past : List (Request × Answer)} {w w' : World} (h : Served l w₀ past w)
      {files : FileSystem} (plain : files.Plain) {environment : Entries String}
      {database : Option String} {r : Request} {a : Answer}
      (answered : answer l database r (w.changed files environment) = .ok a w') :
      Served l w₀ ((r, a) :: past) w'

/-- The status or the health was asked for, and it was well. -/
def Well (p : Request × Answer) : Prop :=
  (p.1.Gets statusPath ∨ p.1.Gets healthPath) ∧ p.2.response.status = 200

/-- **A server that answers requests** passes through the stages, and once status or health have been
well it stays with the configuration. -/
theorem Served.stage (hl : l.Serves d) (henvironment : d.environment = environmentValue environment)
    (h₀ : l.Stage w₀) (h : Served l w₀ past w) :
    l.Stage w ∧ ∀ p ∈ past, Well p → ∃ c, (w.memo l.number).config = some c := by
  induction h with
  | start => exact ⟨h₀, fun _ hp ↦ absurd hp List.not_mem_nil⟩
  | @answered past w w' _ files plain environment database r a answered ih =>
    obtain ⟨hstage, hknown⟩ := ih
    have hchanged := hstage.changed files environment
    have hadvance := (advances_answer hl henvironment database r).of_ok answered plain hchanged
    refine ⟨hadvance.stage, fun p hp hwell ↦ ?_⟩
    rcases List.mem_cons.mp hp with rfl | hp
    · exact known_of_answer hl henvironment plain hchanged answered hwell.1 hwell.2
    · obtain ⟨c, hc⟩ := hknown p hp hwell
      exact ⟨c, hadvance.known c hc⟩

end Endpoint

/-! ## The server -/

/-- A server in production that reads one file, and loads it while it starts. -/
def sampleDeployment : Deployment where
  environment := .text "production"
  configPaths := ["katello.yml"]
  passphraseKey := .text ""
  loadOnStartup := true
  ready := true

/-- A request that gets what is at a path. -/
def Request.getting (path : String) (headers : List (String × String)) : Request :=
  ⟨"GET", path, headers⟩

/-- The files of a server with a complete file. -/
def sampleFiles : FileSystem := (Katello.worldOf Katello.sampleDocument).files

namespace Deployment

open Endpoint

/-- Whether asking for the configuration without a file ends in an error of the configuration, and
the statuses of two answers: the health without a file, and then the status with one. -/
def probe (d : Deployment) : Action (Bool × ℕ × ℕ) := do
  let (l, _) ← d.startUp
  modify (·.changed ⟨[], []⟩ [])
  let refused := match l.config (← get) with
    | .error (.configuration _) _ => true
    | _ => false
  let first ← answer l none (.getting healthPath [])
  modify (·.changed sampleFiles [])
  let second ← answer l none (.getting statusPath [])
  return (refused, first.response.status, second.response.status)

/-- A request for the status whose client takes nothing but HTML. -/
def htmlRequest : Request := .getting statusPath [("Accept", "text/html")]

/-- Whether a server that has started would give a configuration, and the status of its answer to
that request. -/
def probeHtml (d : Deployment) : Action (Bool × ℕ) := do
  let (l, _) ← d.startUp
  let loaded := succeeds l.config (← get)
  let a ← answer l none htmlRequest
  return (loaded, a.response.status)

end Deployment

end LayeredConfig
