import LayeredConfig.Proofs.Server.Wording
import LayeredConfig.Server.Endpoint

/-!
# How one request is answered

Status and health ask the loader for its configuration, once each. What they answer is fixed by what
that comes to: a configuration in which name, version and mode can be read, an error of the
configuration that says something, or another failure, which neither of them has an answer for.
After the loader has been asked nothing but the log changes, and the nodes that reading adds.
-/

namespace LayeredConfig

open Memory (Beyond)
open World (Still)

/-! ## Reading the configuration -/

/-- The text of a value as it is read stays what it is. -/
theorem Memory.Sealed.display_eq {m m' : Memory} {v : Value} {b : Blueprint} (h : m.Sealed v b)
    (hm : m.forest.Sound) (hmm : Beyond m m') : m'.display v = m.display v := by
  have hview : m'.view v = m.view v := hmm.view_eq hm h.known
  have hconverted : (m.view v).Converted :=
    h.uniform.converted_graft fun c _ ↦ hm.converted_view c
  rw [display, display, hview]
  exact hconverted.display_eq (h.content ▸ h.settled) _ _

/-- In this memory and beyond, name, version and mode of the node can be read. The version and the
mode are these texts, the mode is one of the two, and the name has a text. -/
structure Memory.Introduces (m : Memory) (c : NodeId) (version mode : String) : Prop where
  reads_name : ∀ m', Beyond m m' → ∃ v m'', m'.Reads c "app_name" v m'' ∧ v ≠ .null ∧
    ∀ t, Beyond m'' t → t.display v = m''.display v
  reads_version : ∀ m', Beyond m m' → ∃ m'', m'.Reads c "katello_version" (.text version) m''
  reads_mode : ∀ m', Beyond m m' → ∃ m'', m'.Reads c "app_mode" (.text mode) m''
  mode_mem : mode ∈ Katello.appModes

theorem Memory.Introduces.beyond {m m' : Memory} {c : NodeId} {version mode : String}
    (h : m.Introduces c version mode) (hmm : Beyond m m') : m'.Introduces c version mode where
  reads_name t ht := h.reads_name t (hmm.trans ht)
  reads_version t ht := h.reads_version t (hmm.trans ht)
  reads_mode t ht := h.reads_mode t (hmm.trans ht)
  mode_mem := h.mode_mem

/-- **Derived contents that pass the rules** can be read as the status needs them. -/
theorem Katello.introduces_of_passed {m : Memory} {n : NodeId} {merged : Entries Blueprint}
    {version : String} {t : Tree} (hshows : m.Shows n (Derived.all version merged))
    (h : Passed t (Derived.all version merged)) : ∃ mode, m.Introduces n version mode := by
  obtain ⟨mode, hmem, hmode⟩ := h.mode
  obtain ⟨b, hb, htruthy⟩ := Derived.exists_name version merged
  refine ⟨mode, fun m' hmm ↦ ?_, fun m' hmm ↦ hshows.reads_scalar hmm Derived.find?_all_version,
    fun m' hmm ↦ hshows.reads_scalar hmm hmode, hmem⟩
  obtain ⟨v, m'', hreads, hsealed⟩ := hshows m' hmm "app_name" b hb
  refine ⟨v, m'', hreads, ?_, fun t ht ↦ hsealed.display_eq hreads.2.sound ht⟩
  -- nothing does not count as set
  rintro rfl
  have hset := hsealed.truthy_eq hreads.2.sound
  rw [htruthy] at hset
  cases hset

namespace Endpoint

/-! ## Replies -/

/-- What the status says about a configuration with this name, version and mode. -/
def statusReply (name version mode : String) : Response :=
  ⟨200, some (.mapping [(.text "name", .text name), (.text "version", .text version),
    (.text "mode", .text mode)])⟩

/-- What the health probe says when all is well. -/
def healthyReply : Response :=
  ⟨200, some (.mapping [(.text "status", .text "ok"), (.text "db", .text "ok"),
    (.text "config", .text "ok")])⟩

/-- What the status says when there is an error of the configuration with this text. -/
def unavailableReply (error : String) : Response :=
  ⟨503, some (.mapping [(.text "code", .text "configuration_unavailable"),
    (.text "detail", .text error)])⟩

/-- What the health probe says then, if the database can be reached. -/
def degradedReply (error : String) : Response :=
  ⟨503, some (.mapping [(.text "status", .text "degraded"), (.text "db", .text "ok"),
    (.text "config", .text ("error: " ++ error))])⟩

variable {l : Loader} {w w₁ : World} {c : NodeId} {version mode : String} {f : Failure}
  {e : ConfigurationError} {r : Request} {database : Option String}

/-! ## Status -/

theorem textOrNull_of_ne {v : Value} (hv : v ≠ .null) (m : Memory) :
    textOrNull v m = .ok (.text (m.display v)) m := by
  unfold textOrNull
  split
  · exact absurd rfl hv
  · rfl

theorem reportedMode_text (mode : String) (m : Memory) :
    reportedMode (.text mode) m = .ok (.text mode) m := by
  have hdisplay : displayValue (.text mode) m = .ok mode m := rfl
  rw [reportedMode, bind_of_ok hdisplay, ite_self]
  rfl

/-- The status says what reading the configuration gives, and reading it changes no node. -/
theorem statusOf_eq {m : Memory} (h : m.Introduces c version mode) (hm : m.forest.Sound) :
    ∃ v m₁ m₂, m.Reads c "app_name" v m₁ ∧ Beyond m m₂ ∧ statusOf c m
      = .ok (.mapping [(.text "name", .text (m₁.display v)), (.text "version", .text version),
        (.text "mode", .text mode)]) m₂ := by
  obtain ⟨v, m₁, hname, hv, hdisplay⟩ := h.reads_name m (.refl hm)
  obtain ⟨m₂, hversion⟩ := h.reads_version m₁ hname.2
  have hm₂ := hname.2.trans hversion.2
  obtain ⟨m₃, hmode⟩ := h.reads_mode m₂ hm₂
  refine ⟨v, m₁, m₃, hname, hm₂.trans hmode.2, ?_⟩
  rw [statusOf, bind_of_ok hname.1, bind_of_ok hversion.1, bind_of_ok hmode.1,
    bind_of_ok (textOrNull_of_ne hv m₃), hdisplay m₃ (hversion.2.trans hmode.2),
    bind_of_ok (textOrNull_of_ne (v := .text version) nofun m₃), bind_of_ok (reportedMode_text mode m₃)]
  rfl

/-- **The status of a loader that gives a configuration.** -/
theorem status_of_ok (h : l.config w = .ok c w₁) (hc : w₁.memory.Introduces c version mode)
    (hm : w₁.memory.forest.Sound) :
    ∃ v m w₂, w₁.memory.Reads c "app_name" v m ∧ Still w₁ w₂ ∧
      status l w = .ok (statusReply (m.display v) version mode) w₂ := by
  obtain ⟨v, m, m', hname, hmm, hstatus⟩ := statusOf_eq hc hm
  refine ⟨v, m, _, hname, (Still.refl hm).withMemory hmm, tryCatch_of_ok ?_⟩
  rw [bind_of_ok h, bind_of_ok (onMemory_of_ok hstatus)]
  rfl

/-- A detail that says something is what the reply says. -/
theorem unavailable_response {s : String} (h : s ≠ "") (m : Memory) :
    (ServiceError.unavailable.withDetail m.forest (.text s) .null).response
      = unavailableReply s := by
  have htruthy : m.forest.truthy (.text s) = true := by simp [Forest.truthy, Scalar.truthy, h]
  rw [ServiceError.withDetail, htruthy, if_pos rfl]
  rfl

/-- A failure is answered with another status, and if it is an error of the configuration that says
something, then with what it says. -/
theorem statusFault_failure (f : Failure) (hw : w.memory.forest.Sound) :
    ∃ reply w', statusFault (.failure f) w = .ok reply w' ∧ Still w w' ∧ reply.status ≠ 200 ∧
      ∀ e, f = .configuration e → f.Worded →
        reply = unavailableReply (e.message w.memory.nameOf) := by
  have hlogged : ∀ log, Still w { w with log } := (Still.refl hw).logged
  cases f with
  | configuration e =>
    refine ⟨_, _, rfl, hlogged _, (by decide : 503 ≠ 200), ?_⟩
    rintro _ ⟨⟩ hworded
    exact unavailable_response (hworded e rfl w.memory.nameOf) _
  | _ => exact ⟨_, _, rfl, hlogged _, (by decide : 500 ≠ 200), nofun⟩

/-- **The status of a loader that fails.** -/
theorem status_of_error (h : l.config w = .error f w₁) (hm : w₁.memory.forest.Sound) :
    ∃ reply w₂, status l w = .ok reply w₂ ∧ Still w₁ w₂ ∧ reply.status ≠ 200 ∧
      ∀ e, f = .configuration e → f.Worded →
        reply = unavailableReply (e.message w₁.memory.nameOf) := by
  have hstatus : status l w = statusFault (.failure f) w₁ := tryCatch_of_error (bind_of_error h)
  rw [hstatus]
  exact statusFault_failure f hm

/-! ## Health -/

theorem configurationState_of_ok (h : l.config w = .ok c w₁) :
    configurationState l w = .ok "ok" w₁ :=
  tryCatch_of_ok (bind_of_ok (discard_of_ok h))

theorem configurationState_of_error (h : l.config w = .error (.configuration e) w₁) :
    ∃ log, configurationState l w
      = .ok ("error: " ++ e.message w₁.memory.nameOf) { w₁ with log } :=
  ⟨_, tryCatch_of_error (bind_of_error (discard_of_error h))⟩

/-- Another failure is left to the server. -/
theorem configurationState_of_other (h : l.config w = .error f w₁)
    (hf : ∀ e, f ≠ .configuration e) : configurationState l w = .error f w₁ := by
  refine (tryCatch_of_error (bind_of_error (discard_of_error h))).trans ?_
  cases f with
  | configuration e => exact absurd rfl (hf e)
  | _ => rfl

theorem error_ne_ok (text : String) : "error: " ++ text ≠ "ok" := by
  intro h
  have hchars := congrArg String.toList h
  rw [String.toList_append] at hchars
  cases hchars

/-- The state is well only if the loader gives a configuration. -/
theorem config_of_configurationState (h : configurationState l w = .ok "ok" w₁) :
    ∃ c, l.config w = .ok c w₁ := by
  cases hconfig : l.config w with
  | ok c w₂ =>
    rw [configurationState_of_ok hconfig] at h
    cases h
    exact ⟨c, rfl⟩
  | error f w₂ =>
    by_cases hf : ∃ e, f = .configuration e
    · obtain ⟨e, rfl⟩ := hf
      obtain ⟨log, hstate⟩ := configurationState_of_error hconfig
      exact absurd (EStateM.Result.ok.inj (hstate.symm.trans h)).1 (error_ne_ok _)
    · rw [configurationState_of_other hconfig fun e he ↦ hf ⟨e, he⟩] at h
      cases h

/-- **The health of a server** whose loader gives a configuration. -/
theorem health_of_ok (h : l.config w = .ok c w₁) : health l none w = .ok healthyReply w₁ := by
  have hdatabase : databaseState none w = .ok "ok" w := rfl
  rw [health, bind_of_ok hdatabase, bind_of_ok (configurationState_of_ok h)]
  rfl

/-- **The health of a server** whose loader fails with an error of the configuration. -/
theorem health_of_error (h : l.config w = .error (.configuration e) w₁) :
    ∃ w₂, health l none w = .ok (degradedReply (e.message w₁.memory.nameOf)) w₂ := by
  have hdatabase : databaseState none w = .ok "ok" w := rfl
  obtain ⟨log, hstate⟩ := configurationState_of_error h
  have hfailing : ("error: " ++ e.message w₁.memory.nameOf == "ok") = false :=
    beq_eq_false_iff_ne.mpr (error_ne_ok _)
  rw [health, bind_of_ok hdatabase, bind_of_ok hstate, hfailing, Bool.and_false]
  exact ⟨_, rfl⟩

/-- All is well only if the loader gives a configuration. -/
theorem config_of_health {reply : Response} (h : health l database w = .ok reply w₁)
    (hreply : reply.status = 200) : ∃ s w' c, databaseState database w = .ok s w' ∧
      l.config w' = .ok c w₁ := by
  obtain ⟨s, w', hdatabase, h⟩ := bind_eq_ok.mp h
  obtain ⟨t, w₂, hstate, h⟩ := bind_eq_ok.mp h
  cases h
  have ht : t = "ok" := by
    cases hhealthy : s == "ok" && t == "ok" with
    | true => exact eq_of_beq (Bool.and_eq_true_iff.mp hhealthy).2
    | false =>
      rw [hhealthy] at hreply
      cases hreply
  subst ht
  obtain ⟨c, hc⟩ := config_of_configurationState hstate
  exact ⟨s, w', c, hdatabase, hc⟩

/-! ## Requests -/

end Endpoint

namespace Request

/-- The request gets what is at the path. -/
structure Gets (r : Request) (path : String) : Prop where
  verb : r.verb = "GET"
  route : r.route = path

/-- Who sent the request is content with JSON: no other format is asked for, and of the ranges of
media types one covers it. -/
structure TakesJson (r : Request) : Prop where
  format : (r.parameter? "format").getD "" ∈ ["", "json"]
  accept : (splitAt (· == ',') ((r.header? "Accept").getD "*/*").toList).any
    (Endpoint.acceptsJson <| String.ofList ·) = true

end Request

namespace Endpoint

variable {l : Loader} {w w₁ : World} {r : Request} {database : Option String} {reply : Response}

theorem refuseStatus_eq (reason : RefusalReason) (w : World) :
    ∃ body, refuseStatus reason w = .ok ⟨reason.status, body⟩ w := ⟨_, rfl⟩

/-- The status is asked, or the request is refused, or it asks what it may ask. -/
theorem answerStatus_cases (l : Loader) (r : Request) :
    answerStatus l r = status l ∨
      (∃ reason, answerStatus l r = refuseStatus reason ∧ reason.status ≠ 200) ∨
      r.verb = "OPTIONS" ∧ answerStatus l r = pure ⟨200, some statusDescription⟩ := by
  unfold answerStatus
  dsimp only
  split
  · exact .inr (.inl ⟨_, rfl, by decide⟩)
  split
  · exact .inr (.inl ⟨_, rfl, by decide⟩)
  split
  · exact .inl rfl
  split
  · next hverb => exact .inr (.inr ⟨hverb, rfl⟩)
  · exact .inr (.inl ⟨_, rfl, (by decide : 405 ≠ 200)⟩)

theorem answerStatus_of_takesJson (hr : r.Gets statusPath) (hjson : r.TakesJson) :
    answerStatus l r = status l := by
  have hformat : (!((r.parameter? "format").getD "").isEmpty
      && (r.parameter? "format").getD "" != "json") = false := by
    rcases List.mem_pair.mp hjson.format with h | h <;> rw [h] <;> rfl
  simp only [answerStatus, hformat, hjson.accept, hr.verb]
  rfl

/-- What is sent for a response. -/
def sent (r : Request) (reply : Response) : Answer :=
  if lacksSlash r then ⟨⟨301, none⟩, .absent⟩
  else ⟨⟨reply.status, if r.verb = "HEAD" then none else reply.body⟩, identifierOf r⟩

theorem sent_of_gets {path : String} (hr : r.Gets path) (hpath : path ∈ [healthPath, statusPath])
    (reply : Response) : sent r reply = ⟨reply, identifierOf r⟩ := by
  have hslash : lacksSlash r = false := by
    rw [lacksSlash, hr.route]
    rcases List.mem_pair.mp hpath with rfl | rfl <;> decide +kernel
  rw [sent, hslash, hr.verb]
  rfl

/-- An answer is a response that is noted in the log and sent. -/
theorem answer_of_response (h : responseTo l database r w = .ok reply w₁) :
    ∃ log, answer l database r w = .ok (sent r reply) { w₁ with log } := by
  rw [answer, bind_of_ok h, sent]
  cases lacksSlash r <;> exact ⟨_, rfl⟩

theorem responseTo_health (hr : r.route = healthPath) (h : health l database w = .ok reply w₁) :
    responseTo l database r w = .ok reply w₁ := by
  rw [responseTo, if_pos hr]
  exact tryCatch_of_ok h

theorem responseTo_status (hr : r.route = statusPath) (h : answerStatus l r w = .ok reply w₁) :
    responseTo l database r w = .ok reply w₁ := by
  rw [responseTo, hr, if_neg (by decide), if_pos rfl]
  exact tryCatch_of_ok h

end Endpoint

end LayeredConfig
