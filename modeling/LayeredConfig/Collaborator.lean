import LayeredConfig.Secret.Password
import LayeredConfig.Text.CaseMap
import LayeredConfig.Version

/-!
# Collaborators

A loader asks others for the current environment, for the password behind a stored one, and for
the version of a package. A `Reply` describes what such a collaborator does when it is asked, and
`askEnvironment`, `askPassword` and `askVersion` ask one and leave an event.
-/

namespace LayeredConfig

/-- What a collaborator does when it is asked. -/
inductive Reply where
  | answer (v : Value)
  /-- Gives one value after the other and then the last one again and again. The tally of the given
  number counts the calls. -/
  | inTurn (tally : Nat) (values : List Value)
  | failing (message : String)
  /-- Gives the question in upper case. -/
  | upper
  /-- Gives the question back. -/
  | echo
  | cipher (c : PasswordCipher)
  | versions (r : VersionResolver)
deriving Repr, Inhabited

/-- A value in upper case; only texts and bytes have one. -/
def Value.upper : Value → Except Failure Value
  | .text s => .ok (.text (upperCase s))
  | .scalar (.bytes bs) => .ok (.scalar (.bytes (bs.map fun b ↦
      if 0x61 ≤ b ∧ b ≤ 0x7a then b - 0x20 else b)))
  | v => .error (.missingAttribute v.qualifiedKindName "upper")

/-- Starts a tally. -/
def newTally : Action Nat :=
  modifyGet fun w ↦ (w.tallies.size, { w with tallies := w.tallies.push 0 })

/-- Counts a call on a tally and gives the number of calls before it. -/
def countCall (tally : Nat) : Action Nat :=
  modifyGet fun w ↦
    ((w.tallies[tally]?).getD 0, { w with tallies := w.tallies.modify tally (· + 1) })

/-- Asks for a reply to a question. -/
def Reply.run (question : Value) : Reply → Action Value
  | .answer v => return v
  | .inTurn tally values => do
    let calls ← countCall tally
    return ((values[calls]?).or values.getLast?).getD .null
  | .failing message => throw (.computation message)
  | .upper => ofOutcome question.upper
  | .echo => return question
  | .cipher c => ofOutcome (c.decrypt question)
  | .versions r => r.resolve question

/-- Asks a collaborator for the current environment. -/
def askEnvironment (r : Reply) : Action Value := do
  onMemory (emit .environmentAsked)
  r.run .null

/-- Asks a collaborator for the password behind a stored one. -/
def askPassword (r : Reply) (stored : Value) : Action Value := do
  onMemory (emit (.decrypted stored))
  r.run stored

/-- Asks a collaborator for the version of a package. -/
def askVersion (r : Reply) (package : Value) : Action Value := do
  onMemory (emit (.versionAsked package))
  r.run package

end LayeredConfig
