import LayeredConfig.Text.CaseMap
import LayeredConfig.Text.CommaList
import LayeredConfig.World

/-!
# Settings from the process environment

A setting is the value of a variable of the process environment, or a default when the variable
is not there. It is a text, a truth value written as a word, or a list of texts.
-/

namespace LayeredConfig

/-- The value of a variable, or the default. A variable without either is an error. -/
def readVariable (name : String) (default : Option String) : Action String := do
  match ((← get).environment.find? name).or default with
  | some text => return text
  | none => throw (.undefinedSetting name)

/-- The words for true. -/
def trueWords : List String := ["y", "yes", "t", "true", "on", "1"]

/-- The words for false. -/
def falseWords : List String := ["n", "no", "f", "false", "off", "0"]

/-- The truth value that a word stands for in any case; no word at all is false. -/
def truthOfWord (word : String) : Except Failure Bool :=
  let lower := lowerCase word
  if trueWords.contains lower then .ok true
  else if lower.isEmpty ∨ falseWords.contains lower then .ok false
  else .error (.invalidTruthValue lower)

/-- The texts of a list. -/
def textsOfList (text : String) : Except Failure (List String) :=
  match CommaList.read text with
  | .ok items => .ok items
  | .error .openQuote => .error .unbalancedQuotes
  | .error .danglingEscape => .error .danglingEscape

/-- The truth value of a variable. -/
def readTruth (name : String) (default : Bool) : Action Bool := do
  ofOutcome (truthOfWord (← readVariable name (some (if default then "true" else "false"))))

/-- The list of a variable. -/
def readList (name : String) (default : Option String) : Action (List String) := do
  ofOutcome (textsOfList (← readVariable name default))

end LayeredConfig
