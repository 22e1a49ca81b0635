import LayeredConfig.Text.Blank

/-!
# Words of a tag

A tag is cut into words at its blanks. A quoted text belongs to one word as a whole, blanks
included, and a backslash inside it keeps the next character from ending it. A quote that is never
closed is an ordinary character. A text marked for localization, as in `_("a" "b")`, is one word.
-/

namespace LayeredConfig

namespace Template

/-- The rest of a quoted text including its closing quote, and what follows. -/
def quotedRest (quote : Char) : List Char → Option (List Char × List Char)
  | [] => none
  | '\\' :: c :: rest => (quotedRest quote rest).map fun (cs, after) ↦ ('\\' :: c :: cs, after)
  | c :: rest =>
    if c = quote then some ([c], rest)
    else if c = '\\' then none
    else (quotedRest quote rest).map fun (cs, after) ↦ (c :: cs, after)

/-- The quoted text at the start of a text, its quotes included, and what follows. -/
def quotedText? : List Char → Option (List Char × List Char)
  | c :: rest =>
    if c = '"' ∨ c = '\'' then (quotedRest c rest).map fun (cs, after) ↦ (c :: cs, after)
    else none
  | [] => none

private def isPlain (c : Char) : Bool := !isBlank c && c != '"' && c != '\''

/-- Quoted texts, each with the plain characters behind it. -/
def quotedRun : (fuel : Nat) → List Char → List Char × List Char
  | 0, cs => ([], cs)
  | fuel + 1, cs =>
    match quotedText? cs with
    | none => ([], cs)
    | some (quoted, after) =>
      let (more, rest) := quotedRun fuel (after.dropWhile isPlain)
      (quoted ++ after.takeWhile isPlain ++ more, rest)

/-- The word at the start of a text that starts with no blank. -/
def takeWord (cs : List Char) : List Char × List Char :=
  match quotedRun cs.length (cs.dropWhile isPlain) with
  | ([], _) => (cs.takeWhile (!isBlank ·), cs.dropWhile (!isBlank ·))
  | (run, rest) => (cs.takeWhile isPlain ++ run, rest)

/-- The words of a text, quoted texts kept together. -/
def wordsFrom : (fuel : Nat) → List Char → List (List Char)
  | 0, _ => []
  | fuel + 1, cs =>
    match trimStart cs with
    | [] => []
    | c :: rest =>
      let (word, rest) := takeWord (c :: rest)
      word :: wordsFrom fuel rest

/-- What ends a text marked for localization that the word opens. -/
private def localizedEnd? : List Char → Option (List Char)
  | '_' :: '(' :: c :: _ => if c = '"' ∨ c = '\'' then some [c, ')'] else none
  | _ => none

/-- Joins the words of every text marked for localization by blanks; `opened` is the text being
joined and what ends it. -/
private def joinLocalized (opened : Option (List Char × List Char)) :
    List (List Char) → List (List Char)
  | [] => (opened.map (·.1)).toList
  | word :: rest =>
    match opened with
    | some (before, ending) =>
      let text := before ++ ' ' :: word
      if ending.isSuffixOf word then text :: joinLocalized none rest
      else joinLocalized (some (text, ending)) rest
    | none =>
      match localizedEnd? word with
      | some ending =>
        if ending.isSuffixOf word then word :: joinLocalized none rest
        else joinLocalized (some (word, ending)) rest
      | none => word :: joinLocalized none rest

/-- The words of a tag. -/
def words (content : List Char) : List (List Char) :=
  joinLocalized none (wordsFrom (content.length + 1) content)

/-- The stretches between blanks; quotes have no meaning. -/
def plainWordsFrom : (fuel : Nat) → List Char → List (List Char)
  | 0, _ => []
  | fuel + 1, cs =>
    match trimStart cs with
    | [] => []
    | c :: rest =>
      (c :: rest).takeWhile (!isBlank ·) ::
        plainWordsFrom fuel ((c :: rest).dropWhile (!isBlank ·))

/-- The stretches of a text between blanks. -/
def plainWords (content : List Char) : List (List Char) :=
  plainWordsFrom (content.length + 1) content

end Template

end LayeredConfig
