import LayeredConfig.Text.Blank

/-!
# Tokens of a template

A template is text with three kinds of insertion, each within one line: `{{ … }}` is replaced by a
value, a tag `{% … %}` controls what becomes of the text around it, and a remark `{# … #}` is
dropped. An opening mark without its closing mark on the same line is text.

Between a tag `verbatim` and its closing tag everything is text. Words behind `verbatim` have to be
repeated behind the name of the closing tag.
-/

namespace LayeredConfig

namespace Template

/-- A part of a template's text, before it is known which insertions count. -/
inductive Piece where
  | text (cs : List Char)
  /-- An insertion: the mark inside its braces and what stands between the marks. -/
  | insertion (mark : Char) (inside : List Char)
deriving DecidableEq, Repr, Inhabited

/-- A token of a template. -/
inductive Token where
  | text (cs : List Char)
  | expression (content : List Char)
  | tag (content : List Char)
  | remark
deriving DecidableEq, Repr, Inhabited

/-- The mark that closes an insertion. -/
def closingMark (mark : Char) : Char := if mark = '{' then '}' else mark

/-- The text up to a closing mark on the same line, and what follows the mark. -/
def untilClosing (mark : Char) : List Char → Option (List Char × List Char)
  | '\n' :: _ => none
  | c :: '}' :: rest =>
    if c = mark then some ([], rest)
    else (untilClosing mark ('}' :: rest)).map fun (inside, after) ↦ (c :: inside, after)
  | c :: rest => (untilClosing mark rest).map fun (inside, after) ↦ (c :: inside, after)
  | [] => none

/-- The insertion at the start of a text, and what follows it. -/
def insertion? : List Char → Option (Piece × List Char)
  | '{' :: mark :: rest =>
    if mark = '%' ∨ mark = '{' ∨ mark = '#' then
      (untilClosing (closingMark mark) rest).map fun (inside, after) ↦
        (.insertion mark inside, after)
    else none
  | _ => none

private def flush (pending : List Char) : List Piece :=
  if pending.isEmpty then [] else [.text pending.reverse]

/-- The pieces of a text, given the text read before in reverse. -/
def piecesFrom : (fuel : Nat) → (pending rest : List Char) → List Piece
  | 0, pending, _ => flush pending
  | _, pending, [] => flush pending
  | fuel + 1, pending, c :: rest =>
    match insertion? (c :: rest) with
    | some (piece, after) => flush pending ++ piece :: piecesFrom fuel [] after
    | none => piecesFrom fuel (c :: pending) rest

/-- The pieces of a text. -/
def pieces (cs : List Char) : List Piece := piecesFrom (cs.length + 1) [] cs

/-- The text that a piece was read from. -/
def Piece.written : Piece → List Char
  | .text cs => cs
  | .insertion mark inside => '{' :: mark :: inside ++ [closingMark mark, '}']

/-- The start of the tags that switch insertions off. -/
def verbatimWord : List Char := "verbatim".toList

/-- Whether a tag switches insertions off. -/
def opensVerbatim (content : List Char) : Bool :=
  content.take 9 = verbatimWord || content.take 9 = verbatimWord ++ [' ']

/-- The tokens of pieces; `closing` is the tag that ends the stretch of plain text, if there is
one. -/
def tokensFrom (closing : Option (List Char)) : List Piece → List Token
  | [] => []
  | .text cs :: rest => .text cs :: tokensFrom closing rest
  | .insertion mark inside :: rest =>
    let content := trimChars inside
    match closing with
    | some tag =>
      if mark = '%' ∧ content = tag then .tag content :: tokensFrom none rest
      else .text (Piece.insertion mark inside).written :: tokensFrom closing rest
    | none =>
      if mark = '%' then
        let closing := if opensVerbatim content then some ("end".toList ++ content) else none
        .tag content :: tokensFrom closing rest
      else if mark = '{' then .expression content :: tokensFrom none rest
      else .remark :: tokensFrom none rest

/-- The tokens of a template. -/
def tokens (text : String) : List Token := tokensFrom none (pieces text.toList)

/-! ## Nothing is lost -/

theorem written_of_untilClosing {mark : Char} {cs inside after : List Char}
    (h : untilClosing mark cs = some (inside, after)) :
    cs = inside ++ mark :: '}' :: after := by
  induction cs using untilClosing.induct mark generalizing inside after with
  | case1 => simp [untilClosing] at h
  | case2 => simp_all [untilClosing]
  | case3 c rest _ hc ih =>
    simp only [untilClosing, hc, if_false, Option.map_eq_some_iff] at h
    obtain ⟨⟨i, a⟩, hi, he⟩ := h
    cases he
    simp [ih hi]
  | case4 c rest _ _ ih =>
    simp only [untilClosing, Option.map_eq_some_iff] at h
    obtain ⟨⟨i, a⟩, hi, he⟩ := h
    cases he
    simp [ih hi]
  | case5 => simp [untilClosing] at h

end Template

end LayeredConfig
