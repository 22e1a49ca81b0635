/-!
# Searching in texts

Occurrences of one text in another, counted from left to right without overlap.
-/

namespace LayeredConfig

/-- Whether a text occurs in another. -/
def occursIn (needle : List Char) : List Char → Bool
  | [] => needle.isEmpty
  | c :: rest => needle.isPrefixOf (c :: rest) || occursIn needle rest

/-- Replaces the occurrences of a text that is not empty; `skip` characters belong to the
occurrence before. -/
private def replaceFrom (needle new : List Char) : (skip : Nat) → List Char → List Char
  | _, [] => []
  | skip + 1, _ :: rest => replaceFrom needle new skip rest
  | 0, c :: rest =>
    if needle.isPrefixOf (c :: rest) then new ++ replaceFrom needle new (needle.length - 1) rest
    else c :: replaceFrom needle new 0 rest

/-- Replaces the occurrences of a text; the empty text is replaced nowhere. -/
def replaceAll (needle new cs : List Char) : List Char :=
  if needle.isEmpty then cs else replaceFrom needle new 0 cs

/-- The stretches between the separators, of which there is always one. -/
def splitAt (isSeparator : Char → Bool) : List Char → List (List Char)
  | [] => [[]]
  | c :: rest =>
    if isSeparator c then [] :: splitAt isSeparator rest
    else match splitAt isSeparator rest with
      | first :: more => (c :: first) :: more
      | [] => [[c]]

end LayeredConfig
