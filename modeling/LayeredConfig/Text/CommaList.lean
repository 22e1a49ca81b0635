/-!
# Lists in one text

A list of texts is written as one text, its items separated by commas. Quotes of either kind keep
commas inside an item, a backslash takes the next character as it is (between double quotes only a
double quote or a backslash), and a `#` outside quotes starts a comment that ends with the line.
Blanks around an item do not belong to it, and nothing between two commas is no item.
-/

namespace LayeredConfig

namespace CommaList

/-- Why a text is no list. -/
inductive Fault where
  /-- A quote is never closed. -/
  | openQuote
  /-- A backslash has nothing after it. -/
  | danglingEscape
deriving DecidableEq, Repr, Inhabited

/-- Where a reader stands. -/
inductive Place where
  | between
  | comment
  /-- Inside an item. -/
  | inside
  /-- Inside an item, after an opening quote. -/
  | quoted (quote : Char)
  /-- Inside an item, after a backslash, with the quote that it stands between. -/
  | escaped (quote : Option Char)
deriving DecidableEq, Repr, Inhabited

/-- What a character inside an item adds to the item and where it leads, unless it ends the item. -/
def step : Place → Char → List Char × Place
  | .quoted q, c =>
    if c = q then ([], .inside)
    else if c = '\\' ∧ q = '"' then ([], .escaped (some q))
    else ([c], .quoted q)
  | .escaped (some q), c => (if c = '\\' ∨ c = q then [c] else ['\\', c], .quoted q)
  | .escaped none, c => ([c], .inside)
  | _, c =>
    if c = '\'' ∨ c = '"' then ([], .quoted c)
    else if c = '\\' then ([], .escaped none)
    else ([c], .inside)

/-- The items that are left, the first of which starts with what was read of it. -/
def itemsFrom (place : Place) (item : List Char) : List Char → Except Fault (List (List Char))
  | [] =>
    match place with
    | .between | .comment => .ok []
    | .inside => .ok [item]
    | .quoted _ => .error .openQuote
    | .escaped _ => .error .danglingEscape
  | c :: rest =>
    match place with
    | .comment => itemsFrom (if c = '\n' then .between else .comment) [] rest
    | .between =>
      if c = ',' then itemsFrom .between [] rest
      else if c = '#' then itemsFrom .comment [] rest
      else
        let (added, next) := step .between c
        itemsFrom next added rest
    | .inside =>
      if c = ',' then (item :: ·) <$> itemsFrom .between [] rest
      else if c = '#' then (item :: ·) <$> itemsFrom .comment [] rest
      else
        let (added, next) := step .inside c
        itemsFrom next (item ++ added) rest
    | place =>
      let (added, next) := step place c
      itemsFrom next (item ++ added) rest

/-- Whether a character around an item is dropped. -/
def isPadding (c : Char) : Bool := c = ' ' || ('\t' ≤ c && c ≤ '\r')

/-- The characters without the padding at either end. -/
def unpad (cs : List Char) : List Char :=
  ((cs.dropWhile isPadding).reverse.dropWhile isPadding).reverse

/-- The items of a list. -/
def read (text : String) : Except Fault (List String) :=
  (itemsFrom .between [] text.toList).map fun items ↦ items.map fun cs ↦ String.ofList (unpad cs)

end CommaList

end LayeredConfig
