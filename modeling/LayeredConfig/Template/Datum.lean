import LayeredConfig.Node.Basic
import LayeredConfig.Number.Numeral
import LayeredConfig.Text.CaseMap
import LayeredConfig.Text.Search

/-!
# Data of a template

What the expressions of a template stand for while it is filled in: the values that were handed
over, and two kinds that only arise inside a template. A markup text is known to be fit for the
result and is never escaped; otherwise it behaves like the text that it is. A view lists the keys,
values or entries of a mapping.
-/

namespace LayeredConfig

/-! ## Order of values -/

/-- The order of two numbers; `none` with a NaN. -/
def Binary64.order? (x y : Binary64) : Option Ordering :=
  if x.less y then some .lt else if y.less x then some .gt
  else if x.equal y then some .eq else none

/-- The order of a number and an integer; `none` with a NaN. -/
def Binary64.orderInt? : Binary64 → Int → Option Ordering
  | .finite s m e, k =>
    some (compare (signed s (raise m e)) (k * raise 1 (-e)))
  | .infinite negative, _ => some (if negative then .lt else .gt)
  | .nan _, _ => none

/-- The order of two scalars. The outer `none` says that they cannot be compared at all, the inner
one that neither stands before the other. -/
def Scalar.order? : Scalar → Scalar → Option (Option Ordering)
  | .text a, .text b => some (some (compare a b))
  | .bytes a, .bytes b => some (some (compare (a.map UInt8.toNat) (b.map UInt8.toNat)))
  | .date a, .date b => some (some (compare a.ordinal b.ordinal))
  | .time a, .time b =>
    if a.offset.isSome == b.offset.isSome then some (some (compare a.instant b.instant)) else none
  | .float x, .float y => some (x.order? y)
  | .float x, b => b.asInt?.map x.orderInt?
  | a, .float y => a.asInt?.map fun n ↦ (y.orderInt? n).map Ordering.swap
  | a, b => do return some (compare (← a.asInt?) (← b.asInt?))

mutual

/-- The order of two values; sequences of one kind are ordered by the first items that differ. -/
def Tree.order? : Tree → Tree → Option (Option Ordering)
  | .scalar a, .scalar b => a.order? b
  | .seq j xs, .seq k ys => if j = k then itemsOrder? xs ys else none
  | _, _ => none
termination_by structural x => x

private def itemsOrder? : List Tree → List Tree → Option (Option Ordering)
  | [], [] => some (some .eq)
  | [], _ :: _ => some (some .lt)
  | _ :: _, [] => some (some .gt)
  | x :: xs, y :: ys => if x.itemEqual y then itemsOrder? xs ys else x.order? y
termination_by structural x => x

end

/-! ## Dates in words -/

private def monthNames : List String := [
  "Jan.", "Feb.", "March", "April", "May", "June", "July", "Aug.", "Sept.", "Oct.", "Nov.", "Dec."]

/-- The date with the month in words, as in `Jan. 2, 2020`. -/
def Date.inWords (d : Date) : String :=
  monthNames.getD (d.month - 1) "" ++ " " ++ toString d.day ++ ", " ++ zeroPadded 4 d.year

/-- The date and the time of day on a twelve-hour clock, as in `Jan. 2, 2020, 3:04 a.m.`. -/
def DateTime.inWords (t : DateTime) : String :=
  let clock :=
    if t.hour = 0 ∧ t.minute = 0 then "midnight"
    else if t.hour = 12 ∧ t.minute = 0 then "noon"
    else
      let hour := if t.hour % 12 = 0 then 12 else t.hour % 12
      let minutes := if t.minute = 0 then "" else ":" ++ zeroPadded 2 t.minute
      toString hour ++ minutes ++ (if t.hour < 12 then " a.m." else " p.m.")
  t.date.inWords ++ ", " ++ clock

namespace Template

/-- What an expression stands for. -/
inductive Datum where
  | value (v : Value)
  /-- A text that goes into the result as it is. -/
  | markup (s : String)
  /-- The keys, values or entries of a mapping, with the name of that view. -/
  | view (name : String) (items : List Value)
deriving Repr, Inhabited

/-- A text with the characters that have a meaning in markup spelled out. -/
def escapeMarkup (s : String) : String :=
  String.ofList (s.toList.flatMap fun
    | '&' => "&amp;".toList
    | '<' => "&lt;".toList
    | '>' => "&gt;".toList
    | '"' => "&quot;".toList
    | '\'' => "&#x27;".toList
    | c => [c])

namespace Datum

/-- A text that still has to be escaped. -/
@[match_pattern] abbrev text (s : String) : Datum := .value (.text s)

/-- What an expression stands for that names nothing. -/
def missing : Datum := .text ""

/-- The datum as a value. -/
def toValue : Datum → Value
  | .value v => v
  | .markup s => .text s
  | .view _ items => .list items

/-- The text of a text, be it markup or not. -/
def text? : Datum → Option String
  | .text s => some s
  | .markup s => some s
  | _ => none

/-- Whether the datum counts as set. -/
def truthy (d : Datum) : Eval Bool := truthyValue d.toValue

/-- The text that the datum turns into. -/
def display : Datum → Eval String
  | .value v => displayValue v
  | .markup s => return s
  | .view name items => return name ++ "(" ++ (← quotedValue (.list items)) ++ ")"

/-- The datum as it is written for a reader: numbers without exponent, dates in words, times in
universal time. -/
def inWords : Datum → Eval String
  | .value (.scalar (.float x)) => return x.toPlainText
  | .value (.scalar (.date d)) => return d.inWords
  | .value (.scalar (.time t)) => return t.toUniversal.inWords
  | d => d.display

/-- What the datum puts into the result. -/
def written (escaping : Bool) : Datum → Eval String
  | .markup s => return s
  | d => do
    let s ← d.inWords
    return if escaping then escapeMarkup s else s

private def characters (s : String) : List Value := s.toList.map fun c ↦ .text (String.singleton c)

/-- What a loop over the datum runs through; `none` if it cannot be looped over. -/
def elements? : Datum → Eval (Option (List Value))
  | .markup s => return some (characters s)
  | .view _ items => return some items
  | .value v =>
    match v with
    | .text s => return some (characters s)
    | .scalar (.bytes bs) => return some (bs.map fun b ↦ .int b.toNat)
    | .seq _ items => return some items
    | .set items => return some (items.map .scalar)
    | .mapping entries => return some (entries.map (·.1))
    | .node n => return some ((← Node.keys n).map .text)
    | _ => return none

/-- Whether a datum occurs in another; `none` if that cannot be asked. -/
def occurs? (d : Datum) : Datum → Eval (Option Bool)
  | .markup s => return d.text?.map fun t ↦ occursIn t.toList s.toList
  | .text s => return d.text?.map fun t ↦ occursIn t.toList s.toList
  | .value (.mapping entries) =>
    let key := d.toValue
    return if key.unhashable?.isSome then none else some (Value.lookupEntry? key entries).isSome
  | .value (.node n) => some <$> Node.hasKey n d.toValue
  | whole => do
    match ← whole.elements? with
    | none => return none
    | some items =>
      let m ← get
      return some (items.any fun item ↦ (m.view d.toValue).itemEqual (m.view item))

/-! ### Members -/

/-- Whether a failed look-up is passed over. -/
private def isPassedOver : Failure → Bool
  | .configuration (.notFound _) => true
  | .configuration (.invalidKeyType _) => true
  | .configuration (.invalidStructure _) => true
  | .configuration (.readOnlyNode _) => true
  | .configuration _ => false
  | .computation _ => false
  | .nestedTooDeep => false
  | _ => true

/-- The entry of a mapping or a node. -/
def entry? (name : String) : Datum → Eval (Option Datum)
  | .value (.mapping entries) => return (Value.lookupEntry? (.text name) entries).map .value
  | .value (.node n) => do
    if !(← Node.hasKey n (.text name)) then return none
    tryCatch (some <$> .value <$> Node.get n (.text name)) fun f ↦
      if isPassedOver f then return none else throw f
  | _ => return none

/-- What the parts of a date are called. -/
def datePart? (name : String) (d : Date) : Option Datum :=
  if name = "year" then some (.value (.int d.year))
  else if name = "month" then some (.value (.int d.month))
  else if name = "day" then some (.value (.int d.day))
  else none

/-- What a value offers beside its entries. -/
def feature? (name : String) : Value → Eval (Option Datum)
  | .text s => pure <|
      if name = "upper" then some (.text (upperCase s))
      else if name = "lower" then some (.text (lowerCase s))
      else if name = "strip" then some (.text (trimText s))
      else none
  | .mapping entries => pure <|
      if name = "items" then
        some (.view "dict_items" (entries.map fun (k, v) ↦ .tuple [k, v]))
      else if name = "keys" then some (.view "dict_keys" (entries.map (·.1)))
      else if name = "values" then some (.view "dict_values" (entries.map (·.2)))
      else if name = "copy" then some (.value (.mapping entries))
      else none
  | .node n =>
      if name = "items" then do
        let pairs ← Node.items n
        return some (.value (.list (pairs.map fun (k, v) ↦ .tuple [.text k, v])))
      else if name = "keys" then do
        return some (.value (.list ((← Node.keys n).map .text)))
      else if name = "copy" then some <$> .value <$> .node <$> Node.copy n
      else if name = "to_dict" then some <$> .value <$> Node.toMapping n
      else if name = "frozen" then do
        return some (.value (.bool ((← get).forest.frozen n)))
      else pure none
  | .scalar (.date d) => return datePart? name d
  | .scalar (.time t) => pure <|
      if name = "hour" then some (.value (.int t.hour))
      else if name = "minute" then some (.value (.int t.minute))
      else if name = "second" then some (.value (.int t.second))
      else datePart? name t.date
  | _ => return none

/-- The item at a position, or the entry of an integer key. -/
def item? (position : Int) : Value → Option Datum
  | .text s => s.toList[position.toNat]?.map fun c ↦ .text (String.singleton c)
  | .scalar (.bytes bs) => bs[position.toNat]?.map fun b ↦ .value (.int b.toNat)
  | .seq _ items => items[position.toNat]?.map .value
  | .mapping entries => (Value.lookupEntry? (.int position) entries).map .value
  | _ => none

/-- A computation that was found runs; everything else stands for itself. -/
def settle : Datum → Eval Datum
  | .value (.deferred d) => .value <$> evaluate d
  | d => pure d

/-- What a name means inside a datum: an entry, else something that the value offers, else the
item at that position. -/
def member? (d : Datum) (name : String) : Eval (Option Datum) := do
  if let some found ← entry? name d then return some (← found.settle)
  if let some found ← feature? name d.toValue then return some (← found.settle)
  match (Numeral.int? 10 name.toList).bind fun i ↦ item? i d.toValue with
  | some found => some <$> found.settle
  | none => return none

/-- What a path of names leads to. -/
def walk? (d : Datum) : List String → Eval (Option Datum)
  | [] => return some d
  | name :: rest => do
    match ← d.member? name with
    | some inner => inner.walk? rest
    | none => return none

end Datum

end Template

end LayeredConfig
