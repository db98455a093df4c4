import WorkflowAudit.Json.Basic
import WorkflowAudit.Text.Lowercase

/-!
The values of expressions when an outsider picks the inputs. A wildcard is a value that the outsider
writes; a flexible value is one that the outsider picks from a list. The outcomes of a value are the
values without a list of options that it may turn out to be; two values could be equal, or could
differ, when some pair of their outcomes does.
-/

namespace WorkflowAudit

inductive Value where
  | bool (b : Bool)
  | text (s : String)
  | number (x : Binary64)
  | list (items : List Value)
  | object (fields : List (String × Json))
  | wildcard (origin : String)
  | flexible (options : List Value)
  deriving Repr, Inhabited

namespace Value

mutual

def ofJson : Json → Value
  | .null => .text ""
  | .bool b => .bool b
  | .number n => .number n.toBinary64
  | .text s => .text s
  | .array items => .list (ofJsons items)
  | .object fields => .object fields

def ofJsons : List Json → List Value
  | [] => []
  | v :: rest => ofJson v :: ofJsons rest

end

mutual

def same : Value → Value → Bool
  | .bool a, .bool b => a == b
  | .text a, .text b => a == b
  | .number x, .number y => x.equal y
  | .list as, .list bs => sameAll as bs
  | .object as, .object bs => Json.sameFields as bs
  | .wildcard a, .wildcard b => a == b
  | .flexible as, .flexible bs => sameAll as bs
  | _, _ => false

def sameAll : List Value → List Value → Bool
  | [], [] => true
  | a :: as, b :: bs => same a b && sameAll as bs
  | _, _ => false

end

/-- The text of a value; that of a flexible value is the text of its first option. -/
def display : Value → String
  | .bool b => if b then "true" else "false"
  | .text s => s
  | .number x => x.display
  | .list _ => "Array"
  | .object _ => "Object"
  | .wildcard origin => origin
  | .flexible [] => ""
  | .flexible (first :: _) => display first

mutual

/-- The values that are not flexible themselves and that this one may turn out to be. -/
def outcomes : Value → List Value
  | .flexible options => outcomesOfAll options
  | v => [v]

def outcomesOfAll : List Value → List Value
  | [] => []
  | v :: rest => outcomes v ++ outcomesOfAll rest

end

def isWildcard : Value → Bool
  | .wildcard _ => true
  | _ => false

/-- Truth of a single outcome: false, zero, NaN and the empty text are not true. -/
def holds : Value → Bool
  | .bool b => b
  | .text s => s != ""
  | .number x => !x.isZero && !x.isNaN
  | _ => true

def truthy (v : Value) : Bool := v.outcomes.any holds

def falsy (v : Value) : Bool := v.outcomes.any fun o => o.isWildcard || !o.holds

/-- Equality of two outcomes that are not wildcards. Values of one kind are compared as such, text
without regard to case; lists and objects equal nothing of another kind; all else is compared as
text. -/
def agrees : Value → Value → Bool
  | .bool a, .bool b => a == b
  | .number x, .number y => x.equal y
  | .text a, .text b => Text.sameIgnoringCase a b
  | .list as, .list bs => sameAll as bs
  | .object as, .object bs => Json.sameFields as bs
  | .list _, _ | _, .list _ | .object _, _ | _, .object _ => false
  | a, b => Text.sameIgnoringCase a.display b.display

/-- A wildcard meets every value; other values meet when a pair of their outcomes is related. -/
def meets (related : Value → Value → Bool) (a b : Value) : Bool :=
  b.isWildcard || a.outcomes.any fun x =>
    x.isWildcard || b.outcomes.any fun y => y.isWildcard || related x y

def couldEqual (a b : Value) : Bool := meets agrees a b

/-- The two values could differ. A wildcard could both equal and differ from anything. -/
def couldDiffer (a b : Value) : Bool := meets (fun x y => !agrees x y) a b

/-- The text of an outcome contains the text of the item, in lower case. -/
def textContains (outcome item : Value) : Bool :=
  item.outcomes.any fun y =>
    y.isWildcard || Text.contains (Text.lowercase y.display) (Text.lowercase outcome.display)

/-- A single outcome could contain the item. Objects and truth values contain nothing. -/
def outcomeContains (item : Value) : Value → Bool
  | .wildcard _ => true
  | .list items => items.any fun v => couldEqual v item
  | .object _ | .bool _ => false
  | o => textContains o item

def couldContain (search item : Value) : Bool := search.outcomes.any (outcomeContains item)

end Value

end WorkflowAudit
