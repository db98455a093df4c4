import WorkflowAudit.Numeral
import WorkflowAudit.Yaml.Node

/-!
The value of a YAML document. Plain scalars are read by the core rules: null, truth values, numbers,
and text for all else. Nesting is limited, keys of a mapping differ, and a local tag stays with its
value.
-/

namespace WorkflowAudit

inductive Yaml where
  | null
  | bool (b : Bool)
  | number (n : Numeral)
  | text (s : String)
  | sequence (items : List Yaml)
  | mapping (entries : List (Yaml × Yaml))
  | tagged (tag : String) (value : Yaml)
  deriving Repr, Inhabited

namespace Yaml

/-- Whole digits in a base, with at most one sign before them. -/
def digitsIn (base : Nat) (cs : List Char) : Option Nat :=
  let value (c : Char) : Option Nat :=
    match Json.hexValue c with
    | some d => if d < base then some d else none
    | none => none
  if cs.isEmpty then none else (cs.mapM value).map fun ds => ds.foldl (fun n d => base * n + d) 0

def unsignedDigits (base : Nat) (cs : List Char) : Option Nat :=
  match cs with
  | '+' :: rest => digitsIn base rest
  | rest => digitsIn base rest

/-- A zero before further digits makes text of them. -/
def hasLeadingZero (cs : List Char) : Bool :=
  let body := match cs with
    | '-' :: rest => rest
    | '+' :: rest => rest
    | rest => rest
  match body with
  | '0' :: d :: rest => (d :: rest).all Char.isDigit
  | _ => false

def startsWithSign : List Char → Bool
  | c :: _ => c = '+' || c = '-'
  | [] => false

def basedDigits (cs : List Char) : Option (Nat × List Char) :=
  match cs with
  | '0' :: 'x' :: rest => some (16, rest)
  | '0' :: 'o' :: rest => some (8, rest)
  | '0' :: 'b' :: rest => some (2, rest)
  | _ => none

def natural? (cs : List Char) : Option Nat :=
  let body := match cs with
    | '+' :: rest => rest
    | rest => rest
  match basedDigits body with
  | some (base, rest) => if startsWithSign rest then none else digitsIn base rest
  | none => if startsWithSign body || hasLeadingZero cs then none else digitsIn 10 body

def negative? (cs : List Char) : Option Nat :=
  match cs with
  | '-' :: rest =>
    match basedDigits rest with
    | some (base, rest) => digitsIn base rest
    | none => if hasLeadingZero cs then none else digitsIn 10 rest
  | _ => none

def real? (cs : List Char) : Option Binary64 :=
  let s := String.ofList cs
  let body := match cs with
    | '+' :: rest => rest
    | rest => rest
  let unsigned := String.ofList body
  if cs.length ≠ body.length && startsWithSign body then none
  else if [".inf", ".Inf", ".INF"].contains unsigned then some (.infinite false)
  else if ["-.inf", "-.Inf", "-.INF"].contains s then some (.infinite true)
  else if [".nan", ".NaN", ".NAN"].contains s then some .nan
  else match Binary64.read? unsigned with
    | some x => if x.isFinite then some x else none
    | none => none

def null? (s : String) : Bool := ["null", "Null", "NULL", "~"].contains s

def bool? (s : String) : Option Bool :=
  if ["true", "True", "TRUE"].contains s then some true
  else if ["false", "False", "FALSE"].contains s then some false
  else none

inductive Whole where
  | number (n : Numeral)
  /-- A number of more than 64 bits, which has no value. -/
  | tooLarge
  | other

/-- Numbers of up to 128 bits count as whole numbers, but only those of 64 bits have a value. -/
def whole (cs : List Char) : Whole :=
  match natural? cs, negative? cs with
  | some n, _ =>
    if n < Nat.pow 2 64 then .number (.natural n)
    else if n < Nat.pow 2 128 then .tooLarge
    else .other
  | none, some n =>
    if n = 0 then .number (.natural 0)
    else if n ≤ Nat.pow 2 63 then .number (.negative n)
    else if n ≤ Nat.pow 2 127 then .tooLarge
    else .other
  | none, none => .other

def ofPlain? (s : String) : Option Yaml :=
  if s.isEmpty || null? s then some .null
  else match bool? s with
    | some b => some (.bool b)
    | none =>
      match whole s.toList with
      | .number n => some (.number n)
      | .tooLarge => none
      | .other =>
        if hasLeadingZero s.toList then some (.text s)
        else match real? s.toList with
          | some x => some (.number (.real x))
          | none => some (.text s)

def coreTag (name : String) : String := "tag:yaml.org,2002:" ++ name

/-- The value of a scalar; the tags of the core rules ask for a kind of value. -/
def ofScalar? (tag : Option String) (s : String) (style : Style) : Option Yaml :=
  if tag = some (coreTag "bool") then (bool? s).map .bool
  else if tag = some (coreTag "int") then
    match whole s.toList with
    | .number n => some (.number n)
    | _ => none
  else if tag = some (coreTag "float") then (real? s.toList).map fun x => .number (.real x)
  else if tag = some (coreTag "null") then if null? s then some .null else none
  else if tag.isNone && style = .plain then ofPlain? s
  else some (.text s)

def localTag (tag : Option String) : Option String :=
  match tag with
  | some t =>
    match t.toList with
    | '!' :: rest => some (if rest.isEmpty then t else String.ofList rest)
    | _ => none
  | none => none

mutual

/-- Equality of values. The order of a mapping's entries does not matter, and NaN equals itself. -/
def same : Yaml → Yaml → Bool
  | .null, .null => true
  | .bool a, .bool b => a == b
  | .number (.real .nan), .number (.real .nan) => true
  | .number a, .number b => a.same b
  | .text a, .text b => a == b
  | .sequence as, .sequence bs => sameItems as bs
  | .mapping as, .mapping bs => as.length == bs.length && sameEntries as bs
  | .tagged t a, .tagged u b => t == u && same a b
  | _, _ => false

def sameItems : List Yaml → List Yaml → Bool
  | [], [] => true
  | a :: as, b :: bs => same a b && sameItems as bs
  | _, _ => false

def sameEntries : List (Yaml × Yaml) → List (Yaml × Yaml) → Bool
  | [], _ => true
  | (k, a) :: as, bs => bs.any (fun e => same k e.1 && same a e.2) && sameEntries as bs

end

/-- The nodes of a document by the numbers of their anchors, and how many aliases may be followed.
-/
structure Aliases where
  nodes : List (Nat × Node)
  limit : Nat

namespace Node

mutual

/-- The nodes with an anchor, the last one first. -/
def anchored : Node → List (Nat × Node) → List (Nat × Node)
  | .scalar a t s p, acc => (match a with | some n => [(n, .scalar a t s p)] | none => []) ++ acc
  | .sequence a t items, acc =>
    anchoredItems items ((match a with | some n => [(n, .sequence a t items)] | none => []) ++ acc)
  | .mapping a t entries, acc =>
    anchoredEntries entries
      ((match a with | some n => [(n, .mapping a t entries)] | none => []) ++ acc)
  | .alias _, acc => acc

def anchoredItems : List Node → List (Nat × Node) → List (Nat × Node)
  | [], acc => acc
  | n :: rest, acc => anchoredItems rest (anchored n acc)

def anchoredEntries : List (Node × Node) → List (Nat × Node) → List (Nat × Node)
  | [], acc => acc
  | (k, v) :: rest, acc => anchoredEntries rest (anchored v (anchored k acc))

end

mutual

/-- How many signs of a document a node takes: one for a scalar or alias, and two for the ends of a
collection. -/
def weight : Node → Nat
  | .scalar .. | .alias _ => 1
  | .sequence _ _ items => 2 + weightItems items
  | .mapping _ _ entries => 2 + weightEntries entries

def weightItems : List Node → Nat
  | [] => 0
  | n :: rest => weight n + weightItems rest

def weightEntries : List (Node × Node) → Nat
  | [] => 0
  | (k, v) :: rest => weight k + weight v + weightEntries rest

end

end Node

/-- A list of results, with a count handed on from each to the next. -/
def collect {α β : Type} (f : α → Nat → Option (β × Nat)) : List α → Nat → Option (List β × Nat)
  | [], n => some ([], n)
  | a :: rest, n =>
    match f a n with
    | none => none
    | some (b, n) => (collect f rest n).map fun (bs, n) => (b :: bs, n)

def collectEntries (f : Node → Nat → Option (Yaml × Nat)) :
    List (Node × Node) → List (Yaml × Yaml) → Nat → Option (List (Yaml × Yaml) × Nat)
  | [], done, n => some (done.reverse, n)
  | (k, v) :: rest, done, n =>
    match f k n with
    | none => none
    | some (key, n) =>
      if done.any fun e => same e.1 key then none
      else match f v n with
        | none => none
        | some (value, n) => collectEntries f rest ((key, value) :: done) n

def follow (aliases : Aliases) (node : Node) (followed : Nat) : Option (Node × Nat) :=
  match node with
  | .alias n =>
    if aliases.limit < followed + 1 then none
    else (aliases.nodes.find? (·.1 = n)).map fun e => (e.2, followed + 1)
  | node => some (node, followed)

def withTag (tag : Option String) (v : Yaml) : Yaml :=
  match localTag tag with
  | some t => .tagged t v
  | none => v

/-- The value of a node; `depth` levels of collections may still open. -/
def ofNode? (aliases : Aliases) : Nat → Node → Nat → Option (Yaml × Nat)
  | depth, node, followed =>
    match follow aliases node followed with
    | none => none
    | some (.scalar _ tag s style, n) =>
      match localTag tag with
      | some t => (ofScalar? none s style).map fun v => (.tagged t v, n)
      | none => (ofScalar? tag s style).map (·, n)
    | some (.sequence _ tag items, n) =>
      match depth with
      | 0 => none
      | d + 1 =>
        (collect (ofNode? aliases d) items n).map fun (vs, n) => (withTag tag (.sequence vs), n)
    | some (.mapping _ tag entries, n) =>
      match depth with
      | 0 => none
      | d + 1 =>
        (collectEntries (ofNode? aliases d) entries [] n).map fun (es, n) =>
          (withTag tag (.mapping es), n)
    | some (.alias _, _) => none

/-- The value of a text: null where the text holds no document. -/
def read? (text : String) : Option Yaml :=
  match Node.ofText? text with
  | none => none
  | some none => some .null
  | some (some node) =>
    let aliases : Aliases := ⟨node.anchored [], 100 * node.weight⟩
    (ofNode? aliases 128 node 0).map (·.1)

def untagged : Yaml → Yaml
  | .tagged _ v => untagged v
  | v => v

def text? (v : Yaml) : Option String :=
  match v.untagged with
  | .text s => some s
  | _ => none

def mapping? (v : Yaml) : Option (List (Yaml × Yaml)) :=
  match v.untagged with
  | .mapping es => some es
  | _ => none

def isText (s : String) : Yaml → Bool
  | .text t => t == s
  | _ => false

def lookup (key : String) (entries : List (Yaml × Yaml)) : Option Yaml :=
  (entries.find? fun e => e.1.isText key).map (·.2)

def hasKey (key : String) (entries : List (Yaml × Yaml)) : Bool :=
  entries.any fun e => e.1.isText key

def get? (key : String) (v : Yaml) : Option Yaml := v.mapping?.bind (lookup key)

end Yaml

end WorkflowAudit
