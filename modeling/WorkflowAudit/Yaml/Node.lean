import WorkflowAudit.Assoc
import WorkflowAudit.Yaml.Token

/-!
The nodes of a YAML document. An anchor gives a node a number, which is how many names have an
anchor already; an alias stands for the node that carries the number of its name.
-/

namespace WorkflowAudit.Yaml

inductive Node where
  | scalar (anchor : Option Nat) (tag : Option String) (text : String) (style : Style)
  | sequence (anchor : Option Nat) (tag : Option String) (items : List Node)
  | mapping (anchor : Option Nat) (tag : Option String) (entries : List (Node × Node))
  | alias (number : Nat)
  deriving Repr, Inhabited

namespace Node

def empty : Node := .scalar none none "" .plain

structure Reader where
  tokens : List Token
  handles : Assoc String
  anchors : Assoc Nat

namespace Reader

def head? (r : Reader) : Option Token := r.tokens.head?

def skip (r : Reader) : Reader := { r with tokens := r.tokens.tail }

def nextIs (r : Reader) (ts : List Token) : Bool := r.tokens.head?.any ts.contains

def atDirective (r : Reader) : Bool :=
  match r.tokens with
  | .version .. :: _ | .tagHandle .. :: _ => true
  | _ => false

def name (r : Reader) (anchor : Option String) : Option Nat × Reader :=
  match anchor with
  | none => (none, r)
  | some a =>
    let n := r.anchors.length
    (some n, { r with anchors := r.anchors.insert a n })

/-- The full form of a tag; a handle must have been declared. -/
def resolveTag (r : Reader) (handle suffix : String) : Option String :=
  if handle.isEmpty then some suffix
  else (r.handles.get? handle).map (· ++ suffix)

structure Properties where
  anchor : Option String
  tag : Option (String × String)

def properties (r : Reader) : Properties × Reader :=
  match r.tokens with
  | .anchor a :: .tag h s :: rest => (⟨some a, some (h, s)⟩, { r with tokens := rest })
  | .tag h s :: .anchor a :: rest => (⟨some a, some (h, s)⟩, { r with tokens := rest })
  | .anchor a :: rest => (⟨some a, none⟩, { r with tokens := rest })
  | .tag h s :: rest => (⟨none, some (h, s)⟩, { r with tokens := rest })
  | _ => (⟨none, none⟩, r)

end Reader

mutual

/-- A node; within a flow collection there are no blocks, and only the entries of a block mapping
may be sequences that are not indented. -/
def read : Nat → Bool → Bool → Reader → Option (Node × Reader)
  | 0, _, _, _ => none
  | fuel + 1, inBlock, indentless, r =>
    match r.tokens with
    | .alias a :: rest =>
      (r.anchors.get? a).map fun n => (.alias n, { r with tokens := rest })
    | _ =>
      let (p, r) := r.properties
      let tag := match p.tag with
        | none => some none
        | some (handle, suffix) => (r.resolveTag handle suffix).map some
      match tag with
      | none => none
      | some tag =>
        let (anchor, r) := r.name p.anchor
        match r.tokens with
        | .blockEntry :: _ =>
          if indentless then
            (readIndentless fuel r).map fun (items, r) => (.sequence anchor tag items, r)
          else missing p anchor tag r
        | .scalar text style :: rest =>
          let tag := if tag = some "!" then none else tag
          some (.scalar anchor tag text style, { r with tokens := rest })
        | .flowSequence :: rest =>
          (readFlowItems fuel true { r with tokens := rest }).map fun (items, r) =>
            (.sequence anchor tag items, r)
        | .flowMapping :: rest =>
          (readFlowEntries fuel true { r with tokens := rest }).map fun (entries, r) =>
            (.mapping anchor tag entries, r)
        | .blockSequence :: rest =>
          if inBlock then
            (readBlockItems fuel { r with tokens := rest }).map fun (items, r) =>
              (.sequence anchor tag items, r)
          else missing p anchor tag r
        | .blockMapping :: rest =>
          if inBlock then
            (readBlockEntries fuel { r with tokens := rest }).map fun (entries, r) =>
              (.mapping anchor tag entries, r)
          else missing p anchor tag r
        | _ => missing p anchor tag r

def missing (p : Reader.Properties) (anchor : Option Nat) (tag : Option String) (r : Reader) :
    Option (Node × Reader) :=
  if p.anchor.isSome || p.tag.isSome then some (.scalar anchor tag "" .plain, r) else none

/-- A node, or the empty one before any of the given tokens. -/
def readUnless : Nat → Bool → Bool → List Token → Reader → Option (Node × Reader)
  | 0, _, _, _, _ => none
  | fuel + 1, inBlock, indentless, ends, r =>
    if r.nextIs ends then some (empty, r) else read fuel inBlock indentless r

def readBlockItems : Nat → Reader → Option (List Node × Reader)
  | 0, _ => none
  | fuel + 1, r =>
    match r.tokens with
    | .blockEntry :: rest =>
      match readUnless fuel true false [.blockEntry, .blockEnd] { r with tokens := rest } with
      | none => none
      | some (item, r) => (readBlockItems fuel r).map fun (items, r) => (item :: items, r)
    | .blockEnd :: rest => some ([], { r with tokens := rest })
    | _ => none

def readIndentless : Nat → Reader → Option (List Node × Reader)
  | 0, _ => none
  | fuel + 1, r =>
    match r.tokens with
    | .blockEntry :: rest =>
      match readUnless fuel true false [.blockEntry, .key, .value, .blockEnd]
          { r with tokens := rest } with
      | none => none
      | some (item, r) => (readIndentless fuel r).map fun (items, r) => (item :: items, r)
    | _ => some ([], r)

def readBlockEntries : Nat → Reader → Option (List (Node × Node) × Reader)
  | 0, _ => none
  | fuel + 1, r =>
    match r.tokens with
    | .key :: rest =>
      let ends := [Token.key, .value, .blockEnd]
      match readUnless fuel true true ends { r with tokens := rest } with
      | none => none
      | some (k, r) =>
        let value := match r.tokens with
          | .value :: rest => readUnless fuel true true ends { r with tokens := rest }
          | _ => some (empty, r)
        match value with
        | none => none
        | some (v, r) => (readBlockEntries fuel r).map fun (entries, r) => ((k, v) :: entries, r)
    | .blockEnd :: rest => some ([], { r with tokens := rest })
    | _ => none

/-- The items of a flow sequence; one that begins with a key is a mapping with one entry. -/
def readFlowItems : Nat → Bool → Reader → Option (List Node × Reader)
  | 0, _, _ => none
  | fuel + 1, first, r =>
    match r.tokens with
    | .flowSequenceEnd :: rest => some ([], { r with tokens := rest })
    | _ =>
      let separated := if first then some r else if r.nextIs [.flowEntry] then some r.skip else none
      match separated with
      | none => none
      | some r =>
        match r.tokens with
        | .flowSequenceEnd :: rest => some ([], { r with tokens := rest })
        | .key :: rest =>
          match readPair fuel { r with tokens := rest } with
          | none => none
          | some (pair, r) =>
            (readFlowItems fuel false r).map fun (items, r) =>
              (.mapping none none [pair] :: items, r)
        | _ =>
          match read fuel false false r with
          | none => none
          | some (item, r) => (readFlowItems fuel false r).map fun (items, r) => (item :: items, r)

/-- The entry of a mapping within a flow sequence, after its key sign. Where the key is left out,
the next token is left out with it. -/
def readPair : Nat → Reader → Option ((Node × Node) × Reader)
  | 0, _ => none
  | fuel + 1, r =>
    let key :=
      if r.nextIs [.value, .flowEntry, .flowSequenceEnd] then some (empty, r.skip)
      else read fuel false false r
    match key with
    | none => none
    | some (k, r) =>
      match r.tokens with
      | .value :: rest =>
        (readUnless fuel false false [.flowEntry, .flowSequenceEnd] { r with tokens := rest }).map
          fun (v, r) => ((k, v), r)
      | _ => some ((k, empty), r)

def readFlowEntries : Nat → Bool → Reader → Option (List (Node × Node) × Reader)
  | 0, _, _ => none
  | fuel + 1, first, r =>
    match r.tokens with
    | .flowMappingEnd :: rest => some ([], { r with tokens := rest })
    | _ =>
      let separated := if first then some r else if r.nextIs [.flowEntry] then some r.skip else none
      match separated with
      | none => none
      | some r =>
        match r.tokens with
        | .flowMappingEnd :: rest => some ([], { r with tokens := rest })
        | .key :: rest =>
          let ends := [Token.value, .flowEntry, .flowMappingEnd]
          match readUnless fuel false false ends { r with tokens := rest } with
          | none => none
          | some (k, r) =>
            let value := match r.tokens with
              | .value :: rest =>
                readUnless fuel false false [.flowEntry, .flowMappingEnd] { r with tokens := rest }
              | _ => some (empty, r)
            match value with
            | none => none
            | some (v, r) =>
              (readFlowEntries fuel false r).map fun (entries, r) => ((k, v) :: entries, r)
        | _ =>
          match read fuel false false r with
          | none => none
          | some (k, r) =>
            (readFlowEntries fuel false r).map fun (entries, r) => ((k, empty) :: entries, r)

end

/-- The directives before a document: at most one version, 1.1 or 1.2, and each handle once. -/
def directives (handles : List (String × String)) (versioned : Bool) :
    List Token → Option (List (String × String) × List Token)
  | .version major minor :: rest =>
    if versioned || major ≠ 1 || (minor ≠ 1 && minor ≠ 2) then none
    else directives handles true rest
  | .tagHandle h p :: rest =>
    if handles.any (·.1 = h) then none else directives (handles ++ [(h, p)]) versioned rest
  | rest => some (handles, rest)

def defaultHandles : List (String × String) := [("!", "!"), ("!!", "tag:yaml.org,2002:")]

def onlyEndRemains (ts : List Token) : Bool :=
  ts.dropWhile (· = .documentEnd) = [.streamEnd]

/-- The node of the one document that the tokens hold; no node where there is no document. -/
def ofTokens? (ts : List Token) : Option (Option Node) :=
  if ts = [.streamEnd] then some none
  else
    let fuel := 3 * ts.length + 10
    match directives [] false ts with
    | none => none
    | some (handles, rest) =>
      let all := handles ++ defaultHandles.filter fun d => !handles.any (·.1 = d.1)
      let node :=
        match rest with
        | .documentStart :: rest =>
          let r : Reader := ⟨rest, all, []⟩
          if r.nextIs [.documentStart, .documentEnd, .streamEnd] || r.atDirective then
            some (empty, r)
          else read fuel true false r
        | _ =>
          if rest.length = ts.length then read fuel true false ⟨rest, all, []⟩ else none
      match node with
      | none => none
      | some (n, r) => if onlyEndRemains r.tokens then some (some n) else none

def ofText? (text : String) : Option (Option Node) :=
  (Token.ofChars? text.toList).bind ofTokens?

end Node

end WorkflowAudit.Yaml
