/-!
Patterns of paths: a star stands for any part of a name, a question mark for any byte of one,
brackets for a byte of a class, braces for one of several patterns, and two stars between slashes
for any directories. Paths are matched byte by byte.
-/

namespace WorkflowAudit.Files

namespace Glob

inductive Token where
  | byte (b : UInt8)
  | anyByte
  | anyPart
  | leadingDirectories
  | innerDirectories
  | trailingDirectories
  | oneOf (negated : Bool) (ranges : List (UInt8 × UInt8))
  | either (branches : List (List Token))

def slash : UInt8 := 47

def bytesOf (c : Char) : List UInt8 := (String.singleton c).toUTF8.toList

/-- The bytes of a range. Of characters with several bytes the outer ones stand for themselves. -/
def rangeBytes (low high : Char) : List (UInt8 × UInt8) :=
  let single (b : UInt8) := (b, b)
  match (bytesOf low).getLast?, bytesOf high with
  | some last, first :: more =>
    if low = high then (bytesOf low).map single
    else (bytesOf low).dropLast.map single ++ [(last, first)] ++ more.map single
  | _, _ => []

inductive Bracket where
  | unclosed
  | invalid
  | closed (ranges : List (Char × Char)) (rest : List Char)

/-- Reads a class behind the ranges before it. A bracket or a hyphen at the start stands for
itself, as does a hyphen at the end. -/
def bracketRest (ranges : List (Char × Char)) (isFirst inRange : Bool) : List Char → Bracket
  | [] => .unclosed
  | c :: cs =>
    if c = ']' && !isFirst then .closed (if inRange then ranges ++ [('-', '-')] else ranges) cs
    else if inRange then
      match ranges.getLast? with
      | some (low, _) =>
        if c < low then .invalid else bracketRest (ranges.dropLast ++ [(low, c)]) false false cs
      | none => .invalid
    else if c = '-' && !isFirst then bracketRest ranges false true cs
    else bracketRest (ranges ++ [(c, c)]) false false cs

def bracket (cs : List Char) : Bool × Bracket :=
  match cs with
  | '!' :: rest => (true, bracketRest [] true false rest)
  | '^' :: rest => (true, bracketRest [] true false rest)
  | _ => (false, bracketRest [] true false cs)

/-- Two stars, what precedes them and what follows: the tokens so far, the last one first, and the
rest of the text. They stand for directories only between slashes or at an end. -/
def twoStars (before : Option Char) (inBraces : Bool) (passed : List Token) (rest : List Char) :
    List Token × List Char :=
  let ends := match rest with
    | [] => true
    | c :: _ => inBraces && (c = ',' || c = '\x7d')
  match passed, rest with
  | [], [] => ([.leadingDirectories], [])
  | [], '/' :: rest => ([.leadingDirectories], rest)
  | [], _ => ([.anyPart, .anyPart], rest)
  | last :: others, rest =>
    if before ≠ some '/' then (.anyPart :: .anyPart :: passed, rest)
    else
      match last, ends, rest with
      | .leadingDirectories, true, _ => (passed, rest)
      | .leadingDirectories, false, '/' :: rest => (passed, rest)
      | .trailingDirectories, true, _ => (passed, rest)
      | .trailingDirectories, false, '/' :: rest => (passed, rest)
      | _, true, _ => (.trailingDirectories :: others, rest)
      | _, false, '/' :: rest => (.innerDirectories :: others, rest)
      | _, false, _ => (.anyPart :: .anyPart :: passed, rest)

mutual

/-- The tokens up to the end of the text, or within braces to the end of a branch. -/
def sequence : Nat → Bool → Option Char → List Token → List Char → Option (List Token × List Char)
  | 0, _, _, _, _ => none
  | _ + 1, inBraces, _, passed, [] => if inBraces then none else some (passed.reverse, [])
  | fuel + 1, inBraces, before, passed, c :: cs =>
    match c, cs with
    | '?', _ => sequence fuel inBraces (some c) (.anyByte :: passed) cs
    | '*', '*' :: rest =>
      let (passed, rest') := twoStars before inBraces passed rest
      let last := if rest'.length < rest.length then '/' else '*'
      sequence fuel inBraces (some last) passed rest'
    | '*', _ => sequence fuel inBraces (some c) (.anyPart :: passed) cs
    | '[', _ =>
      match bracket cs with
      | (_, .invalid) => none
      | (_, .unclosed) => sequence fuel inBraces (some c) (.byte 91 :: passed) cs
      | (negated, .closed ranges rest) =>
        let ranges := ranges.flatMap fun r => rangeBytes r.1 r.2
        sequence fuel inBraces (some ']') (.oneOf negated ranges :: passed) rest
    | '\x7b', _ =>
      match branches fuel cs with
      | some (branches, rest) =>
        sequence fuel inBraces (some '\x7d') (.either branches :: passed) rest
      | none => none
    | '\x7d', _ => if inBraces then some (passed.reverse, c :: cs) else none
    | ',', _ =>
      if inBraces then some (passed.reverse, c :: cs)
      else sequence fuel inBraces (some c) (.byte 44 :: passed) cs
    | '\\', escaped :: rest =>
      sequence fuel inBraces (some escaped) (((bytesOf escaped).map .byte).reverse ++ passed) rest
    | '\\', [] => none
    | c, cs => sequence fuel inBraces (some c) (((bytesOf c).map .byte).reverse ++ passed) cs

def branches : Nat → List Char → Option (List (List Token) × List Char)
  | 0, _ => none
  | fuel + 1, cs =>
    match sequence fuel true none [] cs with
    | some (branch, ',' :: rest) =>
      (branches fuel rest).map fun (more, rest) => (branch :: more, rest)
    | some (branch, _ :: rest) => some ([branch], rest)
    | _ => none

end

/-- The tokens of a pattern, unless it is malformed. -/
def parse? (s : String) : Option (List Token) :=
  (sequence (2 * s.toList.length + 2) false none [] s.toList).map (·.1)

/-- What remains of a path behind each of its slashes. -/
def behindSlashes : List UInt8 → List (List UInt8)
  | [] => []
  | b :: bs => if b = slash then bs :: behindSlashes bs else behindSlashes bs

/-- What remains behind each part of the name that a path starts with. -/
def behindParts : List UInt8 → List (List UInt8)
  | [] => [[]]
  | b :: bs => if b = slash then [b :: bs] else (b :: bs) :: behindParts bs

/-- What remains behind each part of a path. -/
def suffixes : List UInt8 → List (List UInt8)
  | [] => [[]]
  | b :: bs => (b :: bs) :: suffixes bs

mutual

def rest : Token → List UInt8 → List (List UInt8)
  | .byte b, c :: cs => if c = b then [cs] else []
  | .byte _, [] => []
  | .anyByte, c :: cs => if c = slash then [] else [cs]
  | .anyByte, [] => []
  | .anyPart, cs => behindParts cs
  | .leadingDirectories, cs => cs :: behindSlashes cs
  | .innerDirectories, c :: cs => if c = slash then cs :: behindSlashes cs else []
  | .innerDirectories, [] => []
  | .trailingDirectories, c :: cs => if c = slash then suffixes cs else []
  | .trailingDirectories, [] => []
  | .oneOf negated ranges, c :: cs =>
    if (ranges.any fun r => r.1 ≤ c && c ≤ r.2) != negated then [cs] else []
  | .oneOf _ _, [] => []
  | .either branches, cs =>
    match restOfAny branches cs with
    | some rests => rests
    | none => [cs]

def restOfAll : List Token → List UInt8 → List (List UInt8)
  | [], cs => [cs]
  | t :: ts, cs => (rest t cs).flatMap (restOfAll ts)

/-- Empty branches don't count; there is nothing to match if there are no others. -/
def restOfAny : List (List Token) → List UInt8 → Option (List (List UInt8))
  | [], _ => none
  | [] :: bs, cs => restOfAny bs cs
  | (t :: ts) :: bs, cs => some (restOfAll (t :: ts) cs ++ (restOfAny bs cs).getD [])

end

/-- Two stars alone match every path. -/
def isAll : List Token → Bool
  | [.leadingDirectories] => true
  | _ => false

def accepts (tokens : List Token) (path : String) : Bool :=
  isAll tokens || (restOfAll tokens path.toUTF8.toList).any (·.isEmpty)

end Glob

end WorkflowAudit.Files
