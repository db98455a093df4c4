import Mathlib.Data.List.Chain
import WorkflowAudit.Expression.Parser

/-! The grammar of expressions as a relation between texts and trees. A text is laid out as words
with blanks between them; the words of a phrase spell one tree. Neither rule speaks of longest
words, of order of choice or of what stands behind. -/

namespace WorkflowAudit.Expression

def commaSeparated : List (List Token) → List Token
  | [] => []
  | [ts] => ts
  | ts :: rest => ts ++ .comma :: commaSeparated rest

/-- The words that spell a tree at a level of binding. -/
inductive Phrase : Level → List Token → Expression → Prop
  | or {ts us a b} : Phrase .disjunction ts a → Phrase .conjunction us b →
      Phrase .disjunction (ts ++ .or :: us) (.binary .or a b)
  | and {ts us a b} : Phrase .conjunction ts a → Phrase .comparison us b →
      Phrase .conjunction (ts ++ .and :: us) (.binary .and a b)
  | equal {ts us a b} : Phrase .comparison ts a → Phrase .operand us b →
      Phrase .comparison (ts ++ .equal :: us) (.binary .equal a b)
  | notEqual {ts us a b} : Phrase .comparison ts a → Phrase .operand us b →
      Phrase .comparison (ts ++ .notEqual :: us) (.binary .notEqual a b)
  | conjunction {ts e} : Phrase .conjunction ts e → Phrase .disjunction ts e
  | comparison {ts e} : Phrase .comparison ts e → Phrase .conjunction ts e
  | operand {ts e} : Phrase .operand ts e → Phrase .comparison ts e
  | not {ts e} : Phrase .operand ts e → Phrase .operand (.not :: ts) (.not e)
  | group {ts e} : Phrase .disjunction ts e → Phrase .operand (.opening :: (ts ++ [.closing])) e
  | number (x) : Phrase .operand [.number x] (.number x)
  | text (s) : Phrase .operand [.text s] (.text s)
  | name (s) : Phrase .operand [.name s] (.name s)
  | call (f) (args : List (List Token × Expression)) :
      (∀ a ∈ args, Phrase .disjunction a.1 a.2) →
      Phrase .operand (.call f :: (commaSeparated (args.map (·.1)) ++ [.closing]))
        (.call f (args.map (·.2)))

namespace Token

def doubled (s : List Char) : List Char :=
  s.flatMap fun c => if c = '\'' then ['\'', '\''] else [c]

/-- The spellings of a word. -/
inductive Spelled : Token → List Char → Prop
  | or : Spelled .or ['|', '|']
  | and : Spelled .and ['&', '&']
  | equal : Spelled .equal ['=', '=']
  | notEqual : Spelled .notEqual ['!', '=']
  | not : Spelled .not ['!']
  | opening : Spelled .opening ['(']
  | closing : Spelled .closing [')']
  | comma : Spelled .comma [',']
  | whole {ds : List Char} : ds ≠ [] → (∀ c ∈ ds, c.isDigit = true) →
      Spelled (.number (Binary64.ofDecimal false (Text.numeral ds) 0)) ds
  | decimal {ds fs : List Char} : ds ≠ [] → (∀ c ∈ ds, c.isDigit = true) →
      fs ≠ [] → (∀ c ∈ fs, c.isDigit = true) →
      Spelled (.number (Binary64.ofDecimal false (Text.numeral (ds ++ fs)) (-fs.length)))
        (ds ++ '.' :: fs)
  | text (s : List Char) : Spelled (.text (String.ofList s)) ('\'' :: (doubled s ++ ['\'']))
  | name {c : Char} {cs : List Char} : startsName c = true → (∀ d ∈ cs, continuesName d = true) →
      Spelled (.name (String.ofList (c :: cs))) (c :: cs)
  | call {c : Char} {cs : List Char} : startsName c = true → (∀ d ∈ cs, continuesName d = true) →
      Spelled (.call (String.ofList (c :: cs))) (c :: (cs ++ ['(']))

def HasSpelling (t : Token) : Prop := ∃ w, t.Spelled w

end Token

/-- Words in a row, with any blanks before, between and behind them. -/
inductive Layout : List Token → List Char → Prop
  | blank {bs : List Char} : (∀ c ∈ bs, Token.isSpace c = true) → Layout [] bs
  | word {bs w cs : List Char} {t : Token} {ts : List Token} :
      (∀ c ∈ bs, Token.isSpace c = true) → t.Spelled w → Layout ts cs →
      Layout (t :: ts) (bs ++ (w ++ cs))

def fenced (cs : List Char) : List Char := ['$', '\x7b', '\x7b'] ++ (cs ++ ['\x7d', '\x7d'])

/-- What is left of a text once it is trimmed and a fence around it is taken off. -/
inductive Body : List Char → List Char → Prop
  | fenced {cs inner : List Char} : Text.trimChars cs = fenced inner →
      Body cs (Text.trimChars inner)
  | bare {cs : List Char} : (∀ inner, Text.trimChars cs ≠ fenced inner) →
      Body cs (Text.trimChars cs)

def Spells (s : String) (e : Expression) : Prop :=
  ∃ body ts, Body s.toList body ∧ Layout ts body ∧ Phrase .disjunction ts e

def level : Expression → Level
  | .binary .or _ _ => .disjunction
  | .binary .and _ _ => .conjunction
  | .binary .equal _ _ => .comparison
  | .binary .notEqual _ _ => .comparison
  | _ => .operand

def Level.looseness : Level → Nat
  | .disjunction => 3
  | .conjunction => 2
  | .comparison => 1
  | .operand => 0

def grouped : Nat → List Token → List Token
  | 0, ts => ts
  | n + 1, ts => .opening :: (grouped n ts ++ [.closing])

mutual

/-- The words of a tree where a level of binding is wanted: parentheses stand where they are needed,
and besides as many as `extra` puts around each part. -/
def words (extra : Expression → Nat) (wanted : Level) (e : Expression) : List Token :=
  let needed := if wanted.looseness < e.level.looseness then 1 else 0
  grouped (extra e + needed) <|
    match e with
    | .number x => [.number x]
    | .text s => [.text s]
    | .name s => [.name s]
    | .call f args => .call f :: (commaSeparated (wordsOfAll extra args) ++ [.closing])
    | .not a => .not :: words extra .operand a
    | .binary .or a b => words extra .disjunction a ++ .or :: words extra .conjunction b
    | .binary .and a b => words extra .conjunction a ++ .and :: words extra .comparison b
    | .binary .equal a b => words extra .comparison a ++ .equal :: words extra .operand b
    | .binary .notEqual a b => words extra .comparison a ++ .notEqual :: words extra .operand b

def wordsOfAll (extra : Expression → Nat) : List Expression → List (List Token)
  | [] => []
  | e :: rest => words extra .disjunction e :: wordsOfAll extra rest

end

mutual

def IsSpellable : Expression → Prop
  | .number x => (Token.number x).HasSpelling
  | .text _ => True
  | .name s => (Token.name s).HasSpelling
  | .call f args => (Token.call f).HasSpelling ∧ AreSpellable args
  | .not a => IsSpellable a
  | .binary _ a b => IsSpellable a ∧ IsSpellable b

def AreSpellable : List Expression → Prop
  | [] => True
  | e :: rest => IsSpellable e ∧ AreSpellable rest

end

end WorkflowAudit.Expression
