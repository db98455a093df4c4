import WorkflowAudit.Classification.Tables
import WorkflowAudit.Text.Word

/-!
What the text of a script says: which commands it runs, and which reference it checks out.
-/

namespace WorkflowAudit.Classification

/-- The line before a line end, of which a carriage return is a part. -/
def endedLine (l : List Char) : List Char := if l.getLast? = some '\r' then l.dropLast else l

/-- The lines of a text. Nothing follows the last line end. -/
def lines (text : String) : List String :=
  let parts := Text.splitChars '\n' text.toList
  let last := (parts.getLast?.filter fun l => !l.isEmpty).toList
  (parts.dropLast.map endedLine ++ last).map String.ofList

/-- Whether a line starts with a command. One that ends in a word character ends a word: `make`
stands at the start of `make test`, but not of `makensis`. -/
def startsWithCommand (line command : String) : Bool :=
  match Text.afterFront command.toList line.toList with
  | none => false
  | some rest =>
    let isOpen := !command.toList.getLast?.any fun c => Text.isAlphanumeric c || c = '_' || c = '-'
    isOpen || match rest with
      | [] => true
      | c :: _ => Text.isBlank c || c = ';'

def containsAny (parts : List String) (text : String) : Bool := parts.any (Text.contains · text)

def isSinkScript (t : Tables) (script : String) : Bool :=
  containsAny t.sinkPatterns script ||
    (lines script).any fun l =>
      let line := String.ofList (Text.trimStartChars l.toList)
      t.sinkCommands.any (startsWithCommand line)

def mentionsPullRequest (text : String) : Bool := containsAny pullRequestMarkers (Text.fold text)

def wordRest (word cs : List Char) : Option (List Char) :=
  match Text.afterFront word cs with
  | some rest => if rest.head?.any Text.isWordChar then none else some rest
  | none => none

def wordAndBlanks (word cs : List Char) : Option (List Char) :=
  match Text.afterFront word cs with
  | some (c :: rest) => if Text.isBlank c then some (Text.trimStartChars rest) else none
  | _ => none

structure Fetch where
  ofPullRequest : Bool
  rest : List Char

def fetchAt (cs : List Char) : Option Fetch :=
  match wordAndBlanks "git".toList cs with
  | some after =>
    (["checkout", "switch", "fetch", "pull"].findSome? fun w => wordRest w.toList after).map
      (⟨false, ·⟩)
  | none =>
    ((wordAndBlanks "gh".toList cs).bind (wordAndBlanks "pr".toList)).bind fun after =>
      (wordRest "checkout".toList after).map (⟨true, ·⟩)

def endsArguments (c : Char) : Bool := c = '\n' || c = ';' || c = '&' || c = '|'

/-- The commands of a script that fetch code, each with its arguments. -/
def fetches : Nat → Bool → List Char → List (Bool × String)
  | 0, _, _ => []
  | _ + 1, _, [] => []
  | fuel + 1, afterWord, c :: cs =>
    match if afterWord then none else fetchAt (c :: cs) with
    | some f =>
      let arguments := f.rest.takeWhile fun x => !endsArguments x
      (f.ofPullRequest, String.ofList (Text.trimChars arguments)) ::
        fetches fuel false (f.rest.drop arguments.length)
    | none => fetches fuel (Text.isWordChar c) cs

def words (cs : List Char) : List (List Char) :=
  (cs.splitBy fun a b => Text.isBlank a == Text.isBlank b).filter fun w => !w.any Text.isBlank

/-- The reference among the arguments of a command: all of them when they hold an expression. -/
def fetchedRef (arguments : String) : String :=
  if Text.contains "$\x7b\x7b" arguments then arguments
  else
    let isRef (w : List Char) := mentionsPullRequest (String.ofList w) || w.head? = some '$'
    ((words arguments.toList).find? isRef).elim arguments String.ofList

/-- The reference that a script checks out, if it is one of a pull request. -/
def scriptCheckout (script : String) : Option String :=
  ((fetches (script.toList.length + 1) false script.toList).find? fun f =>
    !f.2.isEmpty && (f.1 || mentionsPullRequest f.2)).map fun f => fetchedRef f.2

/-- The ending `.sha` or `_sha` of a name; the long s is one of the forms of its first letter. -/
def endsInSha (cs : List Char) : Bool :=
  match cs with
  | dot :: s :: h :: a :: rest =>
    (dot = '.' || dot = '_') && (s.toLower = 's' || s.toNat = 0x17F) && h.toLower = 'h' &&
      a.toLower = 'a' && !rest.head?.any Text.isWordChar
  | _ => false

def isCommit (cs : List Char) : Bool :=
  let digits := cs.takeWhile fun c => (Json.hexValue c).isSome
  digits.length = 40 && !(cs.drop 40).head?.any Text.isWordChar

def namesCommit (afterWord : Bool) : List Char → Bool
  | [] => false
  | c :: cs =>
    endsInSha (c :: cs) || (!afterWord && isCommit (c :: cs)) || namesCommit (Text.isWordChar c) cs

/-- A reference may move unless it names a commit. -/
def isMutableRef (ref : String) : Bool := !namesCommit false ref.toList

end WorkflowAudit.Classification
