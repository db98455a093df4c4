import WorkflowAudit.Text.Basic
import WorkflowAudit.Text.Lowercase

/-!
The host of repositories, and the token that grants access to it.
-/

namespace WorkflowAudit.Hosting

inductive Host where
  | enterprise (name : String)
  | standard (name : String)
  deriving DecidableEq, Repr

inductive HostError where
  | url
  deriving DecidableEq, Repr

def HostError.message : HostError → String
  | .url => "must be a domain name, not a URL"

namespace Host

def parse (s : String) : Except HostError Host :=
  let lower := Text.lowercase s
  if Text.startsWith "https://" lower || Text.startsWith "http://" lower then .error .url
  else if lower = "github.com" || Text.endsWith ".ghe.com" lower then .ok (.standard s)
  else .ok (.enterprise s)

def name : Host → String
  | enterprise s => s
  | standard s => s

def default : Host := .standard "github.com"

end Host

structure Token where
  text : String
  deriving DecidableEq, Repr

inductive TokenError where
  | empty
  | unsendable
  deriving DecidableEq, Repr

def TokenError.message : TokenError → String
  | .empty => "GitHub token cannot be empty"
  | .unsendable => "invalid token header"

namespace Token

def parse (s : String) : Except TokenError Token :=
  let t := Text.trim s
  if t.isEmpty then .error .empty else .ok ⟨t⟩

/-- Every control character but the tab stops a token from being sent. -/
def isSendable (t : Token) : Bool :=
  t.text.toList.all fun c => c = '\t' || (0x20 ≤ c.toNat && c.toNat ≠ 0x7f)

def header (t : Token) : String := "Bearer " ++ t.text

end Token

end WorkflowAudit.Hosting
