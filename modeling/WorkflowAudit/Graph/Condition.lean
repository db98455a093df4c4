import WorkflowAudit.Evaluation.Basic

/-!
Conditions of jobs and steps, as far as an outsider can meet them.
-/

namespace WorkflowAudit

inductive Condition where
  | always
  | reachable (text : String)
  | restricted (text : String)
  deriving DecidableEq, Repr

namespace Condition

/-- The condition that a text states; a blank one states none. -/
def ofText? : Option String → Condition
  | none => always
  | some text =>
    if Text.isBlankText text then always
    else if (Evaluation.Satisfiability.of text Environment.attacker).isReachable then reachable text
    else restricted text

def isRestricted : Condition → Bool
  | restricted _ => true
  | _ => false

/-- The condition with the verdict on it, if there is a condition. -/
def display? : Condition → Option String
  | always => none
  | reachable text => some ("EVALUATED:" ++ text)
  | restricted text => some ("RESTRICTED:" ++ text)

end Condition

end WorkflowAudit
