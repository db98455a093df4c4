import WorkflowAudit.Finding.Basic

/-!
Findings by repository. A step has at most one finding of a kind: the first of those with the
highest confidence. Repositories stand in ascending order, the findings of one in the order of
their steps' first findings.
-/

namespace WorkflowAudit

structure Findings where
  entries : List (String × List Finding)
  deriving DecidableEq, Repr

namespace Findings

def empty : Findings := ⟨[]⟩

def put (f : Finding) : List Finding → List Finding
  | [] => [f]
  | g :: rest =>
    if f.concerns g then (if f.isSurer g then f else g) :: rest else g :: put f rest

def pushEntry (f : Finding) : List (String × List Finding) → List (String × List Finding)
  | [] => [(f.repo, [f])]
  | (repo, fs) :: rest =>
    if f.repo = repo then (repo, put f fs) :: rest
    else if f.repo < repo then (f.repo, [f]) :: (repo, fs) :: rest
    else (repo, fs) :: pushEntry f rest

def push (fs : Findings) (f : Finding) : Findings := ⟨pushEntry f fs.entries⟩

def toList (fs : Findings) : List Finding := fs.entries.flatMap (·.2)

def ofList (fs : List Finding) : Findings := fs.foldl push empty

def extend (fs gs : Findings) : Findings := gs.toList.foldl push fs

def size (fs : Findings) : Nat := fs.toList.length

def isEmpty (fs : Findings) : Bool := fs.toList.isEmpty

def count (fs : Findings) (c : Confidence) : Nat := fs.toList.countP (·.confidence = c)

end Findings

end WorkflowAudit
