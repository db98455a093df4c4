import WorkflowAudit.Text.Basic

/-!
Patterns of contexts in dotted form. A pattern covers a context when its components are, one by one,
the first components of the context; a star stands for any one component.
-/

namespace WorkflowAudit.Context

structure Pattern where
  components : List String
  deriving DecidableEq, Repr

namespace Pattern

def isComponent (part : List Char) : Bool :=
  part = ['*'] || (!part.isEmpty && part.all fun c => c.isAlphanum || c = '-' || c = '_')

def ofString? (s : String) : Option Pattern :=
  let parts := Text.splitChars '.' s.toList
  if parts.all isComponent then some ⟨parts.map String.ofList⟩ else none

def coversComponents : List String → List String → Bool
  | [], _ => true
  | _ :: _, [] => false
  | p :: ps, c :: cs => (p == "*" || Text.sameIgnoringCase p c) && coversComponents ps cs

def covers (p : Pattern) (context : String) : Bool :=
  coversComponents p.components (Text.split '.' context)

end Pattern

end WorkflowAudit.Context
