import WorkflowAudit.Json.Printer

/-!
Targets of requests: characters that can't stand in a path are written as percent signs with the
digits of their bytes, and so are most of those in the value of a query, where a space is a plus.
-/

namespace WorkflowAudit.Hosting.Target

def upperHex (n : Nat) : Char := (Json.hexDigit n).toUpper

def percent (b : UInt8) : List Char := ['%', upperHex (b.toNat / 16), upperHex b.toNat]

def percentAll (c : Char) : List Char := (String.singleton c).toUTF8.toList.flatMap percent

def isPathChar (c : Char) : Bool :=
  0x20 < c.toNat && c.toNat < 0x7f && !(['"', '<', '>', '`', '\x7b', '\x7d'].contains c)

def path (s : String) : String :=
  String.ofList (s.toList.flatMap fun c => if isPathChar c then [c] else percentAll c)

def isValueChar (c : Char) : Bool := c.isAlphanum || ['*', '-', '.', '_'].contains c

def value (s : String) : String :=
  String.ofList (s.toList.flatMap fun c =>
    if isValueChar c then [c] else if c = ' ' then ['+'] else percentAll c)

end WorkflowAudit.Hosting.Target
