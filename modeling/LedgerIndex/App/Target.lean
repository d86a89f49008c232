/-!
# Targets of requests

What a request over HTTP is for: a path, an address with the name of a machine in front of its
path, or just the name of a machine, which leads to no path.  Parameters and fragments do not
matter, but a target with characters that may not stand in its place is refused.
-/

namespace LedgerIndex.App.Target

/-- A character is one of some. -/
def isOneOf (chars : String) (c : Char) : Bool := chars.toList.contains c

/-- The character may occur in a target: it is no blank and no sign of control. -/
def isVisible (c : Char) : Bool := ' ' < c && c != '\x7f'

/-- The character may occur in a path. -/
def isPathChar (c : Char) : Bool := isVisible c && !isOneOf "#<>?\u0060" c

/-- The character may occur in parameters. -/
def isParameterChar (c : Char) : Bool := isVisible c && !isOneOf "\"#<>" c

/-- The path that a target begins with, if all up to the fragment is well formed. -/
def path? (cs : List Char) : Option String :=
  let cs := cs.takeWhile (· != '#')
  let path := cs.takeWhile (· != '?')
  let parameters := (cs.drop path.length).drop 1
  if path.all isPathChar && parameters.all isParameterChar then
    some (if path.isEmpty then "/" else String.ofList path)
  else none

/-! ## Schemes -/

/-- The character may occur in the name of a scheme. -/
def isSchemeChar (c : Char) : Bool := c.isAlphanum || isOneOf "+-." c

/-- The longest name of a scheme. -/
def maxScheme : Nat := 64

/-- What follows the scheme of an address, and whether there is one.  A name that is too long
spoils the target. -/
def afterScheme (cs : List Char) : Option (Bool × List Char) :=
  let name := cs.takeWhile isSchemeChar
  match cs.drop name.length with
  | ':' :: '/' :: '/' :: rest => if name.length ≤ maxScheme then some (true, rest) else none
  | _ => some (false, cs)

/-! ## Names of machines -/

/-- The character may occur in the name of a machine. -/
def isHostChar (c : Char) : Bool := c.isAlphanum || isOneOf "!$&'()*+,-.;=_~" c

/-- What was met so far in the name of a machine.  Colons and percent signs before an `@` or between
brackets do not matter. -/
structure HostScan where
  colons : Nat
  /-- a bracket was opened -/
  isOpened : Bool
  /-- a bracket was closed -/
  isClosed : Bool
  hasPercent : Bool
  deriving Inhabited

/-- The most colons that matter at any time. -/
def maxColons : Nat := 8

namespace HostScan

/-- Nothing was met yet. -/
def start : HostScan := ⟨0, false, false, false⟩

/-- Meets a character. -/
def meet (s : HostScan) (c : Char) : Option HostScan :=
  match c with
  | ':' => if s.colons < maxColons then some { s with colons := s.colons + 1 } else none
  | '[' => if s.hasPercent || s.isOpened then none else some { s with isOpened := true }
  | ']' =>
    if s.isOpened && !s.isClosed then
      some { s with isClosed := true, colons := 0, hasPercent := false }
    else none
  | '@' => some { s with colons := 0, hasPercent := false }
  | '%' => some { s with hasPercent := true }
  | c => if isHostChar c then some s else none

/-- The name is well formed. -/
def isDone (s : HostScan) : Bool := s.isOpened == s.isClosed && s.colons ≤ 1 && !s.hasPercent

end HostScan

/-- The name of a machine is well formed. -/
def isHost (cs : List Char) : Bool :=
  cs.getLast? != some '@' && ((cs.foldlM HostScan.meet .start).map (·.isDone)).getD false

/-! ## Targets -/

/-- The path of an address or of the name of a machine. -/
def addressPath? (cs : List Char) : Option String := do
  let (hasScheme, rest) ← afterScheme cs
  let host := rest.takeWhile fun c => !isOneOf "/?#" c
  let rest := rest.drop host.length
  if !isHost host then none
  else if hasScheme then if host.isEmpty then none else path? rest
  else if rest.isEmpty then some "" else none

/-- The path that a target leads to.  Nothing if the target is refused. -/
def parse (target : String) : Option String :=
  match target.toList with
  | [] => none
  | cs =>
    if !cs.all isVisible then none
    else
      match cs with
      | ['*'] => some "*"
      | '/' :: _ => path? cs
      | _ => addressPath? cs

end LedgerIndex.App.Target
