/-
# The hosts file

`Hosts` keeps the trimmed lines of the hosts file, removes the lines that a
regular expression built from a hostname matches, and pushes new lines at the
end. Saving joins the lines with CR LF and trims the whole. The expression asks
for a dotted address, white space, the hostname and then the end of the line or
more white space. In it only dots and asterisks of the hostname are escaped, so
the literal reading holds for hostnames without other special characters; what
the expression engine makes of the rest is a parameter.
-/

import WampManager.Lib.Text

namespace WampManager

namespace Hosts

/-- White space in the expression, `\s`. -/
def isBlank (c : Char) : Bool :=
  c == ' ' || c == '\t' || c == '\n' || c == '\x0b' || c == '\x0c' || c == '\r'

/-- Read one to three digits, `\d{1,3}`, that are not followed by another. -/
def stripNumber (t : Text) : Option Text :=
  let digits := t.takeWhile Char.isDigit
  if 1 ≤ digits.length ∧ digits.length ≤ 3 then some (t.dropWhile Char.isDigit) else none

/-- Read a number and the dot behind it. -/
def stripNumberDot (t : Text) : Option Text :=
  match stripNumber t with
  | some ('.' :: rest) => some rest
  | _ => none

/-- Read a dotted address from the front of a line. -/
def stripAddress (t : Text) : Option Text :=
  stripNumberDot t >>= stripNumberDot >>= stripNumberDot >>= stripNumber

/-- A dotted address and nothing else. -/
def IsAddress (t : Text) : Prop := stripAddress t = some []

instance (t : Text) : Decidable (IsAddress t) := inferInstanceAs (Decidable (_ = _))

/-- Try a reader behind every nonempty run of blanks, `\s+` with backtracking. -/
def afterBlanks (accepts : Text → Bool) : Text → Bool
  | [] => false
  | c :: rest => isBlank c && (accepts rest || afterBlanks accepts rest)

/-- `($|\s.*)` behind a hostname. -/
def endsName : Text → Bool
  | [] => true
  | c :: _ => isBlank c

/-- The expression with the hostname read literally. -/
def literalMatch (hostname item : Text) : Bool :=
  match stripAddress item with
  | none => false
  | some rest =>
      afterBlanks (fun t => hostname.isPrefixOf t && endsName (t.drop hostname.length)) rest

/-- `str_replace(['.','*'], ['\.','\*'], $hostname)`. -/
def escape (hostname : Text) : Text :=
  hostname.flatMap fun c => if c = '.' ∨ c = '*' then ['\\', c] else [c]

/-- The text of the expression that `remove` builds. -/
def pattern (hostname : Text) : Text :=
  "`^\\d\x7b1,3\x7d\\.\\d\x7b1,3\x7d\\.\\d\x7b1,3\x7d\\.\\d\x7b1,3\x7d\\s+".toList ++ escape hostname ++
    "($|\\s.*)`".toList

/-- A hostname whose escaped text has no special meaning in an expression. -/
def Plain (hostname : Text) : Prop := ∀ c ∈ hostname, c ∉ "\\^$[|()?+\x7b`\x00".toList

instance (hostname : Text) : Decidable (Plain hostname) :=
  inferInstanceAs (Decidable (∀ c ∈ hostname, _))

/-- Does the expression for a hostname match a line? The engine is asked only
where the hostname is more than literal text. -/
def matchesLine (preg : Text → Text → Bool) (hostname item : Text) : Bool :=
  if Plain hostname then literalMatch hostname item else preg (pattern hostname) item

/-- `new Hosts()`: the trimmed lines of the file. -/
def load (file : Text) : List Text := Text.lines file

/-- `Hosts::get`. -/
def get (data : List Text) : Text := Text.joinLines data

/-- `Hosts::remove`. -/
def remove (preg : Text → Text → Bool) (hostname : Text) (data : List Text) : List Text :=
  data.filter fun item => !matchesLine preg hostname item

/-- `Hosts::add`. -/
def add (preg : Text → Text → Bool) (address hostname : Text) (data : List Text) : List Text :=
  if hostname = "localhost".toList then data
  else remove preg hostname data ++ [address ++ '\t' :: hostname]

/-- `Hosts::save`: the new content of the file. -/
def save (data : List Text) : Text := Text.trim (get data)

/-- Remove several hostnames one after another. -/
def removeAll (preg : Text → Text → Bool) (hostnames : List Text) (data : List Text) :
    List Text :=
  hostnames.foldl (fun data hostname => remove preg hostname data) data

/-- Add several hostnames for one address, one after another. -/
def addAll (preg : Text → Text → Bool) (address : Text) (hostnames : List Text)
    (data : List Text) : List Text :=
  hostnames.foldl (fun data hostname => add preg address hostname data) data

end Hosts

end WampManager
