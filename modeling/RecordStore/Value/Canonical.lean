import RecordStore.Value.Basic

/-!
# Canonical text

A text that stands for a value and for no other: the compact form under which a store files a record.
It names the type of each value, so that the number 1 and the text "1" have different texts.
-/

namespace RecordStore

namespace Canonical

/-- Two hexadecimal digits. -/
def hexPair (n : Nat) : List Char := [Nat.digitChar (n / 16), Nat.digitChar (n % 16)]

/-- One character of a quoted text. -/
def escape (c : Char) : List Char :=
  if c = '"' then ['\\', '"']
  else if c = '\\' then ['\\', '\\']
  else if c = '\x08' then ['\\', 'b']
  else if c = '\x0c' then ['\\', 'f']
  else if c = '\n' then ['\\', 'n']
  else if c = '\r' then ['\\', 'r']
  else if c = '\t' then ['\\', 't']
  else if c.toNat < 0x20 then ['\\', 'u', '0', '0'] ++ hexPair c.toNat
  else [c]

/-- A text between double quotes. -/
def quoted (s : String) : List Char := '"' :: s.toList.flatMap escape ++ ['"']

/-- Parts with a comma between neighbours. -/
def commas (parts : List (List Char)) : List Char := List.intercalate [','] parts

/-- A content under the name of its type. -/
def tagged (type : String) (content : List Char) : List Char :=
  '\x7b' :: quoted type ++ ':' :: content ++ ['\x7d']

/-- Parts between brackets. -/
def bracketed (parts : List (List Char)) : List Char := '[' :: commas parts ++ [']']

mutual

/-- The canonical text of a value. -/
def value : Value → List Char
  | .number s => tagged "N" (quoted s)
  | .string s => tagged "S" (quoted s)
  | .bytes b => tagged "B" (bracketed (b.map fun x => Nat.toDigits 10 x.toNat))
  | .bool b => tagged "Bool" (if b then "true" else "false").toList
  | .null => quoted "Null"
  | .list xs => tagged "L" (bracketed (values xs))
  | .map ⟨es⟩ => tagged "M" ('\x7b' :: commas (entries es) ++ ['\x7d'])

/-- The canonical texts of the members of a list. -/
def values : List Value → List (List Char)
  | [] => []
  | x :: xs => value x :: values xs

/-- The canonical texts of the entries of a map. -/
def entries : List (String × Value) → List (List Char)
  | [] => []
  | (n, x) :: es => (quoted n ++ ':' :: value x) :: entries es

end

/-- The canonical text of a tuple of values. -/
def tuple (vs : List Value) : String := String.ofList (bracketed (values vs))

end Canonical

end RecordStore
