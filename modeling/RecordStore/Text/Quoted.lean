import RecordStore.Text.Class

/-!
# Quoted text and bytes

How messages show a text or a run of bytes: between double quotes, with a backslash before what would
end or disturb the quotation.  `escape` and `escapeByte` give the rule for one character and one byte.
-/

namespace RecordStore.Text

/-- The lower-case hexadecimal digits of a number. -/
def hex (n : Nat) : String := String.ofList (Nat.toDigits 16 n)

/-- One character inside quotes: a control character, a combining mark and whatever has no shape is
written by its code point. -/
def escape (c : Char) : String :=
  if c = '"' then "\\\""
  else if c = '\\' then "\\\\"
  else if c = '\n' then "\\n"
  else if c = '\r' then "\\r"
  else if c = '\t' then "\\t"
  else if c = '\x00' then "\\0"
  else if isShown c then c.toString
  else "\\u\x7b" ++ hex c.toNat ++ "\x7d"

/-- A text between double quotes. -/
def quoted (s : String) : String := "\"" ++ String.join (s.toList.map escape) ++ "\""

/-- One byte inside quotes: a byte outside printable ASCII is written by its two hexadecimal digits. -/
def escapeByte (b : UInt8) : String :=
  let n := b.toNat
  if n = 0x22 then "\\\""
  else if n = 0x5c then "\\\\"
  else if n = 0x0a then "\\n"
  else if n = 0x0d then "\\r"
  else if n = 0x09 then "\\t"
  else if n = 0 then "\\0"
  else if 0x20 ≤ n ∧ n < 0x7f then (Char.ofNat n).toString
  else "\\x" ++ (if n < 16 then "0" else "") ++ hex n

/-- A run of bytes between double quotes, marked as bytes. -/
def quotedBytes (bytes : List UInt8) : String := "b\"" ++ String.join (bytes.map escapeByte) ++ "\""

end RecordStore.Text
