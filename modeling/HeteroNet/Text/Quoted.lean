import HeteroNet.Text.Shown

/-
Text as it is quoted in messages: between double quotes, with quotes, backslashes and line
breaks escaped, and characters without a form of their own written by their code point.
-/

namespace HeteroNet.Text

/-- `n` in hexadecimal, without leading zeros. -/
def hex (n : Nat) : String := String.ofList (Nat.toDigits 16 n)

def escapeChar (c : Char) : String :=
  if c = '\x00' then "\\0"
  else if c = '\t' then "\\t"
  else if c = '\r' then "\\r"
  else if c = '\n' then "\\n"
  else if c = '\\' then "\\\\"
  else if c = '"' then "\\\""
  else if isShown c then c.toString
  else "\\u\x7b" ++ hex c.toNat ++ "\x7d"

def quoted (s : String) : String := "\"" ++ String.join (s.toList.map escapeChar) ++ "\""

/-- A list in brackets, its members separated by a comma and a space. -/
def bracketed (members : List String) : String := "[" ++ ", ".intercalate members ++ "]"

/-- A list of numbers, as `[1, 2]`. -/
def numbers (ns : List Nat) : String := bracketed (ns.map toString)

end HeteroNet.Text
