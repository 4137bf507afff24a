import TypedIR.Text.Numeral

/-
  JSON texts. Inside strings the quote, the backslash, control characters, the
  two line separators and the three characters that mean something in markup
  are escaped; everything else stands for itself.
-/

namespace TypedIR.Text

def jsonChar (c : Char) : String :=
  match c.toNat with
  | 34 => "\\\""
  | 92 => "\\\\"
  | 8 => "\\b"
  | 12 => "\\f"
  | 10 => "\\n"
  | 13 => "\\r"
  | 9 => "\\t"
  | n =>
    if n < 0x20 || n == 0x26 || n == 0x3C || n == 0x3E || n == 0x2028 || n == 0x2029 then
      "\\u" ++ padLeft 4 '0' (hexNat n)
    else String.singleton c

def jsonString (s : String) : String :=
  "\"" ++ String.join (s.toList.map jsonChar) ++ "\""

def jsonObject (members : List (String × String)) : String :=
  "\x7b" ++ String.intercalate "," (members.map fun m => jsonString m.1 ++ ":" ++ m.2) ++ "\x7d"

end TypedIR.Text
