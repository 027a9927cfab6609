import Graft.Text.Property

/-!
# Quoted text

How a text is shown inside messages: between double quotes, with the quote, the backslash and the usual controls escaped
by a letter, and every other character that could not be seen written as `\u` and its scalar value in braces.
-/

namespace Graft.Text.Quoted

/-- A hexadecimal number in lower-case digits. -/
def hexadecimal (n : Nat) : String :=
  String.ofList (Nat.toDigits 16 n)

/-- Whether a character has no visible form of its own. -/
def isHidden (c : Char) : Bool :=
  inRanges invisible c.toNat || inRanges extender c.toNat

/-- One character as it stands between quotes. -/
def encodeChar (c : Char) : String :=
  match c with
  | '"' => "\\\""
  | '\\' => "\\\\"
  | '\n' => "\\n"
  | '\r' => "\\r"
  | '\t' => "\\t"
  | '\x00' => "\\0"
  | _ => if isHidden c then "\\u\x7b" ++ hexadecimal c.toNat ++ "\x7d" else String.singleton c

/-- A text between quotes. -/
def encode (text : String) : String :=
  "\"" ++ String.join (text.toList.map encodeChar) ++ "\""

end Graft.Text.Quoted
