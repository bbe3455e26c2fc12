import RemoteFacts.Text.Hidden

/-!
# Quoted text

* `quoted` : a text as messages show it, between double quotes;
* `Quoted.escape` : one character of it.

A quote and a backslash stand behind a backslash, the common control characters have letters, and every
other hidden character is written by its number, so that no message holds a character that cannot be seen.
-/

namespace RemoteFacts.Text

/-- A character as it stands between the quotes. -/
def Quoted.escape (c : Char) : List Char :=
  match c with
  | '"' => ['\\', '"']
  | '\\' => ['\\', '\\']
  | '\n' => ['\\', 'n']
  | '\r' => ['\\', 'r']
  | '\t' => ['\\', 't']
  | '\x00' => ['\\', '0']
  | c => if isHidden c then ['\\', 'u', '\x7b'] ++ Nat.toDigits 16 c.toNat ++ ['\x7d'] else [c]

/-- A text between double quotes, every hidden character escaped. -/
def quoted (s : String) : String :=
  "\"" ++ String.ofList (s.toList.flatMap Quoted.escape) ++ "\""

end RemoteFacts.Text
