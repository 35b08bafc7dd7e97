/-
Workflow.Json.Write — JSON text of a document, on one line and without
blanks.

Fields are written in the order in which they stand in their object. In
strings only quotes, backslashes and control characters are escaped.
-/
import Workflow.Json.Basic

namespace Workflow.Json

/-- A unit of four hexadecimal digits. -/
def hexUnit (n : Nat) : List Char :=
  let ds := Nat.toDigits 16 n
  List.replicate (4 - ds.length) '0' ++ ds

/-- A character as it stands inside a text: quotes, backslashes and
control characters are escaped. -/
def writeChar (c : Char) : List Char :=
  match c with
  | '"' => ['\\', '"']
  | '\\' => ['\\', '\\']
  | '\n' => ['\\', 'n']
  | '\r' => ['\\', 'r']
  | '\t' => ['\\', 't']
  | c => if c.toNat < 0x20 then '\\' :: 'u' :: hexUnit c.toNat else [c]

/-- A quoted text. -/
def quoted (text : String) : String :=
  "\"" ++ String.ofList (text.toList.flatMap writeChar) ++ "\""

mutual

/-- The text of a document. -/
def write : Json → String
  | .null => "null"
  | .bool b => if b then "true" else "false"
  | .int n => toString n
  | .float d => d.text
  | .str s => quoted s
  | .arr [] => "[]"
  | .arr (item :: items) => "[" ++ write item ++ writeItems items ++ "]"
  | .obj [] => "\x7b\x7d"
  | .obj ((key, value) :: fields) =>
    "\x7b" ++ quoted key ++ ":" ++ write value ++ writeFields fields ++ "\x7d"

/-- The items after the first, each behind a comma. -/
def writeItems : List Json → String
  | [] => ""
  | item :: items => "," ++ write item ++ writeItems items

/-- The fields after the first, each behind a comma. -/
def writeFields : List (String × Json) → String
  | [] => ""
  | (key, value) :: fields => "," ++ quoted key ++ ":" ++ write value ++ writeFields fields

end

end Workflow.Json
