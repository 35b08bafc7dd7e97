/-
Workflow.Json.Read — reading JSON text.

Reading is two folds. The first cuts the characters into tokens, the
second builds the document on a stack of open brackets; both look at one
element at a time and need no look-ahead.

* An integer from `-2 ^ 63` to `2 ^ 64 - 1` is an `int`. A number with a
  point or an exponent, or outside that range, and `-0`, is a `float`.
* Of a repeated key the last value counts.
-/
import Workflow.Json.Basic

namespace Workflow.Json

/-! ## Numbers -/

/-- The least integer that is kept as an integer. -/
def minInt : Int := -0x8000000000000000

/-- The greatest integer that is kept as an integer. -/
def maxInt : Int := 0xFFFFFFFFFFFFFFFF

def digitValue (c : Char) : Nat := c.toNat - '0'.toNat

/-- The value of a digit string. -/
def natOfDigits (ds : List Char) : Nat := ds.foldl (fun n c => n * 10 + digitValue c) 0

/-- The digits before the point that fit a 64-bit word, and how many do
not: once one does not fit, no later one is taken. -/
def gatherWhole : List Char → Nat → Nat × Int
  | [], n => (n, 0)
  | c :: cs, n =>
    let m := n * 10 + digitValue c
    if (m : Int) ≤ maxInt then gatherWhole cs m else (n, cs.length + 1)

/-- Appends the digits after the point that fit a 64-bit word, and counts
them; the rest are too small to matter. -/
def gatherFraction : List Char → Nat → Int → Nat × Int
  | [], n, p => (n, p)
  | c :: cs, n, p =>
    let m := n * 10 + digitValue c
    if (m : Int) ≤ maxInt then gatherFraction cs m (p - 1) else (n, p)

/-- The float with the given digits before and after the point and the
given exponent. -/
def floatOfParts (negative : Bool) (whole fraction : List Char) (exponent : Int) : Option Json :=
  let (n, p) := gatherWhole whole 0
  let (n, p) := gatherFraction fraction n p
  (Double.ofDecimal negative n (p + exponent)).map .float

/-- The exponent after its mark: a sign if any, and at least one digit. -/
def exponentOf (cs : List Char) : Option Int :=
  let (negative, ds) := match cs with
    | '-' :: ds => (true, ds)
    | '+' :: ds => (false, ds)
    | ds => (false, ds)
  if ds.isEmpty || !ds.all Char.isDigit then none
  else
    let n : Int := natOfDigits ds
    some (if negative then -n else n)

/-- A number without its sign. -/
def unsignedNumber (negative : Bool) (cs : List Char) : Option Json :=
  let whole := cs.takeWhile Char.isDigit
  let rest := cs.dropWhile Char.isDigit
  if whole.isEmpty || (1 < whole.length && whole.head? == some '0') then none
  else match rest with
    | [] =>
      let n : Int := natOfDigits whole
      let n := if negative then -n else n
      if negative && n == 0 then some (.float Double.zero.negate)
      else if minInt ≤ n ∧ n ≤ maxInt then some (.int n)
      else floatOfParts negative whole [] 0
    | '.' :: rest =>
      let fraction := rest.takeWhile Char.isDigit
      if fraction.isEmpty then none
      else match rest.dropWhile Char.isDigit with
        | [] => floatOfParts negative whole fraction 0
        | mark :: power =>
          if mark = 'e' ∨ mark = 'E' then do
            floatOfParts negative whole fraction (← exponentOf power)
          else none
    | mark :: power =>
      if mark = 'e' ∨ mark = 'E' then do floatOfParts negative whole [] (← exponentOf power)
      else none

/-- A bare word: a number or one of the three names. -/
def wordValue (cs : List Char) : Option Json :=
  match String.ofList cs with
  | "null" => some .null
  | "true" => some (.bool true)
  | "false" => some (.bool false)
  | _ =>
    match cs with
    | '-' :: ds => unsignedNumber true ds
    | ds => unsignedNumber false ds

/-! ## Tokens -/

/-- What a text is cut into before it is read: brackets, separators and values
without parts. -/
inductive Token where
  | openItems
  | closeItems
  | openFields
  | closeFields
  | comma
  | colon
  | text (value : String)
  | word (value : Json)
deriving Repr

/-- What the characters read so far are part of. Texts and words are kept
backwards. -/
inductive Lexing where
  | blank
  | word (taken : List Char)
  | text (taken : List Char)
  | escape (taken : List Char)
  | unit (taken : List Char) (high : Option Nat) (value left : Nat)
  | low (taken : List Char) (high : Nat)
  | lowUnit (taken : List Char) (high : Nat)

def isBlank (c : Char) : Bool := c == ' ' || c == '\t' || c == '\n' || c == '\r'

def isWordChar (c : Char) : Bool := c.isAlphanum || c == '-' || c == '+' || c == '.'

def hexValue (c : Char) : Option Nat :=
  if c.isDigit then some (digitValue c)
  else if 'a' ≤ c ∧ c ≤ 'f' then some (c.toNat - 'a'.toNat + 10)
  else if 'A' ≤ c ∧ c ≤ 'F' then some (c.toNat - 'A'.toNat + 10)
  else none

/-- The character that a one-letter escape stands for. -/
def escaped : Char → Option Char
  | '"' => some '"'
  | '\\' => some '\\'
  | '/' => some '/'
  | 'b' => some '\x08'
  | 'f' => some '\x0c'
  | 'n' => some '\n'
  | 'r' => some '\r'
  | 't' => some '\t'
  | _ => none

/-- A finished 16-bit unit: a character, or half of one. A lone half is
refused. -/
def unitDone (taken : List Char) (high : Option Nat) (value : Nat) : Option Lexing :=
  match high with
  | none =>
    if 0xD800 ≤ value ∧ value < 0xDC00 then some (.low taken value)
    else if 0xDC00 ≤ value ∧ value < 0xE000 then none
    else some (.text (Char.ofNat value :: taken))
  | some h =>
    if 0xDC00 ≤ value ∧ value < 0xE000 then
      some (.text (Char.ofNat (0x10000 + (h - 0xD800) * 0x400 + (value - 0xDC00)) :: taken))
    else none

/-- A character outside texts and words. -/
def lexBlank (c : Char) : Option (Lexing × List Token) :=
  if isBlank c then some (.blank, [])
  else if isWordChar c then some (.word [c], [])
  else match c with
    | '"' => some (.text [], [])
    | '[' => some (.blank, [.openItems])
    | ']' => some (.blank, [.closeItems])
    | '\x7b' => some (.blank, [.openFields])
    | '\x7d' => some (.blank, [.closeFields])
    | ',' => some (.blank, [.comma])
    | ':' => some (.blank, [.colon])
    | _ => none

/-- Takes one character: the new state, and the tokens that it ends. -/
def lexChar (state : Lexing) (c : Char) : Option (Lexing × List Token) :=
  match state with
  | .blank => lexBlank c
  | .word taken =>
    if isWordChar c then some (.word (c :: taken), [])
    else do
      let value ← wordValue taken.reverse
      let (next, tokens) ← lexBlank c
      return (next, .word value :: tokens)
  | .text taken =>
    if c = '"' then some (.blank, [.text (String.ofList taken.reverse)])
    else if c = '\\' then some (.escape taken, [])
    else if c.toNat < 0x20 then none
    else some (.text (c :: taken), [])
  | .escape taken =>
    if c = 'u' then some (.unit taken none 0 4, [])
    else (escaped c).map fun e => (.text (e :: taken), [])
  | .unit taken high value left => do
    let value := value * 16 + (← hexValue c)
    if left ≤ 1 then (unitDone taken high value).map (·, [])
    else some (.unit taken high value (left - 1), [])
  | .low taken high => if c = '\\' then some (.lowUnit taken high, []) else none
  | .lowUnit taken high => if c = 'u' then some (.unit taken (some high) 0 4, []) else none

/-- The tokens of a text. -/
def tokens (cs : List Char) : Option (List Token) := do
  let (state, found) ← cs.foldlM
    (fun (state, found) c => do
      let (next, more) ← lexChar state c
      return (next, more.reverse ++ found)) (Lexing.blank, [])
  match state with
  | .blank => some found.reverse
  | .word taken => do return (Token.word (← wordValue taken.reverse) :: found).reverse
  | _ => none

/-! ## Documents -/

/-- An open bracket with what it holds so far; items are kept
backwards. -/
inductive Frame where
  | items (before : List Json)
  | fields (before : List (String × Json))
  | member (before : List (String × Json)) (key : String)

/-- What may follow. -/
inductive Expect where
  | value
  | item
  | field
  | key
  | colon (key : String)
  | next
  | done (doc : Json)

/-- Puts a finished value into the innermost open bracket. -/
def place (value : Json) : List Frame → Option (List Frame × Expect)
  | [] => some ([], .done value)
  | .items before :: outer => some (.items (value :: before) :: outer, .next)
  | .member before key :: outer => some (.fields (Fields.insert key value before) :: outer, .next)
  | .fields _ :: _ => none

/-- Takes one token. -/
def takeToken : List Frame × Expect → Token → Option (List Frame × Expect)
  | (stack, .value), t | (stack, .item), t =>
    match t, stack with
    | .word v, _ => place v stack
    | .text s, _ => place (.str s) stack
    | .openItems, _ => some (.items [] :: stack, .item)
    | .openFields, _ => some (.fields [] :: stack, .field)
    | .closeItems, .items [] :: outer => place (.arr []) outer
    | _, _ => none
  | (stack, .field), .text k | (stack, .key), .text k => some (stack, .colon k)
  | (.fields [] :: outer, .field), .closeFields => place (.obj []) outer
  | (.fields before :: outer, .colon k), .colon => some (.member before k :: outer, .value)
  | (.items before :: outer, .next), .comma => some (.items before :: outer, .value)
  | (.items before :: outer, .next), .closeItems => place (.arr before.reverse) outer
  | (.fields before :: outer, .next), .comma => some (.fields before :: outer, .key)
  | (.fields before :: outer, .next), .closeFields => place (.obj before) outer
  | _, _ => none

/-- The document that a text holds. -/
def read (text : String) : Option Json := do
  let (stack, expect) ← (← tokens text.toList).foldlM takeToken ([], .value)
  match stack, expect with
  | [], .done doc => some doc
  | _, _ => none

end Workflow.Json
