import Mathlib.Data.List.Sort
import Nexal.Spec.Json

/-! `JSON.stringify` and `JSON.parse`. A string of the model has no lone surrogates: an escape that
spells one is read as U+FFFD. -/

namespace Nexal

/-- How a finite number is spelled, and what a spelling stands for. `IsNumber` are the values of
JavaScript numbers. -/
structure NumberText where
  IsNumber : JsNumber → Prop
  toText : JsNumber → List Char
  ofText : List Char → Option JsNumber
  toText_ne_nil : ∀ n, IsNumber n → toText n ≠ []
  toText_chars : ∀ n, IsNumber n → ∀ c ∈ toText n, c.isDigit = true ∨ c ∈ ['-', '+', '.', 'e', 'E']
  ofText_toText : ∀ n, IsNumber n → ofText (toText n) = some n

/-! Objects -/

/-- The number that an array index key spells. -/
def arrayIndex (key : String) : Option ℕ :=
  let digits := key.toList
  let n := digits.foldl (fun n c => n * 10 + (c.toNat - 48)) 0
  if digits ≠ [] ∧ digits.all Char.isDigit ∧ (digits.head? = some '0' → n = 0 ∧ digits.length = 1) ∧
    n < 4294967295 then
    some n
  else none

/-- The order in which an object lists its keys: the array indices first and ascending, then the
others as they were added. -/
def ownOrder {α : Type} (fields : List (String × α)) : List (String × α) :=
  (fields.filter fun f => (arrayIndex f.1).isSome).insertionSort
      (fun f g => (arrayIndex f.1).getD 0 ≤ (arrayIndex g.1).getD 0)
    ++ fields.filter fun f => (arrayIndex f.1).isNone

/-- `Object.fromEntries`: a key that comes again takes the later value. -/
def fromEntries (fields : List (String × Json)) : Record :=
  ownOrder (fields.foldl (fun r f => Record.set r f.1 f.2) [])

namespace JsonText

def isNumberChar (c : Char) : Bool := c.isDigit || ['-', '+', '.', 'e', 'E'].contains c

/-! Strings -/

def hexDigit (n : ℕ) : Char := if n < 10 then Char.ofNat (48 + n) else Char.ofNat (87 + n)

def hexValue (c : Char) : Option ℕ :=
  if '0' ≤ c ∧ c ≤ '9' then some (c.toNat - 48)
  else if 'a' ≤ c ∧ c ≤ 'f' then some (c.toNat - 87)
  else if 'A' ≤ c ∧ c ≤ 'F' then some (c.toNat - 55)
  else none

/-- The letter after the backslash, for the characters that have one. -/
def shortEscapes : List (Char × Char) :=
  [('\u0022', '\u0022'), ('\\', '\\'), ('\u0008', 'b'), ('\u000c', 'f'), ('\n', 'n'), ('\u000d', 'r'), ('\t', 't')]

def escape (c : Char) : List Char :=
  match shortEscapes.lookup c with
  | some letter => ['\\', letter]
  | none =>
    if c.toNat < 0x20 then ['\\', 'u', '0', '0', hexDigit (c.toNat / 16), hexDigit (c.toNat % 16)] else [c]

def quote (s : String) : List Char := '\u0022' :: (s.toList.flatMap escape ++ ['\u0022'])

def unit (cs : List Char) : Option (ℕ × List Char) :=
  match cs with
  | a :: b :: c :: d :: rest => do
    let a ← hexValue a
    let b ← hexValue b
    let c ← hexValue c
    let d ← hexValue d
    return (((a * 16 + b) * 16 + c) * 16 + d, rest)
  | _ => none

/-- The second half of a surrogate pair, escaped. -/
def lowSurrogate (cs : List Char) : Option (ℕ × List Char) :=
  match cs with
  | '\\' :: 'u' :: cs => (unit cs).filter fun p => 0xDC00 ≤ p.1 ∧ p.1 ≤ 0xDFFF
  | _ => none

/-- What follows a backslash. -/
def parseEscape (cs : List Char) : Option (Char × List Char) :=
  match cs with
  | 'u' :: cs => do
    let (high, rest) ← unit cs
    if 0xD800 ≤ high ∧ high ≤ 0xDBFF then
      match lowSurrogate rest with
      | some (low, rest) => some (Char.ofNat (0x10000 + (high - 0xD800) * 0x400 + (low - 0xDC00)), rest)
      | none => some (Char.ofNat 0xFFFD, rest)
    else if 0xDC00 ≤ high ∧ high ≤ 0xDFFF then some (Char.ofNat 0xFFFD, rest)
    else some (Char.ofNat high, rest)
  | '/' :: cs => some ('/', cs)
  | letter :: cs => ((shortEscapes.map Prod.swap).lookup letter).map (·, cs)
  | [] => none

/-- The rest of a string whose opening quote is read. The number bounds the characters of it. -/
def parseString : ℕ → List Char → Option (List Char × List Char)
  | 0, _ => none
  | _ + 1, [] => none
  | fuel + 1, c :: cs =>
    if c = '\u0022' then some ([], cs)
    else if c = '\\' then do
      let (c, cs) ← parseEscape cs
      let (s, rest) ← parseString fuel cs
      return (c :: s, rest)
    else if c.toNat < 0x20 then none
    else do
      let (s, rest) ← parseString fuel cs
      return (c :: s, rest)

section Values
variable (nt : NumberText)

/-! Writing -/

mutual

def text : Json → List Char
  | .null => ['n', 'u', 'l', 'l']
  | .bool true => ['t', 'r', 'u', 'e']
  | .bool false => ['f', 'a', 'l', 's', 'e']
  | .num n => nt.toText n
  | .str s => quote s
  | .arr items => '[' :: (textItems items ++ [']'])
  | .obj fields => '{' :: (textFields fields ++ ['}'])

def textItems : List Json → List Char
  | [] => []
  | [v] => text v
  | v :: w :: items => text v ++ ',' :: textItems (w :: items)

def textFields : List (String × Json) → List Char
  | [] => []
  | [(key, v)] => quote key ++ ':' :: text v
  | (key, v) :: f :: fields => quote key ++ ':' :: (text v ++ ',' :: textFields (f :: fields))

end

/-- `JSON.stringify` of a value with its keys in this order. -/
def stringify (v : Json) : String := String.ofList (text nt v)

/-! Reading -/

def isSpace (c : Char) : Bool := c = ' ' || c = '\n' || c = '\u000d' || c = '\t'

def skipSpace (cs : List Char) : List Char := cs.dropWhile isSpace

mutual

/-- A value with what stands behind it. The number bounds how far the text is read. -/
def parseValue : ℕ → List Char → Option (Json × List Char)
  | 0, _ => none
  | fuel + 1, cs =>
    match skipSpace cs with
    | 'n' :: 'u' :: 'l' :: 'l' :: cs => some (.null, cs)
    | 't' :: 'r' :: 'u' :: 'e' :: cs => some (.bool true, cs)
    | 'f' :: 'a' :: 'l' :: 's' :: 'e' :: cs => some (.bool false, cs)
    | '\u0022' :: cs => (parseString fuel cs).map fun p => (.str (String.ofList p.1), p.2)
    | '[' :: cs =>
      match skipSpace cs with
      | ']' :: cs => some (.arr [], cs)
      | cs => (parseItems fuel cs).map fun p => (.arr p.1, p.2)
    | '{' :: cs =>
      match skipSpace cs with
      | '}' :: cs => some (.obj [], cs)
      | cs => (parseFields fuel cs).map fun p => (.obj (fromEntries p.1), p.2)
    | cs => (nt.ofText (cs.takeWhile isNumberChar)).map fun n => (.num n, cs.dropWhile isNumberChar)

/-- The items of an array up to its end. -/
def parseItems : ℕ → List Char → Option (List Json × List Char)
  | 0, _ => none
  | fuel + 1, cs =>
    (parseValue fuel cs).bind fun p =>
      match skipSpace p.2 with
      | ',' :: cs => (parseItems fuel cs).map fun q => (p.1 :: q.1, q.2)
      | ']' :: cs => some ([p.1], cs)
      | _ => none

def parseFields : ℕ → List Char → Option (List (String × Json) × List Char)
  | 0, _ => none
  | fuel + 1, cs =>
    match skipSpace cs with
    | '\u0022' :: cs =>
      (parseString fuel cs).bind fun k =>
        match skipSpace k.2 with
        | ':' :: cs =>
          (parseValue fuel cs).bind fun p =>
            match skipSpace p.2 with
            | ',' :: cs => (parseFields fuel cs).map fun q => ((String.ofList k.1, p.1) :: q.1, q.2)
            | '}' :: cs => some ([(String.ofList k.1, p.1)], cs)
            | _ => none
        | _ => none
    | _ => none

end

/-- `JSON.parse`; `none` for a `SyntaxError`. -/
def parse (s : String) : Option Json :=
  match parseValue nt (s.toList.length + 1) s.toList with
  | some (v, rest) => if skipSpace rest = [] then some v else none
  | none => none

end Values

end JsonText

end Nexal

/-! Messages as JSON text (`packages/tape/src/convert.ts`). A byte array goes into the text as an object
with its base64 under a marker key. -/

namespace Nexal

/-- What `messagesToJson` is given: JSON values in which byte arrays occur. -/
inductive MessageValue where
  | null
  | bool (b : Bool)
  | num (n : JsNumber)
  | str (s : String)
  | bytes (bytes : List UInt8)
  | arr (items : List MessageValue)
  | obj (fields : List (String × MessageValue))
deriving Inhabited

namespace MessageJson

def bytesMarker : String := "__nexal_bytes_b64__"

section Runtime
variable (rt : JsRuntime)

mutual

/-- The replacer, at every value on the way down. The object it puts for a byte array has only a
string in it, which it leaves as it is. -/
def replace : MessageValue → Json
  | .null => .null
  | .bool b => .bool b
  | .num n => .num n
  | .str s => .str s
  | .bytes bytes => .obj [(bytesMarker, .str (rt.bufferToBase64 bytes))]
  | .arr items => .arr (replaceItems items)
  | .obj fields => .obj (replaceFields fields)

def replaceItems : List MessageValue → List Json
  | [] => []
  | v :: items => replace v :: replaceItems items

def replaceFields : List (String × MessageValue) → List (String × Json)
  | [] => []
  | (key, v) :: fields => (key, replace v) :: replaceFields fields

end

/-- The reviver at an object whose own values it has revived. -/
def reviveObject (fields : List (String × MessageValue)) : MessageValue :=
  match fields.lookup bytesMarker with
  | some (.str base64) => .bytes (rt.bufferFromBase64 base64)
  | _ => .obj fields

mutual

/-- The reviver, from the innermost values outwards. -/
def revive : Json → MessageValue
  | .null => .null
  | .bool b => .bool b
  | .num n => .num n
  | .str s => .str s
  | .arr items => .arr (reviveItems items)
  | .obj fields => reviveObject rt (reviveFields fields)

def reviveItems : List Json → List MessageValue
  | [] => []
  | v :: items => revive v :: reviveItems items

def reviveFields : List (String × Json) → List (String × MessageValue)
  | [] => []
  | (key, v) :: fields => (key, revive v) :: reviveFields fields

end

variable (nt : NumberText)

/-- Serialize messages to JSON, handling byte arrays via base64. -/
def messagesToJson (msgs : List MessageValue) : String := JsonText.stringify nt (replace rt (.arr msgs))

/-- Deserialize JSON back to messages; `none` where `JSON.parse` throws. -/
def jsonToMessages (s : String) : Option MessageValue :=
  if s = "" ∨ s = "[]" then some (.arr []) else (JsonText.parse nt s).map (revive rt)

end Runtime

end MessageJson

end Nexal
