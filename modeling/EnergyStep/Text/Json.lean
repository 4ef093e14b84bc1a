/-!
# JSON text

* `Json`: a JSON value. Numbers keep their text, so that neither digits nor the sign of a zero are
  lost.
* `Json.read`: the value that a text stands for.
* `Json.write`: the text of a value, without blanks.
-/

namespace EnergyStep

/-- A JSON value. -/
inductive Json
  | null
  | bool (b : Bool)
  | number (text : String)
  | string (s : String)
  | array (items : List Json)
  | object (fields : List (String × Json))
deriving Inhabited

namespace Json

/-! ## Reading -/

def hexDigit (c : Char) : Nat :=
  if c.isDigit then c.toNat - '0'.toNat else c.toLower.toNat - 'a'.toNat + 10

def hexNumber (cs : List Char) : Nat := cs.foldl (fun n c => 16 * n + hexDigit c) 0

/-- The character that an escaped letter stands for. -/
def unescape (c : Char) : Char :=
  match c with
  | 'n' => '\n'
  | 't' => '\t'
  | 'r' => '\x0d'
  | 'b' => '\x08'
  | 'f' => '\x0c'
  | c => c

/-- The codes in a string up to its closing quote, and the text after that. -/
def readCodes : List Char → Option (List Nat × List Char)
  | [] => none
  | '"' :: rest => some ([], rest)
  | '\\' :: 'u' :: h₀ :: h₁ :: h₂ :: h₃ :: rest =>
    (readCodes rest).map fun r => (hexNumber [h₀, h₁, h₂, h₃] :: r.1, r.2)
  | '\\' :: c :: rest => (readCodes rest).map fun r => ((unescape c).toNat :: r.1, r.2)
  | c :: rest => (readCodes rest).map fun r => (c.toNat :: r.1, r.2)

/-- The characters with the given codes; the two halves of a surrogate pair are one character. -/
def ofCodes : List Nat → List Char
  | high :: low :: rest =>
    if 0xD800 ≤ high ∧ high < 0xDC00 ∧ 0xDC00 ≤ low ∧ low < 0xE000 then
      Char.ofNat (0x10000 + (high - 0xD800) * 0x400 + (low - 0xDC00)) :: ofCodes rest
    else Char.ofNat high :: ofCodes (low :: rest)
  | [code] => [Char.ofNat code]
  | [] => []

/-- A string up to its closing quote, and the text after that. -/
def readString (cs : List Char) : Option (String × List Char) :=
  (readCodes cs).map fun r => (String.ofList (ofCodes r.1), r.2)

/-- A character of a number or of one of the three words. -/
def isWordChar (c : Char) : Bool := c.isAlphanum || c == '-' || c == '+' || c == '.'

/-- The value that a word stands for. -/
def ofWord : String → Option Json
  | "null" => some .null
  | "true" => some (.bool true)
  | "false" => some (.bool false)
  | "" => none
  | text => some (.number text)

/-- The text without the blanks in front of it. -/
def skipBlanks (cs : List Char) : List Char := cs.dropWhile Char.isWhitespace

mutual

/-- A value and the text after it. The bound is on the number of nested and of neighbouring values;
the length of the text is enough. -/
def readValue : Nat → List Char → Option (Json × List Char)
  | 0, _ => none
  | bound + 1, cs =>
    match skipBlanks cs with
    | '\x7b' :: rest => (readFields bound rest).map fun r => (.object r.1, r.2)
    | '[' :: rest => (readItems bound rest).map fun r => (.array r.1, r.2)
    | '"' :: rest => (readString rest).map fun r => (.string r.1, r.2)
    | cs => (ofWord (String.ofList (cs.takeWhile isWordChar))).map fun v =>
      (v, cs.dropWhile isWordChar)

/-- The items of an array up to its closing bracket. -/
def readItems : Nat → List Char → Option (List Json × List Char)
  | 0, _ => none
  | bound + 1, cs =>
    match skipBlanks cs with
    | ']' :: rest => some ([], rest)
    | ',' :: rest => readItems bound rest
    | cs => do
      let (item, rest) ← readValue bound cs
      let (items, rest) ← readItems bound rest
      pure (item :: items, rest)

/-- The fields of an object up to its closing brace. -/
def readFields : Nat → List Char → Option (List (String × Json) × List Char)
  | 0, _ => none
  | bound + 1, cs =>
    match skipBlanks cs with
    | '\x7d' :: rest => some ([], rest)
    | ',' :: rest => readFields bound rest
    | '"' :: rest => do
      let (key, rest) ← readString rest
      match skipBlanks rest with
      | ':' :: rest => do
        let (value, rest) ← readValue bound rest
        let (fields, rest) ← readFields bound rest
        pure ((key, value) :: fields, rest)
      | _ => none
    | _ => none

end

/-- The value that a text stands for. -/
def read (text : String) : Option Json :=
  let cs := text.toList
  (readValue (cs.length + 1) cs).map Prod.fst

/-! ## Writing -/

/-- A character as it is written in a string. -/
def escape (c : Char) : List Char :=
  if c == '"' || c == '\\' then ['\\', c]
  else if c.toNat < 32 then
    let digits := Nat.toDigits 16 c.toNat
    ['\\', 'u'] ++ List.replicate (4 - digits.length) '0' ++ digits
  else [c]

def quote (s : String) : String := String.ofList ('"' :: (s.toList.flatMap escape ++ ['"']))

mutual

def write : Json → String
  | null => "null"
  | bool b => if b then "true" else "false"
  | number text => text
  | string s => quote s
  | array items => "[" ++ String.intercalate "," (writeItems items) ++ "]"
  | object fields => "\x7b" ++ String.intercalate "," (writeFields fields) ++ "\x7d"

def writeItems : List Json → List String
  | [] => []
  | item :: rest => write item :: writeItems rest

def writeFields : List (String × Json) → List String
  | [] => []
  | (key, value) :: rest => (quote key ++ ":" ++ write value) :: writeFields rest

end

/-! ## Fields -/

/-- The field of an object, if it is there and not null. -/
def field? : Json → String → Option Json
  | object fields, key =>
    match fields.lookup key with
    | some null => none
    | value => value
  | _, _ => none

end Json
end EnergyStep
