/-!
# JSON

Reports are handed over as JSON. Here are the values of JSON as they are read,
and the texts of strings and objects as they are written: without blanks, with an
escape for the quote, the backslash and each control character, and all else as
it is.
-/

namespace Portugol

/-- A value of JSON. -/
inductive Json
  | null
  | logical (b : Bool)
  /-- A number as it is written. -/
  | number (digits : List Char)
  /-- A text; none if its escapes name half of a surrogate pair. -/
  | text (s : Option String)
  | list (items : List Json)
  /-- Names and values, in the order of the text; a name may come twice. -/
  | object (members : List (Option String × Json))
  deriving Inhabited

namespace Json

/-! ## Writing -/

/-- The hexadecimal digit of a number below sixteen. -/
def hexDigit (n : Nat) : Char := Char.ofNat (if n < 10 then 48 + n else 87 + n)

/-- A character as it is written in a text. -/
def escape (c : Char) : List Char :=
  match c with
  | '"' => ['\\', '"']
  | '\\' => ['\\', '\\']
  | '\n' => ['\\', 'n']
  | '\r' => ['\\', 'r']
  | '\t' => ['\\', 't']
  | '\x08' => ['\\', 'b']
  | '\x0c' => ['\\', 'f']
  | c =>
    if c.toNat < 32 then ['\\', 'u', '0', '0', hexDigit (c.toNat / 16), hexDigit (c.toNat % 16)]
    else [c]

/-- A text between quotes. -/
def quote (s : String) : String :=
  String.ofList ('"' :: (s.toList.flatMap escape ++ ['"']))

/-- Names and written values with commas between them. -/
def writeMembers : List (String × String) → String
  | [] => ""
  | [(name, value)] => quote name ++ ":" ++ value
  | (name, value) :: second :: rest =>
    quote name ++ ":" ++ value ++ "," ++ writeMembers (second :: rest)

/-- An object, given its names and its written values. -/
def writeObject (members : List (String × String)) : String :=
  "\x7b" ++ writeMembers members ++ "\x7d"

/-! ## Views -/

/-- The text that a value is. -/
def string? : Json → Option String
  | text s => s
  | _ => none

/-- The texts that a list of texts has. -/
def strings? : Json → Option (List String)
  | list items => items.mapM string?
  | _ => none

/-- The names and values of an object whose names are texts. -/
def members? : Json → Option (List (String × Json))
  | object members => members.mapM fun (name, value) => name.map (·, value)
  | _ => none

/-- The value under a name, if there is one; fails if there are two. -/
def member (members : List (String × Json)) (name : String) : Option (Option Json) :=
  match members.filter (·.1 == name) with
  | [] => some none
  | [(_, value)] => some (some value)
  | _ => none

/-- The fields of a record with these names, each if it is there. A record is an
    object that has each name at most once, whatever else it has, or a list of no
    more values than there are names, in the order of the names. -/
def fields (names : List String) : Json → Option (List (Option Json))
  | list items =>
    if items.length ≤ names.length then
      some (items.map some ++ List.replicate (names.length - items.length) none)
    else none
  | value => do
    let members ← value.members?
    names.mapM (member members)

end Json

end Portugol
