import Portugol.Json

/-!
# Reading JSON

A text is first cut into tokens, of which strings, numbers and the three words
are values already. The tokens are then read one by one, with a stack of the
lists and objects that are still open, so that values nest as deep as they like.
-/

namespace Portugol

namespace Json

/-! ## Texts -/

/-- The value of a hexadecimal digit. -/
def hexValue? (c : Char) : Option Nat :=
  if c.isDigit then some (c.toNat - 48)
  else if 'a' ≤ c ∧ c ≤ 'f' then some (c.toNat - 87)
  else if 'A' ≤ c ∧ c ≤ 'F' then some (c.toNat - 55)
  else none

/-- The number that four hexadecimal digits spell. -/
def hexCode? (a b c d : Char) : Option Nat := do
  return (((← hexValue? a) * 16 + (← hexValue? b)) * 16 + (← hexValue? c)) * 16 + (← hexValue? d)

/-- The character that a backslash and this character stand for. -/
def escaped? : Char → Option Char
  | '"' => some '"'
  | '\\' => some '\\'
  | '/' => some '/'
  | 'b' => some '\x08'
  | 'f' => some '\x0c'
  | 'n' => some '\n'
  | 'r' => some '\r'
  | 't' => some '\t'
  | _ => none

/-- The codes of the characters up to the closing quote, and what follows it. An
    escape by number gives its number, whether or not a character has it. -/
def textCodes : List Char → Option (List Nat × List Char)
  | [] => none
  | '"' :: rest => some ([], rest)
  | '\\' :: 'u' :: a :: b :: c :: d :: rest =>
    (hexCode? a b c d).bind fun code =>
      (textCodes rest).map fun (codes, rest) => (code :: codes, rest)
  | '\\' :: c :: rest =>
    (escaped? c).bind fun c =>
      (textCodes rest).map fun (codes, rest) => (c.toNat :: codes, rest)
  | c :: rest =>
    if c.toNat < 32 || c == '\\' then none
    else (textCodes rest).map fun (codes, rest) => (c.toNat :: codes, rest)

/-- The first half of a surrogate pair. -/
def isHighSurrogate (code : Nat) : Bool := decide (0xD800 ≤ code ∧ code < 0xDC00)

/-- The second half of a surrogate pair. -/
def isLowSurrogate (code : Nat) : Bool := decide (0xDC00 ≤ code ∧ code < 0xE000)

/-- The characters with these codes. Two halves of a surrogate pair are one
    character, and one half is none. -/
def ofCodes : List Nat → Option (List Char)
  | [] => some []
  | code :: rest =>
    if isLowSurrogate code then none
    else if isHighSurrogate code then
      match rest with
      | low :: rest =>
        if isLowSurrogate low then
          (ofCodes rest).map
            (Char.ofNat (0x10000 + (code - 0xD800) * 0x400 + (low - 0xDC00)) :: ·)
        else none
      | [] => none
    else (ofCodes rest).map (Char.ofNat code :: ·)

/-! ## Numbers -/

/-- Whether a character can stand in a number. -/
def inNumber (c : Char) : Bool :=
  c.isDigit || c == '-' || c == '+' || c == '.' || c == 'e' || c == 'E'

/-- Whether a number can go on like this behind its fraction. -/
def isExponent : List Char → Bool
  | [] => true
  | e :: rest =>
    let digits := match rest with
      | '+' :: digits | '-' :: digits => digits
      | digits => digits
    (e == 'e' || e == 'E') && !digits.isEmpty && digits.all Char.isDigit

/-- Whether a number can go on like this behind its whole part. -/
def isFraction : List Char → Bool
  | '.' :: rest => !(rest.takeWhile Char.isDigit).isEmpty && isExponent (rest.dropWhile Char.isDigit)
  | rest => isExponent rest

/-- Whether a text is a number: no needless zero in front, and a digit on both
    sides of a point. -/
def isNumber (cs : List Char) : Bool :=
  let digits := match cs with
    | '-' :: digits => digits
    | digits => digits
  let whole := digits.takeWhile Char.isDigit
  (whole == ['0'] || (!whole.isEmpty && whole.head? != some '0')) &&
    isFraction (digits.dropWhile Char.isDigit)

/-! ## Tokens -/

inductive Token
  | openList
  | closeList
  | openObject
  | closeObject
  | comma
  | colon
  /-- A value without parts. -/
  | scalar (value : Json)
  deriving Inhabited

/-- Whether a character stands between tokens. -/
def isBlank (c : Char) : Bool := c == ' ' || c == '\n' || c == '\t' || c == '\r'

/-- The value that a word or a number is. -/
def atom? (cs : List Char) : Option Json :=
  if cs = ['n', 'u', 'l', 'l'] then some .null
  else if cs = ['t', 'r', 'u', 'e'] then some (.logical true)
  else if cs = ['f', 'a', 'l', 's', 'e'] then some (.logical false)
  else if isNumber cs then some (.number cs)
  else none

/-- Whether a character can stand in a word or a number. -/
def inAtom (c : Char) : Bool := c.isLower || inNumber c

/-- What stands at the start of the text `c :: cs`, nothing for a blank, and the
    rest. -/
def scan (c : Char) (cs : List Char) : Option (Option Token × List Char) :=
  match c with
  | '[' => some (some .openList, cs)
  | ']' => some (some .closeList, cs)
  | '\x7b' => some (some .openObject, cs)
  | '\x7d' => some (some .closeObject, cs)
  | ',' => some (some .comma, cs)
  | ':' => some (some .colon, cs)
  | '"' => (textCodes cs).map fun (codes, rest) =>
    (some (.scalar (.text ((ofCodes codes).map String.ofList))), rest)
  | c =>
    if isBlank c then some (none, cs)
    else (atom? (c :: cs.takeWhile inAtom)).map fun value =>
      (some (.scalar value), cs.dropWhile inAtom)

/-- A text is longer than what follows its closing quote. -/
theorem length_textCodes {cs rest : List Char} {codes : List Nat}
    (h : textCodes cs = some (codes, rest)) : rest.length < cs.length := by
  fun_induction textCodes cs generalizing codes rest with
  | case1 => simp at h
  | case2 => simp_all
  | case3 a b c d cs ih =>
    simp only [Option.bind_eq_some_iff, Option.map_eq_some_iff, Prod.exists, Prod.mk.injEq] at h
    obtain ⟨_, _, _, _, hcodes, _, rfl⟩ := h
    have := ih hcodes
    simp only [List.length_cons]
    omega
  | case4 c cs _ ih =>
    simp only [Option.bind_eq_some_iff, Option.map_eq_some_iff, Prod.exists, Prod.mk.injEq] at h
    obtain ⟨_, _, _, _, hcodes, _, rfl⟩ := h
    have := ih hcodes
    simp only [List.length_cons]
    omega
  | case5 => simp at h
  | case6 c cs _ _ _ _ ih =>
    simp only [Option.map_eq_some_iff, Prod.exists, Prod.mk.injEq] at h
    obtain ⟨_, _, hcodes, _, rfl⟩ := h
    have := ih hcodes
    simp only [List.length_cons]
    omega

/-- Scanning leaves less than the text. -/
theorem length_scan {c : Char} {cs rest : List Char} {token : Option Token}
    (h : scan c cs = some (token, rest)) : rest.length ≤ cs.length := by
  unfold scan at h
  split at h <;> try (simp only [Option.some.injEq, Prod.mk.injEq] at h; simp [h.2])
  · simp only [Option.map_eq_some_iff, Prod.exists, Prod.mk.injEq] at h
    obtain ⟨_, _, hcodes, _, rfl⟩ := h
    exact Nat.le_of_lt (length_textCodes hcodes)
  · split at h
    · simp only [Option.some.injEq, Prod.mk.injEq] at h
      simp [h.2]
    · simp only [Option.map_eq_some_iff, Prod.mk.injEq] at h
      obtain ⟨_, _, _, rfl⟩ := h
      exact (List.dropWhile_sublist _).length_le

/-- The tokens of a text. -/
def tokens : List Char → Option (List Token)
  | [] => some []
  | c :: cs =>
    match _ : scan c cs with
    | none => none
    | some (none, rest) => tokens rest
    | some (some token, rest) => (tokens rest).map (token :: ·)
termination_by cs => cs.length
decreasing_by
  all_goals
    have := length_scan (by assumption)
    simp only [List.length_cons]
    omega

/-! ## Values -/

/-- A list or object that is still open, with what it has so far, the last in
    front, and for an object the name of the member that is being read. -/
inductive Frame
  | list (items : List Json)
  | object (members : List (Option String × Json)) (name : Option String)

/-- What is read at the moment. -/
inductive Focus
  /-- A value has to come. -/
  | value
  /-- A list was opened: a value or its end has to come. -/
  | firstItem
  /-- An object was opened: a name or its end has to come. -/
  | firstName
  /-- The name of a further member has to come. -/
  | name (members : List (Option String × Json))
  /-- The colon behind a name has to come. -/
  | colon (members : List (Option String × Json)) (name : Option String)
  /-- A value is complete. -/
  | done (value : Json)

/-- Where the reader stands: at the focus, inside the open lists and objects. -/
structure Reading where
  focus : Focus
  stack : List Frame

/-- The start of a value. -/
def Reading.start (stack : List Frame) : Token → Option Reading
  | .scalar value => some ⟨.done value, stack⟩
  | .openList => some ⟨.firstItem, stack⟩
  | .openObject => some ⟨.firstName, stack⟩
  | _ => none

/-- Reads one token. -/
def Reading.step (r : Reading) (token : Token) : Option Reading :=
  match r.focus, token, r.stack with
  | .value, token, stack => Reading.start stack token
  | .firstItem, .closeList, stack => some ⟨.done (.list []), stack⟩
  | .firstItem, token, stack => Reading.start (.list [] :: stack) token
  | .firstName, .closeObject, stack => some ⟨.done (.object []), stack⟩
  | .firstName, .scalar (.text name), stack => some ⟨.colon [] name, stack⟩
  | .name members, .scalar (.text name), stack => some ⟨.colon members name, stack⟩
  | .colon members name, .colon, stack => some ⟨.value, .object members name :: stack⟩
  | .done value, .comma, .list items :: stack => some ⟨.value, .list (value :: items) :: stack⟩
  | .done value, .comma, .object members name :: stack =>
    some ⟨.name ((name, value) :: members), stack⟩
  | .done value, .closeList, .list items :: stack =>
    some ⟨.done (.list (value :: items).reverse), stack⟩
  | .done value, .closeObject, .object members name :: stack =>
    some ⟨.done (.object ((name, value) :: members).reverse), stack⟩
  | _, _, _ => none

/-- The value that a text is, blanks around its tokens apart. -/
def parse? (text : String) : Option Json := do
  let r ← (← tokens text.toList).foldlM Reading.step ⟨.value, []⟩
  match r with
  | ⟨.done value, []⟩ => some value
  | _ => none

end Json

end Portugol
