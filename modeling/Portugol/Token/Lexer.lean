import Portugol.Token
import Portugol.Number.Numeral

/-!
# From text to tokens

A line is read from the left, taking the longest token that fits. Spaces, tabs,
carriage returns, form feeds and comments stand between tokens. `scan` reads one
*lexeme* and loses nothing: what it took and what it left make up the text
(`scan_taken_append_rest`), and as it always takes something, reading the whole
line ends.
-/

namespace Portugol

/-- Why a line cannot be read as tokens. -/
inductive LexCause
  /-- A text has no closing quote. -/
  | unterminatedText
  /-- No token starts with this character. -/
  | invalidCharacter (c : Char)
  /-- Digits that are no number. -/
  | invalidNumber (text : String)
  deriving DecidableEq, Repr, Inhabited

/-- Why and where a line cannot be read as tokens. -/
structure LexError where
  cause : LexCause
  line : Nat
  column : Nat
  deriving DecidableEq, Repr, Inhabited

namespace LexError

def message (error : LexError) : String :=
  match error.cause with
  | .unterminatedText => s!"texto sem aspas de fechamento na coluna {error.column}"
  | .invalidCharacter c => s!"caractere inválido '{c}' na coluna {error.column}"
  | .invalidNumber text => s!"número inválido '{text}' na coluna {error.column}"

/-- The message with the line in front. -/
def display (error : LexError) : String := s!"linha {error.line}: {error.message}"

end LexError

namespace Lexer

/-- The bytes that a text takes. -/
def byteLength (cs : List Char) : Nat := cs.foldr (fun c length => c.utf8Size + length) 0

/-- Whether a character stands between tokens. -/
def isSpace (c : Char) : Bool := c == ' ' || c == '\t' || c == '\r' || c == '\x0c'

/-- Whether a character can be the first of a name or keyword. -/
def startsWord (c : Char) : Bool := isLetter c || c == '_'

/-- Whether a character can stand in a name or keyword behind the first. -/
def continuesWord (c : Char) : Bool := isLetter c || isNumeric c || c == '_'

/-- What stands up to the closing quote, and what follows it. A backslash takes
    the next character with it, and no line break is passed. -/
def closeText (quote : Char) : List Char → Option (List Char × List Char)
  | [] => none
  | '\\' :: c :: rest =>
    if c == '\n' then none
    else (closeText quote rest).map fun (content, rest) => ('\\' :: c :: content, rest)
  | c :: rest =>
    if c == quote then some ([], rest)
    else if c == '\n' || c == '\\' then none
    else (closeText quote rest).map fun (content, rest) => (c :: content, rest)

/-- The text that stands between two quotes: a backslash before `n` and `t`
    makes a line break and a tab, and is dropped before any other character. -/
def unescape : List Char → List Char
  | '\\' :: 'n' :: rest => '\n' :: unescape rest
  | '\\' :: 't' :: rest => '\t' :: unescape rest
  | '\\' :: c :: rest => c :: unescape rest
  | c :: rest => c :: unescape rest
  | [] => []

/-- The word as a keyword, or else as a name. -/
def word (cs : List Char) : TokenKind :=
  match Keyword.ofWord? cs with
  | some keyword => .keyword keyword
  | none => .name (String.ofList cs)

/-- The symbol at the start of a text, the longest first, and how many further
    characters it has. -/
def symbol? : Char → List Char → Option (Symbol × Nat)
  | '<', '-' :: _ => some (.assign, 1)
  | '<', '=' :: _ => some (.lessEqual, 1)
  | '<', '>' :: _ => some (.notEqual, 1)
  | '>', '=' :: _ => some (.greaterEqual, 1)
  | ':', '=' :: _ => some (.assign, 1)
  | '←', _ => some (.assign, 0)
  | '<', _ => some (.less, 0)
  | '>', _ => some (.greater, 0)
  | '=', _ => some (.equal, 0)
  | '+', _ => some (.plus, 0)
  | '-', _ => some (.minus, 0)
  | '*', _ => some (.times, 0)
  | '/', _ => some (.slash, 0)
  | '(', _ => some (.openParen, 0)
  | ')', _ => some (.closeParen, 0)
  | '[', _ => some (.openBracket, 0)
  | ']', _ => some (.closeBracket, 0)
  | ',', _ => some (.comma, 0)
  | _, _ => none

/-- What `scan` finds at the start of a text. -/
inductive Lexeme
  /-- Something that stands between tokens. -/
  | gap
  | token (kind : TokenKind)
  | bad (cause : LexCause)

/-- A lexeme, the characters that it takes behind the first, and the rest. -/
structure Scanned where
  lexeme : Lexeme
  taken : List Char
  rest : List Char

/-- The lexeme at the start of the text `c :: cs`. -/
def scan (c : Char) (cs : List Char) : Scanned :=
  if isSpace c then ⟨.gap, [], cs⟩
  else if c == '/' && cs.head? == some '/' then
    ⟨.gap, cs.takeWhile (· != '\n'), cs.dropWhile (· != '\n')⟩
  else if c.isDigit then
    let (numeral, rest) := Numeral.split (c :: cs)
    ⟨.token (.number (Numeral.value numeral)), numeral.tail, rest⟩
  else if c == '\'' || c == '"' then
    match closeText c cs with
    | some (content, rest) =>
      ⟨.token (.text (String.ofList (unescape content))), content ++ [c], rest⟩
    | none => ⟨.bad .unterminatedText, [], cs⟩
  else if startsWord c then
    ⟨.token (word (c :: cs.takeWhile continuesWord)), cs.takeWhile continuesWord,
      cs.dropWhile continuesWord⟩
  else
    match symbol? c cs with
    | some (symbol, more) => ⟨.token (.symbol symbol), cs.take more, cs.drop more⟩
    | none => ⟨.bad (.invalidCharacter c), [], cs⟩

/-- A closed text is its content, the quote and the rest. -/
theorem closeText_eq {quote : Char} {cs content rest : List Char}
    (h : closeText quote cs = some (content, rest)) : cs = content ++ quote :: rest := by
  fun_induction closeText quote cs generalizing content rest with
  | case1 => simp at h
  | case2 => simp at h
  | case3 c cs hc ih =>
    simp only [Option.map_eq_some_iff, Prod.exists, Prod.mk.injEq] at h
    obtain ⟨a, b, hab, rfl, rfl⟩ := h
    simp [ih hab]
  | case4 c cs _ hq => simp_all
  | case5 => simp at h
  | case6 c cs _ hq hn ih =>
    simp only [Option.map_eq_some_iff, Prod.exists, Prod.mk.injEq] at h
    obtain ⟨a, b, hab, rfl, rfl⟩ := h
    simp [ih hab]

/-- A numeral and what follows it are the text. -/
theorem split_append (cs : List Char) : (Numeral.split cs).1 ++ (Numeral.split cs).2 = cs := by
  have h := List.takeWhile_append_dropWhile (p := Char.isDigit) (l := cs)
  unfold Numeral.split
  split
  next c rest hrest =>
    rw [hrest] at h
    split
    · have h' := List.takeWhile_append_dropWhile (p := Char.isDigit) (l := c :: rest)
      rw [List.append_assoc, List.cons_append, h', h]
    · exact h
  next => exact h

/-- A numeral starts with the digit that the text starts with. -/
theorem split_cons {c : Char} {cs : List Char} (h : c.isDigit) :
    (Numeral.split (c :: cs)).1 = c :: (Numeral.split (c :: cs)).1.tail := by
  unfold Numeral.split
  split
  · split <;> simp [h]
  · simp [h]

/-- Scanning loses nothing. -/
theorem scan_taken_append_rest (c : Char) (cs : List Char) :
    (scan c cs).taken ++ (scan c cs).rest = cs := by
  unfold scan
  split
  · rfl
  split
  · exact List.takeWhile_append_dropWhile
  split
  next _ _ hd =>
    have h := split_append (c :: cs)
    rw [split_cons hd, List.cons_append] at h
    exact (List.cons.inj h).2
  split
  · split
    next h => simp [closeText_eq h]
    next => rfl
  split
  · exact List.takeWhile_append_dropWhile
  split
  · exact List.take_append_drop ..
  · rfl

/-- Scanning leaves less than the text. -/
theorem length_scan_rest (c : Char) (cs : List Char) : (scan c cs).rest.length ≤ cs.length := by
  have h := congrArg List.length (scan_taken_append_rest c cs)
  simp at h
  omega

/-- The tokens of a text that starts at byte `offset` of its line. -/
def tokens (offset : Nat) : List Char → Except (LexCause × Nat) (List Token)
  | [] => .ok []
  | c :: cs =>
    let found := scan c cs
    let stop := offset + byteLength (c :: found.taken)
    match found.lexeme with
    | .gap => tokens stop found.rest
    | .token kind => (tokens stop found.rest).map (⟨kind, .between offset stop⟩ :: ·)
    | .bad cause => .error (cause, (Span.between offset stop).column)
termination_by cs => cs.length
decreasing_by
  all_goals
    have := length_scan_rest c cs
    simp only [List.length_cons]
    omega

end Lexer

/-- A text as a line of tokens. -/
def Line.ofText (number : Nat) (text : String) : Except LexError Line :=
  match Lexer.tokens 0 text.toList with
  | .ok tokens => .ok ⟨number, text, tokens⟩
  | .error (cause, column) => .error ⟨cause, number, column⟩

end Portugol
