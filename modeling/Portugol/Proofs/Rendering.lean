import Portugol.Proofs.Literals
import Portugol.Proofs.Respelling

/-!
# Tokens as they are written

Reading a line undoes writing it. A token can be written in more than one way: a keyword in any
case and without accents, a text between quotes of either kind, a number with zeros at its ends,
and assignment by any of its signs. With a space between each two of them, tokens are read as
they were meant, however each is written.

* `WrittenToken`: a token, and one of the ways to write it.
* `WrittenToken.lexes`: it is a lexeme of its kind in front of a space.
* `Line.ofText_rendered`: a row of them is read as the tokens that were written.
-/

namespace Portugol

open Lexer

/-- A letter or `_`, and behind it letters, digits of any script and `_`. -/
def isWord : List Char → Bool
  | [] => false
  | c :: cs => startsWord c && cs.all continuesWord

/-- The ways to write a symbol. -/
def Symbol.signs : Symbol → List (List Char)
  | .assign => Source.assignSigns
  | symbol => [symbol.spelling.toList]

/-- A token as it is written. -/
inductive WrittenToken
  | number (numeral : {cs : List Char // Numeral.isNumeral cs = true})
  | text (quote : {c : Char // c ∈ quotes}) (s : String)
  /-- A word that is no keyword. -/
  | name (word : {cs : List Char // isWord cs = true ∧ Keyword.ofWord? cs = none})
  /-- A keyword, as any word that is read as it. -/
  | keyword (k : Keyword)
      (word : {cs : List Char // isWord cs = true ∧ Keyword.ofWord? cs = some k})
  | symbol (s : Symbol) (sign : {cs : List Char // cs ∈ s.signs})

namespace WrittenToken

/-- The token that is meant. -/
def kind : WrittenToken → TokenKind
  | number numeral => .number (Numeral.value numeral.1)
  | text _ s => .text s
  | name word => .name (String.ofList word.1)
  | keyword k _ => .keyword k
  | symbol s _ => .symbol s

/-- The characters that are written. -/
def spelling : WrittenToken → List Char
  | number numeral => numeral.1
  | text quote s => quote.1 :: (escape quote.1 s.toList ++ [quote.1])
  | name word => word.1
  | keyword _ word => word.1
  | symbol _ sign => sign.1

/-- Tokens with a space between each two of them. -/
def render (tokens : List WrittenToken) : List Char :=
  [' '].intercalate (tokens.map spelling)

/-- What stands behind a token: a space, or nothing more. -/
def Spaced (rest : List Char) : Prop := ∀ c, rest.head? = some c → c = ' '

theorem Spaced.ended {rest : List Char} (h : Spaced rest) : Literal.Ended rest := fun c hc => by
  rw [h c hc]
  exact List.mem_cons_self

theorem lexes_word {cs rest : List Char} (hword : isWord cs = true) (h : Spaced rest) :
    Lexes cs rest (some (Lexer.word cs)) := by
  cases cs with
  | nil => cases hword
  | cons c cs =>
    obtain ⟨hstart, hcs⟩ := Bool.and_eq_true_iff.1 hword
    exact .word hstart (List.all_eq_true.1 hcs) fun x hx =>
      (Literal.Ended.of_mem x (h.ended x hx)).1

/-- No symbol takes a space with it. -/
theorem lexes_sign {s : Symbol} {sign rest : List Char} (hsign : sign ∈ s.signs) (h : Spaced rest) :
    Lexes sign rest (some (.symbol s)) := by
  have hall : ∀ sign ∈ s.signs, '/' ∉ sign.tail ∧
      sign.head?.bind (symbol? · (sign.tail ++ [' '])) = some (s, sign.tail.length) := by
    cases s <;> decide +kernel
  obtain ⟨hslash, hsymbol⟩ := hall sign hsign
  cases sign with
  | nil => cases hsymbol
  | cons c more =>
    refine .symbol (symbol?_append hsymbol fun x hx => ⟨' ', rfl, .inl (h x hx)⟩) ?_
    intro _ hhead
    rcases Option.or_eq_some_iff.1 (List.head?_append.symm.trans hhead) with hmore | ⟨_, hrest⟩
    · exact hslash (List.mem_of_mem_head? hmore)
    · exact absurd (h '/' hrest) (by decide)

/-- A token is a lexeme of its kind in front of a space. -/
theorem lexes (token : WrittenToken) {rest : List Char} (h : Spaced rest) :
    Lexes token.spelling rest (some token.kind) := by
  cases token with
  | number numeral =>
    obtain ⟨kind, hkind, hlexes⟩ := (Literal.number numeral).lexes h.ended
    cases hkind
    exact hlexes
  | text quote s =>
    have hlexes := lexes_escape quote.2 s.toList rest
    rwa [String.ofList_toList] at hlexes
  | name word =>
    have hlexes := lexes_word word.2.1 h
    rwa [Lexer.word, word.2.2] at hlexes
  | keyword k word =>
    have hlexes := lexes_word word.2.1 h
    rwa [Lexer.word, word.2.2] at hlexes
  | symbol s sign => exact lexes_sign sign.2 h

/-- Tokens with spaces between them are a row of lexemes of their kinds. -/
theorem spells_render (tokens : List WrittenToken) : Spells (render tokens) (tokens.map kind) := by
  induction tokens with
  | nil => exact .nil
  | cons token more ih =>
    cases more with
    | nil =>
      have hlast : Lexes token.spelling [] (some token.kind) := token.lexes fun _ hc => by cases hc
      simpa [render, List.intercalate] using Spells.cons hlast .nil
    | cons next more =>
      have hrender : render (token :: next :: more) =
          token.spelling ++ (' ' :: render (next :: more)) := by
        simp [render, List.intercalate]
      rw [hrender]
      have hspace : Spells (' ' :: render (next :: more)) ((next :: more).map kind) :=
        .cons (.space (by decide)) ih
      refine .cons (token.lexes ?_) hspace
      exact fun c hc => (Option.some.inj hc).symm

end WrittenToken

/-- Reading a line undoes writing it: tokens with spaces between them are read as they were
    meant, whatever way each of them is written. -/
theorem Line.ofText_rendered (number : Nat) (tokens : List WrittenToken) :
    ∃ line, Line.ofText number (String.ofList (WrittenToken.render tokens)) = .ok line ∧
      line.reading = (number, tokens.map WrittenToken.kind) :=
  (Line.exists_ofText_iff number).2 (WrittenToken.spells_render tokens)

end Portugol
