import Mathlib.Algebra.Group.Nat.Defs
import Portugol.Proofs.Normalization

/-!
# Where tokens stand

A line of tokens accounts for its whole text. Tokens have their places in bytes, and a character
may take more than one of them.

* `Tiles`: tokens stand in a text one behind the other, and between them stand spaces. A comment
  goes on to the end. `tiles_of_tokens`: so do the tokens that are read from a text.
* `exists_bad_of_tokens`: what stands in front of the place where reading fails can be read.
* `Line.ofText_lossless`: both, for the line of a text.
-/

namespace Portugol

/-- Up to the limit, columns are counted from one. -/
theorem Span.column_between {n : Nat} (h : n < limit) : (between n n).column = n + 1 := by
  have hstart : (between n n).start = n := Nat.min_eq_left (by omega)
  rw [column, hstart, Nat.min_eq_left h]

namespace Lexer

/-! ## Bytes -/

theorem byteLength_cons (c : Char) (cs : List Char) :
    byteLength (c :: cs) = c.utf8Size + byteLength cs := rfl

@[simp] theorem byteLength_append (cs ds : List Char) :
    byteLength (cs ++ ds) = byteLength cs + byteLength ds := by
  induction cs with
  | nil => exact (Nat.zero_add _).symm
  | cons c cs ih => rw [List.cons_append, byteLength_cons, byteLength_cons, ih, Nat.add_assoc]

@[simp] theorem utf8ByteSize_ofList (cs : List Char) :
    (String.ofList cs).utf8ByteSize = byteLength cs := by
  induction cs with
  | nil => rfl
  | cons c cs ih =>
    rw [String.ofList_cons, String.utf8ByteSize_append, String.utf8ByteSize_singleton, ih,
      byteLength_cons]

/-- A place between two characters, counted in bytes. -/
theorem isValid_of_append {text : String} {before after : List Char}
    (h : text.toList = before ++ after) : String.Pos.Raw.IsValid text ⟨byteLength before⟩ := by
  refine String.Pos.Raw.isValid_iff_exists_append.2
    ⟨String.ofList before, String.ofList after, ?_, ?_⟩
  · rw [← String.ofList_append, ← h, String.ofList_toList]
  · rw [← utf8ByteSize_ofList]
    rfl

theorem Lexes.byteLength_pos {text rest : List Char} {found : Option TokenKind}
    (h : Lexes text rest found) : 0 < byteLength text := by
  obtain ⟨c, taken, rfl⟩ := h.ne_nil
  have hc := c.utf8Size_pos
  rw [byteLength_cons]
  omega

/-! ## Tokens -/

/-- The tokens of a text that starts at byte `offset` of its line: lexemes one behind the other,
    with spaces between them. A comment goes on to the end of the text. -/
inductive Tiles : Nat → List Char → List Token → Prop
  | nil {offset : Nat} : Tiles offset [] []
  | comment {offset : Nat} {cs : List Char} : Tiles offset ('/' :: '/' :: cs) []
  | space {offset : Nat} {c : Char} {rest : List Char} {found : List Token} : isSpace c = true →
    Tiles (offset + 1) rest found → Tiles offset (c :: rest) found
  | token {offset : Nat} {lexeme rest : List Char} {kind : TokenKind} {found : List Token} :
    Lexes lexeme rest (some kind) → Tiles (offset + byteLength lexeme) rest found →
    Tiles offset (lexeme ++ rest) (⟨kind, ⟨offset, offset + byteLength lexeme⟩⟩ :: found)

theorem utf8Size_of_isSpace {c : Char} (h : isSpace c = true) : c.utf8Size = 1 := by
  have hall : ∀ c ∈ [' ', '\t', '\r', '\x0c'], c.utf8Size = 1 := forall_mem_of_all (by decide)
  exact hall c (by simpa [isSpace, or_assoc] using h)

/-- Tokens that have been read stand in their text, if all places in it can be counted. -/
theorem tiles_of_tokens {offset : Nat} {cs : List Char} {found : List Token}
    (hsize : offset + byteLength cs ≤ Span.limit) (h : tokens offset cs = .ok found) :
    Tiles offset cs found := by
  induction cs using lexemes_induction generalizing offset found with
  | nil =>
    rw [tokens] at h
    cases h
    exact .nil
  | bad hbad =>
    rw [tokens_of_bad hbad] at h
    cases h
  | @lexeme text rest kind hlexes ih =>
    obtain ⟨others, hothers, rfl⟩ := exists_tokens_of_append hlexes h
    rw [byteLength_append, ← Nat.add_assoc] at hsize
    have hrest := ih hsize hothers
    cases kind with
    | some kind =>
      have hspan : Span.between offset (offset + byteLength text) =
          ⟨offset, offset + byteLength text⟩ := by
        rw [Span.between, Nat.min_eq_left (by omega), Nat.min_eq_left (by omega)]
      rw [Option.map_some, hspan]
      exact .token hlexes hrest
    | none =>
      have hspells := (exists_tokens_iff _).1 ⟨others, hothers, rfl⟩
      cases hlexes with
      | @space c _ hc =>
        rw [byteLength_cons, utf8Size_of_isSpace hc] at hrest
        exact .space hc hrest
      | @comment cs _ _ hend =>
        -- Only a line feed could end the comment, and no lexeme starts with one.
        cases rest with
        | cons c rest => exact absurd (hend c rfl) (hspells.head_ne rfl).2
        | nil =>
          rw [tokens] at hothers
          cases hothers
          exact .comment

namespace Tiles

variable {offset : Nat} {cs : List Char} {found : List Token}

/-- At the place of a token stands a lexeme of its kind. -/
theorem exists_lexeme (h : Tiles offset cs found) {token : Token} (htoken : token ∈ found) :
    ∃ before lexeme after, cs = before ++ (lexeme ++ after) ∧ Lexes lexeme after (some token.kind) ∧
      token.span = ⟨offset + byteLength before, offset + byteLength (before ++ lexeme)⟩ := by
  induction h with
  | nil => cases htoken
  | comment => cases htoken
  | @space offset c rest found hc _ ih =>
    obtain ⟨before, lexeme, after, rfl, hlexes, hspan⟩ := ih htoken
    refine ⟨c :: before, lexeme, after, rfl, hlexes, ?_⟩
    rw [hspan, List.cons_append, byteLength_cons, byteLength_cons, utf8Size_of_isSpace hc,
      Nat.add_assoc, Nat.add_assoc]
  | @token offset first rest kind found hfirst _ ih =>
    rcases List.mem_cons.1 htoken with rfl | htoken
    · exact ⟨[], first, rest, rfl, hfirst, rfl⟩
    · obtain ⟨before, lexeme, after, rfl, hlexes, hspan⟩ := ih htoken
      refine ⟨first ++ before, lexeme, after, by simp, hlexes, ?_⟩
      rw [hspan]
      simp [Nat.add_assoc]

theorem le_start (h : Tiles offset cs found) {token : Token} (htoken : token ∈ found) :
    offset ≤ token.span.start := by
  obtain ⟨before, _, _, _, _, hspan⟩ := h.exists_lexeme htoken
  rw [hspan]
  exact Nat.le_add_right _ _

/-- Each token ends before the next one starts. -/
theorem ordered (h : Tiles offset cs found) :
    found.Pairwise fun token next => token.span.stop ≤ next.span.start := by
  induction h with
  | nil => exact .nil
  | comment => exact .nil
  | space _ _ ih => exact ih
  | token _ hrest ih => exact .cons (fun next hnext => hrest.le_start hnext) ih

/-- Behind the tokens there may be a comment. In front of it, a byte that is in no token is a
    space. -/
theorem exists_comment (h : Tiles offset cs found) :
    ∃ body comment, cs = body ++ comment ∧ (comment = [] ∨ ['/', '/'] <+: comment) ∧
      (∀ token ∈ found, token.span.stop ≤ offset + byteLength body) ∧
      ∀ i, offset ≤ i → i < offset + byteLength body →
        (∀ token ∈ found, ¬(token.span.start ≤ i ∧ i < token.span.stop)) →
        ∃ before c after, body = before ++ c :: after ∧ offset + byteLength before = i ∧
          isSpace c = true := by
  induction h with
  | nil =>
    refine ⟨[], [], rfl, .inl rfl, by simp, fun i hi hlt => ?_⟩
    simp [byteLength] at hlt
    omega
  | @comment offset cs =>
    refine ⟨[], '/' :: '/' :: cs, rfl, .inr (List.prefix_append ['/', '/'] cs), by simp, ?_⟩
    intro i hi hlt
    simp [byteLength] at hlt
    omega
  | @space offset c rest found hc _ ih =>
    obtain ⟨body, comment, rfl, hcomment, hstop, houtside⟩ := ih
    have hsize : byteLength (c :: body) = 1 + byteLength body := by
      rw [byteLength_cons, utf8Size_of_isSpace hc]
    refine ⟨c :: body, comment, rfl, hcomment, fun token htoken => ?_, fun i hi hlt hnone => ?_⟩
    · have := hstop token htoken
      omega
    · rcases Nat.eq_or_lt_of_le hi with rfl | hi
      · exact ⟨[], c, body, rfl, rfl, hc⟩
      · obtain ⟨before, d, after, rfl, hplace, hd⟩ := houtside i hi (by omega) hnone
        refine ⟨c :: before, d, after, rfl, ?_, hd⟩
        rw [byteLength_cons, utf8Size_of_isSpace hc]
        omega
  | @token offset lexeme rest kind found hlexes _ ih =>
    obtain ⟨body, comment, rfl, hcomment, hstop, houtside⟩ := ih
    refine ⟨lexeme ++ body, comment, by simp, hcomment, ?_, fun i hi hlt hnone => ?_⟩
    · rw [byteLength_append, ← Nat.add_assoc]
      exact List.forall_mem_cons.2 ⟨Nat.le_add_right _ _, hstop⟩
    · obtain ⟨hfirst, hnone⟩ := List.forall_mem_cons.1 hnone
      rw [byteLength_append] at hlt
      have hbehind : offset + byteLength lexeme ≤ i := by
        by_contra hin
        exact hfirst ⟨hi, Nat.lt_of_not_le hin⟩
      obtain ⟨before, c, after, rfl, hplace, hc⟩ := houtside i hbehind (by omega) hnone
      refine ⟨lexeme ++ before, c, after, by simp, ?_, hc⟩
      rw [byteLength_append]
      omega

end Tiles

/-! ## Errors -/

/-- A lexeme stays one if the text behind it is cut. -/
theorem Lexes.of_append {text rest cut : List Char} {found : Option TokenKind}
    (h : Lexes text (rest ++ cut) found) : Lexes text rest found := by
  have hhead : ∀ {x : Char}, rest.head? = some x → (rest ++ cut).head? = some x := fun hx => by
    rw [List.head?_append, hx]
    rfl
  cases h with
  | space hc => exact .space hc
  | comment hcs hend => exact .comment hcs fun x hx => hend x (hhead hx)
  | whole hdigits hnext hpoint =>
    exact .whole hdigits (fun x hx => hnext x (hhead hx)) fun x more hrest =>
      hpoint x (more ++ cut) (by rw [hrest]; rfl)
  | decimal hdigits hfraction hnext =>
    exact .decimal hdigits hfraction fun x hx => hnext x (hhead hx)
  | text hquote hcontent => exact .text hquote hcontent
  | word hstart hcs hnext => exact .word hstart hcs fun x hx => hnext x (hhead hx)
  | @symbol c more _ sign hsymbol hcomment =>
    refine .symbol (symbol?_append hsymbol fun x hx => ⟨x, hhead hx, .inl rfl⟩) fun hc hslash => ?_
    refine hcomment hc ?_
    rw [← List.append_assoc, List.head?_append, hslash]
    rfl

/-- Where reading fails: all in front of it can be read, and no lexeme starts there. -/
theorem exists_bad_of_tokens {offset : Nat} {cs : List Char} {cause : LexCause} {column : Nat}
    (h : tokens offset cs = .error (cause, column)) :
    ∃ before c after, cs = before ++ c :: after ∧ (∃ kinds, Spells before kinds) ∧
      cause = badCause c ∧
      column = (Span.between (offset + byteLength before) (offset + byteLength before)).column := by
  induction cs using lexemes_induction generalizing offset with
  | nil =>
    rw [tokens] at h
    cases h
  | @bad c cs hbad =>
    rw [tokens_of_bad hbad] at h
    cases h
    exact ⟨[], c, cs, rfl, ⟨[], .nil⟩, rfl, rfl⟩
  | @lexeme text rest found hlexes ih =>
    rw [tokens_append_of_lexes hlexes] at h
    cases hrest : tokens (offset + byteLength text) rest with
    | ok others =>
      rw [hrest] at h
      cases h
    | error e =>
      rw [hrest] at h
      cases h
      obtain ⟨before, c, after, rfl, ⟨kinds, hspells⟩, hcause, hcolumn⟩ := ih hrest
      refine ⟨text ++ before, c, after, by simp, ⟨_, .cons hlexes.of_append hspells⟩, hcause, ?_⟩
      rw [hcolumn, byteLength_append, Nat.add_assoc]

end Lexer

open Lexer

/-! ## Lines -/

/-- The tokens account for the whole text. -/
structure Line.Covers (text : String) (tokens : List Token) : Prop where
  /-- No token is empty, and each starts and ends between two characters. -/
  placed : ∀ token ∈ tokens, token.span.start < token.span.stop ∧
    String.Pos.Raw.IsValid text ⟨token.span.start⟩ ∧ String.Pos.Raw.IsValid text ⟨token.span.stop⟩
  /-- What stands at its place is a lexeme of its kind. -/
  lexeme : ∀ token ∈ tokens, ∃ before lexeme after, text.toList = before ++ (lexeme ++ after) ∧
    Lexes lexeme after (some token.kind) ∧
    token.span = ⟨byteLength before, byteLength (before ++ lexeme)⟩
  /-- Each token ends before all that follow start. -/
  ordered : tokens.Pairwise fun token next => token.span.stop ≤ next.span.start
  /-- Behind the tokens there may be a comment. In front of it, a byte that is in no token is a
      space. -/
  others : ∃ body comment, text.toList = body ++ comment ∧
    (comment = [] ∨ ['/', '/'] <+: comment) ∧
    (∀ token ∈ tokens, token.span.stop ≤ byteLength body) ∧
    ∀ i < byteLength body, (∀ token ∈ tokens, ¬(token.span.start ≤ i ∧ i < token.span.stop)) →
      ∃ before c after, body = before ++ c :: after ∧ byteLength before = i ∧ isSpace c = true

theorem Lexer.Tiles.covers {text : String} {found : List Token} (h : Tiles 0 text.toList found) :
    Line.Covers text found where
  placed token htoken := by
    obtain ⟨before, lexeme, after, htext, hlexes, hspan⟩ := h.exists_lexeme htoken
    rw [Nat.zero_add, Nat.zero_add] at hspan
    rw [hspan]
    refine ⟨?_, isValid_of_append htext,
      isValid_of_append (htext.trans (List.append_assoc ..).symm)⟩
    have hpos := hlexes.byteLength_pos
    dsimp only
    rw [byteLength_append]
    omega
  lexeme token htoken := by simpa only [Nat.zero_add] using h.exists_lexeme htoken
  ordered := h.ordered
  others := by simpa only [Nat.zero_add, Nat.zero_le, forall_true_left] using h.exists_comment

/-- Reading a line loses nothing: its tokens account for the whole text. If it cannot be read, the
    error is at the first place where no token starts, all in front of it can be read, and the
    character there tells what is wrong. -/
theorem Line.ofText_lossless (number : Nat) {text : String} (hsize : text.utf8ByteSize < 2 ^ 32) :
    (∀ line, Line.ofText number text = .ok line → Covers text line.tokens) ∧
    ∀ error, Line.ofText number text = .error error →
      ∃ before c after, text.toList = before ++ c :: after ∧
        error.line = number ∧ error.column = byteLength before + 1 ∧
        (∃ line, Line.ofText number (String.ofList before) = .ok line) ∧
        error.cause = if c ∈ quotes then .unterminatedText else .invalidCharacter c := by
  have hbytes : byteLength text.toList < 2 ^ 32 := by
    rwa [← utf8ByteSize_ofList, String.ofList_toList]
  have hlimit : Span.limit = 2 ^ 32 - 1 := rfl
  constructor
  · intro line hline
    rw [Line.ofText] at hline
    split at hline
    · rename_i found hfound
      cases hline
      exact (tiles_of_tokens (by omega) hfound).covers
    · cases hline
  · intro error herror
    rw [Line.ofText] at herror
    split at herror
    · cases herror
    · rename_i cause column htokens
      cases herror
      obtain ⟨before, c, after, htext, ⟨kinds, hspells⟩, hcause, hcolumn⟩ :=
        exists_bad_of_tokens htokens
      obtain ⟨line, hline, _⟩ := (Line.exists_ofText_iff number).2 hspells
      refine ⟨before, c, after, htext, rfl, ?_, ⟨line, hline⟩, hcause⟩
      have hc := c.utf8Size_pos
      rw [htext, byteLength_append, byteLength_cons] at hbytes
      rw [hcolumn, Nat.zero_add]
      exact Span.column_between (by omega)

theorem Line.ofText_lossless_accents :
    (∃ line, Line.ofText 1 "é<-'á'//b" = .ok line ∧
      line.tokens.map Token.span = [⟨0, 2⟩, ⟨2, 4⟩, ⟨4, 8⟩] ∧ Covers "é<-'á'//b" line.tokens) ∧
    Line.ofText 2 "é ?" = .error ⟨.invalidCharacter '?', 2, 4⟩ ∧
    ∃ before c after, "é ?".toList = before ++ c :: after ∧ 4 = byteLength before + 1 ∧
      (∃ line, Line.ofText 2 (String.ofList before) = .ok line) ∧
      LexCause.invalidCharacter '?' =
        if c ∈ quotes then .unterminatedText else .invalidCharacter c := by
  have hspans : (Line.ofText 1 "é<-'á'//b").toOption.map (fun line => line.tokens.map Token.span) =
      some [⟨0, 2⟩, ⟨2, 4⟩, ⟨4, 8⟩] := by
    decide +kernel
  have herror : Line.ofText 2 "é ?" = .error ⟨.invalidCharacter '?', 2, 4⟩ := by
    decide +kernel
  constructor
  · cases hline : Line.ofText 1 "é<-'á'//b" with
    | error e =>
      rw [hline] at hspans
      cases hspans
    | ok line =>
      rw [hline] at hspans
      exact ⟨line, rfl, Option.some.inj hspans, (ofText_lossless 1 (by decide)).1 line hline⟩
  · obtain ⟨before, c, after, htext, _, hcolumn, hbefore, hcause⟩ :=
      (ofText_lossless 2 (by decide)).2 _ herror
    exact ⟨herror, before, c, after, htext, hcolumn, hbefore, hcause⟩

end Portugol
