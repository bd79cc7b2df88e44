import Portugol.Stmt.Parser

/-!
# Parsers of lines

What the simple parsers do to a cursor: each is characterised by the tokens it
finds and the tokens it leaves, so that nothing that is said about the larger ones
looks into the way a cursor is handed on.
-/

namespace Portugol

namespace Fault

variable {α β : Type} {x : Except Fault α} {f : α → Except Fault β}

/-- Something that can fail, and then something else that can. -/
theorem bind_eq_ok_iff {b : β} : x >>= f = .ok b ↔ ∃ a, x = .ok a ∧ f a = .ok b := by
  cases x with
  | error fault => exact ⟨fun h => (by cases h), fun ⟨_, h, _⟩ => (by cases h)⟩
  | ok a =>
    constructor
    · intro h
      exact ⟨a, rfl, h⟩
    · rintro ⟨_, h, hf⟩
      cases h
      exact hf

/-- Whatever fault is the result, it is one of these. -/
def Among (P : Fault → Prop) (result : Except Fault α) : Prop :=
  ∀ fault, result = .error fault → P fault

namespace Among

variable {P Q : Fault → Prop}

theorem ok (a : α) : Among P (.ok a) := fun _ h => by cases h

theorem error {fault : Fault} (h : P fault) : Among P (.error fault : Except Fault α) := by
  rintro _ ⟨⟩
  exact h

theorem bind (hx : Among P x) (hf : ∀ a, x = .ok a → Among P (f a)) : Among P (x >>= f) := by
  cases x with
  | error fault =>
    rintro _ ⟨⟩
    exact hx _ rfl
  | ok a => exact hf a rfl

theorem mono (hx : Among P x) (h : ∀ fault, P fault → Q fault) : Among Q x :=
  fun fault hfault => h fault (hx fault hfault)

end Among

end Fault

namespace LineParser

variable {α β : Type} {c c' : Cursor}

/-- A parser that is followed by another one succeeds if both do. -/
theorem run_bind_eq_ok_iff {x : LineParser α} {f : α → LineParser β} {b : β} :
    (x >>= f).run c = .ok (b, c') ↔
      ∃ a c₁, x.run c = .ok (a, c₁) ∧ (f a).run c₁ = .ok (b, c') := by
  rw [StateT.run_bind, Fault.bind_eq_ok_iff, Prod.exists]

theorem run_bind_of_ok {x : LineParser α} {f : α → LineParser β} {a : α}
    (h : x.run c = .ok (a, c')) : (x >>= f).run c = (f a).run c' := by
  rw [StateT.run_bind, h]
  rfl

theorem run_pure_eq_ok_iff {a b : α} :
    (pure a : LineParser α).run c = .ok (b, c') ↔ a = b ∧ c = c' := by
  rw [StateT.run_pure]
  constructor
  · intro h
    cases h
    exact ⟨rfl, rfl⟩
  · rintro ⟨rfl, rfl⟩
    rfl

theorem run_fail_ne_ok (cause : Cause) (a : α) : (fail cause : LineParser α).run c ≠ .ok (a, c') :=
  fun h => by cases h

theorem run_unexpected_ne_ok (expected : String) (a : α) :
    (unexpected expected : LineParser α).run c ≠ .ok (a, c') := by
  intro h
  obtain ⟨line, tokens, operators⟩ := c
  cases tokens <;> cases h

theorem run_peek_bind (f : Option TokenKind → LineParser β) :
    (peek >>= f).run c = (f (c.tokens.head?.map Token.kind)).run c := rfl

theorem run_advance_bind (f : Unit → LineParser β) :
    (advance >>= f).run c = (f ()).run { c with tokens := c.tokens.tail } := rfl

/-! ## Passing one token -/

theorem exists_token_of_head {tokens : List Token} {kind : TokenKind}
    (h : tokens.head?.map Token.kind = some kind) :
    ∃ token rest, tokens = token :: rest ∧ token.kind = kind := by
  obtain ⟨token, htoken, hkind⟩ := Option.map_eq_some_iff.1 h
  obtain ⟨rest, hrest⟩ := List.head?_eq_some_iff.1 htoken
  exact ⟨token, rest, hrest, hkind⟩

theorem run_eat_of_eq {kind : TokenKind} (h : c.tokens.head?.map Token.kind = some kind) :
    (eat kind).run c = .ok (true, { c with tokens := c.tokens.tail }) := by
  rw [eat, run_peek_bind, if_pos h]
  rfl

theorem run_eat_of_ne {kind : TokenKind} (h : c.tokens.head?.map Token.kind ≠ some kind) :
    (eat kind).run c = .ok (false, c) := by
  rw [eat, run_peek_bind, if_neg h]
  rfl

/-- Passing this token, or no token at all. -/
theorem run_eat_eq_ok_iff {kind : TokenKind} {b : Bool} :
    (eat kind).run c = .ok (b, c') ↔
      (b = true ∧ ∃ token rest, c.tokens = token :: rest ∧ token.kind = kind ∧
        c' = { c with tokens := rest }) ∨
      (b = false ∧ c.tokens.head?.map Token.kind ≠ some kind ∧ c' = c) := by
  by_cases h : c.tokens.head?.map Token.kind = some kind
  · rw [run_eat_of_eq h]
    obtain ⟨token, rest, hrest, hkind⟩ := exists_token_of_head h
    constructor
    · intro he
      cases he
      exact .inl ⟨rfl, token, rest, hrest, hkind, by rw [hrest]; rfl⟩
    · rintro (⟨rfl, token', rest', htokens, _, rfl⟩ | ⟨_, hne, _⟩)
      · rw [htokens]
        rfl
      · exact absurd h hne
  · rw [run_eat_of_ne h]
    constructor
    · intro he
      cases he
      exact .inr ⟨rfl, h, rfl⟩
    · rintro (⟨_, token, rest, htokens, hkind, _⟩ | ⟨rfl, _, rfl⟩)
      · exact absurd (by rw [htokens, ← hkind]; rfl) h
      · rfl

theorem run_expect_eq_ok_iff {kind : TokenKind} :
    (expect kind).run c = .ok ((), c') ↔
      ∃ token rest, c.tokens = token :: rest ∧ token.kind = kind ∧
        c' = { c with tokens := rest } := by
  have hexpect : expect kind = eat kind >>= fun b =>
    if b = true then pure () else unexpected kind.describe := rfl
  rw [hexpect, run_bind_eq_ok_iff]
  constructor
  · rintro ⟨b, c₁, heat, hrest⟩
    rcases run_eat_eq_ok_iff.1 heat with ⟨rfl, token, rest, htokens, hkind, rfl⟩ | ⟨rfl, _, rfl⟩
    · cases hrest
      exact ⟨token, rest, htokens, hkind, rfl⟩
    · exact absurd hrest (run_unexpected_ne_ok _ _)
  · intro h
    exact ⟨true, c', run_eat_eq_ok_iff.2 (.inl ⟨rfl, h⟩), rfl⟩

/-- A parser that starts with this token starts a line with it. -/
theorem tokens_of_expect_bind {kind : TokenKind} {f : Unit → LineParser β} {b : β}
    (h : (expect kind >>= f).run c = .ok (b, c')) :
    ∃ token rest, c.tokens = token :: rest ∧ token.kind = kind := by
  obtain ⟨_, _, hexpect, _⟩ := run_bind_eq_ok_iff.1 h
  obtain ⟨token, rest, htokens, hkind, _⟩ := run_expect_eq_ok_iff.1 hexpect
  exact ⟨token, rest, htokens, hkind⟩

theorem run_expectEnd_eq_ok_iff :
    expectEnd.run c = .ok ((), c') ↔ c.tokens = [] ∧ c = c' := by
  obtain ⟨line, tokens, operators⟩ := c
  cases tokens with
  | nil =>
    constructor
    · intro h
      cases h
      exact ⟨rfl, rfl⟩
    · rintro ⟨_, rfl⟩
      rfl
  | cons token rest => exact ⟨fun h => (by cases h), fun ⟨h, _⟩ => (by cases h)⟩

/-! ## What parsers read -/

/-- Whatever the parser reads has the property. -/
def Yields (P : α → Prop) (parser : LineParser α) : Prop :=
  ∀ ⦃c a c'⦄, parser.run c = .ok (a, c') → P a

namespace Yields

variable {P : α → Prop} {Q : β → Prop}

theorem pure {a : α} (h : P a) : Yields P (pure a) := by
  intro c b c' hrun
  obtain ⟨rfl, _⟩ := run_pure_eq_ok_iff.1 hrun
  exact h

theorem fail (cause : Cause) : Yields P (fail cause) :=
  fun _ a _ hrun => absurd hrun (run_fail_ne_ok cause a)

theorem unexpected (expected : String) : Yields P (unexpected expected) :=
  fun _ a _ hrun => absurd hrun (run_unexpected_ne_ok expected a)

theorem bind {x : LineParser α} {f : α → LineParser β} (hx : Yields P x)
    (hf : ∀ a, P a → Yields Q (f a)) : Yields Q (x >>= f) := by
  intro c b c' hrun
  obtain ⟨a, c₁, hfirst, hrest⟩ := run_bind_eq_ok_iff.1 hrun
  exact hf a (hx hfirst) hrest

/-- What is read first does not matter. -/
theorem of_bind {x : LineParser α} {f : α → LineParser β} (hf : ∀ a, Yields Q (f a)) :
    Yields Q (x >>= f) :=
  bind (fun _ _ _ _ => trivial) fun a _ => hf a

theorem fail_bind (cause : Cause) (f : α → LineParser β) :
    Yields Q (LineParser.fail cause >>= f) :=
  bind (P := fun _ => False) (fail cause) fun _ h => h.elim

end Yields

/-! ## Lines -/

/-- A parser makes something of a line if it succeeds on its tokens. -/
theorem parse_eq_ok_iff {parser : LineParser α} {line : Line} {a : α} :
    parser.parse line = .ok a ↔
      ∃ c, parser.run { line := line.number, tokens := line.tokens } = .ok (a, c) := by
  rw [parse]
  cases parser.run { line := line.number, tokens := line.tokens } with
  | error fault => exact ⟨fun h => (by cases h), fun ⟨_, h⟩ => (by cases h)⟩
  | ok pair =>
    constructor
    · intro h
      cases h
      exact ⟨pair.2, rfl⟩
    · rintro ⟨c, h⟩
      cases h
      rfl

end LineParser

end Portugol
