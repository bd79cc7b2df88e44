import Portugol.Proofs.ExprParser

/-!
# The tokens of a statement

A statement that stands on one line starts with a name or with one of four keywords, and none of
its other tokens is a keyword that starts a statement or that the next statement may follow on
the same line.

* `LineParser.Takes`: a parser passes only tokens that can stand inside a statement.
* `LineParser.Exhausts`: and it does so up to the end of the line.
* `LineParser.tokens_of_simple`: the tokens of a statement.
-/

namespace Portugol

/-- Whether a token can stand inside a statement: it is no keyword that starts a statement or
    that the next statement may follow on the same line. -/
def TokenKind.isInner : TokenKind → Bool
  | .keyword k => !k.startsStatement && !k.breaksAfter
  | _ => true

namespace Phrase

theorem isInner_binaryOp (op : BinaryOp) : op.token.isInner = true := by
  cases op <;> rfl

theorem isInner_unaryOp (op : UnaryOp) : op.token.isInner = true := by
  cases op <;> rfl

mutual

theorem isInner_of_mem_tokens : ∀ (q : Phrase), ∀ kind ∈ q.tokens, kind.isInner = true
  | number _ | text _ | var _ => List.forall_mem_singleton.2 rfl
  | logical true | logical false => List.forall_mem_singleton.2 rfl
  | element _ index =>
    List.forall_mem_cons.2 ⟨rfl, List.forall_mem_cons.2 ⟨rfl, List.forall_mem_append.2
      ⟨isInner_of_mem_tokens index, List.forall_mem_singleton.2 rfl⟩⟩⟩
  | call _ args =>
    List.forall_mem_cons.2 ⟨rfl, List.forall_mem_cons.2 ⟨rfl, isInner_of_mem_argTokens args⟩⟩
  | group inner =>
    List.forall_mem_cons.2 ⟨rfl, List.forall_mem_append.2
      ⟨isInner_of_mem_tokens inner, List.forall_mem_singleton.2 rfl⟩⟩
  | signed op operand =>
    List.forall_mem_cons.2 ⟨isInner_unaryOp op, isInner_of_mem_tokens operand⟩
  | binary op left right =>
    List.forall_mem_append.2 ⟨isInner_of_mem_tokens left,
      List.forall_mem_cons.2 ⟨isInner_binaryOp op, isInner_of_mem_tokens right⟩⟩

theorem isInner_of_mem_argTokens :
    ∀ (args : List Phrase), ∀ kind ∈ argTokens args, kind.isInner = true
  | [] => List.forall_mem_singleton.2 rfl
  | [last] =>
    List.forall_mem_append.2 ⟨isInner_of_mem_tokens last, List.forall_mem_singleton.2 rfl⟩
  | first :: next :: rest =>
    List.forall_mem_append.2 ⟨isInner_of_mem_tokens first,
      List.forall_mem_cons.2 ⟨rfl, isInner_of_mem_argTokens (next :: rest)⟩⟩

end

end Phrase

namespace LineParser

variable {α β : Type}

/-- The parser passes only tokens that can stand inside a statement. -/
def Takes (parser : LineParser α) : Prop :=
  ∀ ⦃c a c'⦄, parser.run c = .ok (a, c') →
    ∃ taken, c.tokens = taken ++ c'.tokens ∧ ∀ token ∈ taken, token.kind.isInner = true

namespace Takes

theorem of_tokens_eq {parser : LineParser α}
    (h : ∀ ⦃c a c'⦄, parser.run c = .ok (a, c') → c'.tokens = c.tokens) : Takes parser :=
  fun _ _ _ hrun => ⟨[], (h hrun).symm, List.forall_mem_nil _⟩

theorem pure (a : α) : Takes (pure a) :=
  of_tokens_eq fun _ _ _ h => by rw [(run_pure_eq_ok_iff.1 h).2]

theorem unexpected (expected : String) : Takes (unexpected expected : LineParser α) :=
  fun _ a _ h => absurd h (run_unexpected_ne_ok expected a)

theorem bind {x : LineParser α} {f : α → LineParser β} (hx : Takes x) (hf : ∀ a, Takes (f a)) :
    Takes (x >>= f) := by
  intro c b c' h
  obtain ⟨a, c₁, hfirst, hrest⟩ := run_bind_eq_ok_iff.1 h
  obtain ⟨taken, htokens, htaken⟩ := hx hfirst
  obtain ⟨taken', htokens', htaken'⟩ := hf a hrest
  refine ⟨taken ++ taken', ?_, List.forall_mem_append.2 ⟨htaken, htaken'⟩⟩
  rw [htokens, htokens', List.append_assoc]

theorem get : Takes (get : LineParser Cursor) := of_tokens_eq fun _ _ _ h => by cases h; rfl

theorem peek : Takes peek := get.bind fun _ => pure _

/-- Passing one token. -/
theorem of_token {parser : LineParser α}
    (h : ∀ ⦃c a c'⦄, parser.run c = .ok (a, c') → ∃ token rest, c.tokens = token :: rest ∧
      token.kind.isInner = true ∧ c' = { c with tokens := rest }) : Takes parser := by
  intro c a c' hrun
  obtain ⟨token, rest, htokens, hinner, rfl⟩ := h hrun
  exact ⟨[token], htokens, List.forall_mem_singleton.2 hinner⟩

theorem expect {kind : TokenKind} (hkind : kind.isInner = true) : Takes (expect kind) := by
  refine of_token fun c _ c' h => ?_
  obtain ⟨token, rest, htokens, rfl, hc'⟩ := run_expect_eq_ok_iff.1 h
  exact ⟨token, rest, htokens, hkind, hc'⟩

theorem eat {kind : TokenKind} (hkind : kind.isInner = true) : Takes (eat kind) := by
  intro c passed c' h
  rcases run_eat_eq_ok_iff.1 h with ⟨_, token, rest, htokens, rfl, rfl⟩ | ⟨_, _, rfl⟩
  · exact ⟨[token], htokens, List.forall_mem_singleton.2 hkind⟩
  · exact ⟨[], rfl, List.forall_mem_nil _⟩

theorem expectName (expected : String) : Takes (expectName expected) := by
  refine of_token fun c name c' h => ?_
  rw [LineParser.expectName, run_peek_bind] at h
  split at h
  · rename_i found hhead
    obtain ⟨token, rest, htokens, hkind⟩ := exists_token_of_head hhead
    rw [run_advance_bind] at h
    obtain ⟨_, rfl⟩ := run_pure_eq_ok_iff.1 h
    exact ⟨token, rest, htokens, by rw [hkind]; rfl, by rw [htokens]; rfl⟩
  · exact absurd h (run_unexpected_ne_ok _ _)

theorem expr : Takes expr := by
  intro c e c' h
  obtain ⟨q, _, _, _, hpasses⟩ := (sound_exprIn_operandIn maxNesting).1 h
  obtain ⟨taken, htokens, htaken⟩ := hpasses.tokens
  refine ⟨taken, htokens, fun token htoken => q.isInner_of_mem_tokens _ ?_⟩
  rw [← htaken]
  exact List.mem_map_of_mem htoken

theorem arguments (tokens : Nat) : Takes (arguments LineParser.expr tokens) := by
  induction tokens with
  | zero => exact expr.bind fun _ => pure _
  | succ tokens ih =>
    refine expr.bind fun first => (eat rfl).bind fun comma => ?_
    split
    · exact ih.bind fun _ => pure _
    · exact (expect rfl).bind fun _ => pure _

theorem callArgs : Takes (callArgs LineParser.expr) := by
  refine (expect rfl).bind fun _ => (eat rfl).bind fun closed => ?_
  split
  · exact pure _
  · exact get.bind fun _ => arguments _

theorem printArgs (tokens : Nat) : Takes (printArgs tokens) := by
  induction tokens with
  | zero => exact pure _
  | succ tokens ih =>
    refine peek.bind fun next => ?_
    split
    · exact pure _
    · exact expr.bind fun _ => (eat rfl).bind fun _ => ih.bind fun _ => pure _

theorem targets (tokens : Nat) : Takes (targets tokens) := by
  have htarget : Takes target := by
    refine (expectName _).bind fun name => (eat rfl).bind fun bracket => ?_
    split
    · exact expr.bind fun _ => (expect rfl).bind fun _ => pure _
    · exact pure _
  induction tokens with
  | zero => exact unexpected _
  | succ tokens ih =>
    refine htarget.bind fun first => (eat rfl).bind fun comma => ?_
    split
    · exact ih.bind fun _ => pure _
    · exact pure _

end Takes

/-- The parser succeeds only if all tokens that are left can stand inside a statement. -/
def Exhausts (parser : LineParser α) : Prop :=
  ∀ ⦃c a c'⦄, parser.run c = .ok (a, c') → ∀ token ∈ c.tokens, token.kind.isInner = true

namespace Exhausts

theorem bind {x : LineParser α} {f : α → LineParser β} (hx : Takes x) (hf : ∀ a, Exhausts (f a)) :
    Exhausts (x >>= f) := by
  intro c b c' h
  obtain ⟨a, c₁, hfirst, hrest⟩ := run_bind_eq_ok_iff.1 h
  obtain ⟨taken, htokens, htaken⟩ := hx hfirst
  rw [htokens]
  exact List.forall_mem_append.2 ⟨htaken, hf a hrest⟩

theorem expectEnd (f : Unit → LineParser α) : Exhausts (expectEnd >>= f) := by
  intro c b c' h
  obtain ⟨_, _, hend, _⟩ := run_bind_eq_ok_iff.1 h
  rw [(run_expectEnd_eq_ok_iff.1 hend).1]
  exact List.forall_mem_nil _

/-- Behind a name there is a sign, and then all tokens can stand inside a statement. -/
theorem nameStatement {name text : String} {f : Simple → LineParser α}
    (hf : ∀ action, Exhausts (f action)) {c c' : Cursor} {a : α}
    (h : (LineParser.nameStatement name text >>= f).run c = .ok (a, c')) :
    ∀ token ∈ c.tokens.tail, token.kind.isInner = true := by
  obtain ⟨action, c₁, hname, hrest⟩ := run_bind_eq_ok_iff.1 h
  have hget : ∀ g : Cursor → LineParser Simple, (get >>= g).run c = (g c).run c := fun _ => rfl
  have hall : ∀ {x : LineParser Simple} {c₂ : Cursor}, Takes x → x.run c₂ = .ok (action, c₁) →
      ∀ token ∈ c₂.tokens, token.kind.isInner = true := fun hx hrun =>
    bind hx hf (run_bind_eq_ok_iff.2 ⟨_, _, hrun, hrest⟩)
  rw [LineParser.nameStatement, hget] at hname
  split at hname
  case h_1 htokens =>
    rw [run_advance_bind, run_advance_bind] at hname
    have hinner := hall (Takes.expr.bind fun _ => .pure _) hname
    rw [htokens] at hinner ⊢
    exact List.forall_mem_cons.2 ⟨rfl, hinner⟩
  case h_2 htokens =>
    rw [run_advance_bind, run_advance_bind] at hname
    have hinner := hall (Takes.expr.bind fun _ => (Takes.expect rfl).bind fun _ =>
      (Takes.expect rfl).bind fun _ => Takes.expr.bind fun _ => .pure _) hname
    rw [htokens] at hinner ⊢
    exact List.forall_mem_cons.2 ⟨rfl, hinner⟩
  case h_3 =>
    rw [run_advance_bind] at hname
    exact hall (Takes.callArgs.bind fun _ => .pure _) hname
  case h_4 => exact absurd hname (run_fail_ne_ok _ _)

end Exhausts

/-- The tokens of a statement: only the first one can be a keyword that starts a statement, and
    no statement may follow behind one of them on the same line. -/
theorem tokens_of_simple {context : Context} {text : String} {line : Line} {action : Simple}
    (h : (simple context text).parse line = .ok action) :
    ∃ first rest, line.tokens = first :: rest ∧
      ((∃ name, first.kind = .name name) ∨
        ∃ keyword ∈ [Keyword.imprima, .imprimaln, .leia, .retorne], first.kind = .keyword keyword) ∧
      ∀ token ∈ rest, token.kind.isInner = true := by
  obtain ⟨c, hrun⟩ := parse_eq_ok_iff.1 h
  have hdone : ∀ action : Simple, Exhausts (expectEnd >>= fun _ => pure action) :=
    fun _ => .expectEnd _
  have hstart : ∀ {kind : TokenKind} {f : Unit → LineParser Simple},
      line.tokens.head?.map Token.kind = some kind →
      (∃ keyword ∈ [Keyword.imprima, .imprimaln, .leia, .retorne], kind = .keyword keyword) →
      Exhausts (f ()) → (advance >>= f).run { line := line.number, tokens := line.tokens } =
        .ok (action, c) → ∃ first rest, line.tokens = first :: rest ∧
      ((∃ name, first.kind = .name name) ∨
        ∃ keyword ∈ [Keyword.imprima, .imprimaln, .leia, .retorne], first.kind = .keyword keyword) ∧
      ∀ token ∈ rest, token.kind.isInner = true := by
    intro kind f hhead hkind hf hrun
    obtain ⟨first, rest, htokens, rfl⟩ := exists_token_of_head hhead
    rw [run_advance_bind, htokens] at hrun
    exact ⟨first, rest, htokens, .inr hkind, hf hrun⟩
  simp only [simple, pure_bind] at hrun
  rw [run_peek_bind] at hrun
  split at hrun
  case h_1 hhead | h_2 hhead =>
    refine hstart hhead ⟨_, by decide, rfl⟩ ?_ hrun
    exact .bind .get fun _ => .bind (.printArgs _) fun _ => hdone _
  case h_3 hhead =>
    refine hstart hhead ⟨_, by decide, rfl⟩ ?_ hrun
    exact .bind .get fun _ => .bind (.targets _) fun _ => hdone _
  case h_4 hhead =>
    split at hrun
    · obtain ⟨_, _, hfail, _⟩ := run_bind_eq_ok_iff.1 hrun
      exact absurd hfail (run_fail_ne_ok _ _)
    · refine hstart hhead ⟨_, by decide, rfl⟩ ?_ hrun
      refine .bind .peek fun next => ?_
      split
      · exact hdone _
      · exact .bind .expr fun _ => hdone _
  case h_7 name hhead =>
    obtain ⟨first, rest, htokens, hkind⟩ := exists_token_of_head hhead
    have hrest := Exhausts.nameStatement hdone hrun
    rw [htokens] at hrest
    exact ⟨first, rest, htokens, .inl ⟨name, hkind⟩, hrest⟩
  case h_5 | h_6 | h_8 =>
    obtain ⟨_, _, hfail, _⟩ := run_bind_eq_ok_iff.1 hrun
    exact absurd hfail (run_fail_ne_ok _ _)

end LineParser

end Portugol
