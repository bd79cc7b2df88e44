import Portugol.Proofs.LineParser
import Portugol.Proofs.Phrase

/-!
# Reading expressions

What is read as an expression is a phrase, and every phrase is read, up to where it
ends. Two things are limited, and both are seen from outside: the levels, as those
of a phrase are less than the room there is for them, and the operators, as a cursor
counts those among the tokens that it passes (`LineParser.Passes`).

A chain of operators is read from left to right, while the left operand of a phrase
is a phrase again. So a phrase of a layer is read by the chain that goes on behind
its left operand (`LineParser.exists_run_layered_eq_chain`).

* `LineParser.sound_exprIn_operandIn`: what is read is a phrase.
* `LineParser.complete_exprIn_operandIn`: a phrase is read if what is behind it could
  not go on with it.
* `LineParser.parse_assignment_iff_phrase`: the lines `x <- p` are those where `p` is a
  phrase within the limits.
-/

namespace Portugol.LineParser

open Phrase

/-! ## Operators -/

theorem prefixOp?_eq_some_iff {kind : TokenKind} {op : UnaryOp} :
    prefixOp? kind = some op ↔ op.token = kind := by
  constructor
  · intro h
    unfold prefixOp? at h
    split at h <;> cases h <;> rfl
  · rintro rfl
    cases op <;> rfl

/-- The tables of operators that are these layers and all tighter ones. -/
def Tables : (layer : Nat) → List (TokenKind → Option BinaryOp) → Prop
  | layer, [] => layer = operandLayer
  | layer, op? :: tighter =>
    (∀ kind op, op? kind = some op ↔ op.token = kind ∧ op.layer = layer) ∧
      Tables (layer + 1) tighter

/-- The layers that are read are those of the grammar. -/
theorem tables_layers : Tables 0 layers := by
  refine ⟨?_, ?_, ?_, ?_, ?_, ?_, rfl⟩ <;> intro kind op <;> constructor
  all_goals
    first
    | rintro ⟨rfl, h⟩
      cases op <;> first | rfl | cases h
    | intro h
      cases kind with
      | keyword k => cases k <;> cases h <;> exact ⟨rfl, rfl⟩
      | symbol s => cases s <;> cases h <;> exact ⟨rfl, rfl⟩
      | _ => cases h

/-! ## What is passed -/

variable {c c' c₁ : Cursor} {kinds kinds' : List TokenKind}

/-- From one cursor to another these tokens are passed, and the operators among them
    are counted. -/
structure Passes (c : Cursor) (kinds : List TokenKind) (c' : Cursor) : Prop where
  line : c'.line = c.line
  tokens : ∃ taken, c.tokens = taken ++ c'.tokens ∧ taken.map Token.kind = kinds
  operators : c'.operators = c.operators + kinds.countP TokenKind.isOperator
  limit : c.operators ≤ maxOperators → c'.operators ≤ maxOperators

namespace Passes

theorem refl (c : Cursor) : Passes c [] c := ⟨rfl, ⟨[], rfl, rfl⟩, rfl, id⟩

theorem eq_of_nil (h : Passes c [] c') : c' = c := by
  obtain ⟨line, tokens, operators⟩ := c
  obtain ⟨hline, ⟨taken, htokens, htaken⟩, hoperators, _⟩ := h
  rw [List.map_eq_nil_iff.1 htaken] at htokens
  obtain ⟨line', tokens', operators'⟩ := c'
  cases hline
  cases htokens
  cases hoperators
  rfl

theorem trans (h : Passes c kinds c₁) (h' : Passes c₁ kinds' c') :
    Passes c (kinds ++ kinds') c' := by
  obtain ⟨taken, htokens, rfl⟩ := h.tokens
  obtain ⟨taken', htokens', rfl⟩ := h'.tokens
  refine ⟨h'.line.trans h.line, ⟨taken ++ taken', ?_, List.map_append⟩, ?_,
    fun hc => h'.limit (h.limit hc)⟩
  · rw [htokens, htokens', List.append_assoc]
  · rw [h'.operators, h.operators, List.countP_append, Nat.add_assoc]

/-- What is passed can be passed in two parts. -/
theorem split (h : Passes c (kinds ++ kinds') c') (hc : c.operators ≤ maxOperators) :
    ∃ c₁, Passes c kinds c₁ ∧ Passes c₁ kinds' c' ∧ c₁.operators ≤ maxOperators := by
  obtain ⟨taken, htokens, htaken⟩ := h.tokens
  obtain ⟨first, second, rfl, rfl, rfl⟩ := List.map_eq_append_iff.1 htaken
  have hoperators := h.operators
  have hlimit := h.limit hc
  rw [List.countP_append] at hoperators
  let between : Cursor :=
    ⟨c.line, second ++ c'.tokens,
      c.operators + (first.map Token.kind).countP TokenKind.isOperator⟩
  have hbetween : between.operators ≤ maxOperators := by
    dsimp only [between]
    omega
  refine ⟨between, ⟨rfl, ⟨first, ?_, rfl⟩, rfl, fun _ => hbetween⟩,
    ⟨h.line, ⟨second, rfl, rfl⟩, ?_, fun _ => hlimit⟩, hbetween⟩
  · rw [htokens, List.append_assoc]
  · dsimp only [between]
    omega

theorem length_eq (h : Passes c kinds c') :
    c.tokens.length = kinds.length + c'.tokens.length := by
  obtain ⟨taken, htokens, rfl⟩ := h.tokens
  rw [htokens, List.length_append, List.length_map]

/-- A phrase takes tokens away. -/
theorem length_lt {q : Phrase} (h : Passes c q.tokens c') :
    c'.tokens.length < c.tokens.length := by
  rw [h.length_eq]
  exact Nat.lt_add_of_pos_left (List.length_pos_iff.2 q.tokens_ne_nil)

theorem head? (h : Passes c kinds c') (hne : kinds ≠ []) :
    c.tokens.head?.map Token.kind = kinds.head? := by
  obtain ⟨taken, htokens, rfl⟩ := h.tokens
  have htaken : taken ≠ [] := mt List.map_eq_nil_iff.2 hne
  rw [htokens, List.head?_append, Option.or_of_isSome (List.isSome_head?.2 htaken), List.head?_map]

/-- One token that is no operator. -/
theorem token {token : Token} {rest : List Token} {kind : TokenKind}
    (htokens : c.tokens = token :: rest) (hkind : token.kind = kind)
    (hoperator : kind.isOperator = false) : Passes c [kind] { c with tokens := rest } := by
  refine ⟨rfl, ⟨[token], htokens, congrArg (fun kind => [kind]) hkind⟩, ?_, id⟩
  rw [List.countP_singleton, hoperator]
  rfl

/-- The first token that is passed, if it is no operator. -/
theorem uncons {kind : TokenKind} (h : Passes c (kind :: kinds) c')
    (hoperator : kind.isOperator = false) :
    ∃ span rest, c.tokens = ⟨kind, span⟩ :: rest ∧ Passes { c with tokens := rest } kinds c' := by
  obtain ⟨taken, htokens, htaken⟩ := h.tokens
  obtain ⟨⟨_, span⟩, rest, rfl, rfl, rfl⟩ := List.map_eq_cons_iff.1 htaken
  refine ⟨span, rest ++ c'.tokens, htokens, h.line, ⟨rest, rfl, rfl⟩, ?_, h.limit⟩
  rw [h.operators, List.countP_cons_of_neg (by rw [hoperator]; exact Bool.false_ne_true)]

theorem of_expect {kind : TokenKind} (h : (expect kind).run c = .ok ((), c'))
    (hoperator : kind.isOperator = false) : Passes c [kind] c' := by
  obtain ⟨_, _, htokens, hkind, rfl⟩ := run_expect_eq_ok_iff.1 h
  exact token htokens hkind hoperator

end Passes

theorem run_takeOperator_eq_ok_iff :
    takeOperator.run c = .ok ((), c') ↔ c.operators < maxOperators ∧
      c' = { c with tokens := c.tokens.tail, operators := c.operators + 1 } := by
  have htake : takeOperator.run c =
      (if maxOperators < c.operators + 1 then fail (.tooManyOperators maxOperators)
        else pure () : LineParser Unit).run
        { c with tokens := c.tokens.tail, operators := c.operators + 1 } := rfl
  rw [htake]
  split
  · rename_i hmany
    exact ⟨fun h => absurd h (run_fail_ne_ok _ _), fun h => absurd hmany (by omega)⟩
  · rename_i hfew
    rw [run_pure_eq_ok_iff]
    exact ⟨fun h => ⟨by omega, h.2.symm⟩, fun h => ⟨rfl, h.2.symm⟩⟩

/-! ## What is read is a phrase -/

variable {parser deeper : LineParser Expr} {room layer : Nat}

/-- A parser reads phrases of a layer, with less than `room` levels nested in them. -/
def Sound (parser : LineParser Expr) (layer room : Nat) : Prop :=
  ∀ ⦃c c' : Cursor⦄ ⦃e : Expr⦄, parser.run c = .ok (e, c') →
    ∃ q : Phrase, q.Fits layer ∧ q.value = e ∧ q.nesting < room ∧ Passes c q.tokens c'

theorem sound_arguments (hparser : Sound parser 0 room) {fuel : Nat} {es : List Expr}
    (hfuel : c.tokens.length ≤ fuel) (h : (arguments parser fuel).run c = .ok (es, c')) :
    ∃ args, AllFit args ∧ args ≠ [] ∧ values args = es ∧ argNesting args ≤ room ∧
      Passes c (argTokens args) c' := by
  induction fuel generalizing c es with
  | zero =>
    -- Without tokens there is no argument to read.
    obtain ⟨e, c₁, hfirst, _⟩ := run_bind_eq_ok_iff.1 h
    obtain ⟨q, _, _, _, hq⟩ := hparser hfirst
    exact absurd (Nat.lt_of_lt_of_le hq.length_lt hfuel) (Nat.not_lt_zero _)
  | succ fuel ih =>
    obtain ⟨e, c₁, hfirst, hmore⟩ := run_bind_eq_ok_iff.1 h
    obtain ⟨q, hfits, rfl, hnesting, hq⟩ := hparser hfirst
    obtain ⟨comma, c₂, heat, hothers⟩ := run_bind_eq_ok_iff.1 hmore
    rcases run_eat_eq_ok_iff.1 heat with ⟨rfl, token, rest, htokens, hkind, rfl⟩ | ⟨rfl, _, rfl⟩
    · obtain ⟨others, c₃, hrest, hend⟩ := run_bind_eq_ok_iff.1 hothers
      obtain ⟨rfl, rfl⟩ := run_pure_eq_ok_iff.1 hend
      have hlength : rest.length ≤ fuel := by
        have hlt := hq.length_lt
        rw [htokens, List.length_cons] at hlt
        omega
      obtain ⟨args, hall, hne, rfl, hargs, hpass⟩ := ih hlength hrest
      refine ⟨q :: args, ⟨hfits, hall⟩, List.cons_ne_nil _ _, rfl,
        Nat.max_le.2 ⟨hnesting, hargs⟩, ?_⟩
      rw [argTokens_cons hne]
      exact hq.trans ((Passes.token htokens hkind rfl).trans hpass)
    · obtain ⟨_, c₃, hclose, hend⟩ := run_bind_eq_ok_iff.1 hothers
      obtain ⟨rfl, rfl⟩ := run_pure_eq_ok_iff.1 hend
      exact ⟨[q], ⟨hfits, trivial⟩, List.cons_ne_nil _ _, rfl,
        Nat.max_le.2 ⟨hnesting, Nat.zero_le _⟩, hq.trans (.of_expect hclose rfl)⟩

/-- What follows a name: the name itself is passed already. -/
theorem sound_nameSuffix (hparser : Sound parser 0 room) {name : String} {e : Expr}
    (h : (nameSuffix parser name).run c = .ok (e, c')) :
    ∃ (q : Phrase) (kinds : List TokenKind), q.Fits operandLayer ∧ q.value = e ∧
      q.nesting < room + 1 ∧ q.tokens = .name name :: kinds ∧ Passes c kinds c' := by
  rw [nameSuffix, run_peek_bind] at h
  split at h
  · obtain ⟨es, c₁, hargs, hend⟩ := run_bind_eq_ok_iff.1 h
    obtain ⟨rfl, rfl⟩ := run_pure_eq_ok_iff.1 hend
    obtain ⟨_, c₂, hopen, hmore⟩ := run_bind_eq_ok_iff.1 hargs
    obtain ⟨closed, c₃, heat, hbehind⟩ := run_bind_eq_ok_iff.1 hmore
    rcases run_eat_eq_ok_iff.1 heat with ⟨rfl, token, rest, htokens, hkind, rfl⟩ | ⟨rfl, _, rfl⟩
    · obtain ⟨rfl, rfl⟩ := run_pure_eq_ok_iff.1 hbehind
      exact ⟨.call name [], _, trivial, rfl, Nat.succ_pos _, rfl,
        (Passes.of_expect hopen rfl).trans (.token htokens hkind rfl)⟩
    · obtain ⟨args, hall, _, rfl, hnesting, hpass⟩ :=
        sound_arguments hparser (Nat.le_refl _) hbehind
      exact ⟨.call name args, _, hall, rfl, Nat.lt_succ_of_le hnesting, rfl,
        (Passes.of_expect hopen rfl).trans hpass⟩
  · rename_i hhead
    obtain ⟨token, rest, htokens, hkind⟩ := exists_token_of_head hhead
    rw [run_advance_bind, htokens] at h
    obtain ⟨index, c₁, hindex, hmore⟩ := run_bind_eq_ok_iff.1 h
    obtain ⟨q, hfits, rfl, hnesting, hq⟩ := hparser hindex
    obtain ⟨_, c₂, hclose, hend⟩ := run_bind_eq_ok_iff.1 hmore
    obtain ⟨rfl, rfl⟩ := run_pure_eq_ok_iff.1 hend
    exact ⟨.element name q, _, hfits, rfl, Nat.succ_lt_succ hnesting, rfl,
      (Passes.token htokens hkind rfl).trans (hq.trans (.of_expect hclose rfl))⟩
  · obtain ⟨rfl, rfl⟩ := run_pure_eq_ok_iff.1 h
    exact ⟨.var name, [], trivial, rfl, Nat.succ_pos _, rfl, .refl c⟩

theorem sound_primary (hparser : Sound parser 0 room) :
    Sound (primary parser) operandLayer (room + 1) := by
  intro c c' e h
  obtain ⟨line, tokens, operators⟩ := c
  rw [primary, run_peek_bind] at h
  cases tokens with
  | nil => exact absurd h (run_unexpected_ne_ok _ _)
  | cons token rest =>
    obtain ⟨kind, span⟩ := token
    cases kind with
    | number n =>
      cases h
      exact ⟨.number n, trivial, rfl, Nat.succ_pos _, .token rfl rfl rfl⟩
    | text s =>
      cases h
      exact ⟨.text s, trivial, rfl, Nat.succ_pos _, .token rfl rfl rfl⟩
    | name name =>
      obtain ⟨q, kinds, hfits, hvalue, hnesting, htokens, hq⟩ := sound_nameSuffix hparser h
      refine ⟨q, hfits, hvalue, hnesting, ?_⟩
      rw [htokens]
      exact (Passes.token rfl rfl rfl).trans hq
    | keyword k =>
      cases k with
      | verdadeiro =>
        cases h
        exact ⟨.logical true, trivial, rfl, Nat.succ_pos _, .token rfl rfl rfl⟩
      | falso =>
        cases h
        exact ⟨.logical false, trivial, rfl, Nat.succ_pos _, .token rfl rfl rfl⟩
      | _ => exact absurd h (run_unexpected_ne_ok _ _)
    | symbol s =>
      cases s with
      | openParen =>
        replace h := (run_advance_bind _).symm.trans h
        obtain ⟨_, c₁, hinner, hmore⟩ := run_bind_eq_ok_iff.1 h
        obtain ⟨q, hfits, rfl, hnesting, hq⟩ := hparser hinner
        obtain ⟨_, c₂, hclose, hend⟩ := run_bind_eq_ok_iff.1 hmore
        obtain ⟨rfl, rfl⟩ := run_pure_eq_ok_iff.1 hend
        have hopen : Passes ⟨line, ⟨.symbol .openParen, span⟩ :: rest, operators⟩
            [.symbol .openParen] ⟨line, rest, operators⟩ := .token rfl rfl rfl
        exact ⟨.group q, hfits, rfl, Nat.succ_lt_succ hnesting,
          hopen.trans (hq.trans (.of_expect hclose rfl))⟩
      | _ => exact absurd h (run_unexpected_ne_ok _ _)

/-- One operator, which is counted. -/
theorem Passes.of_takeOperator {kind : TokenKind} (h : takeOperator.run c = .ok ((), c'))
    (hhead : c.tokens.head?.map Token.kind = some kind) (hoperator : kind.isOperator = true) :
    Passes c [kind] c' := by
  obtain ⟨hlimit, rfl⟩ := run_takeOperator_eq_ok_iff.1 h
  obtain ⟨token, rest, htokens, rfl⟩ := exists_token_of_head hhead
  refine ⟨rfl, ⟨[token], by rw [htokens]; rfl, rfl⟩, ?_, fun _ => hlimit⟩
  rw [List.countP_singleton, if_pos hoperator]

theorem withSign_eq_applyPrefix (op : UnaryOp) (e : Expr) : withSign op e = applyPrefix op e := by
  cases op with
  | neg => cases e <;> rfl
  | not | plus => rfl

theorem sound_operand (hparser : Sound parser 0 room) (hdeeper : Sound deeper operandLayer room) :
    Sound (operand parser deeper) operandLayer (room + 1) := by
  intro c c' e h
  rw [operand, run_peek_bind] at h
  split at h
  · exact sound_primary hparser h
  · rename_i op hop
    obtain ⟨kind, hhead, hkind⟩ := Option.bind_eq_some_iff.1 hop
    obtain rfl := prefixOp?_eq_some_iff.1 hkind
    obtain ⟨_, c₁, htake, hmore⟩ := run_bind_eq_ok_iff.1 h
    obtain ⟨_, c₂, hoperand, hend⟩ := run_bind_eq_ok_iff.1 hmore
    obtain ⟨q, hfits, rfl, hnesting, hq⟩ := hdeeper hoperand
    obtain ⟨rfl, rfl⟩ := run_pure_eq_ok_iff.1 hend
    exact ⟨.signed op q, hfits, withSign_eq_applyPrefix op q.value, Nat.succ_lt_succ hnesting,
      (Passes.of_takeOperator htake hhead op.isOperator_token).trans hq⟩

/-- Without an operator of its layer a chain is at its end. -/
theorem run_chain_of_none {op? : TokenKind → Option BinaryOp} (more : Nat) (left : Expr)
    (h : (c.tokens.head?.map Token.kind).bind op? = none) :
    (chain op? parser more left).run c = .ok (left, c) := by
  cases more <;>
  · rw [chain, run_peek_bind, h]
    rfl

theorem run_chain_of_some {op? : TokenKind → Option BinaryOp} (more : Nat) (left : Expr)
    {op : BinaryOp} (h : (c.tokens.head?.map Token.kind).bind op? = some op) :
    (chain op? parser (more + 1) left).run c = (do
      takeOperator
      chain op? parser more (.binary op left (← parser)) : LineParser Expr).run c := by
  rw [chain, run_peek_bind, h]

/-- A chain ends with what is before it, or it has an operator and a right operand
    and goes on with one operator less. -/
theorem run_chain_cases {op? : TokenKind → Option BinaryOp} {more : Nat} {left e : Expr}
    (h : (chain op? parser more left).run c = .ok (e, c')) :
    (e = left ∧ c' = c) ∨
      ∃ op fewer right c₁ c₂, (c.tokens.head?.map Token.kind).bind op? = some op ∧
        more = fewer + 1 ∧ takeOperator.run c = .ok ((), c₁) ∧ parser.run c₁ = .ok (right, c₂) ∧
        (chain op? parser fewer (.binary op left right)).run c₂ = .ok (e, c') := by
  cases hhead : (c.tokens.head?.map Token.kind).bind op? with
  | none =>
    rw [run_chain_of_none more left hhead] at h
    cases h
    exact .inl ⟨rfl, rfl⟩
  | some op =>
    cases more with
    | zero =>
      rw [chain, run_peek_bind, hhead] at h
      obtain ⟨_, c₁, _, hfail⟩ := run_bind_eq_ok_iff.1 h
      exact absurd hfail (run_fail_ne_ok _ _)
    | succ fewer =>
      rw [run_chain_of_some fewer left hhead] at h
      obtain ⟨_, c₁, htake, hmore⟩ := run_bind_eq_ok_iff.1 h
      obtain ⟨right, c₂, hright, hrest⟩ := run_bind_eq_ok_iff.1 hmore
      exact .inr ⟨op, fewer, right, c₁, c₂, rfl, rfl, htake, hright, hrest⟩

/-- What a chain of operators makes of a phrase before it. -/
theorem sound_chain {op? : TokenKind → Option BinaryOp}
    (hop? : ∀ kind op, op? kind = some op → op.token = kind ∧ op.layer = layer)
    (hparser : Sound parser (layer + 1) room) {more : Nat} {left : Phrase} {e : Expr}
    (hfits : left.Fits layer) (hnesting : left.nesting < room)
    (h : (chain op? parser more left.value).run c = .ok (e, c')) :
    ∃ (q : Phrase) (kinds : List TokenKind), q.Fits layer ∧ q.value = e ∧ q.nesting < room ∧
      q.tokens = left.tokens ++ kinds ∧ Passes c kinds c' := by
  induction more generalizing left c with
  | zero =>
    rcases run_chain_cases h with ⟨rfl, rfl⟩ | ⟨_, _, _, _, _, _, hmore, _⟩
    · exact ⟨left, [], hfits, rfl, hnesting, (List.append_nil _).symm, .refl c'⟩
    · cases hmore
  | succ more ih =>
    rcases run_chain_cases h with ⟨rfl, rfl⟩ | ⟨op, _, _, c₁, c₂, hop, ⟨⟩, htake, hright, hrest⟩
    · exact ⟨left, [], hfits, rfl, hnesting, (List.append_nil _).symm, .refl c'⟩
    · obtain ⟨kind, hhead, hkind⟩ := Option.bind_eq_some_iff.1 hop
      obtain ⟨rfl, rfl⟩ := hop? kind op hkind
      obtain ⟨right, hrightFits, rfl, hrightNesting, hrightTokens⟩ := hparser hright
      -- The operator with its operands is of the layer again, and is the left operand
      -- of what follows.
      have hwhole : (binary op left right).Fits op.layer := ⟨Nat.le_refl _, hfits, hrightFits⟩
      obtain ⟨q, kinds, hq, hvalue, hqNesting, htokens, hpass⟩ :=
        ih hwhole (Nat.max_lt.2 ⟨hnesting, hrightNesting⟩) hrest
      refine ⟨q, op.token :: (right.tokens ++ kinds), hq, hvalue, hqNesting, ?_, ?_⟩
      · rw [htokens, tokens, List.append_assoc, List.cons_append]
      · exact (Passes.of_takeOperator htake hhead op.isOperator_token).trans
          (hrightTokens.trans hpass)

theorem sound_layered {ops : List (TokenKind → Option BinaryOp)} (hops : Tables layer ops)
    (hparser : Sound parser operandLayer room) : Sound (layered parser ops) layer room := by
  induction ops generalizing layer with
  | nil =>
    cases hops
    exact hparser
  | cons op? tighter ih =>
    intro c c' e h
    obtain ⟨_, c₁, hleft, hchain⟩ := run_bind_eq_ok_iff.1 h
    obtain ⟨left, hfits, rfl, hnesting, hpassLeft⟩ := ih hops.2 hleft
    obtain ⟨q, kinds, hq, hvalue, hqNesting, htokens, hpass⟩ :=
      sound_chain (fun kind op => (hops.1 kind op).1) (ih hops.2)
        (hfits.of_le (Nat.le_succ layer)) hnesting hchain
    refine ⟨q, hq, hvalue, hqNesting, ?_⟩
    rw [htokens]
    exact hpassLeft.trans hpass

theorem sound_exprIn_operandIn (room : Nat) :
    Sound (exprIn room) 0 room ∧ Sound (operandIn room) operandLayer room := by
  induction room with
  | zero =>
    constructor <;> intro c c' e h
    · exact absurd h (run_fail_ne_ok _ _)
    · exact absurd h (run_fail_ne_ok _ _)
  | succ room ih =>
    have hoperand := sound_operand ih.1 ih.2
    rw [exprIn, operandIn]
    exact ⟨sound_layered tables_layers hoperand, hoperand⟩

/-! ## Phrases are read -/

/-- What could not go on with a phrase of the layer before it. -/
def Ends (layer : Nat) (tokens : List Token) : Prop :=
  ∀ kind, tokens.head?.map Token.kind = some kind →
    (∀ op : BinaryOp, op.token = kind → op.layer < layer) ∧
      kind ≠ .symbol .openParen ∧ kind ≠ .symbol .openBracket

namespace Ends

variable {tokens : List Token}

theorem of_le {layer' : Nat} (h : Ends layer tokens) (hle : layer ≤ layer') :
    Ends layer' tokens := by
  intro kind hkind
  obtain ⟨hop, hparens⟩ := h kind hkind
  exact ⟨fun op htoken => Nat.lt_of_lt_of_le (hop op htoken) hle, hparens⟩

/-- A token that is no operator ends a phrase, unless it opens something. -/
theorem of_passes {kind : TokenKind} (h : Passes c (kind :: kinds) c')
    (hoperator : kind.isOperator = false) (hparen : kind ≠ .symbol .openParen)
    (hbracket : kind ≠ .symbol .openBracket) : Ends layer c.tokens := by
  obtain ⟨span, rest, htokens, _⟩ := h.uncons hoperator
  rw [htokens]
  rintro _ ⟨⟩
  refine ⟨fun op htoken => ?_, hparen, hbracket⟩
  rw [← show op.token = kind from htoken, op.isOperator_token] at hoperator
  cases hoperator

/-- An operator ends a phrase of the next layer. -/
theorem of_operator {op : BinaryOp} (h : Passes c (op.token :: kinds) c') :
    Ends (op.layer + 1) c.tokens := by
  intro kind hkind
  rw [h.head? (List.cons_ne_nil _ _)] at hkind
  cases hkind
  refine ⟨fun op' htoken => ?_, ?_, ?_⟩
  · rw [BinaryOp.token_injective htoken]
    exact Nat.lt_succ_self _
  · cases op <;> nofun
  · cases op <;> nofun

theorem nil : Ends layer [] := fun _ h => by cases h

end Ends

/-- A parser reads a phrase wherever it ends. -/
def Complete (parser : LineParser Expr) (layer : Nat) (q : Phrase) : Prop :=
  ∀ ⦃c c' : Cursor⦄, Passes c q.tokens c' → c.operators ≤ maxOperators → Ends layer c'.tokens →
    parser.run c = .ok (q.value, c')

theorem run_expect_of_passes {kind : TokenKind} (h : Passes c [kind] c')
    (hoperator : kind.isOperator = false) : (expect kind).run c = .ok ((), c') := by
  obtain ⟨span, rest, htokens, hrest⟩ := h.uncons hoperator
  exact run_expect_eq_ok_iff.2 ⟨⟨kind, span⟩, rest, htokens, rfl, hrest.eq_of_nil⟩

theorem length_le_argTokens (args : List Phrase) : args.length ≤ (argTokens args).length := by
  induction args with
  | nil => exact Nat.zero_le _
  | cons first rest ih =>
    have hpos := List.length_pos_iff.2 first.tokens_ne_nil
    cases rest with
    | nil =>
      rw [argTokens, List.length_append, List.length_singleton]
      exact Nat.le_add_left _ _
    | cons next rest =>
      simp only [argTokens_cons (List.cons_ne_nil next rest), List.length_append,
        List.length_cons] at ih ⊢
      omega

theorem complete_arguments
    (hparser : ∀ q : Phrase, q.Fits 0 → q.nesting < room → Complete parser 0 q)
    {args : List Phrase} (hargs : args ≠ []) (hall : AllFit args)
    (hnesting : argNesting args ≤ room) {fuel : Nat} (hfuel : args.length ≤ fuel)
    (h : Passes c (argTokens args) c') (hc : c.operators ≤ maxOperators) :
    (arguments parser fuel).run c = .ok (values args, c') := by
  induction args generalizing c fuel with
  | nil => exact absurd rfl hargs
  | cons first rest ih =>
    cases fuel with
    | zero => cases hfuel
    | succ fuel =>
      rw [argNesting, Nat.max_le] at hnesting
      have hfirst := hparser first hall.1 hnesting.1
      rw [arguments]
      cases rest with
      | nil =>
        obtain ⟨c₁, hbefore, hclose, -⟩ := h.split hc
        obtain ⟨span, rest, htokens, -⟩ := hclose.uncons rfl
        rw [run_bind_of_ok (hfirst hbefore hc (.of_passes hclose rfl nofun nofun)),
          run_bind_of_ok (run_eat_of_ne (by rw [htokens]; nofun))]
        exact run_bind_of_ok (run_expect_of_passes hclose rfl)
      | cons next rest =>
        obtain ⟨c₁, hbefore, hcomma, hc₁⟩ := h.split hc
        obtain ⟨span, behind, htokens, hrest⟩ := hcomma.uncons rfl
        rw [run_bind_of_ok (hfirst hbefore hc (.of_passes hcomma rfl nofun nofun)),
          run_bind_of_ok (run_eat_of_eq (by rw [htokens]; rfl)), htokens]
        exact run_bind_of_ok
          (ih (List.cons_ne_nil _ _) hall.2 hnesting.2 (Nat.le_of_succ_le_succ hfuel) hrest hc₁)

/-- A name that nothing follows is a variable. -/
theorem run_nameSuffix_of_ends (name : String) (h : Ends layer c.tokens) :
    (nameSuffix parser name).run c = .ok (.var name, c) := by
  rw [nameSuffix, run_peek_bind]
  split
  · rename_i hhead
    exact absurd rfl (h _ hhead).2.1
  · rename_i hhead
    exact absurd rfl (h _ hhead).2.2
  · rfl

theorem run_callArgs_of_passes
    (hparser : ∀ q : Phrase, q.Fits 0 → q.nesting < room → Complete parser 0 q)
    {args : List Phrase} (hall : AllFit args) (hnesting : argNesting args ≤ room)
    (h : Passes c (.symbol .openParen :: argTokens args) c') (hc : c.operators ≤ maxOperators) :
    (callArgs parser).run c = .ok (values args, c') := by
  obtain ⟨span, rest, htokens, hargs⟩ := h.uncons rfl
  rw [callArgs, run_bind_of_ok (run_expect_eq_ok_iff.2 ⟨_, _, htokens, rfl, rfl⟩)]
  cases args with
  | nil =>
    obtain ⟨span', rest', htokens', hend⟩ := hargs.uncons rfl
    rw [run_bind_of_ok (run_eat_of_eq (by rw [htokens']; rfl)), hend.eq_of_nil, htokens']
    rfl
  | cons first others =>
    have hhead : rest.head?.map Token.kind ≠ some (.symbol .closeParen) := by
      have hne : argTokens (first :: others) ≠ [] := fun hnil => by
        have hlength := length_le_argTokens (first :: others)
        rw [hnil] at hlength
        cases hlength
      rw [hargs.head? hne, head?_argTokens]
      exact first.head?_tokens_ne
    rw [run_bind_of_ok (run_eat_of_ne hhead)]
    have hfuel : (first :: others).length ≤ rest.length := by
      rw [hargs.length_eq]
      exact Nat.le_trans (length_le_argTokens _) (Nat.le_add_right _ _)
    exact complete_arguments hparser (List.cons_ne_nil _ _) hall hnesting hfuel hargs hc

theorem run_takeOperator_of_passes {kind : TokenKind} (h : Passes c [kind] c')
    (hoperator : kind.isOperator = true) (hc' : c'.operators ≤ maxOperators) :
    takeOperator.run c = .ok ((), c') := by
  obtain ⟨taken, htokens, htaken⟩ := h.tokens
  obtain ⟨token, rest, rfl, -, hrest⟩ := List.map_eq_cons_iff.1 htaken
  obtain rfl := List.map_eq_nil_iff.1 hrest
  have hcount := h.operators
  rw [List.countP_singleton, if_pos hoperator] at hcount
  refine run_takeOperator_eq_ok_iff.2 ⟨by omega, ?_⟩
  obtain ⟨line, tokens, operators⟩ := c'
  cases h.line
  cases hcount
  rw [htokens]
  rfl

/-- A phrase with a closing token behind it. -/
theorem complete_enclosed
    (hparser : ∀ q : Phrase, q.Fits 0 → q.nesting < room → Complete parser 0 q) {q : Phrase}
    {kind : TokenKind} (hfits : q.Fits 0) (hnesting : q.nesting < room)
    (h : Passes c (q.tokens ++ [kind]) c') (hc : c.operators ≤ maxOperators)
    (hkind : kind = .symbol .closeParen ∨ kind = .symbol .closeBracket) (wrap : Expr → Expr) :
    (do
      let inner ← parser
      expect kind
      return wrap inner : LineParser Expr).run c = .ok (wrap q.value, c') := by
  obtain ⟨c₁, hq, hclose, -⟩ := h.split hc
  have hoperator : kind.isOperator = false := by rcases hkind with rfl | rfl <;> rfl
  have hends : Ends 0 c₁.tokens := by
    rcases hkind with rfl | rfl <;> exact .of_passes hclose hoperator nofun nofun
  rw [run_bind_of_ok (hparser q hfits hnesting hq hc hends),
    run_bind_of_ok (run_expect_of_passes hclose hoperator)]
  rfl

/-- Operands are read, if what is in them is. -/
theorem complete_operand
    (hparser : ∀ q : Phrase, q.Fits 0 → q.nesting < room → Complete parser 0 q)
    (hdeeper : ∀ q : Phrase, q.Fits operandLayer → q.nesting < room →
      Complete deeper operandLayer q)
    {q : Phrase} (hfits : q.Fits operandLayer) (hnesting : q.nesting < room + 1) :
    Complete (operand parser deeper) operandLayer q := by
  intro c c' h hc hend
  obtain ⟨line, tokens, operators⟩ := c
  cases q with
  | number n =>
    obtain ⟨span, rest, rfl, hrest⟩ := h.uncons rfl
    rw [hrest.eq_of_nil]
    rfl
  | text s =>
    obtain ⟨span, rest, rfl, hrest⟩ := h.uncons rfl
    rw [hrest.eq_of_nil]
    rfl
  | logical b =>
    cases b with
    | true =>
      obtain ⟨span, rest, rfl, hrest⟩ := h.uncons rfl
      rw [hrest.eq_of_nil]
      rfl
    | false =>
      obtain ⟨span, rest, rfl, hrest⟩ := h.uncons rfl
      rw [hrest.eq_of_nil]
      rfl
  | var name =>
    obtain ⟨span, rest, rfl, hrest⟩ := h.uncons rfl
    rw [hrest.eq_of_nil] at hend ⊢
    exact run_nameSuffix_of_ends name hend
  | element name index =>
    obtain ⟨span, rest, rfl, hrest⟩ := h.uncons rfl
    obtain ⟨span', rest', htokens, hindex⟩ := hrest.uncons rfl
    cases htokens
    exact complete_enclosed hparser hfits (Nat.lt_of_succ_lt_succ hnesting) hindex hc (.inr rfl)
      (.element name)
  | call name args =>
    obtain ⟨span, rest, rfl, hrest⟩ := h.uncons rfl
    obtain ⟨span', rest', htokens, -⟩ := hrest.uncons rfl
    cases htokens
    have hargs := run_callArgs_of_passes hparser hfits (Nat.le_of_lt_succ hnesting) hrest hc
    exact (run_bind_of_ok hargs :
      (do return .call name (← callArgs parser) : LineParser Expr).run _ = _)
  | group inner =>
    obtain ⟨span, rest, rfl, hinner⟩ := h.uncons rfl
    exact complete_enclosed hparser hfits (Nat.lt_of_succ_lt_succ hnesting) hinner hc (.inl rfl) id
  | signed op inner =>
    have hparts : Passes _ ([op.token] ++ inner.tokens) c' := h
    obtain ⟨c₁, hop, hinner, hc₁⟩ := hparts.split hc
    have hread := hdeeper inner hfits (Nat.lt_of_succ_lt_succ hnesting) hinner hc₁ hend
    have hhead : (tokens.head?.map Token.kind).bind prefixOp? = some op := by
      rw [h.head? (List.cons_ne_nil _ _)]
      exact prefixOp?_eq_some_iff.2 rfl
    rw [operand, run_peek_bind, hhead]
    dsimp only
    rw [run_bind_of_ok (run_takeOperator_of_passes hop op.isOperator_token hc₁),
      run_bind_of_ok hread, ← withSign_eq_applyPrefix]
    rfl
  | binary op left right =>
    -- The layers of operators end before that of operands.
    exact absurd hfits.1 (by cases op <;> decide)

/-- A phrase at the start of a chain is read, and then the chain goes on behind it:
    there can be as many more operators as the phrase leaves. -/
theorem exists_run_layered_eq_chain {op? : TokenKind → Option BinaryOp}
    {tighter : List (TokenKind → Option BinaryOp)}
    (hop? : ∀ kind op, op.token = kind ∧ op.layer = layer → op? kind = some op)
    (hparser : ∀ q : Phrase, q.Fits (layer + 1) → q.nesting < room →
      Complete (layered parser tighter) (layer + 1) q)
    {q : Phrase} (hfits : q.Fits layer) (hnesting : q.nesting < room) (h : Passes c q.tokens c')
    (hc : c.operators ≤ maxOperators) (hend : Ends (layer + 1) c'.tokens) :
    ∃ more, maxOperators ≤ more + q.tokens.countP TokenKind.isOperator ∧
      (layered parser (op? :: tighter)).run c =
        (chain op? (layered parser tighter) more q.value).run c' := by
  -- By induction along the left operands: the innermost one is read as a phrase of the
  -- next layer, and each operator on the way out is one round of the chain.
  induction hn : q.tokens.length using Nat.strongRecOn generalizing q c' with
  | ind n ih =>
    subst hn
    rcases hfits.succ_or_binary with hnext | ⟨op, left, right, rfl, rfl⟩
    · exact ⟨maxOperators, Nat.le_add_right _ _,
        run_bind_of_ok (hparser q hnext hnesting h hc hend)⟩
    · rw [nesting, Nat.max_lt] at hnesting
      have hlimit : c.operators + (binary op left right).tokens.countP TokenKind.isOperator ≤
          maxOperators := h.operators ▸ h.limit hc
      have hlength : left.tokens.length < (binary op left right).tokens.length := by
        rw [tokens, List.length_append, List.length_cons]
        omega
      obtain ⟨c₁, hleft, hbehind, hc₁⟩ := h.split hc
      obtain ⟨more, hmore, hrun⟩ :=
        ih _ hlength hfits.2.1 hnesting.1 hleft (.of_operator hbehind) rfl
      have hparts : Passes c₁ ([op.token] ++ right.tokens) c' := hbehind
      obtain ⟨c₂, hop, hright, hc₂⟩ := hparts.split hc₁
      rw [tokens, List.countP_append, List.countP_cons_of_pos op.isOperator_token] at hlimit ⊢
      -- The operator is one of those that the left operand leaves.
      obtain ⟨more, rfl⟩ : ∃ fewer, more = fewer + 1 := ⟨more - 1, by omega⟩
      refine ⟨more, by omega, ?_⟩
      have hhead : (c₁.tokens.head?.map Token.kind).bind op? = some op := by
        rw [hbehind.head? (List.cons_ne_nil _ _)]
        exact hop? op.token op ⟨rfl, rfl⟩
      rw [hrun, run_chain_of_some more left.value hhead,
        run_bind_of_ok (run_takeOperator_of_passes hop op.isOperator_token hc₂),
        run_bind_of_ok (hparser right hfits.2.2 hnesting.2 hright hc₂ hend), value]

theorem complete_layered {ops : List (TokenKind → Option BinaryOp)} (hops : Tables layer ops)
    (hparser : ∀ q : Phrase, q.Fits operandLayer → q.nesting < room →
      Complete parser operandLayer q)
    {q : Phrase} (hfits : q.Fits layer) (hnesting : q.nesting < room) :
    Complete (layered parser ops) layer q := by
  induction ops generalizing layer q with
  | nil =>
    cases hops
    exact hparser q hfits hnesting
  | cons op? tighter ih =>
    intro c c' h hc hend
    obtain ⟨more, -, hrun⟩ := exists_run_layered_eq_chain (fun kind op => (hops.1 kind op).2)
      (fun q => ih hops.2) hfits hnesting h hc (hend.of_le (Nat.le_succ layer))
    rw [hrun]
    apply run_chain_of_none
    -- An operator of the layer would not end the phrase.
    rw [Option.bind_eq_none_iff]
    intro kind hkind
    rw [Option.eq_none_iff_forall_ne_some]
    intro op hop
    obtain ⟨htoken, rfl⟩ := (hops.1 kind op).1 hop
    exact absurd ((hend kind hkind).1 op htoken) (Nat.lt_irrefl _)

theorem complete_exprIn_operandIn (room : Nat) :
    (∀ q : Phrase, q.Fits 0 → q.nesting < room → Complete (exprIn room) 0 q) ∧
    ∀ q : Phrase, q.Fits operandLayer → q.nesting < room →
      Complete (operandIn room) operandLayer q := by
  induction room with
  | zero =>
    exact ⟨fun _ _ h => absurd h (Nat.not_lt_zero _), fun _ _ h => absurd h (Nat.not_lt_zero _)⟩
  | succ room ih =>
    have hoperand (q : Phrase) (hfits : q.Fits operandLayer) (hnesting : q.nesting < room + 1) :=
      complete_operand ih.1 ih.2 hfits hnesting
    rw [exprIn, operandIn]
    exact ⟨fun q hfits hnesting => complete_layered tables_layers hoperand hfits hnesting, hoperand⟩

/-! ## Assignments -/

/-- An expression is all of the tokens exactly if they are a phrase for it, within
    the limits. -/
theorem run_expr_eq_ok_iff {line : Nat} {p : List Token} {e : Expr} :
    (∃ c, expr.run { line, tokens := p } = .ok (e, c) ∧ c.tokens = []) ↔
      (∃ q : Phrase, q.Fits 0 ∧ q.tokens = p.map Token.kind ∧ q.value = e ∧
        q.nesting + 1 ≤ maxNesting) ∧
      (p.map Token.kind).countP TokenKind.isOperator ≤ maxOperators := by
  constructor
  · rintro ⟨c, hrun, hend⟩
    obtain ⟨q, hfits, hvalue, hnesting, hpass⟩ := (sound_exprIn_operandIn maxNesting).1 hrun
    have hlimit := hpass.limit (Nat.zero_le _)
    rw [hpass.operators] at hlimit
    obtain ⟨taken, htokens, htaken⟩ := hpass.tokens
    rw [hend, List.append_nil] at htokens
    cases htokens
    rw [htaken]
    exact ⟨⟨q, hfits, rfl, hvalue, hnesting⟩, by simpa using hlimit⟩
  · rintro ⟨⟨q, hfits, htokens, rfl, hnesting⟩, hlimit⟩
    rw [← htokens] at hlimit
    have hpass : Passes { line, tokens := p } q.tokens
        ⟨line, [], q.tokens.countP TokenKind.isOperator⟩ :=
      ⟨rfl, ⟨p, (List.append_nil p).symm, htokens.symm⟩, (Nat.zero_add _).symm, fun _ => hlimit⟩
    have hread := (complete_exprIn_operandIn maxNesting).1 q hfits hnesting
    exact ⟨_, hread hpass (Nat.zero_le _) .nil, rfl⟩

/-- The line `x <- p`. -/
def assignment (number : Nat) (text x : String) (span span' : Span) (p : List Token) : Line :=
  { number, text, tokens := ⟨.name x, span⟩ :: ⟨.symbol .assign, span'⟩ :: p }

variable {context : Context} {number : Nat} {text x : String} {span span' : Span} {p : List Token}

/-- Behind the arrow there is an expression and nothing else. -/
theorem parse_assignment_eq_ok_iff {e : Expr} :
    (simple context text).parse (assignment number text x span span' p) = .ok (.assign x e) ↔
      ∃ c, expr.run { line := number, tokens := p } = .ok (e, c) ∧ c.tokens = [] := by
  have hrun : (simple context text).run
      { line := number, tokens := (assignment number text x span span' p).tokens } =
      ((do return .assign x (← expr)) >>= fun statement => do
        expectEnd
        return statement : LineParser Simple).run { line := number, tokens := p } := rfl
  refine parse_eq_ok_iff.trans ?_
  rw [show (assignment number text x span span' p).number = number from rfl, hrun]
  constructor
  · rintro ⟨c, h⟩
    obtain ⟨_, c₁, hstmt, hrest⟩ := run_bind_eq_ok_iff.1 h
    obtain ⟨e', c₂, hexpr, hpure⟩ := run_bind_eq_ok_iff.1 hstmt
    obtain ⟨rfl, rfl⟩ := run_pure_eq_ok_iff.1 hpure
    obtain ⟨_, c₃, hend, hpure⟩ := run_bind_eq_ok_iff.1 hrest
    obtain ⟨hsame, -⟩ := run_pure_eq_ok_iff.1 hpure
    cases hsame
    exact ⟨c₂, hexpr, (run_expectEnd_eq_ok_iff.1 hend).1⟩
  · rintro ⟨c, hexpr, hend⟩
    refine ⟨c, run_bind_eq_ok_iff.2 ⟨_, c, run_bind_eq_ok_iff.2 ⟨e, c, hexpr, rfl⟩, ?_⟩⟩
    exact run_bind_eq_ok_iff.2 ⟨(), c, run_expectEnd_eq_ok_iff.2 ⟨hend, rfl⟩, rfl⟩

/-- The line `x <- p` assigns an expression exactly if `p` derives it: if it is the
    tokens of a phrase that stands for it, with its levels and its operators within
    the limits. An expression without a negation on a number is thus read back from
    what it is written as, however the signs of its numbers are written. -/
theorem parse_assignment_iff_phrase (context : Context) (number : Nat) (text x : String)
    (span span' : Span) (p : List Token) :
    (∀ e, (simple context text).parse (assignment number text x span span' p) =
        .ok (.assign x e) ↔
      (∃ q : Phrase, q.Fits 0 ∧ q.tokens = p.map Token.kind ∧ q.value = e ∧ q.nesting + 1 ≤ 256) ∧
      (p.map Token.kind).countP TokenKind.isOperator ≤ 1024) ∧
    ∀ (minus : Number → Bool) (e : Expr), e.Plain →
      (e.phrase minus 0).nesting + 1 ≤ 256 →
      (e.phrase minus 0).tokens.countP TokenKind.isOperator ≤ 1024 →
      p.map Token.kind = (e.phrase minus 0).tokens →
      (simple context text).parse (assignment number text x span span' p) = .ok (.assign x e) := by
  have hiff (e : Expr) :=
    (parse_assignment_eq_ok_iff : (simple context text).parse
      (assignment number text x span span' p) = .ok (.assign x e) ↔ _).trans run_expr_eq_ok_iff
  refine ⟨hiff, fun minus e hplain hnesting hoperators hp => (hiff e).2 ⟨?_, hp ▸ hoperators⟩⟩
  exact ⟨e.phrase minus 0, e.fits_phrase minus 0, hp.symm, e.value_phrase minus 0 hplain, hnesting⟩

/-- `a - (b - -1)`, which needs its parentheses. -/
def difference : Expr :=
  .binary .sub (.var "a") (.binary .sub (.var "b") (.number (-.ofNat false 1)))

theorem parse_difference :
    let p : List TokenKind := [.name "a", .symbol .minus, .symbol .openParen, .name "b",
      .symbol .minus, .symbol .minus, .number (.ofNat false 1), .symbol .closeParen]
    (simple .main "").parse (assignment 1 "" "x" ⟨0, 1⟩ ⟨2, 4⟩ (p.map (⟨·, ⟨0, 0⟩⟩))) =
      .ok (.assign "x" difference) := by
  intro p
  refine (parse_assignment_iff_phrase .main 1 "" "x" _ _ _).2 Number.negative difference ?_ ?_ ?_ ?_
  · exact ⟨trivial, trivial, trivial⟩
  · decide
  · decide
  · rfl

end Portugol.LineParser
