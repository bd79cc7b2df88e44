import Portugol.Expr.Parser

/-!
# The grammar of expressions

A phrase is an expression as it is written: a tree with the tokens of the expression
as its leaves, in which parentheses are still seen. The grammar of expressions is
what a phrase may consist of. Operators stand in layers, from the loosest to the
tightest:

    0  OU        2  =  <>             4  +  -
    1  E         3  <  <=  >  >=      5  *  /  MOD  DIV

The left operand of an operator is of the same layer and the right one of the next,
so that operators of one layer group to the left. Behind the last layer there are
operands: a prefix operator with its operand, a literal, a name, an element, a
call, or an expression in parentheses. `Phrase.Fits` says this, and a phrase that
fits is a derivation of its `Phrase.tokens`, for the expression `Phrase.value`.

An expression is written as the phrase `Expr.phrase`, with parentheses where the
layers ask for them and nowhere else.

* `Expr.fits_phrase`: what an expression is written as is a phrase of the grammar.
* `Expr.value_phrase`: and it stands for the expression, unless a minus on a number
  in it is read as part of the number.
-/

namespace Portugol

/-! ## Operators -/

namespace BinaryOp

def token : BinaryOp → TokenKind
  | or => .keyword .ou
  | and => .keyword .e
  | eq => .symbol .equal
  | notEq => .symbol .notEqual
  | lt => .symbol .less
  | ltEq => .symbol .lessEqual
  | gt => .symbol .greater
  | gtEq => .symbol .greaterEqual
  | add => .symbol .plus
  | sub => .symbol .minus
  | mul => .symbol .times
  | div => .symbol .slash
  | mod => .keyword .mod
  | floorDiv => .keyword .div

/-- The layer of an operator: the higher, the tighter it binds. -/
def layer : BinaryOp → Nat
  | or => 0
  | and => 1
  | eq | notEq => 2
  | lt | ltEq | gt | gtEq => 3
  | add | sub => 4
  | mul | div | mod | floorDiv => 5

end BinaryOp

def UnaryOp.token : UnaryOp → TokenKind
  | not => .keyword .nao
  | neg => .symbol .minus
  | plus => .symbol .plus

/-- Whether a token is an operator, between operands or before one. -/
def TokenKind.isOperator (kind : TokenKind) : Bool :=
  BinaryOp.all.any (fun op => op.token = kind) || UnaryOp.all.any (fun op => op.token = kind)

theorem BinaryOp.isOperator_token (op : BinaryOp) : op.token.isOperator = true := by
  cases op <;> decide

theorem BinaryOp.token_injective {op op' : BinaryOp} (h : op.token = op'.token) : op = op' := by
  cases op <;> cases op' <;> first | rfl | cases h

theorem UnaryOp.isOperator_token (op : UnaryOp) : op.token.isOperator = true := by
  cases op <;> decide

/-! ## Phrases -/

/-- An expression as it is written. -/
inductive Phrase
  | number (n : Number)
  | text (s : String)
  | logical (b : Bool)
  | var (name : String)
  | element (name : String) (index : Phrase)
  | call (name : String) (args : List Phrase)
  | group (inner : Phrase)
  | signed (op : UnaryOp) (operand : Phrase)
  | binary (op : BinaryOp) (left right : Phrase)

namespace Phrase

/-- The layer of operands, which is behind those of all operators. -/
def operandLayer : Nat := 6

mutual

/-- The tokens of a phrase. -/
def tokens : Phrase → List TokenKind
  | number n => [.number n]
  | text s => [.text s]
  | logical true => [.keyword .verdadeiro]
  | logical false => [.keyword .falso]
  | var name => [.name name]
  | element name index =>
    .name name :: .symbol .openBracket :: (index.tokens ++ [.symbol .closeBracket])
  | call name args => .name name :: .symbol .openParen :: argTokens args
  | group inner => .symbol .openParen :: (inner.tokens ++ [.symbol .closeParen])
  | signed op operand => op.token :: operand.tokens
  | binary op left right => left.tokens ++ op.token :: right.tokens

/-- The tokens of arguments, with commas between them and a parenthesis behind. -/
def argTokens : List Phrase → List TokenKind
  | [] => [.symbol .closeParen]
  | [last] => last.tokens ++ [.symbol .closeParen]
  | first :: next :: rest => first.tokens ++ .symbol .comma :: argTokens (next :: rest)

end

/-- An operand with a prefix operator: the minus of a number is part of it. -/
def withSign (op : UnaryOp) (operand : Expr) : Expr :=
  if op = .neg then
    match operand with
    | .number n => .number (-n)
    | operand => .unary .neg operand
  else .unary op operand

mutual

/-- The expression that a phrase stands for. -/
def value : Phrase → Expr
  | number n => .number n
  | text s => .text s
  | logical b => .logical b
  | var name => .var name
  | element name index => .element name index.value
  | call name args => .call name (values args)
  | group inner => inner.value
  | signed op operand => withSign op operand.value
  | binary op left right => .binary op left.value right.value

def values : List Phrase → List Expr
  | [] => []
  | first :: rest => first.value :: values rest

end

mutual

/-- How deeply phrases are nested in a phrase: in parentheses, as an index or as an
    argument, or behind a prefix operator. -/
def nesting : Phrase → Nat
  | number _ | text _ | logical _ | var _ => 0
  | element _ index => index.nesting + 1
  | call _ args => argNesting args
  | group inner => inner.nesting + 1
  | signed _ operand => operand.nesting + 1
  | binary _ left right => max left.nesting right.nesting

def argNesting : List Phrase → Nat
  | [] => 0
  | first :: rest => max (first.nesting + 1) (argNesting rest)

end

mutual

/-- The phrases of a layer. -/
def Fits : (layer : Nat) → Phrase → Prop
  | _, number _ | _, text _ | _, logical _ | _, var _ => True
  | _, element _ index => index.Fits 0
  | _, call _ args => AllFit args
  | _, group inner => inner.Fits 0
  | _, signed _ operand => operand.Fits operandLayer
  | layer, binary op left right =>
    layer ≤ op.layer ∧ left.Fits op.layer ∧ right.Fits (op.layer + 1)

def AllFit : List Phrase → Prop
  | [] => True
  | first :: rest => first.Fits 0 ∧ AllFit rest

end

theorem withSign_of_ne {op : UnaryOp} {operand : Expr}
    (h : ∀ n, op = .neg → operand ≠ .number n) : withSign op operand = .unary op operand := by
  by_cases hneg : op = .neg
  · subst hneg
    cases operand with
    | number n => exact absurd rfl (h n rfl)
    | _ => rfl
  · exact if_neg hneg

/-! ## Tokens of phrases -/

/-- No phrase is without tokens. -/
theorem tokens_ne_nil (q : Phrase) : q.tokens ≠ [] := by
  cases q with
  | logical b => cases b <;> exact List.cons_ne_nil _ _
  | binary op left right =>
    rw [tokens]
    exact List.append_ne_nil_of_right_ne_nil _ (List.cons_ne_nil _ _)
  | _ =>
    rw [tokens]
    exact List.cons_ne_nil _ _

/-- Nor does a phrase start with a closing parenthesis. -/
theorem head?_tokens_ne : ∀ q : Phrase, q.tokens.head? ≠ some (.symbol .closeParen)
  | number _ | text _ | logical true | logical false | var _ | element _ _ | call _ _ | group _ =>
    nofun
  | signed op operand => by cases op <;> nofun
  | binary op left right => by
    rw [tokens, List.head?_append, Option.or_of_isSome (List.isSome_head?.2 left.tokens_ne_nil)]
    exact head?_tokens_ne left

theorem head?_argTokens (first : Phrase) (rest : List Phrase) :
    (argTokens (first :: rest)).head? = first.tokens.head? := by
  cases rest <;>
    rw [argTokens, List.head?_append,
      Option.or_of_isSome (List.isSome_head?.2 first.tokens_ne_nil)]

theorem argTokens_cons {first : Phrase} {rest : List Phrase} (h : rest ≠ []) :
    argTokens (first :: rest) = first.tokens ++ .symbol .comma :: argTokens rest := by
  cases rest with
  | nil => exact absurd rfl h
  | cons next rest => rw [argTokens]

/-! ## Layers of phrases -/

variable {layer : Nat} {q : Phrase}

/-- What is of one layer is of all looser ones. -/
theorem Fits.of_le {layer' : Nat} (h : q.Fits layer) (hle : layer' ≤ layer) : q.Fits layer' := by
  cases q with
  | binary op left right => exact ⟨Nat.le_trans hle h.1, h.2⟩
  | _ => exact h

/-- What is of one layer is of the next, unless it is an operator of the layer with
    its operands. -/
theorem Fits.succ_or_binary (h : q.Fits layer) :
    q.Fits (layer + 1) ∨ ∃ op left right, q = binary op left right ∧ op.layer = layer := by
  cases q with
  | binary op left right =>
    rcases Nat.eq_or_lt_of_le h.1 with heq | hlt
    · exact .inr ⟨op, left, right, rfl, heq.symm⟩
    · exact .inl ⟨hlt, h.2⟩
  | _ => exact .inl h

end Phrase

/-! ## Writing expressions -/

namespace Number

theorem toNat_body (n : Number) : n.body.toNat = n.bits.toNat % 0x8000000000000000 := by
  rw [body, UInt64.toNat_and]
  exact Nat.and_two_pow_sub_one_eq_mod _ 63

theorem negative_eq (n : Number) :
    n.negative = decide (0x8000000000000000 ≤ n.bits.toNat) := rfl

theorem bits_neg (n : Number) :
    (-n).bits.toNat = (n.bits.toNat + 0x8000000000000000) % 0x10000000000000000 := by
  change (n.body + if (!n.negative) = true then 0x8000000000000000 else 0).toNat = _
  have hlt := n.bits.toNat_lt
  rw [UInt64.toNat_add, toNat_body, negative_eq]
  by_cases hn : 0x8000000000000000 ≤ n.bits.toNat
  · rw [decide_eq_true hn]
    simp only [Bool.not_true, Bool.false_eq_true, if_false, UInt64.toNat_zero]
    omega
  · rw [decide_eq_false hn]
    simp only [Bool.not_false, if_true, UInt64.reduceToNat]
    omega

/-- The sign of a number changes twice without effect. -/
protected theorem neg_neg (n : Number) : - -n = n := by
  have hbits : (- -n).bits = n.bits := by
    apply UInt64.toNat_inj.1
    have hlt := n.bits.toNat_lt
    rw [bits_neg, bits_neg]
    omega
  exact congrArg Number.mk hbits

end Number

namespace Expr

variable (minus : Number → Bool)

mutual

/-- An expression as it is written in a layer, with no more parentheses than it takes.
    The numbers that `minus` says have their sign before them. -/
def phrase (layer : Nat) : Expr → Phrase
  | number n => if minus n then .signed .neg (.number (-n)) else .number n
  | text s => .text s
  | logical b => .logical b
  | var name => .var name
  | element name index => .element name (index.phrase 0)
  | call name args => .call name (phrases args)
  | unary op operand => .signed op (operand.phrase Phrase.operandLayer)
  | binary op left right =>
    let whole := .binary op (left.phrase op.layer) (right.phrase (op.layer + 1))
    if op.layer < layer then .group whole else whole

def phrases : List Expr → List Phrase
  | [] => []
  | first :: rest => first.phrase 0 :: phrases rest

end

mutual

/-- Whether no number in an expression stands directly below a negation. -/
def Plain : Expr → Prop
  | number _ | text _ | logical _ | var _ => True
  | element _ index => index.Plain
  | call _ args => AllPlain args
  | unary op operand => (∀ n, op = .neg → operand ≠ .number n) ∧ operand.Plain
  | binary _ left right => left.Plain ∧ right.Plain

def AllPlain : List Expr → Prop
  | [] => True
  | first :: rest => first.Plain ∧ AllPlain rest

end

mutual

/-- An expression is written by the grammar. -/
theorem fits_phrase (layer : Nat) : ∀ e : Expr, (e.phrase minus layer).Fits layer
  | number n => by
    rw [phrase]
    split <;> trivial
  | text _ | logical _ | var _ => trivial
  | element _ index => fits_phrase 0 index
  | call _ args => allFit_phrases args
  | unary _ operand => fits_phrase Phrase.operandLayer operand
  | binary op left right => by
    have hleft := fits_phrase op.layer left
    have hright := fits_phrase (op.layer + 1) right
    rw [phrase]
    split
    · exact ⟨Nat.zero_le _, hleft, hright⟩
    · rename_i hlayer
      exact ⟨Nat.le_of_not_lt hlayer, hleft, hright⟩

theorem allFit_phrases : ∀ es : List Expr, Phrase.AllFit (phrases minus es)
  | [] => trivial
  | first :: rest => ⟨fits_phrase 0 first, allFit_phrases rest⟩

end

mutual

/-- What an expression is written as stands for it, if the numbers keep their signs
    to themselves. -/
theorem value_phrase (layer : Nat) : ∀ e : Expr, e.Plain → (e.phrase minus layer).value = e
  | number n, _ => by
    rw [phrase]
    split
    · exact congrArg number n.neg_neg
    · rfl
  | text _, _ | logical _, _ | var _, _ => rfl
  | element name index, h => by
    rw [phrase, Phrase.value, value_phrase 0 index h]
  | call name args, h => by
    rw [phrase, Phrase.value, values_phrases args h]
  | unary op operand, h => by
    rw [phrase, Phrase.value, value_phrase Phrase.operandLayer operand h.2,
      Phrase.withSign_of_ne h.1]
  | binary op left right, h => by
    have hleft := value_phrase op.layer left h.1
    have hright := value_phrase (op.layer + 1) right h.2
    rw [phrase]
    split <;> simp only [Phrase.value, hleft, hright]

theorem values_phrases : ∀ es : List Expr, AllPlain es → Phrase.values (phrases minus es) = es
  | [], _ => rfl
  | first :: rest, h => by
    rw [phrases, Phrase.values, value_phrase 0 first h.1, values_phrases rest h.2]

end

end Expr

end Portugol
