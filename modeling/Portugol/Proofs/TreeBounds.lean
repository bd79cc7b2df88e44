import Portugol.Proofs.ExprParser
import Portugol.Proofs.Parts

/-!
# The size of trees

Whatever goes down a program, to run it or only to let go of it, goes as deep as its trees do.
While a program is read there are three limits, on the levels and on the operators of a line and
on blocks in blocks, but none on a tree. A chain of operators grows a tree without taking a level,
parentheses take levels and leave nothing, and the minus of a number is counted and then gone.
Together the limits do bound the trees.

* `Phrase.height_value_le`: an expression is no higher than it has operators and levels.
* `LineParser.Collects`: the expressions that have been read on a line have no more operators
  than have been passed.
* `Reads.bodyDepth_eq`: statements have as many blocks in each other as their layout.
* `Program.parse_within_limits`: the blocks, the heights and the operators of a program that
  is read.
-/

namespace Portugol

/-! ## Measures -/

mutual

/-- The number of nodes on a longest path down an expression. -/
def Expr.height : Expr → Nat
  | .number _ | .text _ | .logical _ | .var _ => 1
  | .element _ index => index.height + 1
  | .binary _ left right => max left.height right.height + 1
  | .unary _ operand => operand.height + 1
  | .call _ args => highest args + 1

/-- The height of the highest one of some expressions. -/
def highest : List Expr → Nat
  | [] => 0
  | first :: rest => max first.height (highest rest)

end

mutual

/-- The number of operators in an expression, between operands and before them. -/
def Expr.operators : Expr → Nat
  | .number _ | .text _ | .logical _ | .var _ => 0
  | .element _ index => index.operators
  | .binary _ left right => left.operators + right.operators + 1
  | .unary _ operand => operand.operators + 1
  | .call _ args => operatorsIn args

/-- The number of operators in some expressions. -/
def operatorsIn : List Expr → Nat
  | [] => 0
  | first :: rest => first.operators + operatorsIn rest

end

theorem operatorsIn_append (before after : List Expr) :
    operatorsIn (before ++ after) = operatorsIn before + operatorsIn after := by
  induction before with
  | nil => exact (Nat.zero_add _).symm
  | cons first rest ih => rw [List.cons_append, operatorsIn, operatorsIn, ih, Nat.add_assoc]

theorem operators_le_operatorsIn {e : Expr} {es : List Expr} (h : e ∈ es) :
    e.operators ≤ operatorsIn es := by
  obtain ⟨before, after, rfl⟩ := List.append_of_mem h
  rw [operatorsIn_append, operatorsIn]
  omega

/-- The expressions in a target. -/
def Target.exprs : Target → List Expr
  | .var _ => []
  | .element _ index => [index]

def Simple.exprs : Simple → List Expr
  | .print args | .printLine args | .call _ args => args
  | .read targets => targets.flatMap Target.exprs
  | .assign _ value => [value]
  | .assignElement _ index value => [index, value]
  | .ret value => value.toList

/-- The expressions on the line that a statement starts on. -/
def Stmt.exprs : Stmt → List Expr
  | .simple _ action => action.exprs
  | .ifThen _ cond _ | .ifElse _ cond _ _ | .whileDo _ cond _ => [cond]
  | .count _ _ first last _ => [first, last]
  | .times _ number _ => [number]
  | .define .. => []

mutual

/-- How many blocks are nested in each other in a statement. If it is a block, it is one of
    them. -/
def Stmt.depth : Stmt → Nat
  | .simple .. => 0
  | .ifThen _ _ body | .count _ _ _ _ body | .whileDo _ _ body | .times _ _ body
  | .define _ _ _ _ body => bodyDepth body + 1
  | .ifElse _ _ body alternate => max (bodyDepth body) (bodyDepth alternate) + 1

/-- How many blocks are nested in each other in some statements. No statement in them stands in
    more. -/
def bodyDepth : List Stmt → Nat
  | [] => 0
  | stmt :: rest => max stmt.depth (bodyDepth rest)

end

/-! ## Phrases -/

namespace Phrase

/-- A sign is part of a number, or an operator. -/
theorem withSign_cases (op : UnaryOp) (e : Expr) :
    (∃ n, withSign op e = .number n) ∨ withSign op e = .unary op e := by
  by_cases hneg : op = .neg
  · subst hneg
    cases e with
    | number n => exact .inl ⟨-n, rfl⟩
    | _ => exact .inr rfl
  · exact .inr (if_neg hneg)

mutual

/-- The operators of an expression are among those that it is written with. -/
theorem operators_value_le : ∀ q : Phrase,
    q.value.operators ≤ q.tokens.countP TokenKind.isOperator
  | number _ | text _ | logical _ | var _ => Nat.zero_le _
  | element name index => by
    have hinside : index.tokens <:+: (element name index).tokens :=
      ⟨[.name name, .symbol .openBracket], [.symbol .closeBracket], rfl⟩
    exact Nat.le_trans (operators_value_le index) hinside.sublist.countP_le
  | call name args => by
    have hinside : argTokens args <:+: (call name args).tokens :=
      ⟨[.name name, .symbol .openParen], [], List.append_nil _⟩
    exact Nat.le_trans (operatorsIn_values_le args) hinside.sublist.countP_le
  | group inner => by
    have hinside : inner.tokens <:+: (group inner).tokens :=
      ⟨[.symbol .openParen], [.symbol .closeParen], rfl⟩
    exact Nat.le_trans (operators_value_le inner) hinside.sublist.countP_le
  | signed op operand => by
    have hoperand := operators_value_le operand
    rw [value, tokens, List.countP_cons_of_pos op.isOperator_token]
    rcases withSign_cases op operand.value with ⟨n, hnumber⟩ | hunary
    · rw [hnumber]
      exact Nat.zero_le _
    · rw [hunary, Expr.operators]
      exact Nat.succ_le_succ hoperand
  | binary op left right => by
    have hleft := operators_value_le left
    have hright := operators_value_le right
    rw [value, tokens, List.countP_append, List.countP_cons_of_pos op.isOperator_token,
      Expr.operators]
    omega

theorem operatorsIn_values_le : ∀ args : List Phrase,
    operatorsIn (values args) ≤ (argTokens args).countP TokenKind.isOperator
  | [] => Nat.zero_le _
  | [last] => by
    have hinside : last.tokens <:+: argTokens [last] := ⟨[], [.symbol .closeParen], rfl⟩
    exact Nat.le_trans (operators_value_le last) hinside.sublist.countP_le
  | first :: next :: rest => by
    have hfirst := operators_value_le first
    have hrest := operatorsIn_values_le (next :: rest)
    rw [values, argTokens, operatorsIn, List.countP_append,
      List.countP_cons_of_neg (by decide)]
    exact Nat.add_le_add hfirst hrest

end

mutual

/-- An expression is no higher than it has operators and levels. -/
theorem height_value_le : ∀ q : Phrase, q.value.height ≤ q.value.operators + (q.nesting + 1)
  | number _ | text _ | logical _ | var _ => Nat.le_add_left _ _
  | element _ index => Nat.succ_le_succ (height_value_le index)
  | call _ args => Nat.succ_le_succ (highest_values_le args)
  | group inner => by
    have hinner := height_value_le inner
    rw [value, nesting]
    omega
  | signed op operand => by
    have hoperand := height_value_le operand
    rw [value, nesting]
    rcases withSign_cases op operand.value with ⟨n, hnumber⟩ | hunary
    · rw [hnumber, Expr.height]
      omega
    · rw [hunary, Expr.height, Expr.operators]
      omega
  | binary op left right => by
    have hleft := height_value_le left
    have hright := height_value_le right
    rw [value, nesting, Expr.height, Expr.operators]
    omega

theorem highest_values_le : ∀ args : List Phrase,
    highest (values args) ≤ operatorsIn (values args) + argNesting args
  | [] => Nat.zero_le _
  | first :: rest => by
    have hfirst := height_value_le first
    have hrest := highest_values_le rest
    rw [values, highest, operatorsIn, argNesting]
    omega

end

end Phrase

/-! ## Lines -/

/-- These expressions have been read: the operators in them have been passed, no more than
    allowed, and none is higher than its operators and the levels make it. -/
structure Cursor.Covers (c : Cursor) (es : List Expr) : Prop where
  operators : operatorsIn es ≤ c.operators
  limit : c.operators ≤ LineParser.maxOperators
  height : ∀ e ∈ es, e.height ≤ e.operators + LineParser.maxNesting

namespace LineParser

variable {α β : Type} {before : List Expr}

/-- If the expressions `before` have been read, then behind what the parser reads these have. -/
def Collects (before : List Expr) (exprs : α → List Expr) (parser : LineParser α) : Prop :=
  ∀ ⦃c a c'⦄, c.Covers before → parser.run c = .ok (a, c') → c'.Covers (exprs a)

namespace Collects

theorem pure {exprs : α → List Expr} {a : α} (h : exprs a = before) :
    Collects before exprs (pure a) := by
  intro c b c' hc hrun
  obtain ⟨rfl, rfl⟩ := run_pure_eq_ok_iff.1 hrun
  exact h ▸ hc

theorem fail {exprs : α → List Expr} (cause : Cause) : Collects before exprs (fail cause) :=
  fun _ a _ _ hrun => absurd hrun (run_fail_ne_ok cause a)

theorem unexpected {exprs : α → List Expr} (expected : String) :
    Collects before exprs (unexpected expected) :=
  fun _ a _ _ hrun => absurd hrun (run_unexpected_ne_ok expected a)

theorem bind {between : α → List Expr} {exprs : β → List Expr} {x : LineParser α}
    {f : α → LineParser β} (hx : Collects before between x)
    (hf : ∀ a, Collects (between a) exprs (f a)) : Collects before exprs (x >>= f) := by
  intro c b c' hc hrun
  obtain ⟨a, c₁, hfirst, hrest⟩ := run_bind_eq_ok_iff.1 hrun
  exact hf a (hx hc hfirst) hrest

/-- A parser that counts no operators reads no expressions. -/
theorem of_operators_eq {parser : LineParser α}
    (h : ∀ ⦃c a c'⦄, parser.run c = .ok (a, c') → c'.operators = c.operators) :
    Collects before (fun _ => before) parser := by
  intro c a c' hc hrun
  have hsame := h hrun
  exact ⟨hsame ▸ hc.operators, hsame ▸ hc.limit, hc.height⟩

theorem get : Collects before (fun _ => before) (get : LineParser Cursor) :=
  of_operators_eq fun _ _ _ h => by cases h; rfl

theorem peek : Collects before (fun _ => before) peek := get.bind fun _ => pure rfl

theorem advance : Collects before (fun _ => before) advance :=
  of_operators_eq fun _ _ _ h => by cases h; rfl

theorem eat (kind : TokenKind) : Collects before (fun _ => before) (eat kind) := by
  refine of_operators_eq fun c passed c' h => ?_
  rcases run_eat_eq_ok_iff.1 h with ⟨_, _, _, _, _, rfl⟩ | ⟨_, _, rfl⟩ <;> rfl

theorem expect (kind : TokenKind) : Collects before (fun _ => before) (expect kind) := by
  refine of_operators_eq fun c _ c' h => ?_
  obtain ⟨_, _, _, _, rfl⟩ := run_expect_eq_ok_iff.1 h
  rfl

theorem expectName (expected : String) :
    Collects before (fun _ => before) (expectName expected) := by
  refine peek.bind fun kind => ?_
  split
  · exact advance.bind fun _ => pure rfl
  · exact unexpected _

theorem expectEnd : Collects before (fun _ => before) expectEnd := by
  refine of_operators_eq fun c _ c' h => ?_
  rw [(run_expectEnd_eq_ok_iff.1 h).2]

theorem expr : Collects before (fun e => before ++ [e]) expr := by
  intro c e c' hc hrun
  obtain ⟨q, _, rfl, hnesting, hpasses⟩ := (sound_exprIn_operandIn maxNesting).1 hrun
  have hoperators := hpasses.operators
  have hvalue := q.operators_value_le
  have hbefore := hc.operators
  refine ⟨?_, hpasses.limit hc.limit, List.forall_mem_append.2 ⟨hc.height, ?_⟩⟩
  · rw [operatorsIn_append, operatorsIn, operatorsIn]
    omega
  · rw [List.forall_mem_singleton]
    have hheight := q.height_value_le
    omega

theorem arguments (tokens : Nat) :
    Collects before (before ++ ·) (arguments LineParser.expr tokens) := by
  induction tokens generalizing before with
  | zero => exact expr.bind fun _ => pure rfl
  | succ tokens ih =>
    refine expr.bind fun first => (eat _).bind fun comma => ?_
    split
    · exact ih.bind fun rest => pure (List.append_cons before first rest)
    · exact (expect _).bind fun _ => pure rfl

theorem callArgs : Collects before (before ++ ·) (callArgs LineParser.expr) := by
  refine (expect _).bind fun _ => (eat _).bind fun closed => ?_
  split
  · exact pure (List.append_nil before)
  · exact get.bind fun _ => arguments _

theorem printArgs (tokens : Nat) : Collects before (before ++ ·) (printArgs tokens) := by
  induction tokens generalizing before with
  | zero => exact pure (List.append_nil before)
  | succ tokens ih =>
    refine peek.bind fun next => ?_
    split
    · exact pure (List.append_nil before)
    · exact expr.bind fun first => (eat _).bind fun _ => ih.bind fun rest =>
        pure (List.append_cons before first rest)

theorem target : Collects before (fun target => before ++ target.exprs) target := by
  refine (expectName _).bind fun name => (eat _).bind fun bracket => ?_
  split
  · exact expr.bind fun _ => (expect _).bind fun _ => pure rfl
  · exact pure (List.append_nil before)

theorem targets (tokens : Nat) :
    Collects before (fun targets => before ++ targets.flatMap Target.exprs) (targets tokens) := by
  induction tokens generalizing before with
  | zero => exact unexpected _
  | succ tokens ih =>
    refine target.bind fun first => (eat _).bind fun comma => ?_
    split
    · refine ih.bind fun rest => pure ?_
      rw [List.flatMap_cons, List.append_assoc]
    · refine pure ?_
      rw [List.flatMap_singleton]

theorem nameStatement (name text : String) :
    Collects [] Simple.exprs (nameStatement name text) := by
  refine get.bind fun cursor => ?_
  split
  · exact advance.bind fun _ => advance.bind fun _ => expr.bind fun _ => pure rfl
  · exact advance.bind fun _ => advance.bind fun _ => expr.bind fun _ => (expect _).bind fun _ =>
      (expect _).bind fun _ => expr.bind fun _ => pure rfl
  · exact advance.bind fun _ => callArgs.bind fun _ => pure rfl
  · exact fail _

/-- The expressions of a statement are all that has been read at the end of its line. -/
theorem simple (context : Context) (text : String) :
    Collects [] Simple.exprs (simple context text) := by
  have hdone (action : Simple) :
      Collects action.exprs Simple.exprs (LineParser.expectEnd >>= fun _ => Pure.pure action) :=
    expectEnd.bind fun _ => pure rfl
  simp only [LineParser.simple, pure_bind]
  refine peek.bind fun kind => ?_
  split
  case h_1 =>
    exact advance.bind fun _ => get.bind fun _ => (printArgs _).bind fun args => hdone (.print args)
  case h_2 =>
    exact advance.bind fun _ => get.bind fun _ => (printArgs _).bind fun args =>
      hdone (.printLine args)
  case h_3 =>
    exact advance.bind fun _ => get.bind fun _ => (targets _).bind fun targets =>
      hdone (.read targets)
  case h_4 =>
    split
    · exact (fail _).bind hdone
    · refine advance.bind fun _ => peek.bind fun next => ?_
      split
      · exact hdone (.ret none)
      · exact expr.bind fun value => hdone (.ret (some value))
  case h_5 | h_6 | h_8 => exact (fail _).bind hdone
  case h_7 => exact (nameStatement _ _).bind hdone

theorem conditionHeader (opener closer : Keyword) : Collects [] (fun cond => [cond]) (do
    LineParser.expect (.keyword opener)
    let cond ← LineParser.expr
    LineParser.expect (.keyword closer)
    LineParser.expectEnd
    return cond) :=
  (expect _).bind fun _ => expr.bind fun _ => (expect _).bind fun _ => expectEnd.bind fun _ =>
    pure rfl

theorem countHeader : Collects [] (fun header => [header.2.1, header.2.2]) countHeader :=
  (expect _).bind fun _ => (expectName _).bind fun _ => (expect _).bind fun _ =>
    expr.bind fun _ => (expect _).bind fun _ => expr.bind fun _ => (expect _).bind fun _ =>
      expectEnd.bind fun _ => pure rfl

end Collects

end LineParser

/-- Expressions of one line: within the limit of operators, and none higher than its own
    operators and the levels make it. -/
structure Bounded (es : List Expr) : Prop where
  operators : operatorsIn es ≤ LineParser.maxOperators
  height : ∀ e ∈ es, e.height ≤ e.operators + LineParser.maxNesting

theorem bounded_nil : Bounded [] := ⟨Nat.zero_le _, List.forall_mem_nil _⟩

/-- So none is higher than both limits allow. -/
theorem Bounded.height_le {es : List Expr} (h : Bounded es) {e : Expr} (he : e ∈ es) :
    e.height ≤ LineParser.maxOperators + LineParser.maxNesting := by
  have hheight := h.height e he
  have hown := operators_le_operatorsIn he
  have hall := h.operators
  omega

theorem LineParser.Collects.bounded {α : Type} {exprs : α → List Expr} {parser : LineParser α}
    (h : Collects [] exprs parser) {line : Line} {a : α} (hparse : parser.parse line = .ok a) :
    Bounded (exprs a) := by
  obtain ⟨c, hrun⟩ := parse_eq_ok_iff.1 hparse
  have hcovers := h ⟨Nat.le_refl _, Nat.zero_le _, List.forall_mem_nil _⟩ hrun
  exact ⟨Nat.le_trans hcovers.operators hcovers.limit, hcovers.height⟩

/-! ## Statements -/

theorem Opens.bounded {kind : BlockKind} {context inner : Context} {header : Line}
    {wrap : List Stmt → Stmt} (h : Opens kind context header inner wrap) (inside : List Stmt) :
    Bounded (wrap inside).exprs := by
  cases h with
  | ifThen hparse => exact (LineParser.Collects.conditionHeader .se .entao).bounded hparse
  | count hparse => exact LineParser.Collects.countHeader.bounded hparse
  | whileDo hparse => exact (LineParser.Collects.conditionHeader .enquanto .faca).bounded hparse
  | times hparse => exact (LineParser.Collects.conditionHeader .repita .vezes).bounded hparse
  | function | procedure => exact bounded_nil

theorem Opens.depth_eq {kind : BlockKind} {context inner : Context} {header : Line}
    {wrap : List Stmt → Stmt} (h : Opens kind context header inner wrap) (inside : List Stmt) :
    (wrap inside).depth = bodyDepth inside + 1 := by
  cases h <;> rfl

namespace Reads

variable {context : Context} {t : Layout} {stmts : List Stmt}

/-- The expressions of each statement that is read are bounded. -/
theorem bounded (h : Reads context t stmts) : ∀ part ∈ bodyParts stmts, Bounded part.exprs := by
  induction h with
  | done => exact List.forall_mem_nil _
  | @statement context line _ _ _ _ hsimple _ ih =>
    refine List.forall_mem_append.2 ⟨List.forall_mem_singleton.2 ?_, ih⟩
    exact (LineParser.Collects.simple context line.text).bounded hsimple
  | @block _ _ _ _ _ _ _ _ inside _ hopens _ _ _ ihbody ih =>
    refine List.forall_mem_append.2 ⟨fun part hpart => ?_, ih⟩
    rcases hopens.of_mem_parts hpart with rfl | ⟨-, hpart⟩
    · exact hopens.bounded inside
    · exact ihbody part hpart
  | branches hheader _ _ _ _ _ ihbody ihalternate ih =>
    have hcond := (LineParser.Collects.conditionHeader .se .entao).bounded hheader
    exact List.forall_mem_append.2
      ⟨List.forall_mem_cons.2 ⟨hcond, List.forall_mem_append.2 ⟨ihbody, ihalternate⟩⟩, ih⟩

/-- The statements that a layout stands for have its blocks. -/
theorem bodyDepth_eq (h : Reads context t stmts) : bodyDepth stmts = t.depth := by
  induction h with
  | done => rfl
  | statement _ _ _ ih => rw [bodyDepth, Stmt.depth, ih, Nat.zero_max, Layout.depth]
  | block hopens _ _ _ ihbody ih => rw [bodyDepth, hopens.depth_eq, ihbody, ih, Layout.depth]
  | branches _ _ _ _ _ _ ihbody ihalternate ih =>
    rw [bodyDepth, Stmt.depth, ihbody, ihalternate, ih, Layout.depth]

end Reads

/-! ## Definitions taken out -/

theorem bodyDepth_append (before after : List Stmt) :
    bodyDepth (before ++ after) = max (bodyDepth before) (bodyDepth after) := by
  induction before with
  | nil => exact (Nat.zero_max _).symm
  | cons stmt rest ih => rw [List.cons_append, bodyDepth, bodyDepth, ih, Nat.max_assoc]

mutual

/-- Without the definitions in it, a statement has no more blocks. -/
theorem Stmt.bodyDepth_withoutDefinitions_le : ∀ stmt : Stmt,
    bodyDepth stmt.withoutDefinitions ≤ stmt.depth
  | .simple .. => Nat.le_refl _
  | .define .. => Nat.zero_le _
  | .ifThen _ _ body | .count _ _ _ _ body | .whileDo _ _ body | .times _ _ body => by
    have hbody := bodyDepth_withoutDefinitions_le body
    rw [Stmt.withoutDefinitions, bodyDepth, bodyDepth, Stmt.depth, Stmt.depth]
    omega
  | .ifElse _ _ body alternate => by
    have hbody := bodyDepth_withoutDefinitions_le body
    have halternate := bodyDepth_withoutDefinitions_le alternate
    rw [Stmt.withoutDefinitions, bodyDepth, bodyDepth, Stmt.depth, Stmt.depth]
    omega

theorem bodyDepth_withoutDefinitions_le : ∀ stmts : List Stmt,
    bodyDepth (withoutDefinitions stmts) ≤ bodyDepth stmts
  | [] => Nat.le_refl _
  | stmt :: rest => by
    have hstmt := Stmt.bodyDepth_withoutDefinitions_le stmt
    have hrest := bodyDepth_withoutDefinitions_le rest
    rw [withoutDefinitions, bodyDepth_append, bodyDepth]
    omega

end

mutual

/-- What is in a statement has no more blocks than it. -/
theorem Stmt.depth_le_of_mem_parts {part : Stmt} : ∀ {stmt : Stmt}, part ∈ stmt.parts →
    part.depth ≤ stmt.depth
  | .simple .., h | .define .., h => by
    obtain rfl := List.mem_singleton.1 h
    exact Nat.le_refl _
  | .ifThen _ _ body, h | .count _ _ _ _ body, h | .whileDo _ _ body, h | .times _ _ body, h => by
    rcases List.mem_cons.1 h with rfl | h
    · exact Nat.le_refl _
    · exact Nat.le_succ_of_le (depth_le_of_mem_bodyParts h)
  | .ifElse _ _ body alternate, h => by
    rcases List.mem_cons.1 h with rfl | h
    · exact Nat.le_refl _
    · rcases List.mem_append.1 h with h | h
      · exact Nat.le_succ_of_le
          (Nat.le_trans (depth_le_of_mem_bodyParts h) (Nat.le_max_left _ _))
      · exact Nat.le_succ_of_le
          (Nat.le_trans (depth_le_of_mem_bodyParts h) (Nat.le_max_right _ _))

theorem depth_le_of_mem_bodyParts {part : Stmt} : ∀ {stmts : List Stmt}, part ∈ bodyParts stmts →
    part.depth ≤ bodyDepth stmts
  | stmt :: rest, h => by
    rcases List.mem_append.1 h with h | h
    · exact Nat.le_trans (Stmt.depth_le_of_mem_parts h) (Nat.le_max_left _ _)
    · exact Nat.le_trans (depth_le_of_mem_bodyParts h) (Nat.le_max_right _ _)

end

/-- A callable has one block less than its definition. -/
theorem Stmt.depth_of_callable? {stmt : Stmt} {callable : Callable}
    (h : stmt.callable? = some callable) : stmt.depth = bodyDepth callable.body + 1 := by
  cases stmt with
  | define =>
    cases h
    rfl
  | simple | ifThen | ifElse | count | whileDo | times => cases h

theorem Stmt.exprs_of_mem_withoutDefinitions {stmt left : Stmt}
    (h : left ∈ stmt.withoutDefinitions) : left.exprs = stmt.exprs := by
  cases stmt with
  | define => cases h
  | simple | ifThen | ifElse | count | whileDo | times =>
    obtain rfl := List.mem_singleton.1 h
    rfl

/-! ## Programs -/

namespace Program

variable {source : String} {program : Program}

/-- Each statement of a program that is read has bounded expressions. -/
theorem bounded_of_has (h : Program.parse source = .ok program) {stmt : Stmt}
    (hstmt : program.Has stmt) : Bounded stmt.exprs := by
  obtain ⟨t, stmts, _, _, hreads, hmain, hregistry⟩ := exists_reads_of_parse h
  rcases hstmt with hstmt | ⟨⟨name, callable⟩, hentry, hstmt⟩
  · rw [hmain, bodyParts_withoutDefinitions] at hstmt
    obtain ⟨part, hpart, hleft⟩ := List.mem_flatMap.1 hstmt
    rw [Stmt.exprs_of_mem_withoutDefinitions hleft]
    exact hreads.bounded part hpart
  · obtain ⟨_, part, hpart, hcallable⟩ := exists_part_of_mem_registry hregistry hentry
    obtain ⟨_, _, _, _, hbody⟩ := (hreads.placed part hpart).definition callable hcallable
    exact hbody.bounded stmt hstmt

/-- The blocks of a program that is read: a definition is one of those that its body is in. -/
theorem bodyDepth_le_of_parse (h : Program.parse source = .ok program) :
    bodyDepth program.main ≤ maxBlocks ∧
      ∀ entry ∈ program.registry, bodyDepth entry.2.body + 1 ≤ maxBlocks := by
  obtain ⟨t, stmts, _, hdepth, hreads, hmain, hregistry⟩ := exists_reads_of_parse h
  rw [← hreads.bodyDepth_eq] at hdepth
  constructor
  · rw [hmain]
    exact Nat.le_trans (bodyDepth_withoutDefinitions_le stmts) hdepth
  · rintro ⟨name, callable⟩ hentry
    obtain ⟨_, part, hpart, hcallable⟩ := exists_part_of_mem_registry hregistry hentry
    rw [← Stmt.depth_of_callable? hcallable]
    exact Nat.le_trans (depth_le_of_mem_bodyParts hpart) hdepth

/-- The limits bound every tree of a program that is read. In its main part at most 256 blocks
    are nested in each other, and in a callable one less, as its definition is a block too. No
    expression is higher than 1024 operators and 256 levels make it, and there are no more than
    1024 operators in all the expressions on the line of a statement. -/
theorem parse_within_limits (h : Program.parse source = .ok program) :
    bodyDepth program.main ≤ 256 ∧
    (∀ entry ∈ program.registry, bodyDepth entry.2.body + 1 ≤ 256) ∧
    ∀ stmt, program.Has stmt →
      (∀ e ∈ stmt.exprs, e.height ≤ 1024 + 256) ∧ operatorsIn stmt.exprs ≤ 1024 := by
  obtain ⟨hmain, hbodies⟩ := bodyDepth_le_of_parse h
  refine ⟨hmain, hbodies, fun stmt hstmt => ?_⟩
  have hbounded := bounded_of_has h hstmt
  exact ⟨fun e he => hbounded.height_le he, hbounded.operators⟩

/-- A choice in a function. The line of its condition has three operators, and two of them go
    into the number. -/
def signedTwice : String := "FUNCAO f(a)\nSE a>- -1 ENTAO\nFIM SE\nFIM FUNCAO"

theorem parse_within_limits_signedTwice :
    ∃ program, Program.parse signedTwice = .ok program ∧
      program.registry.map (fun entry => (bodyDepth entry.2.body,
        (bodyParts entry.2.body).map fun stmt => (highest stmt.exprs, operatorsIn stmt.exprs))) =
        [(1, [(2, 1)])] ∧
      bodyDepth program.main ≤ 256 ∧
      (∀ entry ∈ program.registry, bodyDepth entry.2.body + 1 ≤ 256) ∧
      ∀ stmt, program.Has stmt →
        (∀ e ∈ stmt.exprs, e.height ≤ 1024 + 256) ∧ operatorsIn stmt.exprs ≤ 1024 := by
  have hmeasures : (Program.parse signedTwice).toOption.map (fun program =>
      program.registry.map fun entry => (bodyDepth entry.2.body,
        (bodyParts entry.2.body).map fun stmt => (highest stmt.exprs, operatorsIn stmt.exprs))) =
      some [(1, [(2, 1)])] := by
    decide +kernel
  cases hparse : Program.parse signedTwice with
  | error fault =>
    rw [hparse] at hmeasures
    cases hmeasures
  | ok program =>
    rw [hparse] at hmeasures
    exact ⟨program, rfl, Option.some.inj hmeasures, parse_within_limits hparse⟩

end Program

end Portugol
