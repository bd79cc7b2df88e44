import Portugol.Program.Registry

/-!
# What stands in programs

Which statements have loops in them, what they write, and what they are with other
names for their variables.

* `Expr.rename`, `Stmt.rename`, `Callable.rename`: variables, arrays, parameters and
  targets have other names. The names of callables stay.
-/

namespace Portugol

/-! ## Loops in a program -/

mutual

/-- Whether a statement has a loop in it. What a definition has in it does not
    count, as a definition that is run does nothing. -/
def Stmt.hasLoop : Stmt → Bool
  | .simple _ _ | .define .. => false
  | .ifThen _ _ body => bodyHasLoop body
  | .ifElse _ _ body alternate => bodyHasLoop body || bodyHasLoop alternate
  | .count .. | .whileDo .. | .times .. => true

/-- Whether there is a loop in some statement. -/
def bodyHasLoop : List Stmt → Bool
  | [] => false
  | stmt :: rest => stmt.hasLoop || bodyHasLoop rest

end

/-! ## What a program writes -/

/-- What a statement can write: a variable that it names, or the result that
    `RETORNE` leaves. -/
inductive Write
  | var (name : String)
  | result
  deriving DecidableEq, Repr

def Simple.writes : Simple → List Write
  | .print _ | .printLine _ | .call .. | .ret none => []
  | .read targets => targets.map fun target => .var target.name
  | .assign name _ | .assignElement name _ _ => [.var name]
  | .ret (some _) => [.result]

mutual

/-- What a statement writes, if it comes to that. What a definition has in it does
    not count. -/
def Stmt.writes : Stmt → List Write
  | .simple _ action => action.writes
  | .ifThen _ _ body | .whileDo _ _ body | .times _ _ body => bodyWrites body
  | .ifElse _ _ body alternate => bodyWrites body ++ bodyWrites alternate
  | .count _ var _ _ body => .var var :: bodyWrites body
  | .define .. => []

/-- What statements write. -/
def bodyWrites : List Stmt → List Write
  | [] => []
  | stmt :: rest => stmt.writes ++ bodyWrites rest

end

/-! ## Other names for variables -/

mutual

/-- The expression with other names for its variables. -/
def Expr.rename (ρ : String → String) : Expr → Expr
  | .number n => .number n
  | .text s => .text s
  | .logical b => .logical b
  | .var name => .var (ρ name)
  | .element name index => .element (ρ name) (index.rename ρ)
  | .binary op left right => .binary op (left.rename ρ) (right.rename ρ)
  | .unary op operand => .unary op (operand.rename ρ)
  | .call name args => .call name (renameAll ρ args)

/-- Expressions with other names for their variables. -/
def renameAll (ρ : String → String) : List Expr → List Expr
  | [] => []
  | first :: rest => first.rename ρ :: renameAll ρ rest

end

def Target.rename (ρ : String → String) : Target → Target
  | .var name => .var (ρ name)
  | .element name index => .element (ρ name) (index.rename ρ)

def Simple.rename (ρ : String → String) : Simple → Simple
  | .print args => .print (renameAll ρ args)
  | .printLine args => .printLine (renameAll ρ args)
  | .read targets => .read (targets.map (Target.rename ρ))
  | .assign name value => .assign (ρ name) (value.rename ρ)
  | .assignElement name index value => .assignElement (ρ name) (index.rename ρ) (value.rename ρ)
  | .call name args => .call name (renameAll ρ args)
  | .ret value => .ret (value.map (Expr.rename ρ))

mutual

/-- The statement with other names for its variables and parameters. -/
def Stmt.rename (ρ : String → String) : Stmt → Stmt
  | .simple line action => .simple line (action.rename ρ)
  | .ifThen line cond body => .ifThen line (cond.rename ρ) (bodyRename ρ body)
  | .ifElse line cond body alternate =>
    .ifElse line (cond.rename ρ) (bodyRename ρ body) (bodyRename ρ alternate)
  | .count line var first last body =>
    .count line (ρ var) (first.rename ρ) (last.rename ρ) (bodyRename ρ body)
  | .whileDo line cond body => .whileDo line (cond.rename ρ) (bodyRename ρ body)
  | .times line number body => .times line (number.rename ρ) (bodyRename ρ body)
  | .define line kind name params body =>
    .define line kind name (params.map ρ) (bodyRename ρ body)

/-- Statements with other names for their variables and parameters. -/
def bodyRename (ρ : String → String) : List Stmt → List Stmt
  | [] => []
  | stmt :: rest => stmt.rename ρ :: bodyRename ρ rest

end

/-- The callable with other names for its variables and parameters. -/
def Callable.rename (ρ : String → String) (callable : Callable) : Callable :=
  { callable with params := callable.params.map ρ, body := bodyRename ρ callable.body }

@[simp] theorem length_renameAll (ρ : String → String) (args : List Expr) :
    (renameAll ρ args).length = args.length := by
  induction args with
  | nil => rfl
  | cons first rest ih => exact congrArg (· + 1) ih

@[simp] theorem Stmt.line_rename (ρ : String → String) (stmt : Stmt) :
    (stmt.rename ρ).line = stmt.line := by
  cases stmt <;> rfl

/-! Nothing changes with the names that there are already. -/

mutual

@[simp] theorem Expr.rename_id : ∀ e : Expr, e.rename id = e
  | .number _ | .text _ | .logical _ | .var _ => rfl
  | .element name index => by rw [Expr.rename, index.rename_id, id]
  | .binary op left right => by rw [Expr.rename, left.rename_id, right.rename_id]
  | .unary op operand => by rw [Expr.rename, operand.rename_id]
  | .call name args => by rw [Expr.rename, renameAll_id args]

@[simp] theorem renameAll_id : ∀ es : List Expr, renameAll id es = es
  | [] => rfl
  | first :: rest => by rw [renameAll, first.rename_id, renameAll_id rest]

end

@[simp] theorem Target.rename_id (target : Target) : target.rename id = target := by
  cases target with
  | var => rfl
  | element name index => rw [Target.rename, index.rename_id, id]

@[simp] theorem targets_rename_id (targets : List Target) :
    targets.map (Target.rename id) = targets :=
  (List.map_congr_left fun target _ => target.rename_id).trans (List.map_id' targets)

@[simp] theorem Simple.rename_id (action : Simple) : action.rename id = action := by
  cases action with
  | ret value => cases value <;> simp [Simple.rename]
  | _ => simp [Simple.rename]

mutual

@[simp] theorem Stmt.rename_id : ∀ stmt : Stmt, stmt.rename id = stmt
  | .simple _ action => by rw [Stmt.rename, action.rename_id]
  | .ifThen _ cond body => by rw [Stmt.rename, cond.rename_id, bodyRename_id body]
  | .ifElse _ cond body alternate => by
    rw [Stmt.rename, cond.rename_id, bodyRename_id body, bodyRename_id alternate]
  | .count _ var first last body => by
    rw [Stmt.rename, first.rename_id, last.rename_id, bodyRename_id body, id]
  | .whileDo _ cond body => by rw [Stmt.rename, cond.rename_id, bodyRename_id body]
  | .times _ number body => by rw [Stmt.rename, number.rename_id, bodyRename_id body]
  | .define _ kind name params body => by rw [Stmt.rename, bodyRename_id body, List.map_id]

@[simp] theorem bodyRename_id : ∀ body : List Stmt, bodyRename id body = body
  | [] => rfl
  | stmt :: rest => by rw [bodyRename, stmt.rename_id, bodyRename_id rest]

end

@[simp] theorem Callable.rename_id (callable : Callable) : callable.rename id = callable := by
  rw [Callable.rename, List.map_id, bodyRename_id]

end Portugol
