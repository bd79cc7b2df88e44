import Portugol.Proofs.Faults
import Portugol.Proofs.Rejection
import Portugol.Proofs.Termination

/-!
# The line to blame

A fault that is reported is blamed on a line: if the text is no program, on the line that is
wrong, and else on the line of the innermost statement that was run when it came up.

* `Exec.exists_origin`: the fault of a run has come to its end from a statement on the line
  that it is blamed on, where no line was to blame yet. On the way it has been one and the same
  fault, through all the statements around it and all the calls.
* `Exec.raisesItself_of_execStmt`: that statement has raised it itself, not one of those in it
  or in a callable: also if all faults of these are hushed up (`Exec.muted`), it ends in this
  one.
* `interpret_blames_line`: so it is with every failure that is reported.
-/

namespace Portugol

/-! ## The way to a fault -/

theorem Expr.sizeOf_operand_lt {e operand : Expr} (h : operand ∈ e.operands) :
    sizeOf operand < sizeOf e := by
  cases e with
  | number | text | logical | var => cases h
  | element | unary =>
    obtain rfl := List.mem_singleton.1 h
    simp only [element.sizeOf_spec, unary.sizeOf_spec]
    omega
  | binary op left right =>
    simp only [operands, List.mem_cons, List.not_mem_nil, or_false] at h
    simp only [binary.sizeOf_spec]
    rcases h with rfl | rfl <;> omega
  | call name args =>
    have hsize : sizeOf operand < sizeOf args := List.sizeOf_lt_of_mem h
    simp
    omega

theorem Stmt.sizeOf_operand_lt {stmt : Stmt} {operand : Expr} (h : operand ∈ stmt.operands) :
    sizeOf operand < sizeOf stmt := by
  cases stmt with
  | simple line action =>
    cases action with
    | print args | printLine args | call _ args =>
      have hsize : sizeOf operand < sizeOf args := List.sizeOf_lt_of_mem h
      simp
      omega
    | assign =>
      obtain rfl := List.mem_singleton.1 h
      simp
      omega
    | assignElement =>
      simp only [operands, List.mem_cons, List.not_mem_nil, or_false] at h
      rcases h with rfl | rfl <;> simp <;> omega
    | read => cases h
    | ret value =>
      cases value with
      | none => cases h
      | some value =>
        obtain rfl := List.mem_singleton.1 h
        simp
        omega
  | ifThen | ifElse | times =>
    obtain rfl := List.mem_singleton.1 h
    simp
    omega
  | count =>
    simp only [operands, List.mem_cons, List.not_mem_nil, or_false] at h
    rcases h with rfl | rfl <;> simp <;> omega
  | whileDo | define => cases h

namespace Exec

variable {s : Setting} {p p' : Point} {fault : Fault}

/-- What a point comes to is smaller, unless it is in a further call. -/
theorem Starts.lt (h : Starts s p p') :
    p'.room < p.room ∨ p'.room = p.room ∧ sizeOf p'.task < sizeOf p.task := by
  cases h with
  | @operand _ _ _ task before after e _ hoperands =>
    refine .inr ⟨rfl, ?_⟩
    have hmem : e ∈ task.operands := hoperands ▸ List.mem_append_right _ List.mem_cons_self
    cases task with
    | expr => simpa using Expr.sizeOf_operand_lt hmem
    | stmt => simpa using Stmt.sizeOf_operand_lt hmem
    | body => cases hmem
  | @index _ _ _ _ _ before after name _ index =>
    have hsize : sizeOf (Target.element name index) <
        sizeOf (before ++ .element name index :: after) :=
      List.sizeOf_lt_of_mem (List.mem_append_right _ List.mem_cons_self)
    simp at hsize ⊢
    omega
  | @stmt _ _ _ before after stmt =>
    have hsize : sizeOf stmt < sizeOf (before ++ stmt :: after) :=
      List.sizeOf_lt_of_mem (List.mem_append_right _ List.mem_cons_self)
    simpa using hsize
  | ifThen | condition =>
    refine .inr ⟨rfl, ?_⟩
    simp only [Task.expr.sizeOf_spec, Task.stmt.sizeOf_spec, Task.body.sizeOf_spec,
      Stmt.ifThen.sizeOf_spec, Stmt.whileDo.sizeOf_spec]
    omega
  | @ifElse _ _ _ _ _ _ _ b =>
    refine .inr ⟨rfl, ?_⟩
    simp only [Task.stmt.sizeOf_spec, Task.body.sizeOf_spec, Stmt.ifElse.sizeOf_spec]
    cases b <;> simp only [Bool.false_eq_true, if_false, if_true] <;> omega
  | round h =>
    refine .inr ⟨rfl, ?_⟩
    simp only [Task.stmt.sizeOf_spec, Task.body.sizeOf_spec]
    cases h <;>
      simp only [Stmt.loopBody, Stmt.count.sizeOf_spec, Stmt.whileDo.sizeOf_spec,
        Stmt.times.sizeOf_spec] <;>
      omega
  | callee => exact .inl (Nat.lt_succ_self _)

/-- No run goes on from point to point without end. -/
theorem wellFounded_starts (s : Setting) : WellFounded fun p' p => Starts s p p' := by
  have hwf : WellFounded (InvImage (Prod.Lex (· < ·) (· < ·)) fun p : Point =>
      (p.room, sizeOf p.task)) :=
    InvImage.wf _ (Prod.lex Nat.lt_wfRel Nat.lt_wfRel).wf
  refine Subrelation.wf (fun {p' p} h => ?_) hwf
  exact Prod.lex_def.2 h.lt

theorem kind_ne_parse (h : p.Faults s fault) : fault.kind ≠ .parse := by
  induction p using (wellFounded_starts s).induction generalizing fault with
  | _ p ih =>
    rcases faults_cases h with ⟨hfresh, _⟩ | ⟨p', hstarts, hfault⟩ | ⟨p', _, hstarts, _, hfault, _⟩
    · exact hfresh.kind
    · exact ih p' hstarts hfault
    · -- Only the line differs, which has no part in the kind.
      have hkind := ih p' hstarts hfault
      exact hkind

/-- A fault that is blamed on a line has come from a statement on this line, at which it was
    not blamed on any: from point to point, and it has been the same fault at all of them. -/
theorem exists_origin (h : p.Faults s fault) (hline : fault.line ≠ none) :
    ∃ q stmt, Relation.ReflTransGen (fun p p' => p.Faults s fault ∧ Starts s p p') p q ∧
      q.task = .stmt stmt ∧ q.Faults s { fault with line := none } ∧
      fault.line = some stmt.line := by
  induction p using (wellFounded_starts s).induction with
  | _ p ih =>
    rcases faults_cases h with ⟨hfresh, _⟩ | ⟨p', hstarts, hfault⟩ |
      ⟨p', stmt, hstarts, htask, hfault, hstmt⟩
    · exact absurd hfresh.line hline
    · -- The origin of the same fault further inside is that of this one.
      obtain ⟨q, stmt, hpath, horigin⟩ := ih p' hstarts hfault
      exact ⟨q, stmt, .head ⟨h, hstarts⟩ hpath, horigin⟩
    · exact ⟨p', stmt, .single ⟨h, hstarts⟩, htask, hfault, hstmt⟩

/-- The faults of statements in order are blamed on lines. -/
theorem line_ne_none {room : Nat} {stmts : List Stmt} {m m' : Machine}
    (h : execBody s (invoker s room) stmts m = .error (.fault fault) m') : fault.line ≠ none := by
  obtain ⟨_, stmt, raised, _, _, _, rfl⟩ := raises_execBody [] rfl fault m' h
  obtain ⟨cause, line⟩ := raised
  cases line <;> nofun

/-! ## Raising a fault oneself -/

variable {α : Type} {x : Exec α} {m m' : Machine}

/-- The step with its faults hushed up: where it would end in one, it only stops. -/
def muted (x : Exec α) : Exec α := fun m =>
  match x m with
  | .error (.fault _) m' => .error .outOfRounds m'
  | result => result

/-- How callables are run with the faults of their statements hushed up. -/
def mutedInvoker (s : Setting) : (room : Nat) → Invoker
  | 0 => invoker s 0
  | room + 1 => fun callable values =>
    activation callable.params values (muted (execBody s (invoker s room) callable.body))

/-- Runs a statement, given how the bodies in it are run. -/
def execWith (s : Setting) (invoke : Invoker) (inner : List Stmt → Exec Flow) : Stmt → Exec Flow
  | .simple _ action => execSimple s invoke action
  | .ifThen _ cond body => do
    if ← evalCondition s invoke "a condição do SE" cond then inner body
    else return .next
  | .ifElse _ cond body alternate => do
    if ← evalCondition s invoke "a condição do SE" cond then inner body
    else inner alternate
  | .count _ var first last body => do
    let first ← evalNumber s invoke "o início do PARA" first
    let last ← evalNumber s invoke "o fim do PARA" last
    (countLoop var (.between first last) last).run s (inner body) first
  | .whileDo _ cond body =>
    (whileLoop (evalCondition s invoke "a condição do ENQUANTO" cond)).run s (inner body) ()
  | .times _ number body => do
    let number ← evalNumber s invoke "a quantidade do REPITA" number
    timesLoop.run s (inner body) number.trunc
  | .define .. => return .next

theorem execWith_execBody (s : Setting) (invoke : Invoker) (stmt : Stmt) :
    execWith s invoke (execBody s invoke) stmt = execStmt s invoke stmt := by
  cases stmt <;> rfl

/-- The statement itself comes to a fault for this cause, and not a statement that is run in
    it or in a call that it makes: it does so even if their faults are hushed up. -/
def RaisesItself (s : Setting) (room : Nat) (stmt : Stmt) (m : Machine) (cause : Cause) : Prop :=
  ∃ m', execWith s (mutedInvoker s room) (fun body => muted (execBody s (invoker s room) body))
    stmt m = .error (.fault { cause }) m'

namespace Congruence

open LocalCongruence

/-- The second step does what the first one does, unless that ends in a fault that is blamed
    on a line. -/
def unlessBlamed : Congruence where
  rel x y := ∀ m, x m = y m ∨ ∃ fault m', x m = .error (.fault fault) m' ∧ fault.line ≠ none
  pure _ _ := .inl rfl
  bind {_ _ x y f g} hx hf m := by
    rcases hx m with hxy | ⟨fault, m', hblamed, hline⟩
    · cases hm : x m with
      | ok a m₁ =>
        rw [bind_of_ok hm, bind_of_ok (hxy ▸ hm)]
        exact hf a m₁
      | error stop m₁ =>
        rw [bind_of_error hm, bind_of_error (hxy ▸ hm)]
        exact .inl rfl
    · exact .inr ⟨fault, m', bind_of_error hblamed, hline⟩
  fault _ _ := .inl rfl
  located {_ x y} line hx m := by
    rcases hx m with hxy | ⟨fault, m', hblamed, hline⟩
    · exact .inl (by rw [Exec.located, Exec.located, hxy])
    · refine .inr ⟨fault.orLine line, m', by rw [Exec.located, hblamed], ?_⟩
      obtain ⟨cause, _ | line'⟩ := fault
      · exact absurd rfl hline
      · nofun
  print _ _ := .inl rfl
  nextInput _ _ := .inl rfl
  lookup _ _ := .inl rfl
  assign _ _ _ _ := .inl rfl
  assignElement _ _ _ _ _ := .inl rfl
  leaveResult _ _ _ := .inl rfl
  checkDepth _ _ := .inl rfl
  activation {x y} params values hx m := by
    rw [activation_apply, activation_apply]
    rcases hx (entering params values m) with hxy | ⟨fault, m', hblamed, hline⟩
    · exact .inl (by rw [hxy])
    · exact .inr ⟨fault, m'.leave, by rw [hblamed], hline⟩

/-- Faults that are blamed on lines may be hushed up. -/
theorem unlessBlamed_muted (s : Setting) (room : Nat) (stmts : List Stmt) :
    unlessBlamed.rel (execBody s (invoker s room) stmts)
      (muted (execBody s (invoker s room) stmts)) := by
  intro m
  cases hm : execBody s (invoker s room) stmts m with
  | ok flow m' => exact .inl (by rw [muted, hm])
  | error stop m' =>
    cases stop with
    | outOfRounds => exact .inl (by rw [muted, hm])
    | fault fault => exact .inr ⟨fault, m', rfl, line_ne_none hm⟩

theorem unlessBlamed_calls (s : Setting) (room : Nat) :
    unlessBlamed.Calls s s (invoker s room) (mutedInvoker s room) := by
  refine calls_of_invoke rfl rfl fun name callable values _ => ?_
  cases room with
  | zero =>
    -- No statement of the callable is run, so the fault is one of the call.
    exact unlessBlamed.rel_fail _
  | succ room =>
    exact unlessBlamed.activation callable.params values (unlessBlamed_muted s room callable.body)

theorem unlessBlamed_loops (s : Setting) : unlessBlamed.Loops s s :=
  loops_of_le (fun _ => .inl rfl) (fun _ _ => .inl rfl) (Nat.le_refl _) (fun _ => .inl rfl)
    fun h => absurd h (Nat.lt_irrefl _)

variable {R : Congruence} {invoke invoke' : Invoker} {inner inner' : List Stmt → Exec Flow}

theorem rel_execWith (h : R.Calls s s invoke invoke') (hl : R.Loops s s)
    (hinner : ∀ body, R.rel (inner body) (inner' body)) (stmt : Stmt) :
    R.rel (execWith s invoke inner stmt) (execWith s invoke' inner' stmt) := by
  cases stmt with
  | simple line action => exact rel_execSimple h action fun _ _ => trivial
  | ifThen line cond body =>
    refine R.bind (rel_evalCondition h _ cond) fun b => ?_
    cases b with
    | true => exact hinner body
    | false => exact R.pure _
  | ifElse line cond body alternate =>
    refine R.bind (rel_evalCondition h _ cond) fun b => ?_
    cases b with
    | true => exact hinner body
    | false => exact hinner alternate
  | count line var first last body =>
    exact R.bind (rel_evalNumber h _ first) fun _ => R.bind (rel_evalNumber h _ last) fun _ =>
      hl _ rfl rfl (fun _ => R.bind (R.assign var _ trivial) fun _ => R.pure _) (hinner body)
  | whileDo line cond body => exact hl _ rfl rfl (fun _ => rel_evalCondition h _ cond) (hinner body)
  | times line number body =>
    exact R.bind (rel_evalNumber h _ number) fun _ =>
      hl _ rfl rfl (fun _ => R.pure _) (hinner body)
  | define => exact R.pure _

end Congruence

open Congruence in
/-- A statement that ends in a fault that is not blamed on a line raises it itself. -/
theorem raisesItself_of_execStmt {room : Nat} {stmt : Stmt} {cause : Cause}
    (h : execStmt s (invoker s room) stmt m = .error (.fault { cause }) m') :
    RaisesItself s room stmt m cause := by
  rw [← execWith_execBody] at h
  rcases rel_execWith (unlessBlamed_calls s room) (unlessBlamed_loops s)
    (unlessBlamed_muted s room) stmt m with hsame | ⟨fault, m₁, hblamed, hline⟩
  · exact ⟨m', hsame.symm.trans h⟩
  · -- The faults that are hushed up come from statements, which have blamed them on lines.
    cases hblamed.symm.trans h
    exact absurd rfl hline

end Exec

/-! ## Reports -/

theorem FaultKind.label_eq_parse_iff {kind : FaultKind} :
    kind.label = FaultKind.parse.label ↔ kind = .parse := by
  cases kind <;> decide

namespace Program

open Exec

variable {program : Program} {options : RunOptions} {ending : Ending} {fault : Fault}

/-- A run that ends in a fault ends in the fault of its main part. -/
theorem faults_of_run (h : program.run options = some ending) (hfault : ending.fault = some fault) :
    Point.Faults (options.setting program.registry)
      ⟨options.maxDepth, .body program.main, options.machine⟩ fault := by
  rw [run] at h
  split at h
  · cases h
    cases hfault
  · rename_i fault' m hrun
    cases h
    cases hfault
    rw [run_apply] at hrun
    cases hbody : execBody (options.setting program.registry)
        (invoker (options.setting program.registry) (options.maxDepth - 0)) program.main
        options.machine with
    | ok flow m' =>
      have hok := bind_of_ok (f := fun _ => (pure () : Exec Unit)) hbody
      cases hok.symm.trans hrun
    | error stop m' =>
      have herror := bind_of_error (f := fun _ => (pure () : Exec Unit)) hbody
      cases herror.symm.trans hrun
      exact ⟨m, hbody⟩
  · cases h

end Program

open Exec

/-- Every failure that is reported is blamed on a line of the text. It is a failure of the text
    exactly if that makes up no program, and then nothing is printed and there are no
    variables. Else the line is that of a statement of the program, which raises the fault
    itself, and from there the fault passes as it is through all that is run around it. -/
theorem interpret_blames_line {options : RunOptions} {source : String} {report : Report}
    {failure : Failure} (h : interpret options source = some report)
    (hfailure : report.failure = some failure) :
    (∃ line, failure.line = some line ∧ 1 ≤ line ∧
      line ≤ (Source.physicalLines source).length) ∧
    (failure.kind = FaultKind.parse.label ↔ ∃ fault, Program.parse source = .error fault) ∧
    (∀ fault, Program.parse source = .error fault → report.output = "" ∧ report.globals = []) ∧
    ∀ program, Program.parse source = .ok program →
      ∃ fault q stmt, failure = .ofFault fault ∧
        Relation.ReflTransGen
          (fun p p' => p.Faults (options.setting program.registry) fault ∧
            Starts (options.setting program.registry) p p')
          ⟨options.maxDepth, .body program.main, options.machine⟩ q ∧
        q.task = .stmt stmt ∧ program.Has stmt ∧
        RaisesItself (options.setting program.registry) q.room stmt q.machine fault.cause ∧
        failure.line = some stmt.line := by
  obtain ⟨ending, hending, rfl⟩ := Option.map_eq_some_iff.1 h
  obtain ⟨fault, hfault, rfl⟩ := Option.map_eq_some_iff.1 hfailure
  rw [runSource] at hending
  cases hparse : Program.parse source with
  | error wrong =>
    rw [hparse] at hending
    cases hending
    cases hfault
    obtain ⟨hkind, hline⟩ := Program.exists_line_of_parse_eq_error hparse
    refine ⟨hline, ⟨fun _ => ⟨_, rfl⟩, fun _ => ?_⟩, fun _ _ => ⟨rfl, rfl⟩, fun _ h => (by cases h)⟩
    exact FaultKind.label_eq_parse_iff.2 hkind
  | ok program =>
    rw [hparse] at hending
    have hfaults := Program.faults_of_run hending hfault
    have hblamed : fault.line ≠ none := by
      obtain ⟨m', hbody⟩ := hfaults
      exact line_ne_none hbody
    obtain ⟨⟨room, task, m⟩, stmt, hpath, rfl, ⟨m', hraised⟩, hline⟩ :=
      exists_origin hfaults hblamed
    have hreaches : Reaches (options.setting program.registry) _ ⟨room, .stmt stmt, m⟩ :=
      Relation.ReflTransGen.mono (fun _ _ hstep => hstep.2) _ _ hpath
    have hhas : program.Has stmt :=
      hreaches.has rfl (fun part hpart => .inl hpart) stmt stmt.mem_parts_self
    obtain ⟨lines, hlines, line, hmem, hnumber⟩ := Program.exists_line_of_has hparse hhas
    refine ⟨⟨stmt.line, hline, hnumber ▸ Source.number_mem_range hlines hmem⟩, ?_,
      fun _ h => (by cases h), ?_⟩
    · exact ⟨fun h => absurd (FaultKind.label_eq_parse_iff.1 h) (kind_ne_parse hfaults),
        fun ⟨_, h⟩ => (by cases h)⟩
    · rintro _ ⟨⟩
      exact ⟨fault, _, stmt, rfl, hpath, rfl, hhas, raisesItself_of_execStmt hraised, hline⟩

/-- A function that is called where all is well, and goes wrong itself. -/
def wrongInside : String := "FUNCAO f()\ng()\nFIM FUNCAO\nf()"

theorem interpret_blames_line_wrongInside :
    interpret { rounds := 0 } wrongInside = some
      { output := ""
        failure := some ⟨"NameError", "função ou procedimento não definido: g", some 2⟩ } ∧
    ∃ program stmt, Program.parse wrongInside = .ok program ∧ program.Has stmt ∧
      stmt.line = 2 := by
  have hreport : interpret { rounds := 0 } wrongInside = some
      { output := ""
        failure := some ⟨"NameError", "função ou procedimento não definido: g", some 2⟩ } := by
    decide +kernel
  obtain ⟨_, hkind, _, hruns⟩ := interpret_blames_line hreport rfl
  refine ⟨hreport, ?_⟩
  cases hparse : Program.parse wrongInside with
  | error fault => exact absurd (hkind.2 ⟨fault, hparse⟩) (by decide)
  | ok program =>
    obtain ⟨fault, q, stmt, _, _, _, hhas, _, hline⟩ := hruns program hparse
    exact ⟨program, stmt, rfl, hhas, (Option.some.inj hline).symm⟩

end Portugol
