import Portugol.Proofs.Isolation

/-!
# Functions without a result

A function that never sets its result has no value. Its result would be in the frame of its
call, and nothing else than the function itself writes there: neither the callables that it
calls, which have frames of their own, nor whoever writes the global with the same name.

* `Exec.elsewhere`: what writes no result leaves the one in the frame as it is.
* `Exec.invoker_of_setsNoResult`: so a call of such a function ends without a result.
* `Exec.eval_call_of_setsNoResult`: and such a call as an expression fails.
-/

namespace Portugol

/-- The callable sets no result: it has no parameter of this name, its body writes no
    variable of this name, and every `RETORNE` in it is without a value. -/
structure Callable.SetsNoResult (callable : Callable) : Prop where
  params : resultName ∉ callable.params
  body : .var resultName ∉ bodyWrites callable.body ∧ .result ∉ bodyWrites callable.body

namespace Dict

variable {κ α : Type} [Ord κ] [Std.TransOrd κ] [Std.LawfulEqOrd κ]

/-- Nothing is found under a key that no entry has. -/
theorem get?_ofList_eq_none {entries : List (κ × α)} {key : κ}
    (h : ∀ entry ∈ entries, entry.1 ≠ key) :
    get? (ofList entries) key = none := by
  have hfold : ∀ (entries : List (κ × α)) (d : Dict κ α), (∀ entry ∈ entries, entry.1 ≠ key) →
      get? (entries.foldl (fun d entry => insert d entry.1 entry.2) d) key = get? d key := by
    intro entries
    induction entries with
    | nil => exact fun _ _ => rfl
    | cons entry rest ih =>
      intro d h
      obtain ⟨hentry, hrest⟩ := List.forall_mem_cons.1 h
      rw [List.foldl_cons, ih _ hrest, get?_insert_of_ne _ _ hentry.symm]
  exact hfold entries [] h

end Dict

namespace Environment

variable {env env' : Environment}

/-- In a call, the innermost scope is a frame. -/
theorem innermost_eq_of_frames_eq (hcall : env.inCall = true) (h : env'.frames = env.frames) :
    env'.innermost = env.innermost := by
  obtain ⟨frame, rest, hframes⟩ := List.exists_cons_of_ne_nil (inCall_iff.1 hcall)
  rw [innermost, innermost, h, hframes]
  rfl

/-- In a call, the assignment of another variable leaves this one in the frame as it is. -/
theorem getLocal?_write_of_ne (hcall : env.inCall = true) {name other : String}
    (hne : other ≠ name) (value : Value) :
    (env.write name value).getLocal? other = env.getLocal? other := by
  have hdefine : (env.define name value).getLocal? other = env.getLocal? other := by
    rw [getLocal?, innermost_define, Dict.get?_insert_of_ne _ _ hne, getLocal?]
  rw [write]
  split
  · exact hdefine
  · rw [assign]
    split
    · exact congrArg (Dict.get? · other) (innermost_eq_of_frames_eq hcall rfl)
    · exact hdefine

end Environment

namespace Exec

open Environment

variable {s : Setting} {callable : Callable}

/-- What writes no result leaves the result in the frame as it is. -/
def elsewhere : Effect fun w => w ≠ .var resultName ∧ w ≠ .result where
  holds m m' := m.env.inCall = true → m'.env.getLocal? resultName = m.env.getLocal? resultName
  refl _ _ := rfl
  trans hbalanced h h' hcall := (h' (hbalanced.inCall_iff.2 hcall)).trans (h hcall)
  print _ _ _ := rfl
  input _ _ := rfl
  timer _ _ _ := rfl
  write _ _ value hw hcall :=
    getLocal?_write_of_ne hcall (fun hname => hw.1 (congrArg Write.var hname.symm)) value
  result _ _ hw := absurd rfl hw.2

/-- A call leaves the frame of its caller as it is, whatever it writes. -/
theorem elsewhere_keeps_invoker (s : Setting) (room : Nat) (callable : Callable)
    (values : List Value) : elsewhere.Keeps (invoker s room callable values) := by
  cases room with
  | zero => exact elsewhere.localCongruence.rel_fail _
  | succ room =>
    have hbody := keepsFrames_execBody s room callable.body
    intro m
    have hafter : (invoker s (room + 1) callable values).after m =
        ((execBody s (invoker s room) callable.body).after
          (entering callable.params values m)).leave :=
      after_activation hbody _ _ _
    have hbalanced := hbody (entering callable.params values m)
    rw [hafter]
    refine ⟨hbalanced.of_entering, fun hcall => ?_⟩
    exact congrArg (Dict.get? · resultName)
      (innermost_eq_of_frames_eq hcall hbalanced.frames_leave)

/-- The body of a callable that sets no result ends without one. -/
theorem getLocal?_of_setsNoResult (h : callable.SetsNoResult) {room : Nat} {values : List Value}
    {m m' : Machine} {flow : Flow}
    (hbody : execBody s (invoker s room) callable.body (entering callable.params values m) =
      .ok flow m') :
    m'.env.getLocal? resultName = none := by
  have hwrites : ∀ w ∈ bodyWrites callable.body, w ≠ .var resultName ∧ w ≠ .result :=
    fun w hw => ⟨fun hvar => h.body.1 (hvar ▸ hw), fun hresult => h.body.2 (hresult ▸ hw)⟩
  have hkeeps : elsewhere.Keeps (execBody s (invoker s room) callable.body) :=
    elsewhere.keeps_execBody (elsewhere_keeps_invoker s room) hwrites
  have hkept := (hkeeps (entering callable.params values m)).2
  rw [after_of_ok hbody] at hkept
  have hstart : (entering callable.params values m).env.getLocal? resultName = none := by
    rw [env_entering]
    refine Dict.get?_ofList_eq_none fun entry hentry hname => h.params ?_
    exact hname ▸ (List.of_mem_zip hentry).1
  have hcall : (entering callable.params values m).env.inCall = true := by
    rw [env_entering]
    rfl
  exact (hkept hcall).trans hstart

/-- A call of a callable that sets no result gives none: it does the body and leaves the
    frame. -/
theorem invoker_of_setsNoResult (h : callable.SetsNoResult) (s : Setting) (room : Nat)
    (values : List Value) (m : Machine) :
    invoker s (room + 1) callable values m =
      match execBody s (invoker s room) callable.body (entering callable.params values m) with
      | .ok _ m' => .ok none m'.leave
      | .error stop m' => .error stop m'.leave := by
  have happ : invoker s (room + 1) callable values m = _ :=
    activation_of_keepsFrames (keepsFrames_execBody s room callable.body) callable.params values m
  rw [happ]
  cases hbody : execBody s (invoker s room) callable.body (entering callable.params values m) with
  | ok flow m' =>
    dsimp only
    rw [getLocal?_of_setsNoResult h hbody]
  | error stop m' => rfl

/-! ## Calls as expressions -/

/-- A call comes to the callable that has the name, with as many arguments as it has
    parameters, if there may be one more call. -/
theorem invokes_of_found {name : String} {given : Nat} {args : Exec (List Value)}
    {values : List Value} {m m' : Machine} (hfound : Dict.get? s.registry name = some callable)
    (hgiven : given = callable.params.length) (hdepth : m.depth < s.maxDepth)
    (hargs : args m = .ok values m') : Invokes s name given args m callable values m' := by
  intro invoke
  rw [call, hfound]
  dsimp only
  rw [if_neg (not_not_intro hgiven), bind_of_ok (checkDepth_of_lt hdepth), bind_of_ok hargs]

/-- The value of a call is made of what the callable has left. -/
theorem eval_call_of_invokes {invoke : Invoker} {name : String} {args : List Expr}
    {values : List Value} {m m' : Machine}
    (h : Invokes s name args.length (evalAll s invoke args) m callable values m') :
    eval s invoke (.call name args) m =
      (invoke callable values >>= functionValue name callable.kind) m' := by
  have hbind : ∀ {α β : Type} {x y : Exec α} (f : α → Exec β), x m = y m' →
      (x >>= f) m = (y >>= f) m' := by
    intro α β x y f hxy
    simp only [bind, EStateM.bind, hxy]
  rw [eval]
  refine (hbind _ (h invoke)).trans ?_
  rw [bind_assoc]
  rfl

/-- A call of a function that sets no result ends as its body does if that fails, and else it
    fails for want of a result. -/
theorem eval_call_eq_of_setsNoResult (h : callable.SetsNoResult)
    (hkind : callable.kind = .function) {room : Nat} {name : String} {args : List Expr}
    {values : List Value} {m m₁ : Machine}
    (hinvokes : Invokes s name args.length (evalAll s (invoker s (room + 1)) args) m callable
      values m₁) :
    eval s (invoker s (room + 1)) (.call name args) m =
      match execBody s (invoker s room) callable.body (entering callable.params values m₁) with
      | .ok _ m' => .error (.fault { cause := .unsetResult name resultName }) m'.leave
      | .error stop m' => .error stop m'.leave := by
  rw [eval_call_of_invokes hinvokes, hkind]
  have hinvoke := invoker_of_setsNoResult h s room values m₁
  cases hbody : execBody s (invoker s room) callable.body (entering callable.params values m₁) with
  | ok flow m' =>
    rw [hbody] at hinvoke
    rw [bind_of_ok hinvoke]
    rfl
  | error stop m' =>
    rw [hbody] at hinvoke
    rw [bind_of_error hinvoke]

theorem eval_call_ne_ok_of_setsNoResult {name : String}
    (hfound : Dict.get? s.registry name = some callable) (hkind : callable.kind = .function)
    (h : callable.SetsNoResult) (room : Nat) (args : List Expr) (m m' : Machine) (value : Value) :
    eval s (invoker s room) (.call name args) m ≠ .ok value m' := by
  intro hok
  rcases call_cases s name args.length (evalAll s (invoker s room) args) m with
    ⟨cause, _, hfails⟩ | ⟨stop, m₁, _, hfails⟩ | ⟨found, values, m₁, hget, _, _, hinvokes⟩
  · rw [eval, bind_of_error (hfails _)] at hok
    cases hok
  · rw [eval, bind_of_error (hfails _)] at hok
    cases hok
  · obtain rfl : callable = found := Option.some.inj (hfound.symm.trans hget)
    cases room with
    | zero =>
      rw [eval_call_of_invokes hinvokes] at hok
      cases hok
    | succ room =>
      rw [eval_call_eq_of_setsNoResult h hkind hinvokes] at hok
      split at hok <;> cases hok

/-- A call of a function that sets no result never has a value, in whatever machine and
    whatever it calls. If its arguments are evaluated and its body comes to an end, it fails
    for want of a result. -/
theorem eval_call_of_setsNoResult (s : Setting) {name : String} {callable : Callable}
    (hfound : Dict.get? s.registry name = some callable) (hkind : callable.kind = .function)
    (h : callable.SetsNoResult) (args : List Expr) (m : Machine) :
    (∀ value m', evaluate s (.call name args) m ≠ .ok value m') ∧
    (∀ room value m', eval s (invoker s room) (.call name args) m ≠ .ok value m') ∧
    (∀ room values m₁ flow m₂, args.length = callable.params.length → m.depth < s.maxDepth →
      evalAll s (invoker s (room + 1)) args m = .ok values m₁ →
      execBody s (invoker s room) callable.body (entering callable.params values m₁) =
        .ok flow m₂ →
      eval s (invoker s (room + 1)) (.call name args) m =
        .error (.fault { cause := .unsetResult name resultName }) m₂.leave) ∧
    Fault.kind { cause := .unsetResult name resultName } = .name := by
  refine ⟨fun value m' => ?_, fun room value m' => ?_, fun room values m₁ flow m₂ hgiven hdepth
    hargs hbody => ?_, rfl⟩
  · exact eval_call_ne_ok_of_setsNoResult hfound hkind h (s.maxDepth - m.depth) args m m' value
  · exact eval_call_ne_ok_of_setsNoResult hfound hkind h room args m m' value
  · rw [eval_call_eq_of_setsNoResult h hkind (invokes_of_found hfound hgiven hdepth hargs), hbody]

/-- A function that calls another one, reads the global with the name of its result and
    returns, but sets no result. -/
def idle : Callable where
  name := "ociosa"
  params := ["x"]
  body := [.simple 2 (.call "eco" [.var "x"]), .simple 3 (.assign "y" (.var resultName)),
    .simple 4 (.ret none)]
  kind := .function
  line := 1

/-- A setting in which it may be called. -/
def idling : Setting where
  registry := [("eco", echo), ("ociosa", idle)]
  rounds := 0

theorem eval_call_of_setsNoResult_idle :
    Dict.get? idling.registry "ociosa" = some idle ∧ idle.SetsNoResult ∧
    (∀ value m', evaluate idling (.call "ociosa" [.text "a"]) (holding (.text "r")) ≠
      .ok value m') ∧
    (evaluate idling (.call "ociosa" [.text "a"])).outcome (holding (.text "r")) =
      .error (.fault { cause := .unsetResult "ociosa" resultName }) := by
  have hfound : Dict.get? idling.registry "ociosa" = some idle := rfl
  have hidle : idle.SetsNoResult := ⟨by decide, by decide⟩
  obtain ⟨hvalue, -, hends, -⟩ :=
    eval_call_of_setsNoResult idling hfound rfl hidle [.text "a"] (holding (.text "r"))
  exact ⟨hfound, hidle, hvalue,
    outcome_of_error (hends 999 [.text "a"] _ _ _ rfl (by decide) rfl rfl)⟩

end Exec

end Portugol
