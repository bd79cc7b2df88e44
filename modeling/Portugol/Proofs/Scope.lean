import Portugol.Machine

/-!
# Writing to scopes

What an assignment does to the variables of a run. Outside all calls it writes a
global. In a call it writes the frame of the call, or a global that the frame does
not hide; the result of the call is always in the frame.

* `Dict.get?_insert_of_ne`, `Dict.keys_insert_of_contains`: a new value under a key
  leaves the other ones alone, and no key is new if this one is not.
* `Environment.globals_write_of_inCall`: in a call, an assignment replaces the value
  of a global that there is already, other than the result, or it leaves the globals
  alone.
* `Environment.get?_write_self`: wherever it is written, the variable is visible with
  its new value.
-/

namespace Portugol

/-! ## Dictionaries -/

namespace Dict

variable {κ α : Type} [Ord κ] {d : Dict κ α} {key other : κ}

theorem get?_insert_self [Std.ReflOrd κ] (d : Dict κ α) (key : κ) (value : α) :
    get? (insert d key value) key = some value := by
  induction d with
  | nil => simp only [insert, get?, Std.ReflCmp.compare_self]
  | cons entry rest ih =>
    cases hc : compare key entry.1 with
    | lt | eq => simp only [insert, hc, get?, Std.ReflCmp.compare_self]
    | gt => simp only [insert, hc, get?, ih]

theorem get?_insert_of_ne [Std.TransOrd κ] [Std.LawfulEqOrd κ] (d : Dict κ α) (value : α)
    (hne : other ≠ key) : get? (insert d key value) other = get? d other := by
  have hcompare : compare other key ≠ .eq := fun h => hne (Std.LawfulEqOrd.eq_of_compare h)
  induction d with
  | nil =>
    simp only [insert, get?]
    split <;> trivial
  | cons entry rest ih =>
    cases hc : compare key entry.1 with
    | lt =>
      -- The new entry stands before this one, and what is below it is below both.
      cases ho : compare other key with
      | lt => simp only [insert, hc, get?, ho, Std.TransCmp.lt_trans ho hc]
      | eq => exact absurd ho hcompare
      | gt => simp only [insert, hc, get?, ho]
    | eq =>
      have hentry : compare other entry.1 = compare other key := by
        rw [Std.LawfulEqOrd.eq_of_compare hc]
      cases ho : compare other key with
      | eq => exact absurd ho hcompare
      | lt | gt => simp only [insert, hc, get?, hentry, ho]
    | gt => simp only [insert, hc, get?, ih]

/-- No key is new if there is a value under it already. -/
theorem keys_insert_of_contains [Std.LawfulEqOrd κ] (value : α) (h : contains d key = true) :
    keys (insert d key value) = keys d := by
  induction d with
  | nil => cases h
  | cons entry rest ih =>
    cases hc : compare key entry.1 with
    | lt =>
      rw [contains, get?, hc] at h
      cases h
    | eq =>
      simp only [insert, hc, keys, List.map_cons]
      rw [Std.LawfulEqOrd.eq_of_compare hc]
    | gt =>
      rw [contains, get?, hc] at h
      simp only [insert, hc, keys, List.map_cons]
      exact congrArg (entry.1 :: ·) (ih h)

/-- At most this entry is new. -/
theorem mem_of_mem_insert {entry : κ × α} {value : α} (h : entry ∈ insert d key value) :
    entry = (key, value) ∨ entry ∈ d := by
  induction d with
  | nil => exact .inl (List.mem_singleton.1 h)
  | cons first rest ih =>
    cases hc : compare key first.1 with
    | lt =>
      simp only [insert, hc] at h
      exact List.mem_cons.1 h
    | eq =>
      simp only [insert, hc] at h
      exact (List.mem_cons.1 h).imp_right (List.mem_cons_of_mem _)
    | gt =>
      simp only [insert, hc] at h
      rcases List.mem_cons.1 h with h | h
      · exact .inr (h ▸ List.mem_cons_self)
      · exact (ih h).imp_right (List.mem_cons_of_mem _)

/-- At most this key is new. -/
theorem mem_keys_insert {value : α} (h : other ∈ keys (insert d key value)) :
    other = key ∨ other ∈ keys d := by
  obtain ⟨entry, hentry, rfl⟩ := List.mem_map.1 h
  rcases mem_of_mem_insert hentry with rfl | hold
  · exact .inl rfl
  · exact .inr (List.mem_map_of_mem hold)

end Dict

/-! ## Environments -/

namespace Environment

variable {env : Environment} {name : String}

/-- The environment after an assignment: the result of a call belongs to the call. -/
def write (env : Environment) (name : String) (value : Value) : Environment :=
  if name == resultName && env.inCall then env.define name value else env.assign name value

/-- The value that an assignment would replace. -/
def written? (env : Environment) (name : String) : Option Value :=
  if name == resultName && env.inCall then env.getLocal? name else env.get? name

/-- The environment after the assignment of an element. -/
def writeElement (env : Environment) (name : String) (key : ArrayKey) (value : Value) :
    Except Fault Environment :=
  match env.written? name with
  | some (.array elements) => .ok (env.write name (.array (Dict.insert elements key value)))
  | some other => .error { cause := .notAnArray name other.typeName }
  | none => .ok (env.write name (.array [(key, value)]))

/-- The assignment of an element is an assignment of the whole array, unless it
    fails. -/
theorem exists_write_of_writeElement {env' : Environment} {key : ArrayKey} {value : Value}
    (h : env.writeElement name key value = .ok env') : ∃ array, env' = env.write name array := by
  rw [writeElement] at h
  split at h
  · exact ⟨_, (Except.ok.inj h).symm⟩
  · cases h
  · exact ⟨_, (Except.ok.inj h).symm⟩

/-- The environment in which the body of a callable starts: with a new frame, in which
    the parameters have their values. -/
def enter (env : Environment) (params : List String) (values : List Value) : Environment :=
  { env with frames := Dict.ofList (params.zip values) :: env.frames }

/-- A call starts with an empty frame, in which the parameters are defined one after
    the other. -/
theorem foldl_define_push (env : Environment) (params : List String) (values : List Value) :
    (params.zip values).foldl (fun env (name, value) => env.define name value) env.push =
      env.enter params values := by
  have hframe : ∀ (bindings : List (String × Value)) (frame : Scope),
      bindings.foldl (fun env (name, value) => env.define name value)
          { env with frames := frame :: env.frames } =
        { env with frames :=
            bindings.foldl (fun d entry => Dict.insert d entry.1 entry.2) frame :: env.frames } := by
    intro bindings
    induction bindings with
    | nil => exact fun _ => rfl
    | cons binding rest ih => exact fun frame => ih (Dict.insert frame binding.1 binding.2)
  exact hframe _ []

theorem inCall_iff : env.inCall = true ↔ env.frames ≠ [] := by
  rw [inCall, Bool.not_eq_true', List.isEmpty_eq_false_iff]

theorem globals_modifyInnermost (h : env.inCall = true) (f : Scope → Scope) :
    (env.modifyInnermost f).globals = env.globals := by
  rw [modifyInnermost]
  split
  · rename_i hframes
    exact absurd hframes (inCall_iff.1 h)
  · rfl

theorem globals_define (h : env.inCall = true) (name : String) (value : Value) :
    (env.define name value).globals = env.globals :=
  globals_modifyInnermost h _

/-- What an assignment in a call does to the globals: it replaces the value of one that
    there is already, other than the result, or nothing. -/
theorem globals_write_of_inCall (h : env.inCall = true) (name : String) (value : Value) :
    (env.write name value).globals = env.globals ∨
      name ≠ resultName ∧ Dict.contains env.globals name = true ∧
        (env.write name value).globals = Dict.insert env.globals name value := by
  rw [write, h, Bool.and_true]
  split
  · exact .inl (globals_define h name value)
  · rename_i hname
    rw [assign]
    split
    · rename_i hglobal
      exact .inr ⟨fun hn => hname (beq_iff_eq.2 hn), (Bool.and_eq_true_iff.1 hglobal).2, rfl⟩
    · exact .inl (globals_define h name value)

/-- Outside all calls an assignment gives a global a value. -/
theorem globals_write_of_frames_eq_nil (h : env.frames = []) (name : String) (value : Value) :
    (env.write name value).globals = Dict.insert env.globals name value := by
  have hcall : env.inCall = false := by rw [inCall, h]; rfl
  have hdefine : (env.define name value).globals = Dict.insert env.globals name value := by
    rw [define, modifyInnermost, h]
  rw [write, hcall, Bool.and_false, if_neg Bool.false_ne_true, assign]
  split
  · rfl
  · exact hdefine

theorem innermost_define (env : Environment) (name : String) (value : Value) :
    (env.define name value).innermost = Dict.insert env.innermost name value := by
  rw [define, modifyInnermost, innermost, innermost]
  split
  · rename_i hframes
    rw [hframes]
    rfl
  · rename_i hframes
    rw [hframes]
    rfl

theorem get?_define_self (env : Environment) (name : String) (value : Value) :
    (env.define name value).get? name = some value := by
  rw [get?, getLocal?, innermost_define, Dict.get?_insert_self]
  rfl

/-- A variable has the value that it was given. -/
theorem get?_write_self (env : Environment) (name : String) (value : Value) :
    (env.write name value).get? name = some value := by
  rw [write]
  split
  · exact get?_define_self env name value
  · rw [assign]
    split
    · rename_i hglobal
      have hlocal : env.getLocal? name = none :=
        Option.isNone_iff_eq_none.1 (Bool.and_eq_true_iff.1 hglobal).1
      -- The frame, if there is one, does not have the variable.
      cases hframes : env.frames with
      | nil =>
        rw [get?, getLocal?, innermost]
        dsimp only [List.head?_nil, Option.getD_none]
        rw [Dict.get?_insert_self]
        rfl
      | cons frame rest =>
        rw [getLocal?, innermost, hframes] at hlocal
        rw [get?, getLocal?, innermost]
        dsimp only [List.head?_cons, Option.getD_some] at hlocal ⊢
        rw [hlocal, Dict.get?_insert_self]
        rfl
    · exact get?_define_self env name value

end Environment

end Portugol
