import Mathlib.Data.List.Induction
import Portugol.Proofs.Dictionary
import Portugol.Proofs.Effect
import Portugol.Proofs.KeyOrder

/-!
# Arrays

An array is the dictionary of the writes that made it. So its elements are in the order of their
keys, each key has the value that was written last under it, and nothing else of how the array
came to be is left in it.

* `Exec.assignElements_of_unset`: writes to a variable without a value make it the array of
  these writes.
* `Exec.elements_are_ordered_maps`: the order of keys, their equality, and what any writes leave
  in an array.
-/

namespace Portugol

/-! ## The dictionary of a row of writes -/

namespace Dict

variable {κ α : Type} [Ord κ]

theorem ofList_concat (entries : List (κ × α)) (entry : κ × α) :
    ofList (entries ++ [entry]) = insert (ofList entries) entry.1 entry.2 := by
  rw [ofList, ofList, List.foldl_append]
  rfl

variable [Std.TransOrd κ] [Std.LawfulEqOrd κ]

theorem sorted_ofList (entries : List (κ × α)) : Sorted (ofList entries) := by
  induction entries using List.reverseRecOn with
  | nil => exact .nil
  | append_singleton entries entry ih =>
    rw [ofList_concat]
    exact ih.insert entry.1 entry.2

variable [DecidableEq κ]

/-- Under a key, there is what was put there last. -/
theorem get?_ofList (entries : List (κ × α)) (key : κ) :
    get? (ofList entries) key = entries.reverse.lookup key := by
  induction entries using List.reverseRecOn with
  | nil => rfl
  | append_singleton entries entry ih =>
    obtain ⟨k, value⟩ := entry
    rw [ofList_concat, List.reverse_concat, List.lookup_cons]
    split
    · rename_i hkey
      rw [beq_iff_eq.1 hkey, get?_insert_self]
    · rename_i hkey
      rw [get?_insert_of_ne _ _ (beq_eq_false_iff_ne.1 hkey), ih]

/-- Only what was put under each key last counts. -/
theorem ofList_congr {entries entries' : List (κ × α)}
    (h : ∀ key, entries.reverse.lookup key = entries'.reverse.lookup key) :
    ofList entries = ofList entries' := by
  refine (sorted_ofList entries).ext (sorted_ofList entries') fun key => ?_
  rw [get?_ofList, get?_ofList, h]

end Dict

/-! ## Writing elements -/

namespace Environment

variable {env : Environment} {name : String} {value : Value}

theorem inCall_define (env : Environment) (name : String) (value : Value) :
    (env.define name value).inCall = env.inCall := by
  rw [define, modifyInnermost, inCall, inCall]
  split
  · rfl
  · rename_i hframes
    rw [hframes]
    rfl

theorem inCall_write (env : Environment) (name : String) (value : Value) :
    (env.write name value).inCall = env.inCall := by
  rw [write]
  split
  · exact inCall_define env name value
  · rw [assign]
    split
    · rfl
    · exact inCall_define env name value

/-- What has been assigned is what the next assignment would replace. -/
theorem written?_write_self (env : Environment) (name : String) (value : Value) :
    (env.write name value).written? name = some value := by
  rw [written?, inCall_write]
  split
  · rename_i hresult
    rw [write, if_pos hresult, getLocal?, innermost_define, Dict.get?_insert_self]
  · exact env.get?_write_self name value

theorem get?_of_written? (h : env.written? name = some value) : env.get? name = some value := by
  rw [written?] at h
  split at h
  · rw [get?, h]
    rfl
  · exact h

theorem written?_eq_none (h : env.get? name = none) : env.written? name = none := by
  rw [written?]
  split
  · rw [get?, Option.orElse_eq_orElse, Option.orElse_eq_or, Option.or_eq_none_iff] at h
    exact h.1
  · exact h

end Environment

namespace Exec

open Environment

variable {m : Machine} {name : String}

/-- The writes `name[key] <- value`, one after the other. -/
def assignElements (name : String) : List (ArrayKey × Value) → Exec Unit
  | [] => return
  | (key, value) :: rest => do
    assignElement name key value
    assignElements name rest

/-- Writes to an array add their entries to it. -/
theorem assignElements_of_array (writes : List (ArrayKey × Value))
    {elements : List (ArrayKey × Value)} (h : m.env.written? name = some (.array elements)) :
    ∃ m', assignElements name writes m = .ok () m' ∧ m'.env.get? name =
      some (.array (writes.foldl (fun d entry => Dict.insert d entry.1 entry.2) elements)) := by
  -- By induction on the writes: each leaves an array that the next one would replace.
  induction writes generalizing m elements with
  | nil => exact ⟨m, rfl, get?_of_written? h⟩
  | cons first rest ih =>
    obtain ⟨key, value⟩ := first
    have hfirst : assignElement name key value m =
        .ok () { m with env := m.env.write name (.array (Dict.insert elements key value)) } := by
      rw [assignElement_apply, writeElement, h]
    rw [assignElements, bind_of_ok hfirst]
    exact ih (written?_write_self _ _ _)

/-- Writes to a variable without a value make it the array of these writes, if there are any. -/
theorem assignElements_of_unset (h : m.env.get? name = none) (writes : List (ArrayKey × Value)) :
    ∃ m', assignElements name writes m = .ok () m' ∧ m'.env.get? name =
      if writes = [] then none else some (.array (Dict.ofList writes)) := by
  cases writes with
  | nil => exact ⟨m, rfl, h⟩
  | cons first rest =>
    obtain ⟨key, value⟩ := first
    have hfirst : assignElement name key value m =
        .ok () { m with env := m.env.write name (.array [(key, value)]) } := by
      rw [assignElement_apply, writeElement, written?_eq_none h]
    rw [assignElements, bind_of_ok hfirst, if_neg (List.cons_ne_nil _ _)]
    exact assignElements_of_array rest (written?_write_self _ _ _)

/-- An element of an array is what the dictionary has under its key. -/
theorem lookupElement_of_array {elements : List (ArrayKey × Value)}
    (h : m.env.get? name = some (.array elements)) (key : ArrayKey) :
    lookupElement name key m = match Dict.get? elements key with
      | some value => .ok value m
      | none => .error (.fault { cause := .undefinedElement name key.display }) m := by
  have hlookup : lookup name m = .ok (.array elements) m := by
    rw [lookup_apply, Environment.lookup, h]
    rfl
  rw [lookupElement, bind_of_ok hlookup]
  dsimp only
  cases Dict.get? elements key <;> rfl

/-! ## What writes leave -/

/-- The value that was written last under a key, if there was one. -/
def lastWritten (writes : List (ArrayKey × Value)) (key : ArrayKey) : Option Value :=
  writes.reverse.lookup key

theorem forall_lastWritten_eq_none_iff {writes : List (ArrayKey × Value)} :
    (∀ key, lastWritten writes key = none) ↔ writes = [] := by
  refine ⟨fun h => List.eq_nil_iff_forall_not_mem.2 fun entry hentry => ?_, ?_⟩
  · have hkey := List.lookup_eq_none_iff.1 (h entry.1) entry (List.mem_reverse.2 hentry)
    rw [bne_self_eq_false] at hkey
    nomatch hkey
  · rintro rfl key
    rfl

/-- The variable has what is left of the writes. -/
structure Holds (m : Machine) (name : String) (writes : List (ArrayKey × Value)) : Prop where
  /-- The entries are in the order of their keys, and no key has two of them. -/
  ordered : writes ≠ [] → ∃ elements, m.env.get? name = some (.array elements) ∧
    elements.Pairwise (fun entry entry' => entry.1.Before entry'.1) ∧ (Dict.keys elements).Nodup
  /-- What was written last under a key is read. -/
  read {key : ArrayKey} {value : Value} : lastWritten writes key = some value →
    lookupElement name key m = .ok value m
  /-- Nothing else can be read. -/
  missing {key : ArrayKey} : lastWritten writes key = none →
    ∃ fault, lookupElement name key m = .error (.fault fault) m ∧ fault.kind = .name

theorem holds_of_array {writes : List (ArrayKey × Value)}
    (h : m.env.get? name = some (.array (Dict.ofList writes))) : Holds m name writes where
  ordered _ := by
    have hsorted := Dict.sorted_ofList writes
    refine ⟨_, h, hsorted.imp ArrayKey.compare_eq_lt_iff.1, List.pairwise_map.2 ?_⟩
    refine hsorted.imp fun {entry entry'} hlt heq => ?_
    rw [heq, Std.ReflOrd.compare_self] at hlt
    nomatch hlt
  read {key value} hlast := by
    rw [lookupElement_of_array h, Dict.get?_ofList, ← lastWritten, hlast]
  missing {key} hlast := by
    rw [lookupElement_of_array h, Dict.get?_ofList, ← lastWritten, hlast]
    exact ⟨_, rfl, rfl⟩

theorem holds_nil (h : m.env.get? name = none) : Holds m name [] where
  ordered hne := absurd rfl hne
  read hlast := nomatch hlast
  missing {key} _ := by
    have hlookup : lookup name m = .error (.fault { cause := .undefinedVariable name }) m := by
      rw [lookup_apply, Environment.lookup, h]
      rfl
    rw [lookupElement, bind_of_error hlookup]
    exact ⟨_, rfl, rfl⟩

/-- Arrays are maps with an order of their own. The comparison of keys is a total order in which
    a key is equal only to itself. Zero has no sign as a key, and scalars have the same key if and
    only if the language takes them for equal, unless one is not a number. Whatever is written to
    the elements of a variable without a value, the variable has what was written last under each
    key, in the order of the keys, and nothing else of the writes is left in it. -/
theorem elements_are_ordered_maps :
    IsStrictTotalOrder ArrayKey ArrayKey.Before ∧
    (∀ a b : ArrayKey, (compare a b = .lt ↔ a.Before b) ∧ (compare a b = .eq ↔ a = b) ∧
      (compare a b = .gt ↔ b.Before a)) ∧
    (∀ n : Number,
      (Value.number n).toKey = .ok (.number (if n = .zero true then .zero false else n))) ∧
    (∀ (a b : Value) (key key' : ArrayKey), a.toKey = .ok key → b.toKey = .ok key' →
      (∀ n, a = .number n → n.isNaN = false) → (∀ n, b = .number n → n.isNaN = false) →
      (key = key' ↔ Value.binary .eq a b = .ok (.logical true))) ∧
    (∀ (m : Machine) (name : String) (writes : List (ArrayKey × Value)), m.env.get? name = none →
      ∃ m', assignElements name writes m = .ok () m' ∧ Holds m' name writes) ∧
    ∀ (m₁ m₂ : Machine) (name₁ name₂ : String) (writes₁ writes₂ : List (ArrayKey × Value)),
      m₁.env.get? name₁ = none → m₂.env.get? name₂ = none →
      (∀ key, lastWritten writes₁ key = lastWritten writes₂ key) →
      ∃ m₁' m₂', assignElements name₁ writes₁ m₁ = .ok () m₁' ∧
        assignElements name₂ writes₂ m₂ = .ok () m₂' ∧
        m₁'.env.get? name₁ = m₂'.env.get? name₂ ∧
        (m₁'.env.get? name₁).map Value.display = (m₂'.env.get? name₂).map Value.display := by
  refine ⟨ArrayKey.isStrictTotalOrder_before, fun a b => ⟨ArrayKey.compare_eq_lt_iff,
    Std.LawfulEqOrd.compare_eq_iff_eq, ?_⟩, fun n => ?_, fun a b key key' ha hb hna hnb => ?_,
    fun m name writes h => ?_, fun m₁ m₂ name₁ name₂ writes₁ writes₂ h₁ h₂ hlast => ?_⟩
  · rw [← ArrayKey.compare_eq_lt_iff, Std.OrientedCmp.gt_iff_lt]
  · rw [Value.toKey, Number.ofNumber_eq]
  · rw [Value.toKey_eq_iff ha hb hna hnb, Value.binary, Except.ok.injEq, Value.logical.injEq]
  · obtain ⟨m', hrun, hget⟩ := assignElements_of_unset h writes
    refine ⟨m', hrun, ?_⟩
    split at hget
    · rename_i hnil
      exact hnil ▸ holds_nil hget
    · exact holds_of_array hget
  · obtain ⟨m₁', hrun₁, hget₁⟩ := assignElements_of_unset h₁ writes₁
    obtain ⟨m₂', hrun₂, hget₂⟩ := assignElements_of_unset h₂ writes₂
    have hnil : writes₁ = [] ↔ writes₂ = [] := by
      rw [← forall_lastWritten_eq_none_iff, ← forall_lastWritten_eq_none_iff]
      simp only [hlast]
    have hsame : m₁'.env.get? name₁ = m₂'.env.get? name₂ := by
      rw [hget₁, hget₂, Dict.ofList_congr hlast]
      simp only [hnil]
    exact ⟨m₁', m₂', hrun₁, hrun₂, hsame, congrArg _ hsame⟩

/-- The element `'b'` is written twice, and the others in another order. -/
theorem elements_are_ordered_maps_rewritten :
    ∃ m m', assignElements "v" [(.text "b", .text "x"), (.ofNumber 2, .text "y"),
        (.text "b", .text "z")] {} = .ok () m ∧
      assignElements "v" [(.text "b", .text "z"), (.ofNumber 2, .text "y")] {} = .ok () m' ∧
      m.env.get? "v" = m'.env.get? "v" := by
  obtain ⟨-, -, -, -, -, hsame⟩ := elements_are_ordered_maps
  obtain ⟨m, m', hrun, hrun', hget, -⟩ := hsame {} {} "v" "v"
    [(.text "b", .text "x"), (.ofNumber 2, .text "y"), (.text "b", .text "z")]
    [(.text "b", .text "z"), (.ofNumber 2, .text "y")] rfl rfl fun key => by
      by_cases hb : key = .text "b"
      · rw [hb]
        rfl
      · have hbeq : (key == .text "b") = false := beq_eq_false_iff_ne.2 hb
        simp only [lastWritten, List.reverse_cons, List.reverse_nil, List.nil_append,
          List.cons_append, List.lookup_cons, hbeq]
  exact ⟨m, m', hrun, hrun', hget⟩

end Exec

end Portugol
