import Portugol.Proofs.Scope
import Mathlib.Logic.Function.Basic

/-!
# Dictionaries in order

A dictionary that is built by `insert` and `erase` has its keys in order (`Dict.Sorted`).
Such a dictionary is settled by what is found under its keys, and so the order in which
its entries have come does not show.

* `Dict.Sorted.ext`: dictionaries in order in which the same is found are the same.
* `Dict.Renamed.eq_mapKeys`: a dictionary in which the same is found under other names
  for the keys is the first one with its keys renamed.
-/

namespace Portugol.Dict

variable {κ α β : Type} [Ord κ] {d d' : Dict κ α} {key other : κ} {value : α}

theorem get?_map (f : α → β) (d : Dict κ α) (key : κ) :
    get? (d.map fun entry => (entry.1, f entry.2)) key = (get? d key).map f := by
  induction d with
  | nil => rfl
  | cons entry rest ih =>
    simp only [List.map_cons, get?]
    cases compare key entry.1 with
    | lt | eq => rfl
    | gt => exact ih

/-! ## Keys in order -/

/-- The keys stand in order, each once. -/
def Sorted (d : Dict κ α) : Prop := d.Pairwise fun entry entry' => compare entry.1 entry'.1 = .lt

theorem Sorted.nil : Sorted ([] : Dict κ α) := List.Pairwise.nil

theorem Sorted.map (h : Sorted d) (f : α → β) :
    Sorted (d.map fun entry => (entry.1, f entry.2)) :=
  List.pairwise_map.2 h

theorem Sorted.erase (h : Sorted d) (key : κ) : Sorted (erase d key) := by
  have hsub : ∀ d : Dict κ α, (Dict.erase d key).Sublist d := by
    intro d
    induction d with
    | nil => exact .slnil
    | cons entry rest ih =>
      rw [Dict.erase]
      split
      · exact .refl _
      · exact List.sublist_cons_self _ _
      · exact ih.cons_cons _
  exact List.Pairwise.sublist (hsub d) h

/-- Nothing is found under a key in front of all others. -/
theorem get?_eq_none_of_lt (h : ∀ entry ∈ d, compare key entry.1 = .lt) : get? d key = none := by
  cases d with
  | nil => rfl
  | cons entry rest => rw [get?, h entry List.mem_cons_self]

variable [Std.TransOrd κ]

theorem insert_eq_append (h : ∀ entry ∈ d, compare entry.1 key = .lt) (value : α) :
    insert d key value = d ++ [(key, value)] := by
  induction d with
  | nil => rfl
  | cons entry rest ih =>
    obtain ⟨hentry, hrest⟩ := List.forall_mem_cons.1 h
    simp only [insert, Std.OrientedCmp.gt_of_lt hentry, ih hrest, List.cons_append]

/-- A dictionary in order is what its entries make up. -/
theorem Sorted.ofList_eq (h : Sorted d) : ofList d = d := by
  have hfold : ∀ (rest front : Dict κ α), Sorted (front ++ rest) →
      rest.foldl (fun d entry => Dict.insert d entry.1 entry.2) front = front ++ rest := by
    intro rest
    induction rest with
    | nil => exact fun front _ => (List.append_nil front).symm
    | cons entry rest ih =>
      intro front hsorted
      have hentry : ∀ before ∈ front, compare before.1 entry.1 = .lt := fun before hbefore =>
        (List.pairwise_append.1 hsorted).2.2 before hbefore entry List.mem_cons_self
      have hfront : front ++ entry :: rest = (front ++ [entry]) ++ rest := by
        rw [List.append_assoc, List.singleton_append]
      rw [List.foldl_cons, insert_eq_append hentry, hfront]
      exact ih _ (hfront ▸ hsorted)
  exact hfold d [] h

variable [Std.LawfulEqOrd κ]

theorem Sorted.insert (h : Sorted d) (key : κ) (value : α) : Sorted (insert d key value) := by
  induction d with
  | nil => exact List.pairwise_singleton _ _
  | cons entry rest ih =>
    obtain ⟨hentry, hrest⟩ := List.pairwise_cons.1 h
    cases hc : compare key entry.1 with
    | lt =>
      simp only [Dict.insert, hc]
      refine List.pairwise_cons.2 ⟨fun later hlater => ?_, h⟩
      rcases List.mem_cons.1 hlater with rfl | hlater
      · exact hc
      · exact Std.TransCmp.lt_trans hc (hentry later hlater)
    | eq =>
      simp only [Dict.insert, hc]
      rw [Std.LawfulEqOrd.eq_of_compare hc]
      exact List.pairwise_cons.2 ⟨hentry, hrest⟩
    | gt =>
      simp only [Dict.insert, hc]
      refine List.pairwise_cons.2 ⟨fun later hlater => ?_, ih hrest⟩
      rcases mem_of_mem_insert hlater with rfl | hlater
      · exact Std.OrientedCmp.lt_of_gt hc
      · exact hentry later hlater

omit [Std.TransOrd κ] in
theorem get?_erase_self (h : Sorted d) (key : κ) : get? (erase d key) key = none := by
  induction d with
  | nil => rfl
  | cons entry rest ih =>
    obtain ⟨hentry, hrest⟩ := List.pairwise_cons.1 h
    cases hc : compare key entry.1 with
    | lt => simp only [erase, hc, get?]
    | eq =>
      simp only [erase, hc]
      exact get?_eq_none_of_lt (Std.LawfulEqOrd.eq_of_compare hc ▸ hentry)
    | gt =>
      simp only [erase, hc, get?]
      exact ih hrest

theorem get?_erase_of_ne (h : Sorted d) (hne : other ≠ key) :
    get? (erase d key) other = get? d other := by
  induction d with
  | nil => rfl
  | cons entry rest ih =>
    obtain ⟨hentry, hrest⟩ := List.pairwise_cons.1 h
    cases hc : compare key entry.1 with
    | lt => simp only [erase, hc]
    | eq =>
      obtain rfl := Std.LawfulEqOrd.eq_of_compare hc
      simp only [erase, hc, get?]
      cases ho : compare other entry.1 with
      | eq => exact absurd (Std.LawfulEqOrd.eq_of_compare ho) hne
      | gt => rfl
      | lt =>
        exact get?_eq_none_of_lt fun later hlater =>
          Std.TransCmp.lt_trans ho (hentry later hlater)
    | gt =>
      simp only [erase, hc, get?, ih hrest]

/-- Dictionaries in order in which the same is found under each key are the same. -/
theorem Sorted.ext (h : Sorted d) (h' : Sorted d') (hget : ∀ key, get? d key = get? d' key) :
    d = d' := by
  induction d generalizing d' with
  | nil =>
    cases d' with
    | nil => rfl
    | cons entry rest =>
      have hfirst := hget entry.1
      simp only [get?, Std.ReflCmp.compare_self] at hfirst
      cases hfirst
  | cons entry rest ih =>
    obtain ⟨hentry, hrest⟩ := List.pairwise_cons.1 h
    cases d' with
    | nil =>
      have hfirst := hget entry.1
      simp only [get?, Std.ReflCmp.compare_self] at hfirst
      cases hfirst
    | cons entry' rest' =>
      obtain ⟨hentry', hrest'⟩ := List.pairwise_cons.1 h'
      -- The first keys are the same, as neither of them stands in front of the other.
      have hfirst := hget entry.1
      have hfirst' := hget entry'.1
      simp only [get?, Std.ReflCmp.compare_self] at hfirst hfirst'
      cases hc : compare entry.1 entry'.1 with
      | lt =>
        rw [hc] at hfirst
        cases hfirst
      | gt =>
        rw [Std.OrientedCmp.lt_of_gt hc] at hfirst'
        cases hfirst'
      | eq =>
        rw [hc] at hfirst
        have hkey := Std.LawfulEqOrd.eq_of_compare hc
        have hsame : entry = entry' := Prod.ext hkey (Option.some.inj hfirst)
        subst hsame
        refine congrArg (entry :: ·) (ih hrest hrest' fun key => ?_)
        have hkey := hget key
        simp only [get?] at hkey
        cases hc : compare key entry.1 with
        | gt =>
          rw [hc] at hkey
          exact hkey
        | eq =>
          obtain rfl := Std.LawfulEqOrd.eq_of_compare hc
          rw [get?_eq_none_of_lt hentry, get?_eq_none_of_lt hentry']
        | lt =>
          rw [get?_eq_none_of_lt fun later hlater => Std.TransCmp.lt_trans hc (hentry later hlater),
            get?_eq_none_of_lt fun later hlater => Std.TransCmp.lt_trans hc (hentry' later hlater)]

/-! ## Other names for the keys -/

variable {κ' : Type} [Ord κ'] [Std.TransOrd κ'] [Std.LawfulEqOrd κ'] {f : κ → κ'}
  {e e' : Dict κ' α}

/-- The dictionary with its keys renamed. -/
def mapKeys (f : κ → κ') (d : Dict κ α) : Dict κ' α :=
  ofList (d.map fun entry => (f entry.1, entry.2))

/-- In the second dictionary the same is found as in the first one, under other names for
    the keys, and nothing else. -/
structure Renamed (f : κ → κ') (d : Dict κ α) (e : Dict κ' α) : Prop where
  sorted : Sorted d
  sorted' : Sorted e
  get? (key : κ) : get? e (f key) = get? d key
  get?_of_ne {key' : κ'} : (∀ key, key' ≠ f key) → Dict.get? e key' = none

namespace Renamed

omit [Std.TransOrd κ] [Std.LawfulEqOrd κ] [Std.TransOrd κ'] [Std.LawfulEqOrd κ'] in
theorem nil (f : κ → κ') : Renamed f ([] : Dict κ α) [] :=
  ⟨.nil, .nil, fun _ => rfl, fun _ => rfl⟩

theorem insert (hf : Function.Injective f) (h : Renamed f d e) (key : κ) (value : α) :
    Renamed f (insert d key value) (Dict.insert e (f key) value) where
  sorted := h.sorted.insert key value
  sorted' := h.sorted'.insert (f key) value
  get? other := by
    by_cases hother : other = key
    · rw [hother, get?_insert_self, get?_insert_self]
    · rw [get?_insert_of_ne _ _ hother, get?_insert_of_ne _ _ (hf.ne hother), h.get?]
  get?_of_ne hne := by rw [get?_insert_of_ne _ _ (hne key), h.get?_of_ne hne]

theorem erase (hf : Function.Injective f) (h : Renamed f d e) (key : κ) :
    Renamed f (erase d key) (Dict.erase e (f key)) where
  sorted := h.sorted.erase key
  sorted' := h.sorted'.erase (f key)
  get? other := by
    by_cases hother : other = key
    · rw [hother, get?_erase_self h.sorted, get?_erase_self h.sorted']
    · rw [get?_erase_of_ne h.sorted hother, get?_erase_of_ne h.sorted' (hf.ne hother), h.get?]
  get?_of_ne hne := by rw [get?_erase_of_ne h.sorted' (hne key), h.get?_of_ne hne]

theorem ofList (hf : Function.Injective f) (entries : List (κ × α)) :
    Renamed f (ofList entries) (mapKeys f entries) := by
  have hfold : ∀ (entries : List (κ × α)) {d : Dict κ α} {e : Dict κ' α}, Renamed f d e →
      Renamed f (entries.foldl (fun d entry => Dict.insert d entry.1 entry.2) d)
        ((entries.map fun entry => (f entry.1, entry.2)).foldl
          (fun d entry => Dict.insert d entry.1 entry.2) e) := by
    intro entries
    induction entries with
    | nil => exact id
    | cons entry rest ih => exact fun h => ih (h.insert hf entry.1 entry.2)
  exact hfold entries (.nil f)

omit [Std.TransOrd κ] [Std.LawfulEqOrd κ] [Std.TransOrd κ'] [Std.LawfulEqOrd κ'] in
theorem map (h : Renamed f d e) (g : α → β) :
    Renamed f (d.map fun entry => (entry.1, g entry.2))
      (e.map fun entry => (entry.1, g entry.2)) where
  sorted := h.sorted.map g
  sorted' := h.sorted'.map g
  get? key := by rw [get?_map, get?_map, h.get?]
  get?_of_ne hne := by rw [get?_map, h.get?_of_ne hne, Option.map_none]

omit [Std.TransOrd κ] [Std.LawfulEqOrd κ] in
theorem unique (h : Renamed f d e) (h' : Renamed f d e') : e = e' := by
  refine h.sorted'.ext h'.sorted' fun key' => ?_
  by_cases hkey : ∃ key, key' = f key
  · obtain ⟨key, rfl⟩ := hkey
    rw [h.get?, h'.get?]
  · have hne := not_exists.1 hkey
    rw [h.get?_of_ne hne, h'.get?_of_ne hne]

/-- There is only one dictionary in which the same is found under other names. -/
theorem eq_mapKeys (hf : Function.Injective f) (h : Renamed f d e) : e = mapKeys f d := by
  have hall : Renamed f (Dict.ofList d) (mapKeys f d) := .ofList hf d
  rw [h.sorted.ofList_eq] at hall
  exact h.unique hall

end Renamed

end Portugol.Dict
