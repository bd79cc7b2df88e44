import Mathlib.Data.Nat.Find
import Mathlib.Order.Bounds.Basic
import Portugol.Proofs.Layout

/-!
# Where blocks end

The end of a block is found by counting, before anybody has read what is inside: the lines
may be of no program at all. So the end is where the numbers say, whatever the lines are. From
the line behind the header on, the lines that open a block of the kind (`BlockKind.opened`) and
those that close one (`BlockKind.closed`) are counted, and the block ends with the first line
where the second number passes the first (`BlockKind.EndsAt`). The marker that belongs to it is
the first one before which the numbers are equal (`BlockKind.DividesAt`).

* `BlockKind.Counted`: what counting knows when it comes to a line, and
  `BlockKind.Counted.step`: one line further on, it knows it again.
* `BlockKind.exists_counted`: so it knows it at every line up to the end of the block.
* `BlockKind.findEnd_matches`: an end is found exactly if there is one, it is the first one,
  and the bodies on both sides of the marker are all that is between the header and the end.
-/

namespace Portugol

namespace Program

variable {lines : List Line} {first middle last : Nat}

theorem slice_concat (hfirst : first ≤ last) (hlast : last < lines.length) :
    slice lines (first, last + 1) = slice lines (first, last) ++ [lines[last]] := by
  rw [slice, slice, List.take_succ_eq_append_getElem hlast, List.drop_append_of_le_length]
  rw [List.length_take]
  omega

theorem slice_eq_cons (hfirst : first < last) (hlast : first < lines.length) :
    slice lines (first, last) = lines[first] :: slice lines (first + 1, last) := by
  have hlength : first < (lines.take last).length := by
    rw [List.length_take]
    omega
  rw [slice, slice, List.drop_eq_getElem_cons hlength, List.getElem_take]

/-- Two slices that meet are one. -/
theorem slice_append_slice (hfirst : first ≤ middle) (hmiddle : middle ≤ last)
    (hlast : last ≤ lines.length) :
    slice lines (first, middle) ++ slice lines (middle, last) = slice lines (first, last) := by
  have htake : lines.take middle ++ slice lines (middle, last) = lines.take last := by
    conv_rhs => rw [← List.take_append_drop middle (lines.take last), List.take_take,
      Nat.min_eq_left hmiddle]
    rfl
  have hlength : first ≤ (lines.take middle).length := by
    rw [List.length_take]
    omega
  rw [slice, ← List.drop_append_of_le_length hlength, htake, slice]

end Program

open Program (slice)

namespace BlockKind

section

variable (kind : BlockKind) (lines : List Line) (start : Nat)

/-- How many lines behind `start` and before this one open a block of the kind. -/
def opened (index : Nat) : Nat := (slice lines (start + 1, index)).countP kind.opens

/-- How many lines behind `start` and before this one close a block of the kind. -/
def closed (index : Nat) : Nat := (slice lines (start + 1, index)).countP kind.closes

/-- With this line, one more block has been closed behind `start` than opened. -/
structure EndsAt (index : Nat) : Prop where
  behind : start < index
  within : index < lines.length
  count : kind.closed lines start (index + 1) = kind.opened lines start (index + 1) + 1

/-- This line, before `stop`, is a marker, and before it as many blocks have been closed behind
    `start` as opened. Only a choice has markers. -/
structure DividesAt (stop index : Nat) : Prop where
  choice : kind = .ifElse
  behind : start < index
  before : index < stop
  marker : ∃ line, lines[index]? = some line ∧ line.leading = some .senao
  count : kind.opened lines start index = kind.closed lines start index

/-- What counting knows when it comes to a line: how many more blocks have been opened behind
    `start` than closed, and the first marker that divides the block. -/
structure Counted (index depth : Nat) (alternate : Option Nat) : Prop where
  behind : start < index
  depth : kind.closed lines start index + depth = kind.opened lines start index
  divided : ∀ marker, alternate = some marker →
    IsLeast {marker | kind.DividesAt lines start index marker} marker
  undivided : alternate = none → ∀ marker, ¬kind.DividesAt lines start index marker

end

variable {kind : BlockKind} {lines : List Line} {start index depth : Nat} {alternate : Option Nat}

/-! ## One line -/

theorem opened_succ (kind : BlockKind) (hstart : start < index) (hindex : index < lines.length) :
    kind.opened lines start (index + 1) =
      kind.opened lines start index + if kind.opens lines[index] then 1 else 0 := by
  rw [opened, opened, Program.slice_concat hstart hindex, List.countP_append, List.countP_singleton]

theorem closed_succ (kind : BlockKind) (hstart : start < index) (hindex : index < lines.length) :
    kind.closed lines start (index + 1) =
      kind.closed lines start index + if kind.closes lines[index] then 1 else 0 := by
  rw [closed, closed, Program.slice_concat hstart hindex, List.countP_append, List.countP_singleton]

theorem separates_eq_false {line : Line} {keyword : Keyword} (h : line.leading = some keyword)
    (hne : keyword ≠ .senao) : kind.separates line = false := by
  rw [Bool.eq_false_iff]
  intro hseparates
  exact hne (Option.some_inj.1 (h.symm.trans (separates_iff.1 hseparates).2))

theorem dividesAt_succ {marker : Nat} (hindex : index < lines.length) :
    kind.DividesAt lines start (index + 1) marker ↔
      kind.DividesAt lines start index marker ∨
        marker = index ∧ start < index ∧ kind.separates lines[index] = true ∧
          kind.opened lines start index = kind.closed lines start index := by
  constructor
  · rintro ⟨hkind, hbehind, hbefore, ⟨line, hline, hlead⟩, hcount⟩
    rcases Nat.lt_or_eq_of_le (Nat.le_of_lt_succ hbefore) with hlt | rfl
    · exact .inl ⟨hkind, hbehind, hlt, ⟨line, hline, hlead⟩, hcount⟩
    · obtain ⟨_, rfl⟩ := List.getElem?_eq_some_iff.1 hline
      exact .inr ⟨rfl, hbehind, separates_iff.2 ⟨hkind, hlead⟩, hcount⟩
  · rintro (⟨hkind, hbehind, hbefore, hmarker, hcount⟩ | ⟨rfl, hbehind, hmarker, hcount⟩)
    · exact ⟨hkind, hbehind, Nat.lt_succ_of_lt hbefore, hmarker, hcount⟩
    · obtain ⟨hkind, hlead⟩ := separates_iff.1 hmarker
      exact ⟨hkind, hbehind, Nat.lt_succ_self _,
        ⟨_, List.getElem?_eq_getElem hindex, hlead⟩, hcount⟩

namespace Counted

/-- The first marker, one line further on: the line that is read is the first one if it is a
    marker at depth zero, and there was none before. -/
theorem next (h : kind.Counted lines start index depth alternate) (hindex : index < lines.length)
    (depth' : Nat) (hdepth : kind.closed lines start (index + 1) + depth' =
      kind.opened lines start (index + 1)) :
    kind.Counted lines start (index + 1) depth'
      (if depth == 0 && alternate.isNone && kind.separates lines[index] then some index
        else alternate) := by
  have hsucc {marker : Nat} (hmarker : kind.DividesAt lines start (index + 1) marker) :=
    (dividesAt_succ hindex).1 hmarker
  refine ⟨Nat.lt_succ_of_lt h.behind, hdepth, ?_, ?_⟩
  · intro marker hmarker
    split at hmarker
    · rename_i hfound
      simp only [Bool.and_eq_true, beq_iff_eq, Option.isNone_iff_eq_none] at hfound
      obtain ⟨⟨rfl, hnone⟩, hseparates⟩ := hfound
      cases hmarker
      refine ⟨(dividesAt_succ hindex).2 (.inr ⟨rfl, h.behind, hseparates, h.depth.symm⟩), ?_⟩
      intro other hother
      rcases hsucc hother with hbefore | ⟨rfl, -⟩
      · exact absurd hbefore (h.undivided hnone other)
      · exact Nat.le_refl _
    · have hleast := h.divided marker hmarker
      refine ⟨(dividesAt_succ hindex).2 (.inl hleast.1), ?_⟩
      intro other hother
      rcases hsucc hother with hbefore | ⟨rfl, -⟩
      · exact hleast.2 hbefore
      · exact Nat.le_of_lt hleast.1.before
  · intro hnone marker hmarker
    split at hnone
    · cases hnone
    · rename_i hfound
      rcases hsucc hmarker with hbefore | ⟨-, -, hseparates, hcount⟩
      · exact h.undivided hnone marker hbefore
      · have hzero : depth = 0 := by
          have := h.depth
          omega
        rw [hzero, hnone, hseparates] at hfound
        exact hfound rfl

/-- Unless the block ends with the line, counting knows as much one line further on. -/
theorem step (h : kind.Counted lines start index depth alternate) (hindex : index < lines.length)
    (hopen : ¬kind.EndsAt lines start index) :
    ∃ depth' alternate', kind.Counted lines start (index + 1) depth' alternate' ∧
      kind.scan index depth alternate (lines.drop index) =
        kind.scan (index + 1) depth' alternate' (lines.drop (index + 1)) := by
  have hopened := opened_succ kind h.behind hindex
  have hclosed := closed_succ kind h.behind hindex
  have hdepth := h.depth
  rw [List.drop_eq_getElem_cons hindex, scan_cons]
  split
  · rename_i hopens
    have hcloses : ¬kind.closes lines[index] = true := fun hcloses =>
      not_opens_of_consists (closes_iff.1 hcloses) hopens
    rw [if_pos hopens] at hopened
    rw [if_neg hcloses] at hclosed
    have hnext := h.next hindex (depth + 1) (by omega)
    rw [separates_eq_false (opens_iff.1 hopens) kind.opener_ne.2, Bool.and_false] at hnext
    exact ⟨depth + 1, alternate, hnext, rfl⟩
  · rename_i hopens
    rw [if_neg hopens] at hopened
    split
    · rename_i hcloses
      rw [if_pos hcloses] at hclosed
      cases depth with
      | zero => exact absurd ⟨h.behind, hindex, by omega⟩ hopen
      | succ depth =>
        have hnext := h.next hindex depth (by omega)
        rw [separates_eq_false (closes_iff.1 hcloses).leading (by decide), Bool.and_false] at hnext
        exact ⟨depth, alternate, hnext, rfl⟩
    · rename_i hcloses
      rw [if_neg hcloses] at hclosed
      exact ⟨depth, _, h.next hindex depth (by omega), rfl⟩

/-- Where the block ends, a line closes it at depth zero, and counting ends with it. -/
theorem ends (h : kind.Counted lines start index depth alternate)
    (hends : kind.EndsAt lines start index) :
    (∃ line, lines[index]? = some line ∧ kind.closes line = true) ∧
      kind.scan index depth alternate (lines.drop index) = some ⟨alternate, index⟩ := by
  have hindex := hends.within
  have hopened := opened_succ kind h.behind hindex
  have hclosed := closed_succ kind h.behind hindex
  have hdepth := h.depth
  have hcount := hends.count
  -- Only one line that closes brings the first number past the second, and only from depth zero.
  have hcloses : kind.closes lines[index] = true := by
    by_contra hcloses
    rw [if_neg hcloses] at hclosed
    omega
  have hopens : ¬kind.opens lines[index] = true := not_opens_of_consists (closes_iff.1 hcloses)
  rw [if_neg hopens] at hopened
  rw [if_pos hcloses] at hclosed
  obtain rfl : depth = 0 := by omega
  refine ⟨⟨_, List.getElem?_eq_getElem hindex, hcloses⟩, ?_⟩
  rw [List.drop_eq_getElem_cons hindex, scan_cons_of_closes_zero (closes_iff.1 hcloses)]

end Counted

/-! ## All lines up to the end -/

theorem counted_start : kind.Counted lines start (start + 1) 0 none := by
  have hslice : slice lines (start + 1, start + 1) = [] := by
    rw [slice]
    exact List.drop_eq_nil_of_le (List.length_take_le _ _)
  refine ⟨Nat.lt_succ_self _, ?_, fun _ h => (by cases h), fun _ marker h => ?_⟩
  · rw [opened, closed, hslice]
    rfl
  · have hbehind := h.behind
    have hbefore := h.before
    omega

/-- As long as the block has not ended, counting has come to each line, with as many blocks
    open as have been opened and not closed. -/
theorem exists_counted (hstart : start < index) (hindex : index ≤ lines.length)
    (hopen : ∀ earlier < index, ¬kind.EndsAt lines start earlier) :
    ∃ depth alternate, kind.Counted lines start index depth alternate ∧
      kind.scan (start + 1) 0 none (lines.drop (start + 1)) =
        kind.scan index depth alternate (lines.drop index) := by
  induction index, hstart using Nat.le_induction with
  | base => exact ⟨0, none, counted_start, rfl⟩
  | succ index hstart ih =>
    obtain ⟨depth, alternate, hcounted, hscan⟩ :=
      ih (Nat.le_of_succ_le hindex) fun earlier h => hopen earlier (Nat.lt_succ_of_lt h)
    obtain ⟨depth', alternate', hcounted', hstep⟩ :=
      hcounted.step hindex (hopen index (Nat.lt_succ_self _))
    exact ⟨depth', alternate', hcounted', hscan.trans hstep⟩

end BlockKind

/-! ## The extent of a block -/

namespace BlockExtent

/-- Behind the line `start` come the marker, if there is one, and the end, among this many
    lines. -/
structure Within (extent : BlockExtent) (start length : Nat) : Prop where
  behind : start < extent.stop
  inside : extent.stop < length
  marker : ∀ marker ∈ extent.alternate, start < marker ∧ marker < extent.stop

variable {extent : BlockExtent} {lines : List Line} {start : Nat}

/-- The bounds of the body are those of a slice. -/
theorem Within.body (h : extent.Within start lines.length) :
    (extent.body start).1 ≤ (extent.body start).2 ∧ (extent.body start).2 ≤ lines.length := by
  obtain ⟨alternate, stop⟩ := extent
  cases alternate with
  | none => exact ⟨h.behind, Nat.le_of_lt h.inside⟩
  | some marker =>
    obtain ⟨hbehind, hbefore⟩ := h.marker marker rfl
    exact ⟨hbehind, Nat.le_of_lt (Nat.lt_trans hbefore h.inside)⟩

theorem Within.alternateBody (h : extent.Within start lines.length) :
    ∀ bounds ∈ extent.alternateBody, bounds.1 ≤ bounds.2 ∧ bounds.2 ≤ lines.length := by
  intro bounds hbounds
  obtain ⟨marker, hmarker, rfl⟩ := Option.map_eq_some_iff.1 hbounds
  exact ⟨(h.marker marker hmarker).2, Nat.le_of_lt h.inside⟩

/-- What is between the header and the end is the body, the marker and the body behind it. -/
theorem Within.parts (h : extent.Within start lines.length) :
    slice lines (start + 1, extent.stop) =
      slice lines (extent.body start) ++ (extent.alternate.bind (lines[·]?)).toList ++
        extent.alternateBody.elim [] (slice lines) := by
  obtain ⟨alternate, stop⟩ := extent
  cases alternate with
  | none =>
    change slice lines (start + 1, stop) = slice lines (start + 1, stop) ++ [] ++ []
    rw [List.append_nil, List.append_nil]
  | some marker =>
    obtain ⟨hbehind, hbefore⟩ := h.marker marker rfl
    have hmarker : marker < lines.length := Nat.lt_trans hbefore h.inside
    change slice lines (start + 1, stop) = slice lines (start + 1, marker) ++
      lines[marker]?.toList ++ slice lines (marker + 1, stop)
    rw [← Program.slice_append_slice hbehind (Nat.le_of_lt hbefore) (Nat.le_of_lt h.inside),
      Program.slice_eq_cons hbefore hmarker, List.getElem?_eq_getElem hmarker,
      Option.toList_some, List.append_assoc, List.singleton_append]

end BlockExtent

namespace BlockKind

/-- The extent ends where the block does, has its marker, and its bodies are slices of the
    lines that leave out the marker and nothing else. -/
structure Matches (kind : BlockKind) (lines : List Line) (start : Nat) (extent : BlockExtent) :
    Prop where
  stop : IsLeast {index | kind.EndsAt lines start index} extent.stop
  closes : ∃ line, lines[extent.stop]? = some line ∧ kind.closes line = true
  alternate : ∀ marker, extent.alternate = some marker ↔
    IsLeast {marker | kind.DividesAt lines start extent.stop marker} marker
  undivided : extent.alternate = none ↔ ∀ marker, ¬kind.DividesAt lines start extent.stop marker
  within : extent.Within start lines.length
  body : (extent.body start).1 ≤ (extent.body start).2 ∧ (extent.body start).2 ≤ lines.length
  alternateBody : ∀ bounds ∈ extent.alternateBody, bounds.1 ≤ bounds.2 ∧ bounds.2 ≤ lines.length
  parts : slice lines (start + 1, extent.stop) =
    slice lines (extent.body start) ++ (extent.alternate.bind (lines[·]?)).toList ++
      extent.alternateBody.elim [] (slice lines)

variable {kind : BlockKind} {lines : List Line} {start : Nat}

/-- Where the block ends, its extent is found. -/
theorem exists_findEnd_eq_ok {stop : Nat}
    (hstop : IsLeast {index | kind.EndsAt lines start index} stop) :
    ∃ extent, kind.findEnd lines start = .ok extent ∧ kind.Matches lines start extent := by
  have hends : kind.EndsAt lines start stop := hstop.1
  obtain ⟨depth, alternate, hcounted, hscan⟩ := exists_counted hends.behind
    (Nat.le_of_lt hends.within) fun earlier hlt hearlier => absurd (hstop.2 hearlier) (by omega)
  obtain ⟨hcloses, hlast⟩ := hcounted.ends hends
  have hwithin : BlockExtent.Within ⟨alternate, stop⟩ start lines.length :=
    ⟨hends.behind, hends.within, fun marker h =>
      ⟨(hcounted.divided marker h).1.behind, (hcounted.divided marker h).1.before⟩⟩
  refine ⟨⟨alternate, stop⟩, ?_, hstop, hcloses, ?_, ?_, hwithin, hwithin.body,
    hwithin.alternateBody, hwithin.parts⟩
  · rw [findEnd, hscan, hlast]
  · intro marker
    refine ⟨hcounted.divided marker, fun hleast => ?_⟩
    cases halternate : alternate with
    | none => exact absurd hleast.1 (hcounted.undivided halternate marker)
    | some found => exact congrArg some ((hcounted.divided found halternate).unique hleast)
  · refine ⟨hcounted.undivided, fun hnone => ?_⟩
    cases halternate : alternate with
    | none => rfl
    | some found => exact absurd (hcounted.divided found halternate).1 (hnone found)

/-- Where no line ends the block, the header is at fault. -/
theorem findEnd_eq_error (h : ∀ index, ¬kind.EndsAt lines start index) :
    ∃ fault, kind.findEnd lines start = .error fault ∧ fault.kind = .parse ∧
      fault.line = some (lines[start]?.elim 0 Line.number) := by
  have hscan : kind.scan (start + 1) 0 none (lines.drop (start + 1)) = none := by
    rcases Nat.lt_or_ge start lines.length with hlt | hge
    · obtain ⟨depth, alternate, -, hscan⟩ :=
        exists_counted hlt (Nat.le_refl _) fun earlier _ => h earlier
      rw [hscan, List.drop_length]
      rfl
    · rw [List.drop_eq_nil_of_le (Nat.le_succ_of_le hge)]
      rfl
  exact ⟨_, by rw [findEnd, hscan], rfl, rfl⟩

/-- Counting has the difference of the two numbers, which is never below zero. -/
theorem scan_eq_of_not_endsAt {index : Nat} (hstart : start < index)
    (hindex : index ≤ lines.length) (hopen : ∀ earlier < index, ¬kind.EndsAt lines start earlier) :
    kind.closed lines start index ≤ kind.opened lines start index ∧
      ∃ alternate, kind.scan (start + 1) 0 none (lines.drop (start + 1)) =
        kind.scan index (kind.opened lines start index - kind.closed lines start index) alternate
          (lines.drop index) := by
  obtain ⟨depth, alternate, hcounted, hscan⟩ := exists_counted hstart hindex hopen
  have hdepth := hcounted.depth
  refine ⟨by omega, alternate, ?_⟩
  rw [hscan, ← hdepth, Nat.add_sub_cancel_left]

/-- Whatever the lines are, counting matches openers and terminators. It finds an extent exactly
    if behind `start` there is a line with which one more block of the kind has been closed than
    opened. The extent ends with the first such line, and its marker is the first one before
    which all blocks of the kind are closed, if the block is a choice. Marker and end are lines
    behind the header, so that the bodies are slices, and they leave out the marker and nothing
    else. Up to the end no more blocks have been closed than opened, and counting has the
    difference. If there is no such line, the header is at fault. -/
theorem findEnd_matches (kind : BlockKind) (lines : List Line) (start : Nat) :
    ((∃ extent, kind.findEnd lines start = .ok extent) ↔
      ∃ index, kind.EndsAt lines start index) ∧
    (∀ extent, kind.findEnd lines start = .ok extent → kind.Matches lines start extent) ∧
    (∀ index, start < index → index ≤ lines.length →
      (∀ earlier < index, ¬kind.EndsAt lines start earlier) →
      kind.closed lines start index ≤ kind.opened lines start index ∧
      ∃ alternate, kind.scan (start + 1) 0 none (lines.drop (start + 1)) =
        kind.scan index (kind.opened lines start index - kind.closed lines start index) alternate
          (lines.drop index)) ∧
    ((¬∃ index, kind.EndsAt lines start index) →
      ∃ fault, kind.findEnd lines start = .error fault ∧ fault.kind = .parse ∧
        fault.line = some (lines[start]?.elim 0 Line.number)) := by
  classical
  by_cases h : ∃ index, kind.EndsAt lines start index
  · obtain ⟨extent, hok, hmatches⟩ :=
      exists_findEnd_eq_ok ⟨Nat.find_spec h, fun _ => Nat.find_min' h⟩
    refine ⟨⟨fun _ => h, fun _ => ⟨extent, hok⟩⟩, fun other hother => ?_,
      fun _ => scan_eq_of_not_endsAt, fun hnone => absurd h hnone⟩
    cases hok.symm.trans hother
    exact hmatches
  · obtain ⟨fault, hfault, hblame⟩ := findEnd_eq_error (not_exists.1 h)
    have hnever (extent : BlockExtent) : kind.findEnd lines start ≠ .ok extent := fun hok => by
      cases hfault.symm.trans hok
    exact ⟨⟨fun ⟨extent, hok⟩ => absurd hok (hnever extent), fun hends => absurd hends h⟩,
      fun extent hok => absurd hok (hnever extent), fun _ => scan_eq_of_not_endsAt,
      fun _ => ⟨fault, hfault, hblame⟩⟩

/-- A choice in the first body of a choice, with two markers behind it, and one end too many. -/
def choiceInChoice : List Line :=
  let line (number : Nat) (words : List Keyword) : Line :=
    { number, text := "", tokens := words.map (⟨.keyword ·, ⟨0, 0⟩⟩) }
  [line 1 [.se], line 2 [.se], line 3 [.senao], line 4 [.fim, .se], line 5 [.senao],
    line 6 [.senao], line 7 [.fim, .se], line 8 [.fim, .se]]

theorem findEnd_matches_choiceInChoice :
    ifElse.findEnd choiceInChoice 0 = .ok ⟨some 4, 6⟩ ∧
    ifElse.Matches choiceInChoice 0 ⟨some 4, 6⟩ ∧
    (∃ alternate, ifElse.scan 1 0 none (choiceInChoice.drop 1) =
      ifElse.scan 3 1 alternate (choiceInChoice.drop 3)) ∧
    (¬∃ index, count.EndsAt choiceInChoice 0 index) ∧
    ∃ fault, count.findEnd choiceInChoice 0 = .error fault ∧ fault.kind = .parse ∧
      fault.line = some 1 := by
  obtain ⟨-, hmatches, hcounting, -⟩ := findEnd_matches ifElse choiceInChoice 0
  obtain ⟨hends, -, -, hfault⟩ := findEnd_matches count choiceInChoice 0
  have hchoice : ifElse.Matches choiceInChoice 0 ⟨some 4, 6⟩ := hmatches _ rfl
  have hnone : ¬∃ index, count.EndsAt choiceInChoice 0 index := fun h => by
    obtain ⟨extent, hextent⟩ := hends.2 h
    cases hextent
  refine ⟨rfl, hchoice, ?_, hnone, hfault hnone⟩
  exact (hcounting 3 (by decide) (by decide) fun earlier hlt hearlier =>
    absurd (hchoice.stop.2 hearlier) (by change ¬6 ≤ earlier; omega)).2

end BlockKind

end Portugol
