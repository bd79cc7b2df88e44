import Portugol.Program
import Portugol.Proofs.LineParser

/-!
# The grammar of blocks

The lines of a program are statements and blocks, and the bodies of blocks are
lines again. `Layout` is how lines are put together in this way, and `Reads` says
which statements a layout stands for: it is the grammar of blocks.

The end of a block is found by counting lines of one kind only, and what is
between is not looked at. That this finds the end the grammar means, and nothing
else, is the matter here.

* `Reads.scan_append`: in the lines of a layout, openers and terminators of each
  kind match, so that counting passes over them.
* `BlockKind.delimits_of_scan`: where counting ends, there is a line that closes the
  block. What is before it need not have a layout: this is left to those who read it.
* `Reads.append_inj`: no lines have two layouts, whatever follows them.
-/

namespace Portugol

/-- The line consists of these keywords and nothing else. -/
def Line.Consists (line : Line) (words : List Keyword) : Prop :=
  line.tokens.map Token.kind = words.map TokenKind.keyword

/-- How lines are put together: statements on one line each, and blocks with a
    body between a header and a line that closes it. -/
inductive Layout
  | done
  | statement (line : Line) (rest : Layout)
  | block (kind : BlockKind) (header : Line) (body : Layout) (stop : Line) (rest : Layout)
  /-- A block with two bodies, and a marker between them. -/
  | branches (header : Line) (body : Layout) (marker : Line) (alternate : Layout) (stop : Line)
      (rest : Layout)

namespace Layout

/-- The lines in order, each of them once. -/
def lines : Layout → List Line
  | done => []
  | statement line rest => line :: rest.lines
  | block _ header body stop rest => header :: (body.lines ++ stop :: rest.lines)
  | branches header body marker alternate stop rest =>
    header :: (body.lines ++ marker :: (alternate.lines ++ stop :: rest.lines))

/-- How many blocks are nested in each other. -/
def depth : Layout → Nat
  | done => 0
  | statement _ rest => rest.depth
  | block _ _ body _ rest => max (body.depth + 1) rest.depth
  | branches _ body _ alternate _ rest =>
    max (max body.depth alternate.depth + 1) rest.depth

end Layout

/-- The header of a block of this kind, in a context: the context of its body, and
    what the block is with a body. Definitions stand in the main program only. -/
inductive Opens : BlockKind → Context → Line → Context → (List Stmt → Stmt) → Prop
  | ifThen {context : Context} {header : Line} {cond : Expr} :
    LineParser.ifHeader.parse header = .ok cond →
    Opens .ifElse context header context (.ifThen header.number cond)
  | count {context : Context} {header : Line} {var : String} {first last : Expr} :
    LineParser.countHeader.parse header = .ok (var, first, last) →
    Opens .count context header context (.count header.number var first last)
  | whileDo {context : Context} {header : Line} {cond : Expr} :
    LineParser.whileHeader.parse header = .ok cond →
    Opens .whileDo context header context (.whileDo header.number cond)
  | times {context : Context} {header : Line} {number : Expr} :
    LineParser.timesHeader.parse header = .ok number →
    Opens .times context header context (.times header.number number)
  | function {header : Line} {name : String} {params : List String} :
    (LineParser.callableHeader .function).parse header = .ok (name, params) →
    Opens .function .main header .callable (.define header.number .function name params)
  | procedure {header : Line} {name : String} {params : List String} :
    (LineParser.callableHeader .procedure).parse header = .ok (name, params) →
    Opens .procedure .main header .callable (.define header.number .procedure name params)

/-- The statements that a layout stands for in a context. -/
inductive Reads : Context → Layout → List Stmt → Prop
  | done {context : Context} : Reads context .done []
  | statement {context : Context} {line : Line} {rest : Layout} {action : Simple}
    {stmts : List Stmt} :
    BlockKind.ofLine? line = none → (LineParser.simple context line.text).parse line = .ok action →
    Reads context rest stmts →
    Reads context (.statement line rest) (.simple line.number action :: stmts)
  | block {context inner : Context} {kind : BlockKind} {header stop : Line} {body rest : Layout}
    {wrap : List Stmt → Stmt} {inside stmts : List Stmt} :
    Opens kind context header inner wrap → Reads inner body inside →
    stop.Consists [.fim, kind.opener] → Reads context rest stmts →
    Reads context (.block kind header body stop rest) (wrap inside :: stmts)
  | branches {context : Context} {header marker stop : Line} {body alternate rest : Layout}
    {cond : Expr} {inside otherwise stmts : List Stmt} :
    LineParser.ifHeader.parse header = .ok cond → Reads context body inside →
    marker.Consists [.senao] → Reads context alternate otherwise → stop.Consists [.fim, .se] →
    Reads context rest stmts →
    Reads context (.branches header body marker alternate stop rest)
      (.ifElse header.number cond inside otherwise :: stmts)

/-! ## How lines start -/

namespace Line

theorem leading_of_tokens {line : Line} {token : Token} {rest : List Token} {k : Keyword}
    (h : line.tokens = token :: rest) (hk : token.kind = .keyword k) : line.leading = some k := by
  obtain ⟨kind, span⟩ := token
  subst hk
  rw [leading, h]

theorem Consists.leading {line : Line} {k : Keyword} {words : List Keyword}
    (h : line.Consists (k :: words)) : line.leading = some k := by
  obtain ⟨token, rest, htokens, hk, _⟩ := List.map_eq_cons_iff.1 h
  exact leading_of_tokens htokens hk

theorem exists_token_of_leading {line : Line} {k : Keyword} (h : line.leading = some k) :
    ∃ span rest, line.tokens = ⟨.keyword k, span⟩ :: rest := by
  rw [leading] at h
  split at h
  · rename_i k' span rest htokens
    cases h
    exact ⟨span, rest, htokens⟩
  · cases h

end Line

namespace LineParser

/-- A statement does not start like the end of a block, or of its first body. -/
theorem leading_of_simple {context : Context} {line : Line} {action : Simple}
    (h : (simple context line.text).parse line = .ok action) :
    line.leading ≠ some .fim ∧ line.leading ≠ some .senao := by
  obtain ⟨c, hrun⟩ := parse_eq_ok_iff.1 h
  constructor <;>
  · intro hlead
    obtain ⟨span, rest, htokens⟩ := Line.exists_token_of_leading hlead
    rw [htokens] at hrun
    cases hrun

theorem parse_alternateMarker_iff {line : Line} :
    alternateMarker.parse line = .ok () ↔ line.Consists [.senao] := by
  rw [parse_eq_ok_iff]
  constructor
  · rintro ⟨c, h⟩
    obtain ⟨_, c₁, hexpect, hend⟩ := run_bind_eq_ok_iff.1 h
    obtain ⟨token, rest, htokens, hkind, rfl⟩ := run_expect_eq_ok_iff.1 hexpect
    obtain ⟨hrest, _⟩ := run_expectEnd_eq_ok_iff.1 hend
    change rest = [] at hrest
    rw [Line.Consists, show line.tokens = token :: rest from htokens, hrest]
    exact congrArg (fun kind => [kind]) hkind
  · intro h
    obtain ⟨token, rest, htokens, hkind, hrest⟩ := List.map_eq_cons_iff.1 h
    rw [List.map_nil, List.map_eq_nil_iff] at hrest
    subst hrest
    refine ⟨_, run_bind_eq_ok_iff.2 ⟨(), _, run_expect_eq_ok_iff.2 ⟨token, [], htokens, hkind, rfl⟩,
      run_expectEnd_eq_ok_iff.2 ⟨rfl, rfl⟩⟩⟩

end LineParser

/-- The header of a block starts with the opener. -/
theorem Opens.leading {kind : BlockKind} {context inner : Context} {header : Line}
    {wrap : List Stmt → Stmt} (h : Opens kind context header inner wrap) :
    header.leading = some kind.opener := by
  cases h <;>
  · rename_i h
    obtain ⟨c, hrun⟩ := LineParser.parse_eq_ok_iff.1 h
    obtain ⟨token, rest, htokens, hkind⟩ := LineParser.tokens_of_expect_bind hrun
    exact Line.leading_of_tokens htokens hkind

/-- The header of a block is the header of one block only. -/
theorem Opens.unique {kind : BlockKind} {context inner inner' : Context} {header : Line}
    {wrap wrap' : List Stmt → Stmt} (h : Opens kind context header inner wrap)
    (h' : Opens kind context header inner' wrap') : inner = inner' ∧ wrap = wrap' := by
  cases h <;> rename_i h <;> cases h' <;> rename_i h' <;>
  · cases h.symm.trans h'
    exact ⟨rfl, rfl⟩

theorem LineParser.leading_of_ifHeader {header : Line} {cond : Expr}
    (h : ifHeader.parse header = .ok cond) : header.leading = some BlockKind.ifElse.opener :=
  (Opens.ifThen h : Opens .ifElse .main header .main (.ifThen header.number cond)).leading

namespace BlockKind

variable {kind kind' : BlockKind} {line : Line}

theorem opener_injective (h : kind.opener = kind'.opener) : kind = kind' := by
  cases kind <;> cases kind' <;> first | rfl | cases h

theorem opener_ne (kind : BlockKind) : kind.opener ≠ .fim ∧ kind.opener ≠ .senao := by
  cases kind <;> decide

theorem ofLine?_eq_some_iff : ofLine? line = some kind ↔ line.leading = some kind.opener := by
  rw [ofLine?, Option.bind_eq_some_iff]
  constructor
  · rintro ⟨k, hk, hkind⟩
    rw [hk]
    cases k <;> cases hkind <;> rfl
  · intro h
    exact ⟨kind.opener, h, by cases kind <;> rfl⟩

/-- A line that opens no block is not the header of one. -/
theorem ne_header {header : Line} (hline : ofLine? line = none)
    (hheader : header.leading = some kind.opener) : line ≠ header := by
  rintro rfl
  rw [ofLine?_eq_some_iff.2 hheader] at hline
  cases hline

theorem opens_iff : kind.opens line = true ↔ line.leading = some kind.opener := by
  rw [opens, beq_iff_eq]

theorem closes_iff : kind.closes line = true ↔ line.Consists [.fim, kind.opener] := by
  rw [closes, Line.isEndOf, beq_iff_eq]
  rfl

theorem separates_iff :
    kind.separates line = true ↔ kind = .ifElse ∧ line.leading = some .senao := by
  cases kind with
  | ifElse =>
    change (line.leading == some Keyword.senao) = true ↔ _
    rw [beq_iff_eq]
    exact ⟨fun h => ⟨rfl, h⟩, fun h => h.2⟩
  | _ => exact ⟨fun h => (by cases h), fun h => (by cases h.1)⟩

/-! ## Counting -/

variable {index depth : Nat} {alternate : Option Nat} {rest : List Line}

theorem scan_cons : kind.scan index depth alternate (line :: rest) =
    if kind.opens line then kind.scan (index + 1) (depth + 1) alternate rest
    else if kind.closes line then
      match depth with
      | 0 => some ⟨alternate, index⟩
      | depth + 1 => kind.scan (index + 1) depth alternate rest
    else
      kind.scan (index + 1) depth
        (if depth == 0 && alternate.isNone && kind.separates line then some index else alternate)
        rest :=
  scan.eq_def kind index depth alternate (line :: rest)

theorem scan_cons_of_opens (h : line.leading = some kind.opener) :
    kind.scan index depth alternate (line :: rest) =
      kind.scan (index + 1) (depth + 1) alternate rest := by
  rw [scan_cons, if_pos (opens_iff.2 h)]

theorem not_opens_of_consists (h : line.Consists [.fim, kind'.opener]) :
    ¬kind.opens line = true := by
  rw [opens_iff, h.leading, Option.some_inj]
  exact fun h => kind.opener_ne.1 h.symm

theorem scan_cons_of_closes_zero (h : line.Consists [.fim, kind.opener]) :
    kind.scan index 0 alternate (line :: rest) = some ⟨alternate, index⟩ := by
  rw [scan_cons, if_neg (not_opens_of_consists h), if_pos (closes_iff.2 h)]

theorem scan_cons_of_closes_succ (h : line.Consists [.fim, kind.opener]) :
    kind.scan index (depth + 1) alternate (line :: rest) =
      kind.scan (index + 1) depth alternate rest := by
  rw [scan_cons, if_neg (not_opens_of_consists h), if_pos (closes_iff.2 h)]

theorem scan_cons_of_separates (h : line.leading = some .senao) :
    ifElse.scan index 0 none (line :: rest) = ifElse.scan (index + 1) 0 (some index) rest := by
  have hopens : ¬ifElse.opens line = true := by
    rw [opens_iff, h]
    decide
  have hcloses : ¬ifElse.closes line = true := fun hc => by
    rw [(closes_iff.1 hc).leading] at h
    cases h
  rw [scan_cons, if_neg hopens, if_neg hcloses, separates_iff.2 ⟨rfl, h⟩]
  rfl

/-- A line that does not matter for the kind that is counted. -/
theorem scan_cons_of_neither (ho : line.leading ≠ some kind.opener)
    (hc : ¬line.Consists [.fim, kind.opener])
    (hs : line.leading = some .senao → kind = .ifElse → depth ≠ 0) :
    kind.scan index depth alternate (line :: rest) =
      kind.scan (index + 1) depth alternate rest := by
  rw [scan_cons, if_neg (mt opens_iff.1 ho), if_neg (mt closes_iff.1 hc)]
  have hfound : (depth == 0 && alternate.isNone && kind.separates line) = false := by
    cases hsep : kind.separates line with
    | false => rw [Bool.and_false]
    | true =>
      obtain ⟨hkind, hlead⟩ := separates_iff.1 hsep
      rw [beq_false_of_ne (hs hlead hkind), Bool.false_and, Bool.false_and]
  rw [hfound]
  rfl

/-- A header of another kind does not matter. -/
theorem scan_cons_of_header (h : line.leading = some kind'.opener) (hne : kind' ≠ kind) :
    kind.scan index depth alternate (line :: rest) =
      kind.scan (index + 1) depth alternate rest := by
  apply scan_cons_of_neither
  · intro hl
    exact hne (opener_injective (Option.some_inj.1 (h.symm.trans hl)))
  · intro hc
    exact kind'.opener_ne.1 (Option.some_inj.1 (h.symm.trans hc.leading))
  · intro hl
    exact absurd (Option.some_inj.1 (h.symm.trans hl)) kind'.opener_ne.2

/-- Nor does the end of a block of another kind. -/
theorem scan_cons_of_stop (h : line.Consists [.fim, kind'.opener]) (hne : kind' ≠ kind) :
    kind.scan index depth alternate (line :: rest) =
      kind.scan (index + 1) depth alternate rest := by
  apply scan_cons_of_neither
  · rw [h.leading]
    exact fun hl => kind.opener_ne.1 (Option.some_inj.1 hl).symm
  · intro hc
    rw [Line.Consists, h] at hc
    simp only [List.map_cons, List.map_nil, List.cons.injEq, and_true, true_and,
      TokenKind.keyword.injEq] at hc
    exact hne (opener_injective hc)
  · intro hl
    rw [h.leading] at hl
    cases hl

/-- Counting passes over a block if it passes over what is inside, which is one
    level deeper if the block is of the kind that is counted. -/
theorem scan_enclosed {header stop : Line} {inside : List Line}
    (hheader : header.leading = some kind'.opener) (hstop : stop.Consists [.fim, kind'.opener])
    (hinside : ∀ index depth rest, (kind' = kind → depth ≠ 0) →
      kind.scan index depth alternate (inside ++ rest) =
        kind.scan (index + inside.length) depth alternate rest) :
    kind.scan index depth alternate (header :: (inside ++ stop :: rest)) =
      kind.scan (index + (inside.length + 2)) depth alternate rest := by
  have hindex : index + 1 + inside.length + 1 = index + (inside.length + 2) := by omega
  by_cases hkind : kind' = kind
  · subst hkind
    rw [scan_cons_of_opens hheader, hinside _ _ _ (fun _ => Nat.succ_ne_zero depth),
      scan_cons_of_closes_succ hstop, hindex]
  · rw [scan_cons_of_header hheader hkind, hinside _ _ _ (fun h => absurd h hkind),
      scan_cons_of_stop hstop hkind, hindex]

variable (kind) in
/-- What counting finds in lines from position `index` on: a line that closes the
    block, and before it a marker, unless the alternate marker was known already or
    there is none. -/
def Delimits (index : Nat) (alternate : Option Nat) (lines : List Line) (extent : BlockExtent) :
    Prop :=
  ∃ before stop after, lines = before ++ stop :: after ∧ stop.Consists [.fim, kind.opener] ∧
    extent.stop = index + before.length ∧
    (extent.alternate = alternate ∨ alternate = none ∧ kind = .ifElse ∧
      ∃ inside marker otherwise, before = inside ++ marker :: otherwise ∧
        extent.alternate = some (index + inside.length))

variable {extent : BlockExtent} {lines : List Line}

/-- A line that is no marker puts everything one line further on. -/
theorem Delimits.cons (h : kind.Delimits (index + 1) alternate lines extent) (line : Line) :
    kind.Delimits index alternate (line :: lines) extent := by
  obtain ⟨before, stop, after, rfl, hstop, hindex, hbefore⟩ := h
  refine ⟨line :: before, stop, after, rfl, hstop, by rw [hindex, List.length_cons]; omega, ?_⟩
  rcases hbefore with hsame | ⟨hnone, hkind, inside, marker, otherwise, rfl, hmarker⟩
  · exact .inl hsame
  · refine .inr ⟨hnone, hkind, line :: inside, marker, otherwise, rfl, ?_⟩
    rw [hmarker, List.length_cons]
    congr 1
    omega

theorem Delimits.cons_marker (h : ifElse.Delimits (index + 1) (some index) lines extent)
    (marker : Line) : ifElse.Delimits index none (marker :: lines) extent := by
  obtain ⟨before, stop, after, rfl, hstop, hindex, hbefore⟩ := h
  refine ⟨marker :: before, stop, after, rfl, hstop, by rw [hindex, List.length_cons]; omega, ?_⟩
  rcases hbefore with hsame | ⟨hnone, _⟩
  · exact .inr ⟨rfl, rfl, [], marker, before, rfl, hsame⟩
  · cases hnone

/-- Counting finds a line that closes the block, and a marker before it if the
    block has two bodies. -/
theorem delimits_of_scan (h : kind.scan index depth alternate lines = some extent) :
    kind.Delimits index alternate lines extent := by
  induction lines generalizing index depth alternate with
  | nil => cases h
  | cons line lines ih =>
    rw [scan_cons] at h
    split at h
    · exact (ih h).cons line
    · split at h
      · rename_i hcloses
        cases depth with
        | zero =>
          cases h
          exact ⟨[], line, lines, rfl, closes_iff.1 hcloses, rfl, .inl rfl⟩
        | succ depth => exact (ih h).cons line
      · cases hfound : (depth == 0 && alternate.isNone && kind.separates line) with
        | false =>
          rw [hfound] at h
          exact (ih h).cons line
        | true =>
          rw [hfound] at h
          simp only [Bool.and_eq_true, Option.isNone_iff_eq_none] at hfound
          obtain ⟨⟨_, rfl⟩, hsep⟩ := hfound
          obtain ⟨rfl, _⟩ := separates_iff.1 hsep
          exact (ih h).cons_marker line

end BlockKind

namespace Reads

variable {context : Context} {t : Layout} {stmts : List Stmt}

open BlockKind in
/-- Counting passes over the lines of a layout: whatever it opens, it closes, and a
    marker stands only between its own bodies. -/
theorem scan_append (h : Reads context t stmts) (kind : BlockKind) (index depth : Nat)
    (alternate : Option Nat) (rest : List Line) :
    kind.scan index depth alternate (t.lines ++ rest) =
      kind.scan (index + t.lines.length) depth alternate rest := by
  induction h generalizing index depth rest with
  | done => rfl
  | @statement _ line _ _ _ hkind hsimple _ ih =>
    obtain ⟨hfim, hsenao⟩ := LineParser.leading_of_simple hsimple
    have hopens : line.leading ≠ some kind.opener := fun hl => by
      rw [ofLine?_eq_some_iff.2 hl] at hkind
      cases hkind
    rw [Layout.lines, List.cons_append, scan_cons_of_neither hopens (fun hc => hfim hc.leading)
      (fun hl => absurd hl hsenao), ih, List.length_cons]
    congr 1
    omega
  | @block _ _ kind' header stop body tail _ _ _ hopens _ hstop _ ihbody ihrest =>
    rw [Layout.lines, List.cons_append, List.append_assoc, List.cons_append,
      scan_enclosed hopens.leading hstop fun index depth rest _ => ihbody index depth rest, ihrest]
    simp only [List.length_cons, List.length_append]
    congr 1
    omega
  | @branches _ header marker stop body other tail _ _ _ _ hheader _ hmarker _ hstop _ ihbody
      ihother ihrest =>
    -- Only a block of its own kind counts markers, and then this one is a level deeper.
    have hinside : ∀ index depth rest, (ifElse = kind → depth ≠ 0) →
        kind.scan index depth alternate ((body.lines ++ marker :: other.lines) ++ rest) =
          kind.scan (index + (body.lines ++ marker :: other.lines).length) depth alternate
            rest := by
      intro index depth rest hdepth
      have hopens : marker.leading ≠ some kind.opener := by
        rw [hmarker.leading]
        exact fun hl => kind.opener_ne.2 (Option.some_inj.1 hl).symm
      have hcloses : ¬marker.Consists [.fim, kind.opener] := fun hc => by
        cases hmarker.leading.symm.trans hc.leading
      rw [List.append_assoc, ihbody, List.cons_append,
        scan_cons_of_neither hopens hcloses (fun _ hkind => hdepth hkind.symm), ihother,
        List.length_append, List.length_cons]
      congr 1
      omega
    have hlines : (Layout.branches header body marker other stop tail).lines ++ rest =
        header :: ((body.lines ++ marker :: other.lines) ++ stop :: (tail.lines ++ rest)) := by
      simp only [Layout.lines, List.cons_append, List.append_assoc]
    rw [hlines, scan_enclosed (LineParser.leading_of_ifHeader hheader) hstop hinside, ihrest]
    simp only [Layout.lines, List.length_cons, List.length_append]
    congr 1
    omega

/-! ## Unambiguity -/

/-- Lines that are none, or that start like the end of a block or of its first
    body. -/
def Stops (lines : List Line) : Prop :=
  ∀ line ∈ lines.head?, line.leading = some .fim ∨ line.leading = some .senao

theorem stops_nil : Stops [] := fun _ h => by cases h

theorem stops_of_consists {line : Line} {lines : List Line} {k : Keyword} {words : List Keyword}
    (h : line.Consists (k :: words)) (hk : k = .fim ∨ k = .senao) : Stops (line :: lines) := by
  rintro _ ⟨⟩
  rw [h.leading, Option.some_inj, Option.some_inj]
  exact hk

/-- No layout but the empty one starts like the end of a block. -/
theorem eq_done_of_stops (h : Reads context t stmts) {lines rest : List Line}
    (heq : t.lines ++ rest = lines) (hs : Stops lines) : t = .done := by
  subst heq
  have hblock {kind : BlockKind} {header : Line} (hopens : header.leading = some kind.opener)
      (hline : header.leading = some .fim ∨ header.leading = some .senao) : False := by
    rw [hopens, Option.some_inj, Option.some_inj] at hline
    exact hline.elim kind.opener_ne.1 kind.opener_ne.2
  cases h with
  | done => rfl
  | statement _ hsimple _ =>
    obtain ⟨hfim, hsenao⟩ := LineParser.leading_of_simple hsimple
    exact absurd (hs _ rfl) (not_or.2 ⟨hfim, hsenao⟩)
  | block hopens _ _ _ => exact (hblock hopens.leading (hs _ rfl)).elim
  | branches hheader _ _ _ _ _ =>
    exact (hblock (LineParser.leading_of_ifHeader hheader) (hs _ rfl)).elim

/-- Lines start with at most one layout that is followed by the end of a block, or
    by nothing. -/
theorem append_inj (h : Reads context t stmts) {context' : Context} {t' : Layout}
    {stmts' : List Stmt} (h' : Reads context' t' stmts') {rest rest' : List Line}
    (hr : Stops rest) (hr' : Stops rest') (heq : t.lines ++ rest = t'.lines ++ rest') :
    t = t' ∧ rest = rest' := by
  induction h generalizing context' t' stmts' rest rest' with
  | done =>
    have hdone : t' = .done := h'.eq_done_of_stops heq.symm hr
    subst hdone
    exact ⟨rfl, heq⟩
  | statement hkind hsimple hrest ih =>
    cases h' with
    | done => cases (statement hkind hsimple hrest).eq_done_of_stops heq hr'
    | statement _ _ hrest' =>
      obtain ⟨rfl, htail⟩ := List.cons.inj heq
      obtain ⟨rfl, rfl⟩ := ih hrest' hr hr' htail
      exact ⟨rfl, rfl⟩
    | block hopens _ _ _ =>
      exact absurd (List.cons.inj heq).1 (BlockKind.ne_header hkind hopens.leading)
    | branches hheader _ _ _ _ _ =>
      exact absurd (List.cons.inj heq).1
        (BlockKind.ne_header hkind (LineParser.leading_of_ifHeader hheader))
  | block hopens hbody hstop hrest ihbody ihrest =>
    cases h' with
    | done => cases (block hopens hbody hstop hrest).eq_done_of_stops heq hr'
    | statement hkind _ _ =>
      exact absurd (List.cons.inj heq).1.symm (BlockKind.ne_header hkind hopens.leading)
    | block hopens' hbody' hstop' hrest' =>
      simp only [Layout.lines, List.cons_append, List.append_assoc, List.cons.injEq] at heq
      obtain ⟨rfl, hinside⟩ := heq
      obtain rfl := BlockKind.opener_injective
        (Option.some_inj.1 (hopens.leading.symm.trans hopens'.leading))
      obtain ⟨rfl, htail⟩ := ihbody hbody' (stops_of_consists hstop (.inl rfl))
        (stops_of_consists hstop' (.inl rfl)) hinside
      obtain ⟨rfl, hafter⟩ := List.cons.inj htail
      obtain ⟨rfl, rfl⟩ := ihrest hrest' hr hr' hafter
      exact ⟨rfl, rfl⟩
    | branches _ hbody' hmarker' _ _ _ =>
      -- The first body would end both with the block and with a marker.
      simp only [Layout.lines, List.cons_append, List.append_assoc, List.cons.injEq] at heq
      obtain ⟨_, htail⟩ := ihbody hbody' (stops_of_consists hstop (.inl rfl))
        (stops_of_consists hmarker' (.inr rfl)) heq.2
      obtain ⟨rfl, _⟩ := List.cons.inj htail
      cases hstop.leading.symm.trans hmarker'.leading
  | branches hheader hbody hmarker hother hstop hrest ihbody ihother ihrest =>
    cases h' with
    | done =>
      cases (branches hheader hbody hmarker hother hstop hrest).eq_done_of_stops heq hr'
    | statement hkind _ _ =>
      exact absurd (List.cons.inj heq).1.symm
        (BlockKind.ne_header hkind (LineParser.leading_of_ifHeader hheader))
    | block _ hbody' hstop' _ =>
      simp only [Layout.lines, List.cons_append, List.append_assoc, List.cons.injEq] at heq
      obtain ⟨_, htail⟩ := ihbody hbody' (stops_of_consists hmarker (.inr rfl))
        (stops_of_consists hstop' (.inl rfl)) heq.2
      obtain ⟨rfl, _⟩ := List.cons.inj htail
      cases hmarker.leading.symm.trans hstop'.leading
    | branches _ hbody' hmarker' hother' hstop' hrest' =>
      simp only [Layout.lines, List.cons_append, List.append_assoc, List.cons.injEq] at heq
      obtain ⟨rfl, hinside⟩ := heq
      obtain ⟨rfl, htail⟩ := ihbody hbody' (stops_of_consists hmarker (.inr rfl))
        (stops_of_consists hmarker' (.inr rfl)) hinside
      obtain ⟨rfl, hother⟩ := List.cons.inj htail
      obtain ⟨rfl, hstops⟩ := ihother hother' (stops_of_consists hstop (.inl rfl))
        (stops_of_consists hstop' (.inl rfl)) hother
      obtain ⟨rfl, hafter⟩ := List.cons.inj hstops
      obtain ⟨rfl, rfl⟩ := ihrest hrest' hr hr' hafter
      exact ⟨rfl, rfl⟩

/-- A layout stands for one list of statements. -/
theorem stmts_unique (h : Reads context t stmts) {stmts' : List Stmt}
    (h' : Reads context t stmts') : stmts = stmts' := by
  induction h generalizing stmts' with
  | done =>
    cases h'
    rfl
  | statement _ hsimple _ ih =>
    cases h' with
    | statement _ hsimple' hrest' =>
      cases hsimple.symm.trans hsimple'
      rw [ih hrest']
  | block hopens _ _ _ ihbody ihrest =>
    cases h' with
    | block hopens' hbody' _ hrest' =>
      obtain ⟨rfl, rfl⟩ := hopens.unique hopens'
      rw [ihbody hbody', ihrest hrest']
  | branches hheader _ _ _ _ _ ihbody ihother ihrest =>
    cases h' with
    | branches hheader' hbody' _ hother' _ hrest' =>
      cases hheader.symm.trans hheader'
      rw [ihbody hbody', ihother hother', ihrest hrest']

end Reads

end Portugol
