import Portugol.Proofs.Layout

/-!
# Reading blocks

Lines are read as statements by finding the end of each block and reading what is
inside, one level deeper. What this accepts is the grammar of blocks, for every
list of lines.

* `Program.items_complete`: what has a layout is read, as counting finds the ends of
  its blocks.
* `Program.items_sound`: what is read has a layout, as what is inside of a block is
  read as well.
* `Program.bodyIn_eq_ok_iff_reads`: lines are read as statements exactly if they
  have a layout that stands for them, with blocks no deeper than allowed, and no
  lines have two.
-/

namespace Portugol.Program

variable {inner : BodyParser} {context : Context} {kind : BlockKind} {header : Line}

/-! ## One block -/

/-- The lines of a block between its header and its end are its body. -/
theorem slice_cons_append (header stop : Line) (before after : List Line) :
    slice (header :: (before ++ stop :: after)) (1, before.length + 1) = before := by
  rw [slice, List.take_succ_cons, List.take_left, List.drop_one, List.tail_cons]

/-- Those behind the marker are its second body. -/
theorem slice_cons_append_cons (header marker stop : Line) (inside otherwise after : List Line) :
    slice (header :: (inside ++ marker :: otherwise ++ stop :: after))
      (inside.length + 2, (inside ++ marker :: otherwise).length + 1) = otherwise := by
  rw [slice, List.take_succ_cons, List.take_left, List.drop_succ_cons, List.drop_append,
    List.drop_eq_nil_of_le (Nat.le_succ _), Nat.add_sub_cancel_left, List.nil_append,
    List.drop_one, List.tail_cons]

theorem findEnd_zero_eq_ok_iff {rest : List Line} {extent : BlockExtent} :
    kind.findEnd (header :: rest) 0 = .ok extent ↔ kind.scan 1 0 none rest = some extent := by
  rw [BlockKind.findEnd, List.drop_one, List.tail_cons]
  cases kind.scan (0 + 1) 0 none rest with
  | none => exact ⟨fun h => (by cases h), fun h => (by cases h)⟩
  | some found => simp only [Except.ok.injEq, Option.some.injEq]

/-- A definition is read if its header is, in the main program, and its body in a
    callable. -/
theorem definition_eq_ok_iff {callable : CallableKind} {body : List Line} {stmt : Stmt} :
    definition inner context callable header body = .ok stmt ↔
      ∃ name params inside, context = .main ∧
        (LineParser.callableHeader callable).parse header = .ok (name, params) ∧
        inner .callable body = .ok inside ∧
        stmt = .define header.number callable name params inside := by
  cases context with
  | callable => exact ⟨fun h => (by cases h), fun ⟨_, _, _, h, _⟩ => (by cases h)⟩
  | main =>
    change (LineParser.callableHeader callable).parse header >>= _ = _ ↔ _
    simp only [Fault.bind_eq_ok_iff]
    constructor
    · rintro ⟨⟨name, params⟩, hheader, inside, hinside, hstmt⟩
      exact ⟨name, params, inside, trivial, hheader, hinside, (Except.ok.inj hstmt).symm⟩
    · rintro ⟨name, params, inside, -, hheader, hinside, rfl⟩
      exact ⟨(name, params), hheader, inside, hinside, rfl⟩

/-- A block with one body is read if its header opens it and its body is read. -/
theorem block_eq_ok_iff {lines body : List Line} {extent : BlockExtent} {stmt : Stmt}
    (hextent : extent.alternate = none) (hbody : slice lines (1, extent.stop) = body) :
    block inner context kind header lines extent = .ok stmt ↔
      ∃ context' wrap inside, Opens kind context header context' wrap ∧
        inner context' body = .ok inside ∧ stmt = wrap inside := by
  have hslice : slice lines (extent.body 0) = body := by
    rw [BlockExtent.body, hextent]
    exact hbody
  cases kind with
  | ifElse =>
    simp only [block, hslice, hextent, Fault.bind_eq_ok_iff]
    constructor
    · rintro ⟨cond, hheader, inside, hinside, hstmt⟩
      exact ⟨context, _, inside, .ifThen hheader, hinside, (Except.ok.inj hstmt).symm⟩
    · rintro ⟨_, _, inside, hopens, hinside, rfl⟩
      cases hopens with
      | ifThen hheader => exact ⟨_, hheader, inside, hinside, rfl⟩
  | count =>
    simp only [block, hslice, Fault.bind_eq_ok_iff]
    constructor
    · rintro ⟨⟨var, first, last⟩, hheader, inside, hinside, hstmt⟩
      exact ⟨context, _, inside, .count hheader, hinside, (Except.ok.inj hstmt).symm⟩
    · rintro ⟨_, _, inside, hopens, hinside, rfl⟩
      cases hopens with
      | count hheader => exact ⟨_, hheader, inside, hinside, rfl⟩
  | whileDo =>
    simp only [block, hslice, Fault.bind_eq_ok_iff]
    constructor
    · rintro ⟨cond, hheader, inside, hinside, hstmt⟩
      exact ⟨context, _, inside, .whileDo hheader, hinside, (Except.ok.inj hstmt).symm⟩
    · rintro ⟨_, _, inside, hopens, hinside, rfl⟩
      cases hopens with
      | whileDo hheader => exact ⟨_, hheader, inside, hinside, rfl⟩
  | times =>
    simp only [block, hslice, Fault.bind_eq_ok_iff]
    constructor
    · rintro ⟨number, hheader, inside, hinside, hstmt⟩
      exact ⟨context, _, inside, .times hheader, hinside, (Except.ok.inj hstmt).symm⟩
    · rintro ⟨_, _, inside, hopens, hinside, rfl⟩
      cases hopens with
      | times hheader => exact ⟨_, hheader, inside, hinside, rfl⟩
  | function =>
    simp only [block, hslice, definition_eq_ok_iff]
    constructor
    · rintro ⟨name, params, inside, rfl, hheader, hinside, hstmt⟩
      exact ⟨.callable, _, inside, .function hheader, hinside, hstmt⟩
    · rintro ⟨_, _, inside, hopens, hinside, rfl⟩
      cases hopens with
      | function hheader => exact ⟨_, _, inside, rfl, hheader, hinside, rfl⟩
  | procedure =>
    simp only [block, hslice, definition_eq_ok_iff]
    constructor
    · rintro ⟨name, params, inside, rfl, hheader, hinside, hstmt⟩
      exact ⟨.callable, _, inside, .procedure hheader, hinside, hstmt⟩
    · rintro ⟨_, _, inside, hopens, hinside, rfl⟩
      cases hopens with
      | procedure hheader => exact ⟨_, _, inside, rfl, hheader, hinside, rfl⟩

/-- A block with two bodies is read if they are, and what is between them is nothing
    but the marker. -/
theorem block_ifElse_eq_ok_iff {lines body otherBody : List Line} {marker : Line}
    {middle stop : Nat} {stmt : Stmt} (hbody : slice lines (1, middle) = body)
    (hmarker : lines[middle]? = some marker)
    (hother : slice lines (middle + 1, stop) = otherBody) :
    block inner context .ifElse header lines ⟨some middle, stop⟩ = .ok stmt ↔
      ∃ cond inside otherwise, LineParser.ifHeader.parse header = .ok cond ∧
        inner context body = .ok inside ∧ marker.Consists [.senao] ∧
        inner context otherBody = .ok otherwise ∧
        stmt = .ifElse header.number cond inside otherwise := by
  have hslice : slice lines (BlockExtent.body ⟨some middle, stop⟩ 0) = body := hbody
  simp only [block, hslice, hmarker, hother, Fault.bind_eq_ok_iff]
  constructor
  · rintro ⟨cond, hheader, inside, hinside, _, hconsists, otherwise, hotherwise, hstmt⟩
    exact ⟨cond, inside, otherwise, hheader, hinside,
      LineParser.parse_alternateMarker_iff.1 hconsists, hotherwise, (Except.ok.inj hstmt).symm⟩
  · rintro ⟨cond, inside, otherwise, hheader, hinside, hconsists, hotherwise, rfl⟩
    exact ⟨cond, hheader, inside, hinside, (), LineParser.parse_alternateMarker_iff.2 hconsists,
      otherwise, hotherwise, rfl⟩

/-! ## One line or block at the start -/

theorem items_nil (inner : Option BodyParser) : items inner context [] = .ok [] := by
  rw [items]
  rfl

theorem items_statement_eq_ok_iff {inner : Option BodyParser} {rest : List Line}
    {stmts : List Stmt} (hkind : BlockKind.ofLine? header = none) :
    items inner context (header :: rest) = .ok stmts ↔
      ∃ action others, (LineParser.simple context header.text).parse header = .ok action ∧
        items inner context rest = .ok others ∧
        stmts = .simple header.number action :: others := by
  rw [items, hkind]
  simp only [Fault.bind_eq_ok_iff]
  constructor
  · rintro ⟨action, haction, others, hothers, hstmts⟩
    exact ⟨action, others, haction, hothers, (Except.ok.inj hstmts).symm⟩
  · rintro ⟨action, others, haction, hothers, rfl⟩
    exact ⟨action, haction, others, hothers, rfl⟩

theorem items_block_eq_ok_iff {rest : List Line} {stmts : List Stmt}
    (hkind : BlockKind.ofLine? header = some kind) :
    items (some inner) context (header :: rest) = .ok stmts ↔
      ∃ extent stmt others, kind.scan 1 0 none rest = some extent ∧
        block inner context kind header (header :: rest) extent = .ok stmt ∧
        items (some inner) context (rest.drop extent.stop) = .ok others ∧
        stmts = stmt :: others := by
  rw [items, hkind]
  simp only [Fault.bind_eq_ok_iff, findEnd_zero_eq_ok_iff]
  constructor
  · rintro ⟨extent, hextent, stmt, hstmt, others, hothers, hstmts⟩
    exact ⟨extent, stmt, others, hextent, hstmt, hothers, (Except.ok.inj hstmts).symm⟩
  · rintro ⟨extent, stmt, others, hextent, hstmt, hothers, rfl⟩
    exact ⟨extent, hextent, stmt, hstmt, others, hothers, rfl⟩

/-- Without room no block is read. -/
theorem items_none_block_ne_ok {rest : List Line} {stmts : List Stmt}
    (hkind : BlockKind.ofLine? header = some kind) :
    items none context (header :: rest) ≠ .ok stmts := by
  rw [items, hkind]
  intro h
  cases h

/-! ## All lines -/

variable {room : Nat} {t : Layout} {stmts : List Stmt}

theorem drop_succ_length_append (before after : List Line) (stop : Line) :
    (before ++ stop :: after).drop (before.length + 1) = after := by
  rw [List.drop_append, List.drop_eq_nil_of_le (Nat.le_succ _), Nat.add_sub_cancel_left,
    List.nil_append, List.drop_one, List.tail_cons]

/-- A layout is read, if what is inside of its blocks is. -/
theorem items_complete {inner : Option BodyParser}
    (hinner : ∀ {context t stmts}, Reads context t stmts → t.depth < room →
      ∃ parser, inner = some parser ∧ parser context t.lines = .ok stmts)
    (h : Reads context t stmts) (hdepth : t.depth ≤ room) :
    items inner context t.lines = .ok stmts := by
  induction h with
  | done => exact items_nil inner
  | statement hkind hsimple _ ih =>
    exact (items_statement_eq_ok_iff hkind).2 ⟨_, _, hsimple, ih hdepth, rfl⟩
  | @block _ _ _ _ stop body rest _ _ _ hopens hbody hstop _ _ ihrest =>
    rw [Layout.depth, Nat.max_le] at hdepth
    obtain ⟨parser, rfl, hinside⟩ := hinner hbody hdepth.1
    refine (items_block_eq_ok_iff (BlockKind.ofLine?_eq_some_iff.2 hopens.leading)).2
      ⟨⟨none, body.lines.length + 1⟩, _, _, ?_, ?_, ?_, rfl⟩
    · -- Counting passes over the body, so that the first line to close the block is its own.
      rw [hbody.scan_append, BlockKind.scan_cons_of_closes_zero hstop, Nat.add_comm]
    · exact (block_eq_ok_iff rfl (slice_cons_append _ _ _ _)).2 ⟨_, _, _, hopens, hinside, rfl⟩
    · rw [drop_succ_length_append]
      exact ihrest hdepth.2
  | @branches _ _ marker stop body other rest _ _ _ _ hheader hbody hmarker hother hstop _ _ _
      ihrest =>
    rw [Layout.depth, Nat.max_le, Nat.succ_le_iff, Nat.max_lt] at hdepth
    obtain ⟨parser, rfl, hinside⟩ := hinner hbody hdepth.1.1
    obtain ⟨_, ⟨⟩, hotherwise⟩ := hinner hother hdepth.1.2
    have hlines : body.lines ++ marker :: (other.lines ++ stop :: rest.lines) =
        (body.lines ++ marker :: other.lines) ++ stop :: rest.lines := by
      rw [List.append_assoc, List.cons_append]
    refine (items_block_eq_ok_iff (BlockKind.ofLine?_eq_some_iff.2
      (LineParser.leading_of_ifHeader hheader))).2
      ⟨⟨some (body.lines.length + 1), (body.lines ++ marker :: other.lines).length + 1⟩, _, _,
        ?_, ?_, ?_, rfl⟩
    · rw [hbody.scan_append, BlockKind.scan_cons_of_separates hmarker.leading, hother.scan_append,
        BlockKind.scan_cons_of_closes_zero hstop, List.length_append, List.length_cons]
      simp only [Option.some.injEq, BlockExtent.mk.injEq]
      constructor <;> omega
    · refine (block_ifElse_eq_ok_iff (slice_cons_append _ _ _ _) ?_ ?_).2
        ⟨_, _, _, hheader, hinside, hmarker, hotherwise, rfl⟩
      · rw [List.getElem?_cons_succ, List.getElem?_append_right (Nat.le_refl _), Nat.sub_self]
        rfl
      · rw [hlines]
        exact slice_cons_append_cons _ _ _ _ _ _
    · rw [hlines, drop_succ_length_append]
      exact ihrest hdepth.2

/-- A block that is read, in front of a layout, if what is inside of it has a
    layout. -/
theorem exists_layout_of_block
    (hinner : ∀ {context lines stmts}, inner context lines = .ok stmts →
      ∃ t : Layout, t.lines = lines ∧ t.depth < room ∧ Reads context t stmts)
    {rest : List Line} {extent : BlockExtent} {stmt : Stmt}
    (hscan : kind.scan 1 0 none rest = some extent)
    (hblock : block inner context kind header (header :: rest) extent = .ok stmt)
    (hlines : t.lines = rest.drop extent.stop) (hdepth : t.depth ≤ room)
    (ht : Reads context t stmts) :
    ∃ t : Layout, t.lines = header :: rest ∧ t.depth ≤ room ∧ Reads context t (stmt :: stmts) := by
  -- Counting gives where the block is to end; reading it gives the rest.
  obtain ⟨before, stop, after, rfl, hstop, hindex, hbefore⟩ := BlockKind.delimits_of_scan hscan
  obtain ⟨alternate, index⟩ := extent
  rw [Nat.add_comm] at hindex
  subst hindex
  rw [drop_succ_length_append] at hlines
  subst hlines
  rcases hbefore with rfl | ⟨-, rfl, inside, marker, otherwise, rfl, hmiddle⟩
  · obtain ⟨context', wrap, stmts', hopens, hbody, rfl⟩ :=
      (block_eq_ok_iff rfl (slice_cons_append _ _ _ _)).1 hblock
    obtain ⟨body, rfl, hbodyDepth, hbody⟩ := hinner hbody
    exact ⟨.block kind header body stop t, rfl, Nat.max_le.2 ⟨hbodyDepth, hdepth⟩,
      .block hopens hbody hstop ht⟩
  · rw [Nat.add_comm 1] at hmiddle
    subst hmiddle
    have hmarker :
        (header :: (inside ++ marker :: otherwise ++ stop :: t.lines))[inside.length + 1]? =
          some marker := by
      rw [List.getElem?_cons_succ, List.append_assoc,
        List.getElem?_append_right (Nat.le_refl _), Nat.sub_self]
      rfl
    have hbody : slice (header :: (inside ++ marker :: otherwise ++ stop :: t.lines))
        (1, inside.length + 1) = inside := by
      rw [List.append_assoc, List.cons_append]
      exact slice_cons_append _ _ _ _
    obtain ⟨cond, stmts₁, stmts₂, hheader, hfirst, hconsists, hsecond, rfl⟩ :=
      (block_ifElse_eq_ok_iff hbody hmarker (slice_cons_append_cons _ _ _ _ _ _)).1 hblock
    obtain ⟨body, rfl, hbodyDepth, hfirst⟩ := hinner hfirst
    obtain ⟨other, rfl, hotherDepth, hsecond⟩ := hinner hsecond
    refine ⟨.branches header body marker other stop t, ?_,
      Nat.max_le.2 ⟨Nat.max_lt.2 ⟨hbodyDepth, hotherDepth⟩, hdepth⟩,
      .branches hheader hfirst hconsists hsecond hstop ht⟩
    rw [Layout.lines, List.append_assoc, List.cons_append]

/-- What is read has a layout, if what is inside of its blocks has one. -/
theorem items_sound {inner : Option BodyParser}
    (hinner : ∀ {parser}, inner = some parser → ∀ {context lines stmts},
      parser context lines = .ok stmts → ∃ t : Layout, t.lines = lines ∧ t.depth < room ∧
        Reads context t stmts)
    {lines : List Line} (h : items inner context lines = .ok stmts) :
    ∃ t : Layout, t.lines = lines ∧ t.depth ≤ room ∧ Reads context t stmts := by
  -- By induction on the number of lines: behind a block there are fewer of them.
  induction hn : lines.length using Nat.strongRecOn generalizing lines stmts with
  | ind n ih =>
    subst hn
    match lines with
    | [] =>
      rw [items_nil] at h
      cases h
      exact ⟨.done, rfl, Nat.zero_le room, .done⟩
    | header :: rest =>
      cases hkind : BlockKind.ofLine? header with
      | none =>
        obtain ⟨action, others, hsimple, hothers, rfl⟩ := (items_statement_eq_ok_iff hkind).1 h
        obtain ⟨t, rfl, hdepth, hreads⟩ := ih _ (Nat.lt_succ_self _) hothers rfl
        exact ⟨.statement header t, rfl, hdepth, .statement hkind hsimple hreads⟩
      | some kind =>
        cases inner with
        | none => exact absurd h (items_none_block_ne_ok hkind)
        | some parser =>
          obtain ⟨extent, stmt, others, hscan, hblock, hothers, rfl⟩ :=
            (items_block_eq_ok_iff hkind).1 h
          have hshorter : (rest.drop extent.stop).length < (header :: rest).length := by
            rw [List.length_drop, List.length_cons]
            omega
          obtain ⟨t, hlines, hdepth, hreads⟩ := ih _ hshorter hothers rfl
          exact exists_layout_of_block (hinner rfl) hscan hblock hlines hdepth hreads

/-- With `room` levels of blocks left, lines are read as what their layout stands
    for, if they have one that deep. -/
theorem bodyIn_eq_ok_iff {lines : List Line} :
    bodyIn room context lines = .ok stmts ↔
      ∃ t : Layout, t.lines = lines ∧ t.depth ≤ room ∧ Reads context t stmts := by
  induction room generalizing context lines stmts with
  | zero =>
    constructor
    · exact items_sound fun h => (by cases h)
    · rintro ⟨t, rfl, hdepth, hreads⟩
      exact items_complete (fun _ h => absurd h (Nat.not_lt_zero _)) hreads hdepth
  | succ room ih =>
    constructor
    · intro h
      refine items_sound ?_ h
      rintro _ ⟨⟩ context lines stmts hinside
      obtain ⟨t, hlines, hdepth, hreads⟩ := ih.1 hinside
      exact ⟨t, hlines, Nat.lt_succ_of_le hdepth, hreads⟩
    · rintro ⟨t, rfl, hdepth, hreads⟩
      refine items_complete (fun hinside h => ?_) hreads hdepth
      exact ⟨bodyIn room, rfl, ih.2 ⟨_, rfl, Nat.le_of_lt_succ h, hinside⟩⟩

/-- Lines are read as statements exactly if the grammar of blocks says so, and it
    says so in one way: whatever layouts the lines have, they are the same, and they
    stand for the same. -/
theorem bodyIn_eq_ok_iff_reads (context : Context) (lines : List Line) :
    (∀ stmts, bodyIn maxBlocks context lines = .ok stmts ↔
      ∃ t : Layout, t.lines = lines ∧ t.depth ≤ 256 ∧ Reads context t stmts) ∧
    ∀ t t' stmts stmts', t.lines = lines → t'.lines = lines → Reads context t stmts →
      Reads context t' stmts' → t = t' ∧ stmts = stmts' := by
  refine ⟨fun stmts => bodyIn_eq_ok_iff, ?_⟩
  rintro t t' stmts stmts' rfl heq h h'
  obtain ⟨rfl, -⟩ := h.append_inj h' Reads.stops_nil Reads.stops_nil (by rw [heq])
  exact ⟨rfl, h.stmts_unique h'⟩

/-- A choice between a loop and a line. -/
def choiceOfLoop : Layout :=
  let line (number : Nat) (kinds : List TokenKind) : Line :=
    { number, text := "", tokens := kinds.map (⟨·, ⟨0, 0⟩⟩) }
  .branches (line 1 [.keyword .se, .name "x", .keyword .entao])
    (.block .times (line 2 [.keyword .repita, .name "n", .keyword .vezes])
      (.statement (line 3 [.keyword .imprima, .name "x"]) .done)
      (line 4 [.keyword .fim, .keyword .repita]) .done)
    (line 5 [.keyword .senao])
    (.statement (line 6 [.keyword .imprima, .name "n"]) .done)
    (line 7 [.keyword .fim, .keyword .se]) .done

theorem bodyIn_choiceOfLoop :
    bodyIn maxBlocks .main choiceOfLoop.lines =
      .ok [.ifElse 1 (.var "x") [.times 2 (.var "n") [.simple 3 (.print [.var "x"])]]
        [.simple 6 (.print [.var "n"])]] ∧
    ∀ t stmts, t.lines = choiceOfLoop.lines → Reads .main t stmts → t = choiceOfLoop := by
  have hreads : Reads .main choiceOfLoop
      [.ifElse 1 (.var "x") [.times 2 (.var "n") [.simple 3 (.print [.var "x"])]]
        [.simple 6 (.print [.var "n"])]] :=
    .branches rfl (.block (.times rfl) (.statement rfl rfl .done) rfl .done) rfl
      (.statement rfl rfl .done) rfl .done
  obtain ⟨hread, hunique⟩ := bodyIn_eq_ok_iff_reads .main choiceOfLoop.lines
  exact ⟨(hread _).2 ⟨choiceOfLoop, rfl, by decide, hreads⟩,
    fun t stmts hlines h => (hunique _ _ _ _ hlines rfl h hreads).1⟩

end Portugol.Program
