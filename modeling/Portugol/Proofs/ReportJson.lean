import Mathlib.Data.List.Forall2
import Portugol.Proofs.Dictionary
import Portugol.Proofs.Lexemes
import Portugol.Report.Reader

/-!
# Reports as JSON

A report is written as JSON and read back by a reader that knows nothing of how reports are
written: it takes blanks, other orders of the fields, and any JSON. What the writer leaves out is
what the reader takes for granted.

What is written for a value is read from its start, with the lists and objects around it still
open, to where the value is complete (`Json.Writes`). This holds of texts, whatever characters
they have, and of numbers, and of objects if it holds of their members.

* `Json.textCodes_flatMap_escape`: a text is read up to the quote that ends it.
* `Json.writes_object`: objects are read as their members.
* `Report.parse?_toJson`: a report is read from what it is written as.
-/

namespace Portugol

namespace Json

/-! ## Texts -/

/-- What is read, with this character in front. -/
def withChar (c : Char) (found : List Nat × List Char) : List Nat × List Char :=
  (c.toNat :: found.1, found.2)

theorem hexValue?_hexDigit : ∀ n < 16, hexValue? (hexDigit n) = some n := by decide

/-- A backslash and a letter stand for one character. -/
theorem textCodes_escaped {letter c : Char} (h : escaped? letter = some c) (rest : List Char) :
    textCodes ('\\' :: letter :: rest) = (textCodes rest).map (withChar c) := by
  rw [textCodes, h, Option.bind_some]
  · rfl
  · rintro a b c d _ rfl
    cases h

/-- So does a backslash with the number of a control character. -/
theorem textCodes_control {c : Char} (h : c.toNat < 32) (rest : List Char) :
    textCodes ('\\' :: 'u' :: '0' :: '0' :: hexDigit (c.toNat / 16) :: hexDigit (c.toNat % 16) ::
      rest) = (textCodes rest).map (withChar c) := by
  have hzero : hexValue? '0' = some 0 := by decide
  have hhigh := hexValue?_hexDigit (c.toNat / 16) (by omega)
  have hlow := hexValue?_hexDigit (c.toNat % 16) (by omega)
  have hcode : ((0 * 16 + 0) * 16 + c.toNat / 16) * 16 + c.toNat % 16 = c.toNat := by omega
  rw [textCodes, hexCode?, hzero, hhigh, hlow]
  simp only [Option.bind_eq_bind, Option.bind_some, Option.pure_def, hcode]
  rfl

/-- Any other character is written as it is. -/
theorem textCodes_plain {c : Char} (hquote : c ≠ '"') (hslash : c ≠ '\\') (h : ¬c.toNat < 32)
    (rest : List Char) : textCodes (c :: rest) = (textCodes rest).map (withChar c) := by
  rw [textCodes, if_neg (by simp [h, hslash])]
  · rfl
  · exact hquote
  · exact fun _ _ _ _ _ hc => absurd hc hslash
  · exact fun _ _ hc => absurd hc hslash

theorem textCodes_escape (c : Char) (rest : List Char) :
    textCodes (escape c ++ rest) = (textCodes rest).map (withChar c) := by
  rw [escape.eq_def]
  split
  case h_8 hquote hslash _ _ _ _ _ =>
    split
    · rename_i hcontrol
      exact textCodes_control hcontrol rest
    · rename_i hcontrol
      exact textCodes_plain hquote hslash hcontrol rest
  all_goals exact textCodes_escaped rfl rest

theorem textCodes_flatMap_escape (text rest : List Char) :
    textCodes (text.flatMap escape ++ '"' :: rest) = some (text.map Char.toNat, rest) := by
  induction text with
  | nil => rw [List.flatMap_nil, List.nil_append, textCodes, List.map_nil]
  | cons c text ih => rw [List.flatMap_cons, List.append_assoc, textCodes_escape, ih]; rfl

/-- No character is half of a surrogate pair. -/
theorem ofCodes_toNat (text : List Char) : ofCodes (text.map Char.toNat) = some text := by
  induction text with
  | nil => rw [List.map_nil, ofCodes]
  | cons c text ih =>
    have hvalid : c.toNat < 0xD800 ∨ 0xDFFF < c.toNat := c.valid.imp_right And.left
    have hlow : isLowSurrogate c.toNat = false := decide_eq_false (by omega)
    have hhigh : isHighSurrogate c.toNat = false := decide_eq_false (by omega)
    rw [List.map_cons, ofCodes.eq_def]
    simp only [hlow, hhigh, Bool.false_eq_true, if_false, ih, Option.map_some, Char.ofNat_toNat]

/-! ## Tokens and steps -/

/-- No word or number goes on into this text. -/
def Ended (rest : List Char) : Prop := ∀ c, rest.head? = some c → inAtom c = false

theorem Ended.cons {c : Char} (h : inAtom c = false) (rest : List Char) : Ended (c :: rest) := by
  rintro _ ⟨⟩
  exact h

theorem Ended.append {text rest : List Char} (h : Ended text) (hrest : Ended rest) :
    Ended (text ++ rest) := by
  cases text with
  | nil => exact hrest
  | cons c text => exact h

/-- The tokens of the text take the reader from one point to another. -/
def Turns (text : List Char) (r r' : Reading) : Prop :=
  ∃ ts : List Token, ts.foldlM Reading.step r = some r' ∧
    ∀ rest, Ended rest → tokens (text ++ rest) = (tokens rest).map (ts ++ ·)

theorem Turns.nil (r : Reading) : Turns [] r r :=
  ⟨[], rfl, fun rest _ => by rw [List.nil_append]; exact Option.map_id'.symm⟩

theorem Turns.append {text text' : List Char} {r r' r'' : Reading} (h : Turns text r r')
    (h' : Turns text' r' r'') (hended : Ended text') : Turns (text ++ text') r r'' := by
  obtain ⟨ts, hsteps, htokens⟩ := h
  obtain ⟨ts', hsteps', htokens'⟩ := h'
  refine ⟨ts ++ ts', by rw [List.foldlM_append, hsteps]; exact hsteps', fun rest hrest => ?_⟩
  rw [List.append_assoc, htokens _ (hended.append hrest), htokens' rest hrest, Option.map_map]
  simp only [Function.comp_def, List.append_assoc]

theorem tokens_cons {c : Char} {cs rest : List Char} {token : Token}
    (h : scan c cs = some (some token, rest)) :
    tokens (c :: cs) = (tokens rest).map (token :: ·) := by
  rw [tokens]
  split
  all_goals
    rename_i hscan
    cases h.symm.trans hscan
  rfl

/-- A text that is one token is read in one step. -/
theorem Turns.token {c : Char} {cs : List Char} {token : Token} {r r' : Reading}
    (hscan : ∀ rest, Ended rest → scan c (cs ++ rest) = some (some token, rest))
    (hstep : r.step token = some r') : Turns (c :: cs) r r' := by
  refine ⟨[token], by rw [List.foldlM_cons, hstep]; rfl, fun rest hrest => ?_⟩
  rw [List.cons_append, tokens_cons (hscan rest hrest)]
  rfl

/-- A sign is one token, whatever follows. -/
theorem Turns.sign {c : Char} {text : List Char} {token : Token} {r r' r'' : Reading}
    (hscan : ∀ rest, scan c rest = some (some token, rest)) (hstep : r.step token = some r')
    (h : Turns text r' r'') : Turns (c :: text) r r'' := by
  obtain ⟨ts, hsteps, htokens⟩ := h
  refine ⟨token :: ts, by rw [List.foldlM_cons, hstep]; exact hsteps, fun rest hrest => ?_⟩
  rw [List.cons_append, tokens_cons (hscan _), htokens rest hrest, Option.map_map]
  rfl

/-- The text is written for the value. -/
def Writes (text : List Char) (value : Json) : Prop :=
  ∀ stack, Turns text ⟨.value, stack⟩ ⟨.done value, stack⟩

theorem turns_quote (s : String) {r r' : Reading}
    (hstep : r.step (.scalar (.text (some s))) = some r') : Turns (quote s).toList r r' := by
  have hscan : ∀ cs, scan '"' cs = (textCodes cs).map fun found =>
      (some (.scalar (.text ((ofCodes found.1).map String.ofList))), found.2) := fun _ => rfl
  rw [quote, String.toList_ofList]
  refine .token (fun rest _ => ?_) hstep
  rw [List.append_assoc, List.singleton_append, hscan, textCodes_flatMap_escape, Option.map_some]
  dsimp only
  rw [ofCodes_toNat, Option.map_some, String.ofList_toList]

theorem writes_quote (s : String) : Writes (quote s).toList (.text (some s)) := fun _ =>
  turns_quote s rfl

/-! ## Objects -/

variable {members : List (String × String)} {values : List (Option String × Json)}
  {before : List (Option String × Json)} {stack : List Frame} {r r' : Reading}

/-- A member is read, from a place where a name may come on, and then what follows it. -/
theorem turns_member {name written : String} {value : Json} {text : List Char}
    (hname : r.step (.scalar (.text (some name))) = some ⟨.colon before (some name), stack⟩)
    (hwrites : Writes written.toList value) (hended : Ended text)
    (h : Turns text ⟨.done value, .object before (some name) :: stack⟩ r') :
    Turns ((quote name).toList ++ ':' :: (written.toList ++ text)) r r' := by
  refine (turns_quote name hname).append (.sign (fun _ => rfl) rfl ?_) (.cons rfl _)
  exact (hwrites _).append h hended

/-- Each member is written for a value under its name. -/
def WritesAll (members : List (String × String)) (values : List (Option String × Json)) : Prop :=
  List.Forall₂ (fun member value => value.1 = some member.1 ∧ Writes member.2.toList value.2)
    members values

/-- From a place where a name may come on, members are read up to the end of their object. -/
theorem turns_members {first : String × String} (h : WritesAll (first :: members) values)
    (hname : ∀ name, r.step (.scalar (.text name)) = some ⟨.colon before name, stack⟩) :
    Turns ((writeMembers (first :: members)).toList ++ ['\x7d']) r
      ⟨.done (.object (before.reverse ++ values)), stack⟩ := by
  induction members generalizing first values before r with
  | nil =>
    obtain ⟨⟨_, value⟩, _, ⟨rfl, hwrites⟩, hnil, rfl⟩ := List.forall₂_cons_left_iff.1 h
    cases hnil
    have hclose : Turns ['\x7d'] ⟨.done value, .object before (some first.1) :: stack⟩
        ⟨.done (.object (before.reverse ++ [(some first.1, value)])), stack⟩ := by
      rw [← List.reverse_cons]
      exact .sign (fun _ => rfl) rfl (.nil _)
    have hturns := turns_member (hname _) hwrites (.cons rfl _) hclose
    simpa [writeMembers] using hturns
  | cons second rest ih =>
    obtain ⟨⟨_, value⟩, others, ⟨rfl, hwrites⟩, hothers, rfl⟩ := List.forall₂_cons_left_iff.1 h
    -- Behind the comma, the member is the last of those that have been read.
    have hrest := @ih others ((some first.1, value) :: before)
      ⟨.name ((some first.1, value) :: before), stack⟩ second hothers fun _ => rfl
    rw [List.reverse_cons, List.append_assoc, List.singleton_append] at hrest
    have hmore : Turns (',' :: ((writeMembers (second :: rest)).toList ++ ['\x7d']))
        ⟨.done value, .object before (some first.1) :: stack⟩
        ⟨.done (.object (before.reverse ++ (some first.1, value) :: others)), stack⟩ :=
      .sign (fun _ => rfl) rfl hrest
    have hturns := turns_member (hname _) hwrites (.cons rfl _) hmore
    simpa [writeMembers] using hturns

/-- An object is read as its members, each as what it was written for. -/
theorem writes_object (h : WritesAll members values) :
    Writes (writeObject members).toList (.object values) := by
  intro stack
  have htext : (writeObject members).toList =
      '\x7b' :: ((writeMembers members).toList ++ ['\x7d']) := by
    simp [writeObject]
  rw [htext]
  refine .sign (fun _ => rfl) rfl ?_
  cases members with
  | nil =>
    cases h
    exact .sign (fun _ => rfl) rfl (.nil _)
  | cons first rest =>
    have hname : ∀ name, Reading.step ⟨.firstName, stack⟩ (.scalar (.text name)) =
        some ⟨.colon [] name, stack⟩ := fun _ => rfl
    exact turns_members h hname

theorem parse?_of_writes {text : String} {value : Json} (h : Writes text.toList value) :
    parse? text = some value := by
  obtain ⟨ts, hsteps, htokens⟩ := h []
  have hall := htokens [] nofun
  rw [List.append_nil, tokens, Option.map_some, List.append_nil] at hall
  rw [parse?, hall, Option.bind_eq_bind, Option.bind_some, hsteps]
  rfl

/-! ## Numbers -/

theorem isDigit_toDigits (n : Nat) : ∀ c ∈ Nat.toDigits 10 n, c.isDigit = true := fun _ hc =>
  Nat.isDigit_of_mem_toDigits (by decide) (by decide) hc

/-- Only zero has a zero in front. -/
theorem head?_toDigits {n : Nat} (h : 0 < n) : (Nat.toDigits 10 n).head? ≠ some '0' := by
  induction n using Nat.strongRecOn with
  | ind n ih =>
    rw [Nat.toDigits_eq_if (by decide)]
    split
    · simpa using Nat.ne_of_gt h
    · have hhead := ih (n / 10) (by omega) (by omega)
      obtain ⟨c, cs, hdigits⟩ := List.exists_cons_of_ne_nil (@Nat.toDigits_ne_nil (n / 10) 10)
      rw [hdigits] at hhead ⊢
      exact hhead

theorem isNumber_toDigits (n : Nat) : isNumber (Nat.toDigits 10 n) = true := by
  have hdigits := isDigit_toDigits n
  obtain ⟨htake, hdrop⟩ := @Lexer.takeWhile_append_of_head _ _ [] hdigits nofun
  rw [List.append_nil] at htake hdrop
  have hsign : ∀ digits, Nat.toDigits 10 n ≠ '-' :: digits := by
    intro digits h
    exact absurd (hdigits '-' (h ▸ List.mem_cons_self)) (by decide)
  have hwhole : (Nat.toDigits 10 n == ['0'] ||
      (!(Nat.toDigits 10 n).isEmpty && (Nat.toDigits 10 n).head? != some '0')) = true := by
    rcases Nat.eq_zero_or_pos n with rfl | hpos
    · rfl
    · simp [Nat.toDigits_ne_nil, head?_toDigits hpos]
  unfold isNumber
  split
  · rename_i digits heq
    exact absurd heq (hsign digits)
  · dsimp only
    rw [htake, hdrop, hwhole]
    rfl

theorem inAtom_of_isDigit {c : Char} (h : c.isDigit = true) : inAtom c = true := by
  simp [inAtom, inNumber, h]

theorem isBlank_of_isDigit {c : Char} (h : c.isDigit = true) : isBlank c = false := by
  have hall : ∀ c ∈ digits, isBlank c = false := forall_mem_of_all (by decide)
  exact hall c (mem_digits_of_isDigit h)

/-- A number is scanned as far as its digits go. -/
theorem scan_number {c : Char} {cs rest : List Char} (hdigits : ∀ d ∈ c :: cs, d.isDigit = true)
    (hnumber : isNumber (c :: cs) = true) (hrest : Ended rest) :
    scan c (cs ++ rest) = some (some (.scalar (.number (c :: cs))), rest) := by
  have hc := hdigits c List.mem_cons_self
  have hatom : ∀ d ∈ cs, inAtom d = true := fun d hd =>
    inAtom_of_isDigit (hdigits d (List.mem_cons_of_mem c hd))
  obtain ⟨htake, hdrop⟩ := Lexer.takeWhile_append_of_head hatom hrest
  have hword : ∀ x xs, x.isDigit = false → c :: cs ≠ x :: xs := by
    rintro x xs hx ⟨⟩
    exact Bool.false_ne_true (hx.symm.trans hc)
  rw [scan.eq_def]
  split
  case h_8 =>
    rw [isBlank_of_isDigit hc, if_neg Bool.false_ne_true, htake, hdrop, atom?,
      if_neg (hword _ _ rfl), if_neg (hword _ _ rfl), if_neg (hword _ _ rfl), if_pos hnumber]
    rfl
  all_goals exact absurd hc (by decide)

theorem writes_toString (n : Nat) :
    Writes (toString n).toList (.number (Nat.toDigits 10 n)) := by
  have hdigits := isDigit_toDigits n
  have hnumber := isNumber_toDigits n
  obtain ⟨c, cs, hcs⟩ := List.exists_cons_of_ne_nil (@Nat.toDigits_ne_nil n 10)
  rw [Nat.toString_eq_repr, Nat.toList_repr, hcs]
  rw [hcs] at hdigits hnumber
  exact fun stack => .token (fun rest hrest => scan_number hdigits hnumber hrest) rfl

/-- The digits of a line number are read as the number. -/
theorem lineNumber?_toDigits {n : Nat} (h : n < 1 <<< 32) :
    lineNumber? (.number (Nat.toDigits 10 n)) = some n := by
  have hdigits : isDigits (Nat.toDigits 10 n) = true := by
    rw [isDigits, List.isEmpty_eq_false_iff.2 Nat.toDigits_ne_nil]
    exact List.all_eq_true.2 (isDigit_toDigits n)
  have hvalue : digitsValue (Nat.toDigits 10 n) = n := by
    have hfold := @Nat.ofDigitChars_ten_toDigits n
    rw [Nat.ofDigitChars_eq_foldl] at hfold
    rw [digitsValue]
    simpa only [Nat.mul_comm] using hfold
  rw [lineNumber?, hdigits, hvalue, decide_eq_true h]
  rfl

end Json

theorem mapM_map_of_some {α β γ : Type} {f : α → β} {g : β → Option γ} {k : α → γ}
    (h : ∀ a, g (f a) = some (k a)) (as : List α) : (as.map f).mapM g = some (as.map k) := by
  induction as with
  | nil => rfl
  | cons a as ih =>
    rw [List.map_cons, List.mapM_cons, h, ih]
    rfl

/-! ## Failures -/

namespace Failure

/-- The value that a failure is written for. -/
def json (failure : Failure) : Json :=
  .object ([(some "kind", .text (some failure.kind)),
      (some "message", .text (some failure.message))] ++
    (failure.line.map fun line => (some "line", .number (Nat.toDigits 10 line))).toList)

theorem writes_toJson (failure : Failure) : Json.Writes failure.toJson.toList failure.json := by
  refine Json.writes_object (.cons ⟨rfl, Json.writes_quote _⟩ (.cons ⟨rfl, Json.writes_quote _⟩ ?_))
  cases failure.line with
  | none => exact .nil
  | some line => exact .cons ⟨rfl, Json.writes_toString line⟩ .nil

theorem fields_json (failure : Failure) : failure.json.fields ["kind", "message", "line"] =
    some [some (.text (some failure.kind)), some (.text (some failure.message)),
      failure.line.map fun line => .number (Nat.toDigits 10 line)] := by
  rw [json]
  cases failure.line <;> rfl

theorem ofJson?_json {failure : Failure} (h : ∀ line, failure.line = some line → line < 1 <<< 32) :
    ofJson? failure.json = some failure := by
  have hline : Json.optional Json.lineNumber?
      (failure.line.map fun line => .number (Nat.toDigits 10 line)) = some failure.line := by
    cases hline : failure.line with
    | none => rfl
    | some line => exact congrArg (Option.map some) (Json.lineNumber?_toDigits (h line hline))
  rw [ofJson?, fields_json, Option.bind_eq_bind, Option.bind_some]
  dsimp only
  rw [hline]
  rfl

end Failure

/-! ## Reports -/

namespace Report

/-- The value that a report is written for. -/
def json (report : Report) : Json :=
  .object ([(some "output", .text (some report.output))] ++
    (report.failure.map fun failure => (some "error", failure.json)).toList ++
    [(some "variables",
      .object (report.globals.map fun entry => (some entry.1, .text (some entry.2))))])

theorem writes_toJson (report : Report) : Json.Writes report.toJson.toList report.json := by
  have hglobals : Json.WritesAll (report.globals.map fun entry => (entry.1, Json.quote entry.2))
      (report.globals.map fun entry => (some entry.1, .text (some entry.2))) := by
    rw [Json.WritesAll, List.forall₂_map_left_iff, List.forall₂_map_right_iff, List.forall₂_same]
    exact fun entry _ => ⟨rfl, Json.writes_quote entry.2⟩
  have hvariables := Json.writes_object hglobals
  refine Json.writes_object (.cons ⟨rfl, Json.writes_quote _⟩ ?_)
  cases report.failure with
  | none => exact .cons ⟨rfl, hvariables⟩ .nil
  | some failure => exact .cons ⟨rfl, failure.writes_toJson⟩ (.cons ⟨rfl, hvariables⟩ .nil)

/-- What the format can hold: numbers of lines have 32 bits, and the variables are in the order
    of their names, each of them once. -/
structure Representable (report : Report) : Prop where
  line (failure : Failure) (line : Nat) : report.failure = some failure →
    failure.line = some line → line < 1 <<< 32
  sorted : Dict.Sorted report.globals

theorem texts?_globals {globals : Dict String String} (h : Dict.Sorted globals) :
    Json.texts? (.object (globals.map fun entry => (some entry.1, .text (some entry.2)))) =
      some globals := by
  have hmembers : Json.members?
      (.object (globals.map fun entry => (some entry.1, .text (some entry.2)))) =
        some (globals.map fun entry => (entry.1, .text (some entry.2))) := by
    apply mapM_map_of_some
    exact fun _ => rfl
  have htexts : (globals.map fun entry => (entry.1, Json.text (some entry.2))).mapM
      (fun entry => entry.2.string?.map (entry.1, ·)) = some (globals.map id) := by
    apply mapM_map_of_some
    exact fun _ => rfl
  rw [List.map_id] at htexts
  rw [Json.texts?, hmembers, Option.bind_eq_bind, Option.bind_some, htexts, Option.bind_eq_bind,
    Option.bind_some, h.ofList_eq]
  rfl

theorem fields_json (report : Report) : report.json.fields ["output", "error", "variables"] =
    some [some (.text (some report.output)), report.failure.map Failure.json,
      some (.object
        (report.globals.map fun entry => (some entry.1, .text (some entry.2))))] := by
  rw [json]
  cases report.failure <;> rfl

theorem ofJson?_json {report : Report} (h : report.Representable) :
    ofJson? report.json = some report := by
  have hfailure : Json.optional Failure.ofJson? (report.failure.map Failure.json) =
      some report.failure := by
    cases hfailure : report.failure with
    | none => rfl
    | some failure =>
      have hread := Failure.ofJson?_json fun line => h.line failure line hfailure
      exact congrArg (Option.map some) hread
  rw [ofJson?, fields_json, Option.bind_eq_bind, Option.bind_some]
  dsimp only [Option.map_some, Option.getD_some]
  rw [hfailure, texts?_globals h.sorted]
  rfl

/-- A report is read from what it is written as, and written the same way again. -/
theorem parse?_toJson {report : Report} (h : report.Representable) :
    parse? report.toJson = some report ∧
      (parse? report.toJson).map toJson = some report.toJson := by
  have hparse : parse? report.toJson = some report := by
    rw [parse?, Json.parse?_of_writes report.writes_toJson, Option.bind_some, ofJson?_json h]
  exact ⟨hparse, by rw [hparse, Option.map_some]⟩

/-- With a quote, a backslash, a line end and other control characters in its texts. -/
theorem parse?_toJson_controls :
    parse? (toJson ⟨"\"é\\\n\x00", some ⟨"NameError", "x\x1f", some 3⟩, [("a", "1"), ("b", "")]⟩) =
      some ⟨"\"é\\\n\x00", some ⟨"NameError", "x\x1f", some 3⟩, [("a", "1"), ("b", "")]⟩ :=
  (parse?_toJson ⟨by rintro _ _ ⟨⟩ ⟨⟩; decide, by unfold Dict.Sorted; decide⟩).1

end Report

end Portugol
