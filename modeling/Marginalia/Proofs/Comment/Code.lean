/-
What of a source is code.

The comments that a scan recognizes are known with their extents, so every
character of the source is either in one of them or code (`isCode`). That is
said of the finished list of comments, while a cursor of the scan knows only
what lies behind it. The two are tied together by `Cursor.Within`: each of the
comments either ends where the cursor stands or before, or is still to be
found from there on.

One advance of such a cursor passes **some code and then none**
(`Cursor.Passes`): the code up to the next comment and the comment, or the
rest of the line. What is said about the code around a comment is said in
these terms only, without looking at lines, openers and closers again.
-/
import Marginalia.Proofs.Comment.Slices
import Marginalia.Proofs.Text.Blank

set_option autoImplicit false

namespace Marginalia

instance (x : Lexeme) (line column : Nat) : Decidable (x.Covers line column) :=
  inferInstanceAs (Decidable (_ ∧ _))

namespace Scan

open Text

/-! ## Places

Places are compared as pairs, first by line. -/

theorem place_lt_iff {line column line' column' : Nat} :
    toLex (line, column) < toLex (line', column')
      ↔ line < line' ∨ line = line' ∧ column < column' :=
  Prod.Lex.toLex_lt_toLex

theorem place_le_iff {line column line' column' : Nat} :
    toLex (line, column) ≤ toLex (line', column')
      ↔ line < line' ∨ line = line' ∧ column ≤ column' :=
  Prod.Lex.toLex_le_toLex

/-! ## Code -/

/-- Whether the character with this number, counted from one, of this line lies outside all of the
comments. -/
def isCode (xs : List Lexeme) (line column : Nat) : Bool :=
  xs.all fun x => !decide (x.Covers line column)

/-- The line of this number, counted from one. -/
def lineAt (source : List (List Char)) (line : Nat) : List Char :=
  (source[line - 1]?).getD []

/-- The characters of a text that are code, if the text stands in this line behind `column`
characters. -/
def codeFrom (xs : List Lexeme) (line column : Nat) (text : List Char) : List Char :=
  ((text.zipIdx (column + 1)).filter fun c => isCode xs line c.2).map Prod.fst

theorem isCode_eq_false {xs : List Lexeme} {x : Lexeme} {line column : Nat} (hx : x ∈ xs)
    (hcovers : x.Covers line column) : isCode xs line column = false := by
  unfold isCode
  rw [List.all_eq_false]
  exact ⟨x, hx, by simpa using hcovers⟩

theorem codeText_eq_none_iff {code : List Char} : codeText code = none ↔ allBlank code := by
  rw [← trim_eq_nil_iff]
  unfold codeText
  simp

section CodeFrom

variable {xs : List Lexeme} {line column : Nat} {text : List Char}

@[simp]
theorem codeFrom_nil : codeFrom xs line column [] = [] := rfl

theorem codeFrom_append (front back : List Char) :
    codeFrom xs line column (front ++ back)
      = codeFrom xs line column front ++ codeFrom xs line (column + front.length) back := by
  have hplace : column + 1 + front.length = column + front.length + 1 := by omega
  unfold codeFrom
  rw [List.zipIdx_append, List.filter_append, List.map_append, hplace]

theorem codeFrom_of_isCode
    (h : ∀ c, column < c → c ≤ column + text.length → isCode xs line c = true) :
    codeFrom xs line column text = text := by
  have hall : (text.zipIdx (column + 1)).filter (fun c => isCode xs line c.2)
      = text.zipIdx (column + 1) := by
    rw [List.filter_eq_self]
    intro c hc
    have hbounds := List.mem_zipIdx hc
    exact h c.2 (by omega) (by omega)
  rw [codeFrom, hall, List.zipIdx_map_fst]

theorem codeFrom_of_noCode
    (h : ∀ c, column < c → c ≤ column + text.length → isCode xs line c = false) :
    codeFrom xs line column text = [] := by
  have hnone : (text.zipIdx (column + 1)).filter (fun c => isCode xs line c.2) = [] := by
    rw [List.filter_eq_nil_iff]
    intro c hc
    have hbounds := List.mem_zipIdx hc
    rw [h c.2 (by omega) (by omega)]
    exact Bool.false_ne_true
  rw [codeFrom, hnone, List.map_nil]

end CodeFrom

/-- There is no code in the source behind one place and up to another. -/
def NoCode (xs : List Lexeme) (source : List (List Char)) (place upTo : ℕ ×ₗ ℕ) : Prop :=
  ∀ line column, 1 ≤ column → column ≤ (lineAt source line).length →
    place < toLex (line, column) → toLex (line, column) ≤ upTo → isCode xs line column = false

/-- These are the comments of a text with their extents in it. -/
structure Extents (d : Delimiters) (file text : String) (xs : List Lexeme) : Prop where
  parts : xs.map (fun x => (x.form, x.position, x.text))
    = ((comments d file text).filterMap Except.toOption).map fun c => (c.form, c.position, c.text)
  slices : ∀ x ∈ xs, x.IsSlice d (Text.lines text.toList)

theorem extents_lexemesFrom (d : Delimiters) (file text : String) :
    Extents d file text (lexemesFrom d file (.start text.toList)) where
  parts := map_lexemesFrom d file text
  slices x hx :=
    ((slices_lexemesFrom d file (fun _ hl => feed_notMem_lines hl) (standsIn_start text.toList)).1
      x hx).2

/-! ## A cursor among the comments -/

/-- A cursor of a scan of which these are all comments: those that do not end up to the cursor are
still to be found. Right before the cursor is no code. -/
structure Cursor.Within (d : Delimiters) (file : String) (source : List (List Char))
    (xs : List Lexeme) (cursor : Cursor) : Prop extends cursor.StandsIn source where
  ahead : ∀ x ∈ lexemesFrom d file cursor, x ∈ xs
  seen : ∀ x ∈ xs, toLex x.behind ≤ cursor.place ∨ x ∈ lexemesFrom d file cursor
  edge : cursor.column = 0 ∨ isCode xs cursor.line cursor.column = false

/-- On the way to `after`, a cursor passes `code` and then no code. -/
structure Cursor.Passes (xs : List Lexeme) (source : List (List Char)) (cursor : Cursor)
    (code : List Char) (after : Cursor) : Prop where
  front : code <+: (lineAt source cursor.line).drop cursor.column
  allCode : ∀ c, cursor.column < c → c ≤ cursor.column + code.length →
    isCode xs cursor.line c = true
  noCode : NoCode xs source (toLex (cursor.line, cursor.column + code.length)) after.place
  further : toLex (cursor.line, cursor.column + code.length + 1) ≤ after.place

theorem within_start (d : Delimiters) (file : String) (text : List Char) :
    (Cursor.start text).Within d file (Text.lines text) (lexemesFrom d file (.start text)) where
  toStandsIn := standsIn_start text
  ahead _ hx := hx
  seen _ hx := .inr hx
  edge := .inl rfl

section Advance

variable {d : Delimiters} {file : String} {source : List (List Char)} {xs : List Lexeme}
  {cursor after : Cursor} {line : List Char} {later : List (List Char)}

theorem lineAt_of_standsIn (h : cursor.StandsIn source) (hunread : cursor.unread = line :: later) :
    (lineAt source cursor.line).drop cursor.column = line ∧
      source.drop cursor.line = later := by
  have hahead := h.ahead_eq
  rw [hunread] at hahead
  obtain ⟨whole, hdrop, hfirst⟩ := ahead_eq_cons hahead
  have hwhole : source[cursor.line - 1]? = some whole := by
    rw [← List.head?_drop, hdrop, List.head?_cons]
  constructor
  · rw [lineAt, hwhole, Option.getD_some, hfirst]
  · have hpos := h.line_pos
    have hsucc : cursor.line = cursor.line - 1 + 1 := by omega
    rw [hsucc, ← List.drop_drop, hdrop, List.drop_one, List.tail_cons]

theorem lexemesFrom_of_none (hunread : cursor.unread = line :: later)
    (hadvance : advance d file cursor line later = (none, after)) :
    lexemesFrom d file cursor = lexemesFrom d file after := by
  rw [lexemesFrom, traceFrom_cons hunread, hadvance]
  rfl

theorem lexemesFrom_of_ok {c : Comment} (hunread : cursor.unread = line :: later)
    (hadvance : advance d file cursor line later = (some (.ok c), after)) :
    lexemesFrom d file cursor = lexemeOf c after :: lexemesFrom d file after := by
  rw [lexemesFrom, traceFrom_cons hunread, hadvance]
  rfl

/-- A character behind the cursor and before every comment still to be found is code. -/
theorem Cursor.Within.isCode_of_lt (h : cursor.Within d file source xs) {l c : Nat}
    (hplace : cursor.place < toLex (l, c))
    (hnext : ∀ x ∈ lexemesFrom d file cursor, toLex (l, c) < x.start) : isCode xs l c = true := by
  unfold isCode
  rw [List.all_eq_true]
  intro x hx
  rw [Bool.not_eq_true', decide_eq_false_iff_not]
  rintro ⟨hstart, hbehind⟩
  rcases h.seen x hx with hseen | hfound
  · exact absurd (hplace.trans_le (hbehind.trans hseen)) (lt_irrefl _)
  · exact absurd ((hnext x hfound).trans_le hstart) (lt_irrefl _)

/-- **No comment.** The cursor passes the rest of the line. -/
theorem Cursor.Within.advance_none (hfeed : ∀ l ∈ source, '\n' ∉ l)
    (h : cursor.Within d file source xs) (hunread : cursor.unread = line :: later)
    (hadvance : advance d file cursor line later = (none, after))
    (hafter : after.place = toLex (cursor.line + 1, 0)) :
    after.Within d file source xs ∧ cursor.Passes xs source line after := by
  have hstep := advanced_advance (d := d) file hfeed h.toStandsIn hunread
  rw [hadvance] at hstep
  obtain ⟨hstands, hplace⟩ := hstep
  have hlexemes := lexemesFrom_of_none hunread hadvance
  obtain ⟨hline, -⟩ := lineAt_of_standsIn h.toStandsIn hunread
  have hcolumn : after.column = 0 := congrArg (fun p : ℕ ×ₗ ℕ => (ofLex p).2) hafter
  constructor
  · refine ⟨hstands, ?_, ?_, .inl hcolumn⟩
    · rw [← hlexemes]
      exact h.ahead
    · intro x hx
      rw [← hlexemes]
      exact (h.seen x hx).imp_left fun hseen => hseen.trans hplace.le
  · refine ⟨?_, ?_, ?_, ?_⟩
    · exact ⟨[], by rw [List.append_nil, hline]⟩
    · intro c hc _
      refine h.isCode_of_lt (place_lt_iff.2 (by omega)) ?_
      intro x hx
      rw [hlexemes] at hx
      refine lt_trans ?_ ((slices_lexemesFrom d file hfeed hstands).1 x hx).1
      rw [hafter, place_lt_iff]
      omega
    · -- there are no characters between the end of a line and the start of the next
      intro l c hc hlen hbehind hupTo
      rw [hafter, place_le_iff] at hupTo
      rw [place_lt_iff] at hbehind
      have hl : l = cursor.line := by omega
      subst hl
      have hwhole := congrArg List.length hline
      rw [List.length_drop] at hwhole
      omega
    · rw [hafter, place_le_iff]
      omega

theorem advance_ne_none {code rest : List Char} {opening : Opening}
    (hfirst : d.firstComment cursor.openRaw line = .comment code opening rest) :
    advance d file cursor line later ≠ (none, after) := by
  cases opening with
  | line marker =>
    rw [advance_line hfirst]
    simp
  | block opener closer =>
    cases hclose : closeBlock closer (rest :: later) with
    | none =>
      rw [advance_unclosed hfirst hclose]
      simp
    | some closed =>
      rw [advance_block hfirst hclose]
      simp

/-- A comment is found right behind the code before it. -/
theorem position_of_advance {code rest : List Char} {opening : Opening} {c : Comment}
    (hfirst : d.firstComment cursor.openRaw line = .comment code opening rest)
    (hadvance : advance d file cursor line later = (some (.ok c), after)) :
    c.position = ⟨file, cursor.line, cursor.column + code.length + 1⟩ := by
  cases opening with
  | line marker =>
    rw [advance_line hfirst] at hadvance
    obtain ⟨hc, -⟩ := Prod.mk.inj hadvance
    obtain rfl := Except.ok.inj (Option.some.inj hc)
    rfl
  | block opener closer =>
    cases hclose : closeBlock closer (rest :: later) with
    | none =>
      rw [advance_unclosed hfirst hclose] at hadvance
      exact absurd hadvance (by simp)
    | some closed =>
      rw [advance_block hfirst hclose] at hadvance
      obtain ⟨hc, -⟩ := Prod.mk.inj hadvance
      obtain rfl := Except.ok.inj (Option.some.inj hc)
      rfl

/-- **A comment.** The cursor passes the code before it, and all of the comment is no code. -/
theorem Cursor.Within.advance_ok {code rest : List Char} {opening : Opening} {c : Comment}
    (hfeed : ∀ l ∈ source, '\n' ∉ l) (h : cursor.Within d file source xs)
    (hunread : cursor.unread = line :: later)
    (hfirst : d.firstComment cursor.openRaw line = .comment code opening rest)
    (hadvance : advance d file cursor line later = (some (.ok c), after)) :
    after.Within d file source xs ∧ cursor.Passes xs source code after := by
  have hstep := advanced_advance (d := d) file hfeed h.toStandsIn hunread
  rw [hadvance] at hstep
  obtain ⟨hstands, hplace, hslice⟩ := hstep
  have hlexemes := lexemesFrom_of_ok hunread hadvance
  have hmem : lexemeOf c after ∈ xs := by
    apply h.ahead
    rw [hlexemes]
    exact List.mem_cons_self
  have hstart : (lexemeOf c after).start
      = toLex (cursor.line, cursor.column + code.length + 1) := by
    rw [Lexeme.start, lexemeOf, position_of_advance hfirst hadvance]
  have hbehind : toLex (lexemeOf c after).behind = after.place := rfl
  have hnonempty := hslice.nonempty
  constructor
  · refine ⟨hstands, ?_, ?_, .inr (isCode_eq_false hmem ⟨hnonempty, le_refl _⟩)⟩
    · intro x hx
      apply h.ahead
      rw [hlexemes]
      exact List.mem_cons_of_mem _ hx
    · intro x hx
      rcases h.seen x hx with hseen | hfound
      · left
        exact hseen.trans (hplace.le.trans (hbehind ▸ hnonempty))
      · rw [hlexemes] at hfound
        rcases List.mem_cons.1 hfound with rfl | hfound
        · exact .inl (le_refl _)
        · exact .inr hfound
  · obtain ⟨hline, -⟩ := lineAt_of_standsIn h.toStandsIn hunread
    refine ⟨?_, ?_, ?_, ?_⟩
    · rw [hline, (Delimiters.firstComment_eq_comment hfirst).1]
      exact List.prefix_append _ _
    · intro k hk hupTo
      refine h.isCode_of_lt (place_lt_iff.2 (by omega)) ?_
      have hbefore : toLex (cursor.line, k) < (lexemeOf c after).start := by
        rw [hstart, place_lt_iff]
        omega
      intro x hx
      rw [hlexemes] at hx
      rcases List.mem_cons.1 hx with rfl | hx
      · exact hbefore
      · have hlater := ((slices_lexemesFrom d file hfeed hstands).1 x hx).1
        exact hbefore.trans_le (hnonempty.trans (hbehind ▸ hlater.le))
    · intro l k hk hlen hplace hupTo
      refine isCode_eq_false hmem ⟨?_, hupTo⟩
      rw [hstart, place_le_iff]
      rw [place_lt_iff] at hplace
      omega
    · rw [← hstart]
      exact hbehind ▸ hnonempty

/-- Behind whatever an advance finds, the cursor is among the comments again. -/
theorem Cursor.Within.advance {item : Option (Except Unclosed Comment)}
    (hfeed : ∀ l ∈ source, '\n' ∉ l) (h : cursor.Within d file source xs)
    (hunread : cursor.unread = line :: later)
    (hadvance : advance d file cursor line later = (item, after))
    (hitem : ∀ e, item ≠ some (.error e)) : after.Within d file source xs := by
  cases hfirst : d.firstComment cursor.openRaw line with
  | plain openRaw =>
    rw [advance_plain hfirst] at hadvance
    obtain ⟨rfl, rfl⟩ := Prod.mk.inj hadvance
    exact (h.advance_none hfeed hunread (advance_plain hfirst) rfl).1
  | comment code opening rest =>
    match item with
    | none => exact absurd hadvance (advance_ne_none hfirst)
    | some (.error e) => exact absurd rfl (hitem e)
    | some (.ok c) => exact (h.advance_ok hfeed hunread hfirst hadvance).1

end Advance

end Scan

end Marginalia
