/-
The code after a comment.

What follows a comment is looked up ahead of it by searches of their own.
Neither takes part in the scan, so both are held against it: they find the
nearest code if they find what stands first among the stretches of code of
the source, where a stretch is **a run of characters of one line that lie
outside every comment, as long as it can be** (`IsStretch`). Which comments
there are is for the scan to say.

Behind a line comment the search is `codeAhead`, and it finds the nearest
code (`Cursor.Clear.nearest_codeAhead`). It goes on from line to line without
an open raw string; that is sound since it stops at the first code, so it only
ever passes blank characters, and none of those is a quote.

Behind a block comment the search is `codeBehind`. It looks at the rest of the
line up to the next comment and then at the lines *below*. What else is in the
line is overlooked: code behind further comments of the line, and that one of
these may go on below, where its text is then taken for code. Apart from such
lines (`Overlooks`) it finds the nearest code too.
-/
import Marginalia.Proofs.Comment.Code

set_option autoImplicit false

namespace Marginalia

/-! ## Blank lines leave no string open -/

namespace Delimiters

variable {d : Delimiters} {c : Char} {text : List Char} {openRaw : Option Char}

/-- Behind a blank character a raw string is open only if it was before. -/
theorem next_ne_raw (hraw : ∀ q ∈ d.rawQuotes, ¬ Text.isBlank q) (hblank : Text.isBlank c)
    {standing : Standing} (h : ∀ q, standing ≠ .raw q) (q : Char) :
    next d standing c text ≠ .raw q := by
  match standing with
  | .code 0 =>
    -- only its quote opens a raw string
    have hquote : ¬ d.rawQuotes.contains c := by
      intro hmem
      exact hraw c (List.contains_iff_mem.1 hmem) hblank
    show d.enter c text ≠ .raw q
    unfold enter
    split_ifs <;> simp
  | .code (passed + 1) => simp [next]
  | .raw q' => exact absurd rfl (h q')
  | .plain quote true => simp [next, passString]
  | .plain quote false =>
    by_cases hescape : c = '\\'
    · simp [next, passString, hescape]
    · simp only [next, passString, if_neg hescape]
      split_ifs <;> simp

theorem search_plain_of_blank (hraw : ∀ q ∈ d.rawQuotes, ¬ Text.isBlank q)
    (hblank : Text.allBlank text) {standing : Standing} (h : ∀ q, standing ≠ .raw q)
    (hsearch : d.search standing text = .plain openRaw) : openRaw = none := by
  induction text generalizing standing with
  | nil =>
    match standing with
    | .code _ => exact (Stretch.plain.inj hsearch).symm
    | .plain _ _ => exact (Stretch.plain.inj hsearch).symm
    | .raw q => exact absurd rfl (h q)
  | cons c text ih =>
    obtain ⟨hc, htext⟩ : Text.isBlank c ∧ Text.allBlank text := by
      simpa [Text.allBlank] using hblank
    exact ih htext (fun q => next_ne_raw hraw hc h q) (search_cons_plain hsearch).2

/-- A blank line that starts outside of all strings ends so. -/
theorem firstComment_of_blank (hraw : ∀ q ∈ d.rawQuotes, ¬ Text.isBlank q)
    (hblank : Text.allBlank text) (hfirst : d.firstComment none text = .plain openRaw) :
    openRaw = none := by
  rw [firstComment_eq] at hfirst
  exact search_plain_of_blank hraw hblank (fun q => by simp [standingAt]) hfirst

end Delimiters

namespace Scan

/-! ## Stretches of code -/

/-- A stretch of code: a run of characters of one line, the first of them the one with this number,
that lie outside every comment, up to a comment or an end of the line on either side. -/
structure IsStretch (xs : List Lexeme) (source : List (List Char)) (line column : Nat)
    (run : List Char) : Prop where
  ne_nil : run ≠ []
  column_pos : 1 ≤ column
  inLine : run <+: (lineAt source line).drop (column - 1)
  allCode : ∀ c, column ≤ c → c < column + run.length → isCode xs line c = true
  left : column = 1 ∨ isCode xs line (column - 1) = false
  right : column + run.length = (lineAt source line).length + 1 ∨
    isCode xs line (column + run.length) = false

/-- The nearest code behind a place: the first stretch that starts there and is not blank, without
its blank ends. -/
def Nearest (xs : List Lexeme) (source : List (List Char)) (place : ℕ ×ₗ ℕ) :
    Option String → Prop
  | some code => ∃ line column run, IsStretch xs source line column run ∧
      place < toLex (line, column) ∧ codeText run = some code ∧
      ∀ line' column' run', IsStretch xs source line' column' run' → place < toLex (line', column') →
        toLex (line', column') < toLex (line, column) → codeText run' = none
  | none => ∀ line column run, IsStretch xs source line column run →
      place < toLex (line, column) → codeText run = none

section Stretches

variable {xs : List Lexeme} {source : List (List Char)} {line column : Nat} {run : List Char}

theorem IsStretch.length_le (h : IsStretch xs source line column run) :
    column + run.length ≤ (lineAt source line).length + 1 := by
  have hlength := h.inLine.length_le
  have hpos := List.length_pos_iff.2 h.ne_nil
  rw [List.length_drop] at hlength
  omega

variable {d : Delimiters} {file : String} {cursor after : Cursor} {code : List Char}

/-- The code that a cursor passes is a stretch. -/
theorem Cursor.Passes.isStretch (hpasses : cursor.Passes xs source code after)
    (hedge : cursor.column = 0 ∨ isCode xs cursor.line cursor.column = false) (hne : code ≠ []) :
    IsStretch xs source cursor.line (cursor.column + 1) code := by
  refine ⟨hne, Nat.succ_le_succ (Nat.zero_le _), ?_, ?_, ?_, ?_⟩
  · rw [Nat.add_sub_cancel]
    exact hpasses.front
  · intro c hc hlt
    exact hpasses.allCode c (by omega) (by omega)
  · rw [Nat.add_sub_cancel]
    exact hedge.imp_left fun hzero => by omega
  · have hlength := hpasses.front.length_le
    have hpos := List.length_pos_iff.2 hne
    rw [List.length_drop] at hlength
    by_cases hend : cursor.column + 1 + code.length = (lineAt source cursor.line).length + 1
    · exact .inl hend
    · right
      apply hpasses.noCode _ _ (by omega) (by omega)
      · rw [place_lt_iff]
        omega
      · rw [Nat.add_right_comm]
        exact hpasses.further

/-- A stretch behind a cursor is the code that it passes first, or stands behind the cursor after
it. -/
theorem Cursor.Passes.stretch_cases (hpasses : cursor.Passes xs source code after)
    (hrun : IsStretch xs source line column run) (hplace : cursor.place < toLex (line, column)) :
    (line = cursor.line ∧ column = cursor.column + 1 ∧ run = code) ∨
      after.place < toLex (line, column) := by
  have hpos := List.length_pos_iff.2 hrun.ne_nil
  have hlength := hrun.length_le
  have hcolumn := hrun.column_pos
  by_cases hbehind : toLex (cursor.line, cursor.column + code.length) < toLex (line, column)
  · -- behind the code, up to the next cursor, there is nothing that a stretch could start with
    right
    by_contra hle
    have hnone := hpasses.noCode line column hcolumn (by omega) hbehind (not_lt.1 hle)
    rw [hrun.allCode column (le_refl _) (by omega)] at hnone
    exact absurd hnone (by simp)
  · left
    rw [Cursor.place, place_lt_iff] at hplace
    rw [not_lt, place_le_iff] at hbehind
    obtain rfl : line = cursor.line := by omega
    have hfirst : column = cursor.column + 1 := by
      by_contra hne
      have hcode := hpasses.allCode (column - 1) (by omega) (by omega)
      rcases hrun.left with hleft | hleft
      · omega
      · rw [hleft] at hcode
        exact absurd hcode (by simp)
    subst hfirst
    refine ⟨rfl, rfl, ?_⟩
    have hfront := hrun.inLine
    rw [Nat.add_sub_cancel] at hfront
    have hcodeLength := hpasses.front.length_le
    rw [List.length_drop] at hcodeLength
    -- both start here, and neither can end before the other
    have hlengths : run.length = code.length := by
      rcases Nat.lt_trichotomy run.length code.length with hlt | heq | hgt
      · have hcode := hpasses.allCode (cursor.column + 1 + run.length) (by omega) (by omega)
        rcases hrun.right with hright | hright
        · omega
        · rw [hright] at hcode
          exact absurd hcode (by simp)
      · exact heq
      · have hcode := hrun.allCode (cursor.column + code.length + 1) (by omega) (by omega)
        have hnone := hpasses.noCode cursor.line (cursor.column + code.length + 1) (by omega)
          (by omega) (place_lt_iff.2 (by omega)) hpasses.further
        rw [hnone] at hcode
        exact absurd hcode (by simp)
    exact (List.prefix_of_prefix_length_le hfront hpasses.front hlengths.le).eq_of_length hlengths

/-- The code that a cursor passes is blank if the stretch right behind the cursor is. -/
theorem Cursor.Passes.codeText_eq_none (hpasses : cursor.Passes xs source code after)
    (hedge : cursor.column = 0 ∨ isCode xs cursor.line cursor.column = false)
    (hblank : ∀ run, IsStretch xs source cursor.line (cursor.column + 1) run →
      codeText run = none) : codeText code = none := by
  by_cases hne : code = []
  · rw [hne]
    rfl
  · exact hblank code (hpasses.isStretch hedge hne)

theorem Cursor.Passes.place_lt (hpasses : cursor.Passes xs source code after) :
    cursor.place < after.place := by
  refine lt_of_lt_of_le ?_ hpasses.further
  rw [Cursor.place, place_lt_iff]
  omega

/-- Code that is passed and not blank is the nearest. -/
theorem Cursor.Passes.nearest (hpasses : cursor.Passes xs source code after)
    (hedge : cursor.column = 0 ∨ isCode xs cursor.line cursor.column = false) {found : String}
    (hcode : codeText code = some found) : Nearest xs source cursor.place (some found) := by
  have hne : code ≠ [] := by
    rintro rfl
    exact absurd hcode (by simp [codeText, Text.trim, Text.trimStart, Text.trimEnd])
  refine ⟨cursor.line, cursor.column + 1, code, hpasses.isStretch hedge hne,
    place_lt_iff.2 (by omega), hcode, ?_⟩
  intro line column run _ hplace hlt
  rw [Cursor.place, place_lt_iff] at hplace
  rw [place_lt_iff] at hlt
  omega

/-- Past code that is blank, the nearest is nearest from there on. -/
theorem Cursor.Passes.nearest_of_blank (hpasses : cursor.Passes xs source code after)
    (hblank : codeText code = none) {found : Option String}
    (h : Nearest xs source after.place found) : Nearest xs source cursor.place found := by
  have hblanks : ∀ line column run, IsStretch xs source line column run →
      cursor.place < toLex (line, column) →
      codeText run = none ∨ after.place < toLex (line, column) := by
    intro line column run hrun hplace
    rcases hpasses.stretch_cases hrun hplace with ⟨-, -, rfl⟩ | hafter
    · exact .inl hblank
    · exact .inr hafter
  match found with
  | none =>
    intro line column run hrun hplace
    exact (hblanks line column run hrun hplace).elim id (h line column run hrun)
  | some found =>
    obtain ⟨line, column, run, hrun, hplace, hfound, hfirst⟩ := h
    refine ⟨line, column, run, hrun, hpasses.place_lt.trans hplace, hfound, ?_⟩
    intro line' column' run' hrun' hplace' hlt
    exact (hblanks line' column' run' hrun' hplace').elim id fun hafter =>
      hfirst line' column' run' hrun' hafter hlt

theorem length_lt_of_nil (h : cursor.StandsIn source) (hunread : cursor.unread = []) :
    source.length < cursor.line := by
  have hahead := h.ahead_eq
  have hpos := h.line_pos
  rw [hunread] at hahead
  unfold Text.ahead at hahead
  split at hahead
  · rename_i hdrop
    have hlength := List.drop_eq_nil_iff.1 hdrop
    omega
  · exact absurd hahead (by simp)

/-- At the end of the source there is no code ahead. -/
theorem nearest_none_of_nil (h : cursor.StandsIn source) (hunread : cursor.unread = []) :
    Nearest xs source cursor.place none := by
  intro line column run hrun hplace
  have hend := length_lt_of_nil h hunread
  rw [Cursor.place, place_lt_iff] at hplace
  have hline : lineAt source line = [] := by
    unfold lineAt
    rw [List.getElem?_eq_none (by omega), Option.getD_none]
  have hrunIn := hrun.inLine
  rw [hline, List.drop_nil, List.prefix_nil] at hrunIn
  exact absurd hrunIn hrun.ne_nil

end Stretches

/-! ## Looking ahead -/

/-- A cursor outside of all strings, with no unclosed comment ahead. -/
structure Cursor.Clear (d : Delimiters) (file : String) (source : List (List Char))
    (xs : List Lexeme) (cursor : Cursor) : Prop extends cursor.Within d file source xs where
  openRaw_eq : cursor.openRaw = none
  closed : ∀ e, .error e ∉ itemsFrom d file cursor

/-- What the searches ahead make of the way to the next cursor. Either this is the end of the line,
or it is the end of a block comment, which only the search behind a block comment overlooks. -/
structure Cursor.Reaches (d : Delimiters) (file : String) (source : List (List Char))
    (xs : List Lexeme) (cursor : Cursor) (code : List Char) (after : Cursor) : Prop where
  passes : cursor.Passes xs source code after
  clear : codeText code = none → after.Clear d file source xs
  codeAhead : codeAhead d cursor.unread = (codeText code).or (codeAhead d after.unread)
  codeBehind : codeBehind d cursor.unread
    = (codeText code).or (Scan.codeAhead d (source.drop cursor.line))
  lineOrBlock : after.unread = source.drop cursor.line ∨
    ∃ x ∈ xs, x.form = .block ∧ cursor.place < x.start ∧ x.position.line = cursor.line ∧
      x.behind = (after.line, after.column)

section Ahead

variable {d : Delimiters} {file : String} {source : List (List Char)} {xs : List Lexeme}
  {cursor after : Cursor} {line : List Char} {later : List (List Char)}

/-- No unclosed comment is ahead of the next cursor either. -/
theorem closed_advance (hunread : cursor.unread = line :: later)
    (h : ∀ e, .error e ∉ itemsFrom d file cursor) :
    ∀ e, .error e ∉ itemsFrom d file (advance d file cursor line later).2 := by
  intro e he
  apply h e
  rw [itemsFrom_cons hunread]
  exact List.mem_append_right _ he

/-- **One step ahead**, by what stands in the line. -/
theorem Cursor.Clear.reaches (hfeed : ∀ l ∈ source, '\n' ∉ l)
    (hraw : ∀ q ∈ d.rawQuotes, ¬ Text.isBlank q) (h : cursor.Clear d file source xs)
    (hunread : cursor.unread = line :: later) :
    ∃ code, cursor.Reaches d file source xs code (advance d file cursor line later).2 := by
  have hclosed := closed_advance hunread h.closed
  obtain ⟨-, hlater⟩ := lineAt_of_standsIn h.toStandsIn hunread
  have hopenRaw := h.openRaw_eq
  cases hfirst : d.firstComment none line with
  | plain openRaw =>
    rw [← hopenRaw] at hfirst
    have hadvance : advance d file cursor line later = _ := advance_plain hfirst
    obtain ⟨hwithin, hpasses⟩ := h.advance_none hfeed hunread hadvance rfl
    rw [hadvance] at hclosed ⊢
    rw [hopenRaw] at hfirst
    refine ⟨line, hpasses, fun hblank => ⟨hwithin, ?_, hclosed⟩, ?_, ?_, .inl hlater.symm⟩
    · exact Delimiters.firstComment_of_blank hraw (codeText_eq_none_iff.1 hblank) hfirst
    · rw [hunread, codeAhead, hfirst]
      rfl
    · rw [hunread, codeBehind, hfirst, hlater]
  | comment code opening rest =>
    rw [← hopenRaw] at hfirst
    cases opening with
    | line marker =>
      have hadvance : advance d file cursor line later = _ := advance_line hfirst
      obtain ⟨hwithin, hpasses⟩ := h.advance_ok hfeed hunread hfirst hadvance
      rw [hadvance] at hclosed ⊢
      rw [hopenRaw] at hfirst
      refine ⟨code, hpasses, fun _ => ⟨hwithin, rfl, hclosed⟩, ?_, ?_, .inl hlater.symm⟩
      · rw [hunread, codeAhead, hfirst]
        rfl
      · rw [hunread, codeBehind, hfirst, hlater]
    | block opener closer =>
      cases hclose : closeBlock closer (rest :: later) with
      | none =>
        -- the scan would stop here with an error
        exfalso
        apply h.closed
        rw [itemsFrom_cons hunread, advance_unclosed hfirst hclose]
        exact List.mem_append_left _ List.mem_cons_self
      | some closed =>
        have hadvance : advance d file cursor line later = _ := advance_block hfirst hclose
        obtain ⟨hwithin, hpasses⟩ := h.advance_ok hfeed hunread hfirst hadvance
        have hlexeme := lexemesFrom_of_ok hunread hadvance ▸ List.mem_cons_self
        have hstart := ((slices_lexemesFrom d file hfeed h.toStandsIn).1 _ hlexeme).1
        rw [hadvance] at hclosed ⊢
        rw [hopenRaw] at hfirst
        refine ⟨code, hpasses, fun _ => ⟨hwithin, openRaw_endBlock, hclosed⟩, ?_, ?_,
          .inr ⟨_, h.ahead _ hlexeme, rfl, hstart, rfl, rfl⟩⟩
        · rw [hunread, codeAhead, hfirst, unread_endBlock]
          dsimp only
          rw [hclose]
        · rw [hunread, codeBehind, hfirst, hlater]

/-- **The search ahead** finds the nearest code. -/
theorem Cursor.Clear.nearest_codeAhead (hfeed : ∀ l ∈ source, '\n' ∉ l)
    (hraw : ∀ q ∈ d.rawQuotes, ¬ Text.isBlank q) (h : cursor.Clear d file source xs) :
    Nearest xs source cursor.place (codeAhead d cursor.unread) := by
  induction cursor using traceFrom.induct d file with
  | case1 cursor hunread =>
    rw [hunread, codeAhead]
    exact nearest_none_of_nil h.toStandsIn hunread
  | case2 cursor line later hunread next ih =>
    obtain ⟨code, hreaches⟩ := h.reaches hfeed hraw hunread
    rw [hreaches.codeAhead]
    -- the next cursor is outside of all strings only if the search has to go on from it
    cases hcode : codeText code with
    | some found =>
      rw [Option.some_or]
      exact hreaches.passes.nearest h.edge hcode
    | none =>
      rw [Option.none_or]
      exact hreaches.passes.nearest_of_blank hcode (ih (hreaches.clear hcode))

/-- What is left of a line is blank up to its end and has no block comment that goes on below. -/
structure BlankToEnd (xs : List Lexeme) (source : List (List Char)) (line column : Nat) : Prop where
  blank : ∀ start run, IsStretch xs source line start run → column < start → codeText run = none
  ends : ∀ x ∈ xs, x.form = .block → toLex (line, column) < x.start → x.position.line = line →
    x.behind.1 = line

theorem BlankToEnd.mono {line column column' : Nat} (h : BlankToEnd xs source line column)
    (hle : column ≤ column') : BlankToEnd xs source line column' where
  blank start run hrun hstart := h.blank start run hrun (Nat.lt_of_le_of_lt hle hstart)
  ends x hx hform hstart := by
    refine h.ends x hx hform (lt_of_le_of_lt ?_ hstart)
    rw [place_le_iff]
    omega

/-- Behind a line that is blank to its end, the nearest code is below it. -/
theorem Cursor.Clear.nearest_below (hfeed : ∀ l ∈ source, '\n' ∉ l)
    (hraw : ∀ q ∈ d.rawQuotes, ¬ Text.isBlank q) (h : cursor.Clear d file source xs)
    (hblank : BlankToEnd xs source cursor.line cursor.column) :
    Nearest xs source cursor.place (codeAhead d (source.drop cursor.line)) := by
  induction cursor using traceFrom.induct d file with
  | case1 cursor hunread =>
    rw [List.drop_eq_nil_of_le (length_lt_of_nil h.toStandsIn hunread).le, codeAhead]
    exact nearest_none_of_nil h.toStandsIn hunread
  | case2 cursor line later hunread next ih =>
    obtain ⟨code, hreaches⟩ := h.reaches hfeed hraw hunread
    have hcode : codeText code = none := hreaches.passes.codeText_eq_none h.edge fun run hrun =>
      hblank.blank _ run hrun (Nat.lt_succ_self _)
    have hclear := hreaches.clear hcode
    apply hreaches.passes.nearest_of_blank hcode
    rcases hreaches.lineOrBlock with hline | ⟨x, hx, hform, hplace, hposition, hbehind⟩
    · rw [← hline]
      exact hclear.nearest_codeAhead hfeed hraw
    · -- the comment ends in this line, so what is below is the same for the rest of it
      have hsame : next.2.line = cursor.line := by
        have hends := hblank.ends x hx hform hplace hposition
        rw [hbehind] at hends
        exact hends
      have hplaces : cursor.place < next.2.place := hreaches.passes.place_lt
      rw [Cursor.place, Cursor.place, place_lt_iff] at hplaces
      have hrest := ih hclear (hsame ▸ hblank.mono (by omega))
      rw [hsame] at hrest
      exact hrest

/-! ## Behind a block comment -/

/-- Behind blank code, the search goes on below the line. -/
theorem Cursor.Clear.codeBehind_of_blank (hfeed : ∀ l ∈ source, '\n' ∉ l)
    (hraw : ∀ q ∈ d.rawQuotes, ¬ Text.isBlank q) (h : cursor.Clear d file source xs)
    (hblank : ∀ run, IsStretch xs source cursor.line (cursor.column + 1) run →
      codeText run = none) :
    codeBehind d cursor.unread = codeAhead d (source.drop cursor.line) := by
  cases hunread : cursor.unread with
  | nil =>
    rw [List.drop_eq_nil_of_le (length_lt_of_nil h.toStandsIn hunread).le, codeAhead]
    rfl
  | cons line later =>
    obtain ⟨code, hreaches⟩ := h.reaches hfeed hraw hunread
    rw [← hunread, hreaches.codeBehind, hreaches.passes.codeText_eq_none h.edge hblank,
      Option.none_or]

/-- **The search behind a block comment** finds the nearest code, unless the code right behind the
comment is blank and the line is not blank to its end. -/
theorem Cursor.Clear.nearest_codeBehind (hfeed : ∀ l ∈ source, '\n' ∉ l)
    (hraw : ∀ q ∈ d.rawQuotes, ¬ Text.isBlank q) (h : cursor.Clear d file source xs)
    (hend : (∀ run, IsStretch xs source cursor.line (cursor.column + 1) run →
      codeText run = none) → BlankToEnd xs source cursor.line cursor.column) :
    Nearest xs source cursor.place (codeBehind d cursor.unread) := by
  cases hunread : cursor.unread with
  | nil => exact nearest_none_of_nil h.toStandsIn hunread
  | cons line later =>
    obtain ⟨code, hreaches⟩ := h.reaches hfeed hraw hunread
    rw [← hunread, hreaches.codeBehind]
    cases hcode : codeText code with
    | some found =>
      rw [Option.some_or]
      exact hreaches.passes.nearest h.edge hcode
    | none =>
      rw [Option.none_or]
      refine h.nearest_below hfeed hraw (hend fun run hrun => ?_)
      have hbehind : cursor.place < toLex (cursor.line, cursor.column + 1) :=
        place_lt_iff.2 (by omega)
      rcases hreaches.passes.stretch_cases hrun hbehind with ⟨-, -, rfl⟩ | hafter
      · exact hcode
      · -- the next cursor is not before the character right behind this one
        have hfurther := lt_of_le_of_lt hreaches.passes.further hafter
        rw [place_lt_iff] at hfurther
        omega

end Ahead

/-! ## Through the scan -/

/-- A block comment behind which something is overlooked: the code right behind it is blank, and
in the rest of its last line there is other code, or a block comment that goes on below. -/
structure Overlooks (xs : List Lexeme) (source : List (List Char)) (x : Lexeme) : Prop where
  block : x.form = .block
  blank : ∀ run, IsStretch xs source x.behind.1 (x.behind.2 + 1) run → codeText run = none
  further : ¬ BlankToEnd xs source x.behind.1 x.behind.2

/-- What is told as the code after a comment is the nearest code behind it. Where something is
overlooked, it is what is found in the lines below. -/
structure TellsAfter (d : Delimiters) (xs : List Lexeme) (source : List (List Char)) (x : Lexeme)
    (followingCode : Option String) : Prop where
  nearest : ¬ Overlooks xs source x → Nearest xs source (toLex x.behind) followingCode
  below : Overlooks xs source x → followingCode = codeAhead d (source.drop x.behind.1)

section Run

variable {d : Delimiters} {file : String} {source : List (List Char)} {xs : List Lexeme}
  {cursor after : Cursor} {line : List Char} {later : List (List Char)} {c : Comment}

/-- A comment is told the code after it by a search from the cursor behind it. -/
theorem found_of_advance (hadvance : advance d file cursor line later = (some (.ok c), after)) :
    after.openRaw = none ∧ (c.form = .line → c.followingCode = codeAhead d after.unread) ∧
      (c.form = .block → c.followingCode = codeBehind d after.unread) := by
  cases hfirst : d.firstComment cursor.openRaw line with
  | plain openRaw =>
    rw [advance_plain hfirst] at hadvance
    exact absurd hadvance (by simp)
  | comment code opening rest =>
    cases opening with
    | line marker =>
      rw [advance_line hfirst] at hadvance
      obtain ⟨hc, rfl⟩ := Prod.mk.inj hadvance
      obtain rfl := Except.ok.inj (Option.some.inj hc)
      exact ⟨rfl, fun _ => rfl, fun hform => absurd hform (by simp [commentAt])⟩
    | block opener closer =>
      cases hclose : closeBlock closer (rest :: later) with
      | none =>
        rw [advance_unclosed hfirst hclose] at hadvance
        exact absurd hadvance (by simp)
      | some closed =>
        rw [advance_block hfirst hclose] at hadvance
        obtain ⟨hc, rfl⟩ := Prod.mk.inj hadvance
        obtain rfl := Except.ok.inj (Option.some.inj hc)
        refine ⟨openRaw_endBlock, fun hform => absurd hform (by simp [commentAt]), fun _ => ?_⟩
        rw [unread_endBlock]
        rfl

/-- **One advance.** The comment that is found tells the code after it. -/
theorem tellsAfter_of_advance (hfeed : ∀ l ∈ source, '\n' ∉ l)
    (hraw : ∀ q ∈ d.rawQuotes, ¬ Text.isBlank q) (hwithin : after.Within d file source xs)
    (hclosed : ∀ e, .error e ∉ itemsFrom d file after)
    (hadvance : advance d file cursor line later = (some (.ok c), after)) :
    TellsAfter d xs source (lexemeOf c after) c.followingCode := by
  obtain ⟨hopenRaw, hlineForm, hblockForm⟩ := found_of_advance hadvance
  have hclear : after.Clear d file source xs := ⟨hwithin, hopenRaw, hclosed⟩
  cases hform : c.form with
  | line =>
    rw [hlineForm hform]
    refine ⟨fun _ => hclear.nearest_codeAhead hfeed hraw, fun hoverlooks => ?_⟩
    have hblock : c.form = .block := hoverlooks.block
    rw [hform] at hblock
    exact absurd hblock (by simp)
  | block =>
    rw [hblockForm hform]
    refine ⟨fun hoverlooks => hclear.nearest_codeBehind hfeed hraw fun hblank => ?_,
      fun hoverlooks => hclear.codeBehind_of_blank hfeed hraw hoverlooks.blank⟩
    by_contra hfurther
    exact hoverlooks ⟨hform, hblank, hfurther⟩

/-- **The scan.** If no comment is unclosed, every comment tells the code after it. -/
theorem tellsAfter_traceFrom (hfeed : ∀ l ∈ source, '\n' ∉ l)
    (hraw : ∀ q ∈ d.rawQuotes, ¬ Text.isBlank q) (h : cursor.Within d file source xs)
    (hclosed : ∀ e, .error e ∉ itemsFrom d file cursor) :
    ∀ c after, (.ok c, after) ∈ traceFrom d file cursor →
      TellsAfter d xs source (lexemeOf c after) c.followingCode := by
  induction cursor using traceFrom.induct d file with
  | case1 cursor hunread =>
    intro c after hmem
    rw [traceFrom_nil hunread] at hmem
    exact absurd hmem (by simp)
  | case2 cursor line later hunread next ih =>
    intro c after hmem
    have hnext : ∀ e, .error e ∉ itemsFrom d file next.2 := closed_advance hunread hclosed
    have hadvance : advance d file cursor line later = next := rfl
    rw [traceFrom_cons hunread, hadvance, List.mem_append] at hmem
    obtain ⟨item, after'⟩ := next
    have hwithin := h.advance hfeed hunread hadvance
    obtain _ | e | found := item
    · rcases hmem with hmem | hmem
      · exact absurd hmem (by simp)
      · exact ih (hwithin (by simp)) hnext c after hmem
    · exfalso
      apply hclosed e
      rw [itemsFrom_cons hunread, hadvance]
      exact List.mem_append_left _ List.mem_cons_self
    · rcases hmem with hmem | hmem
      · obtain ⟨rfl, rfl⟩ : c = found ∧ after = after' := by simpa using hmem
        exact tellsAfter_of_advance hfeed hraw (hwithin (by simp)) hnext hadvance
      · exact ih (hwithin (by simp)) hnext c after hmem

end Run

/-- **The code after a comment**, for every comment of a text that has no unclosed one, if no quote
of a raw string is blank. Each comment stands in the trace with the cursor behind it. What it tells
is the nearest code from there on, except where the search overlooks the rest of a line. -/
theorem comments_tell_code_after (d : Delimiters) (file text : String)
    (hraw : ∀ q ∈ d.rawQuotes, ¬ Text.isBlank q)
    (hclosed : ∀ e, .error e ∉ comments d file text) :
    let trace := traceFrom d file (.start text.toList)
    let xs := lexemesFrom d file (.start text.toList)
    let source := Text.lines text.toList
    Extents d file text xs ∧ trace.map Prod.fst = comments d file text ∧
      ∀ c after, (.ok c, after) ∈ trace →
        lexemeOf c after ∈ xs ∧ TellsAfter d xs source (lexemeOf c after) c.followingCode := by
  intro trace xs source
  refine ⟨extents_lexemesFrom d file text, map_fst_traceFrom d file _, fun c after hmem => ⟨?_, ?_⟩⟩
  · exact List.mem_filterMap.2 ⟨(.ok c, after), hmem, rfl⟩
  · exact tellsAfter_traceFrom (fun _ hl => Text.feed_notMem_lines hl) hraw
      (within_start d file text.toList) hclosed c after hmem

/-- Code in a line behind two block comments. -/
def crowdedLine : String := "/* a */ /* b */ x"

/-- Comments as in C. -/
def slashes : Delimiters := .of ["//"] (some ("/*", "*/"))

def crowdedLineFirst : Comment × Cursor :=
  (⟨" a ", ⟨"a.c", 1, 1⟩, .block, false, none, none, none⟩,
    ⟨1, 7, [" /* b */ x".toList], [], none, none⟩)

def crowdedLineSecond : Comment × Cursor :=
  (⟨" b ", ⟨"a.c", 1, 9⟩, .block, false, none, none, some "x"⟩,
    ⟨1, 15, [" x".toList], [' '], none, none⟩)

theorem traceFrom_crowdedLine : traceFrom slashes "a.c" (.start crowdedLine.toList)
    = [(.ok crowdedLineFirst.1, crowdedLineFirst.2),
      (.ok crowdedLineSecond.1, crowdedLineSecond.2)] := by
  decide +kernel

theorem rawQuotes_slashes : ∀ q ∈ slashes.rawQuotes, ¬ Text.isBlank q := by
  simp [slashes, Delimiters.of]

theorem closed_crowdedLine : ∀ e, .error e ∉ comments slashes "a.c" crowdedLine := by
  intro e he
  rw [comments, ← map_fst_traceFrom, traceFrom_crowdedLine] at he
  simp at he

/-- The code behind both is code behind the first one. -/
theorem isStretch_crowdedLine :
    IsStretch (lexemesFrom slashes "a.c" (.start crowdedLine.toList))
      (Text.lines crowdedLine.toList) 1 16 [' ', 'x'] := by
  have hlines : Text.lines crowdedLine.toList = [crowdedLine.toList] := by decide
  have hlexemes : lexemesFrom slashes "a.c" (.start crowdedLine.toList)
      = [lexemeOf crowdedLineFirst.1 crowdedLineFirst.2,
        lexemeOf crowdedLineSecond.1 crowdedLineSecond.2] := by
    rw [lexemesFrom, traceFrom_crowdedLine]
    rfl
  rw [hlines, hlexemes]
  refine ⟨by simp, by omega, ⟨[], by decide⟩, ?_, .inr (by decide), .inl (by decide)⟩
  intro c hc hlt
  obtain rfl | rfl : c = 16 ∨ c = 17 := by
    rw [List.length_cons, List.length_singleton] at hlt
    omega
  · decide
  · decide

theorem code_after_crowdedLine :
    (∀ q ∈ slashes.rawQuotes, ¬ Text.isBlank q) ∧
    (∀ e, .error e ∉ comments slashes "a.c" crowdedLine) ∧
    (.ok crowdedLineSecond.1, crowdedLineSecond.2)
      ∈ traceFrom slashes "a.c" (.start crowdedLine.toList) ∧
    TellsAfter slashes (lexemesFrom slashes "a.c" (.start crowdedLine.toList))
      (Text.lines crowdedLine.toList) (lexemeOf crowdedLineSecond.1 crowdedLineSecond.2)
      (some "x") := by
  have hmem : (.ok crowdedLineSecond.1, crowdedLineSecond.2)
      ∈ traceFrom slashes "a.c" (.start crowdedLine.toList) := by
    rw [traceFrom_crowdedLine]
    simp
  exact ⟨rawQuotes_slashes, closed_crowdedLine, hmem,
    ((comments_tell_code_after slashes "a.c" crowdedLine rawQuotes_slashes closed_crowdedLine).2.2
      _ _ hmem).2⟩

/-- Nothing is found after the first comment of that line, though there is code. -/
theorem crowdedLine_overlooked :
    (∀ q ∈ slashes.rawQuotes, ¬ Text.isBlank q) ∧
    (∀ e, .error e ∉ comments slashes "a.c" crowdedLine) ∧
    ¬ ∀ c after, (.ok c, after) ∈ traceFrom slashes "a.c" (.start crowdedLine.toList) →
      Nearest (lexemesFrom slashes "a.c" (.start crowdedLine.toList))
        (Text.lines crowdedLine.toList) (toLex (lexemeOf c after).behind) c.followingCode := by
  refine ⟨rawQuotes_slashes, closed_crowdedLine, ?_⟩
  intro h
  have hfirst := h crowdedLineFirst.1 crowdedLineFirst.2 (by rw [traceFrom_crowdedLine]; simp)
  have hnone := hfirst 1 16 [' ', 'x'] isStretch_crowdedLine (by decide)
  exact absurd hnone (by decide)

end Scan

end Marginalia
