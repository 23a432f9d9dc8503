/-
The scan of a text finds what the automaton finds.

The scan works in jumps. It looks for the first comment in what is left of a
line, for the closer of a block comment in the lines after it, and starts
again behind it; the only thing it carries along is a raw string that is
still open. The automaton goes through the same text character by character.
The simulation relates the two wherever the scan comes to rest: at a cursor,
the automaton is in code, or in the raw string that the cursor has open.

The jumps have to be matched, one lemma each: through code to the end of the
line or to the next comment (`readLine_search`, `readChars_search`), and
through a block comment to its closer or to the end of the text
(`foldl_readLine_closed`, `foldl_readLine_unclosed`).
-/
import Marginalia.Proofs.Comment.Automaton
import Marginalia.Proofs.Comment.Trace

set_option autoImplicit false

namespace Marginalia

/-- An item of the scan as a lexeme: a comment runs from its opening delimiter to the cursor
behind it. -/
def Scan.lexeme : Except Unclosed Comment × Cursor → Except Unclosed Lexeme
  | (.error e, _) => .error e
  | (.ok c, cursor) => .ok ⟨c.form, c.position, c.text, (cursor.line, cursor.column)⟩

namespace Automaton

open Delimiters Scan

/-! ## What is recognized -/

/-- The mode in a comment that has just been opened. -/
def begun (start : Position) : Opening → Mode
  | .line _ => .line start []
  | .block _ closer => .block start closer [] []

/-- The automaton in code or in a string, as the search stands there. -/
def State.standing (s : State) : Standing → State
  | .code passed => { s with mode := .code, passed }
  | .plain quote escaped => { s with mode := .plain quote escaped, passed := 0 }
  | .raw quote => { s with mode := .raw quote, passed := 0 }

/-- The mode where the scan rests: in code, or in the raw string that is open. -/
def resting : Option Char → Mode
  | some quote => .raw quote
  | none => .code

/-- **Comments.** Where the search opens a comment, the automaton recognizes the same delimiter. -/
theorem recognize_opening {d : Delimiters} {c : Char} {text rest : List Char} {opening : Opening}
    (h : d.opening? (c :: text) = some (opening, rest)) (start : Position) :
    recognize d start c text = (begun start opening, opening.mark.length) := by
  rw [opening?_eq] at h
  unfold recognize
  cases hb : d.blockAt? (c :: text) with
  | some b =>
    rw [hb] at h
    obtain ⟨rfl, -⟩ := Prod.mk.inj (Option.some.inj h)
    rfl
  | none =>
    rw [hb] at h
    obtain ⟨m, hm, heq⟩ := Option.map_eq_some_iff.1 h
    obtain ⟨rfl, -⟩ := Prod.mk.inj heq
    simp only [hm]
    rfl

/-- **Code.** Where the search opens none, both go on in the same way. -/
theorem recognize_code {d : Delimiters} {c : Char} {text : List Char}
    (h : d.opening? (c :: text) = none) (start : Position) (s : State) :
    { s with
      mode := (recognize d start c text).1
      passed := (recognize d start c text).2 - 1 } = s.standing (d.enter c text) := by
  rw [opening?_eq] at h
  unfold recognize enter
  cases hb : d.blockAt? (c :: text) with
  | some b => simp [hb] at h
  | none =>
    have hm : d.markerAt? (c :: text) = none := by simpa [hb] using h
    simp only [hm, literal?_eq]
    split_ifs <;> simp [State.standing]

/-! ## Through code -/

variable {d : Delimiters} {file : String}

/-- A character that opens no comment takes the automaton where it takes the search. -/
theorem step_standing {s : State} {standing : Standing} {c : Char} {text : List Char}
    (h : standing = .code 0 → d.opening? (c :: text) = none) :
    step d file (s.standing standing) c text
      = State.standing { s with column := s.column + 1 } (next d standing c text) := by
  match standing with
  | .code 0 =>
    exact recognize_code (h rfl) ⟨file, s.line, s.column + 1⟩ { s with column := s.column + 1 }
  | .code (passed + 1) => rfl
  | .raw quote =>
    by_cases hquote : c = quote <;>
      simp [step, State.standing, next, passString, hquote]
  | .plain quote true => rfl
  | .plain quote false =>
    by_cases hescape : c = '\\'
    · simp [step, State.standing, next, passString, hescape]
    · by_cases hquote : c = quote
      · subst hquote
        simp [step, State.standing, next, passString, hescape]
      · simp [step, State.standing, next, passString, hescape, hquote]

/-- **To the end of a line.** If the search finds no comment, the automaton comes to the end of
the line in code, or in the raw string that is left open. -/
theorem readLine_search {text : List Char} {standing : Standing} {openRaw : Option Char}
    (h : d.search standing text = .plain openRaw) (s : State) :
    readLine d file (s.standing standing) text
      = { s with mode := resting openRaw, passed := 0, line := s.line + 1, column := 0 } := by
  induction text generalizing s standing with
  | nil =>
    -- only a raw string is still open where the line ends
    cases standing <;> (obtain rfl := Stretch.plain.inj h; rfl)
  | cons c text ih =>
    obtain ⟨hopening, hsearch⟩ := search_cons_plain h
    rw [readLine, readChars, step_standing hopening]
    exact ih hsearch { s with column := s.column + 1 }

/-- A delimiter is recognized at its first character, and its others are passed over. -/
theorem readChars_opening {c : Char} {text rest : List Char} {opening : Opening}
    (h : d.opening? (c :: text) = some (opening, rest)) (s : State) :
    readChars d file (s.standing (.code 0)) (c :: text)
      = readChars d file
          { s with
            mode := begun ⟨file, s.line, s.column + 1⟩ opening
            passed := 0
            column := s.column + opening.mark.length } rest := by
  obtain ⟨htext, hmark, -⟩ := opening?_eq_some h
  obtain ⟨c', mark, hmark⟩ := List.exists_cons_of_ne_nil hmark
  rw [hmark, List.cons_append] at htext
  obtain ⟨rfl, rfl⟩ := List.cons.inj htext
  have hstep : step d file (s.standing (.code 0)) c (mark ++ rest)
      = { { s with
            mode := begun ⟨file, s.line, s.column + 1⟩ opening
            column := s.column + 1 } with
          passed := mark.length } := by
    rw [State.standing, step]
    simp [recognize_opening h, hmark]
  rw [readChars, hstep, readChars_passed, hmark]
  simp only [List.length_cons, Nat.add_assoc, Nat.add_comm 1]

/-- **To a comment.** If the search finds one, the automaton comes to the text of that comment. -/
theorem readChars_search {text code rest : List Char} {standing : Standing} {opening : Opening}
    (h : d.search standing text = .comment code opening rest) (s : State) :
    readChars d file (s.standing standing) text
      = readChars d file
          { s with
            mode := begun ⟨file, s.line, s.column + code.length + 1⟩ opening
            passed := 0
            column := s.column + code.length + opening.mark.length } rest := by
  induction text generalizing s standing code with
  | nil => cases standing <;> simp [search] at h
  | cons c text ih =>
    rcases search_cons_comment h with ⟨rfl, rfl, hopening⟩ | ⟨hnone, code', rfl, hsearch⟩
    · exact readChars_opening hopening s
    · rw [readChars, step_standing hnone, ih hsearch]
      simp only [List.length_cons, Nat.add_assoc, Nat.add_comm 1]

/-! ## Through a block comment -/

variable {start : Position} {closer : List Char}

/-- A line without a closer becomes a line of the block comment. -/
theorem readLine_block_open {line : List Char} (h : Text.cutAt closer line = none) (s : State)
    (lines : List (List Char)) :
    readLine d file { s with mode := .block start closer lines [], passed := 0 } line
      = { { s with line := s.line + 1, column := 0 } with
          mode := .block start closer (lines ++ [line]) [], passed := 0 } := by
  rw [readLine, readChars_block_open h]
  rfl

/-- **No closer.** The block comment stays open to the end of the text. -/
theorem foldl_readLine_unclosed {unread : List (List Char)}
    (h : closeBlock closer unread = none) (s : State) (lines : List (List Char)) :
    finish (unread.foldl (readLine d file)
      { s with mode := .block start closer lines [], passed := 0 })
      = s.found.map .ok ++ [.error ⟨start⟩] := by
  induction unread generalizing s lines with
  | nil => rfl
  | cons line later ih =>
    rw [closeBlock] at h
    cases hcut : Text.cutAt closer line with
    | some cut => simp [hcut] at h
    | none =>
      rw [hcut, Option.map_eq_none_iff] at h
      rw [List.foldl_cons, readLine_block_open hcut]
      exact ih h { s with line := s.line + 1, column := 0 } _

/-- **To the closer.** The automaton comes out of the block comment where the scan goes on. -/
theorem foldl_readLine_closed {unread lines after : List (List Char)} (hcloser : closer ≠ [])
    (h : closeBlock closer unread = some (lines, after)) (s : State)
    (before : List (List Char)) :
    unread.foldl (readLine d file) { s with mode := .block start closer before [], passed := 0 }
      = after.foldl (readLine d file)
          { s with
            mode := .code
            passed := 0
            line := s.line + (lines.length - 1)
            column := columnBehind s.column closer lines
            found := s.found ++ [blockLexeme d start (before ++ lines)
              (s.line + (lines.length - 1), columnBehind s.column closer lines)] } := by
  induction unread generalizing s before lines with
  | nil => simp [closeBlock] at h
  | cons line later ih =>
    rw [closeBlock] at h
    cases hcut : Text.cutAt closer line with
    | some cut =>
      rw [hcut] at h
      obtain ⟨rfl, rfl⟩ := Prod.mk.inj (Option.some.inj h)
      rw [List.foldl_cons, List.foldl_cons, readLine, readLine,
        readChars_block_closed hcloser hcut]
      simp [columnBehind]
    | none =>
      rw [hcut] at h
      obtain ⟨⟨lines', after'⟩, hlater, heq⟩ := Option.map_eq_some_iff.1 h
      obtain ⟨rfl, rfl⟩ := Prod.mk.inj heq
      obtain ⟨first, others, rfl⟩ := List.exists_cons_of_ne_nil (closeBlock_ne_nil hlater)
      rw [List.foldl_cons, readLine_block_open hcut, ih hlater]
      simp [columnBehind, Nat.add_assoc, Nat.add_comm 1]

/-! ## The simulation -/

/-- The automaton where a cursor of the scan stands. -/
def atCursor (cursor : Cursor) (found : List Lexeme) : State :=
  { mode := resting cursor.openRaw, passed := 0, line := cursor.line, column := cursor.column, found }

theorem atCursor_eq_standing (cursor : Cursor) (found : List Lexeme) :
    atCursor cursor found = State.standing
      { line := cursor.line, column := cursor.column, found } (standingAt cursor.openRaw) := by
  unfold atCursor
  cases cursor.openRaw <;> rfl

section Jumps

variable {cursor : Cursor} {found : List Lexeme} {line : List Char}
  {later : List (List Char)} {code rest : List Char}

/-- Through a rest of a line without comments. -/
theorem readLine_plain {openRaw : Option Char}
    (h : d.firstComment cursor.openRaw line = .plain openRaw) :
    readLine d file (atCursor cursor found) line
      = atCursor ({ cursor with lineCode := cursor.lineCode ++ line, openRaw }.endLine later)
        found := by
  rw [firstComment_eq] at h
  rw [atCursor_eq_standing, readLine_search h]
  rfl

/-- Through a line comment. -/
theorem readLine_line {marker : List Char}
    (h : d.firstComment cursor.openRaw line = .comment code (.line marker) rest) :
    readLine d file (atCursor cursor found) line
      = atCursor ((cursor.before code).endLine later) (found ++
          [⟨.line, ⟨file, cursor.line, cursor.column + code.length + 1⟩, String.ofList rest,
            (cursor.line + 1, 0)⟩]) := by
  rw [firstComment_eq] at h
  rw [atCursor_eq_standing, readLine, readChars_search h]
  exact congrArg endLine (readChars_line
    (s := ⟨.code, 0, cursor.line, cursor.column + code.length + marker.length, found⟩) _ [] rest)

/-- Into a block comment, whose text starts behind its opener. -/
theorem foldl_readLine_block {opener closer : List Char}
    (h : d.firstComment cursor.openRaw line = .comment code (.block opener closer) rest) :
    (line :: later).foldl (readLine d file) (atCursor cursor found)
      = (rest :: later).foldl (readLine d file)
          { mode := .block ⟨file, cursor.line, cursor.column + code.length + 1⟩ closer [] []
            line := cursor.line
            column := cursor.column + code.length + opener.length
            found } := by
  rw [firstComment_eq] at h
  rw [atCursor_eq_standing, List.foldl_cons, List.foldl_cons, readLine, readChars_search h]
  rfl

/-- Through a block comment that is closed. -/
theorem foldl_readLine_endBlock {opener closer : List Char} {lines unread : List (List Char)}
    (h : d.firstComment cursor.openRaw line = .comment code (.block opener closer) rest)
    (hclose : closeBlock closer (rest :: later) = some (lines, unread)) :
    (line :: later).foldl (readLine d file) (atCursor cursor found)
      = unread.foldl (readLine d file)
          (atCursor ((cursor.before code).endBlock opener.length closer lines unread)
            (found ++ [blockLexeme d ⟨file, cursor.line, cursor.column + code.length + 1⟩ lines
              (((cursor.before code).endBlock opener.length closer lines unread).line,
                ((cursor.before code).endBlock opener.length closer lines unread).column)])) := by
  rw [foldl_readLine_block h, atCursor, line_endBlock, column_endBlock, openRaw_endBlock]
  exact foldl_readLine_closed (closer_ne_nil h) hclose
    ⟨.code, 0, cursor.line, cursor.column + code.length + opener.length, found⟩ []

end Jumps

/-- **The automaton follows the scan.** From wherever a cursor stands, both find the same. -/
theorem finish_foldl_readLine (cursor : Cursor) (found : List Lexeme) :
    finish (cursor.unread.foldl (readLine d file) (atCursor cursor found))
      = found.map .ok ++ (traceFrom d file cursor).map lexeme := by
  induction cursor using traceFrom.induct d file generalizing found with
  | case1 cursor h =>
    rw [h, traceFrom_nil h, List.foldl_nil, finish, atCursor]
    cases cursor.openRaw <;> rfl
  | case2 cursor line later h next ih =>
    rw [h, traceFrom_cons h]
    cases hfirst : d.firstComment cursor.openRaw line with
    | plain openRaw =>
      simp only [next, advance_plain hfirst] at ih ⊢
      rw [List.foldl_cons, readLine_plain hfirst]
      exact ih found
    | comment code opening rest =>
      cases opening with
      | line marker =>
        simp only [next, advance_line hfirst] at ih ⊢
        rw [List.foldl_cons, readLine_line hfirst]
        refine (ih _).trans ?_
        rw [List.map_append, List.append_assoc]
        rfl
      | block opener closer =>
        cases hclose : closeBlock closer (rest :: later) with
        | none =>
          simp only [advance_unclosed hfirst hclose]
          rw [foldl_readLine_block hfirst, traceFrom_nil rfl]
          exact foldl_readLine_unclosed hclose
            ⟨.code, 0, cursor.line, cursor.column + code.length + opener.length, found⟩ []
        | some closed =>
          obtain ⟨lines, unread⟩ := closed
          simp only [next, advance_block hfirst hclose] at ih ⊢
          rw [unread_endBlock] at ih
          rw [foldl_readLine_endBlock hfirst hclose, ih, List.map_append, List.append_assoc]
          rfl

/-! ## Errors -/

/-- An item is an error exactly if its lexeme is. -/
theorem error_mem_map_lexeme {items : List (Except Unclosed Comment × Cursor)} {e : Unclosed} :
    .error e ∈ items.map lexeme ↔ .error e ∈ items.map Prod.fst := by
  have hitem : ∀ item, lexeme item = .error e ↔ item.1 = .error e := by
    rintro ⟨error | comment, cursor⟩ <;> simp [lexeme]
  simp only [List.mem_map, hitem]

theorem error_mem_finish {s : State} {e : Unclosed} :
    .error e ∈ finish s ↔ ∃ closer lines current, s.mode = .block e.position closer lines current := by
  obtain ⟨start⟩ := e
  unfold finish
  cases s.mode <;> simp [eq_comm]

/-- An error stands at the end. -/
theorem error_notMem_dropLast_finish (s : State) (e : Unclosed) : .error e ∉ (finish s).dropLast := by
  have hfound : .error e ∉ s.found.map (Except.ok (ε := Unclosed)) := by simp
  unfold finish
  cases s.mode with
  | block start closer lines current =>
    rw [List.dropLast_concat]
    exact hfound
  | _ =>
    rw [List.append_nil]
    exact fun h => hfound (List.dropLast_subset _ h)

/-- The scan returns an error exactly if the text ends inside a block comment. -/
theorem error_mem_comments_iff {text : String} {e : Unclosed} :
    .error e ∈ comments d file text ↔
      ∃ closer lines current, (atEnd d file text).mode = .block e.position closer lines current := by
  have hrun : run d file text = (traceFrom d file (.start text.toList)).map lexeme :=
    finish_foldl_readLine (.start text.toList) []
  rw [comments, ← map_fst_traceFrom, ← error_mem_map_lexeme, ← hrun, run, error_mem_finish]

/-- **The scan finds what the automaton finds.** Item by item, what the scan returns is what the
automaton finds: form, position, text and extent of each comment, and an error exactly if the text
ends inside a block comment, which then comes last. -/
theorem comments_refine_automaton (d : Delimiters) (file text : String) :
    (traceFrom d file (.start text.toList)).map Prod.fst = comments d file text ∧
    (traceFrom d file (.start text.toList)).map lexeme = run d file text ∧
    (∀ e, .error e ∈ comments d file text ↔
      ∃ closer lines current, (atEnd d file text).mode = .block e.position closer lines current) ∧
    ∀ e, .error e ∉ (comments d file text).dropLast := by
  have hitems : (traceFrom d file (.start text.toList)).map Prod.fst = comments d file text :=
    map_fst_traceFrom d file _
  have hrun : (traceFrom d file (.start text.toList)).map lexeme = run d file text :=
    (finish_foldl_readLine (.start text.toList) []).symm
  refine ⟨hitems, hrun, fun e => ?_, fun e => ?_⟩
  · rw [← hitems, ← error_mem_map_lexeme, hrun, run, error_mem_finish]
  · rw [← hitems, ← List.map_dropLast, ← error_mem_map_lexeme, List.map_dropLast, hrun]
    exact error_notMem_dropLast_finish _ e

end Automaton

end Marginalia
