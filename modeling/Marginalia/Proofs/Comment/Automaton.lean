/-
A lexer that reads a text once, character by character.

The automaton is always in one of a few modes: in code, in a string with or
without escapes, in a line comment or in a block comment. At each character it
may look ahead in the rest of the line, and what it recognizes there (a
delimiter, a character literal) it passes over whole. It never goes back and
never searches: where comments start and end is decided by its mode alone.

So the automaton says what counts as a comment. That the scan of a text finds
just those comments is the subject of `Refinement`.
-/
import Marginalia.Comment.Scan
import Marginalia.Proofs.Comment.Search

set_option autoImplicit false

namespace Marginalia

/-- A comment as it lies in the text. -/
structure Lexeme where
  form : CommentForm
  /-- Where the opening delimiter stands. -/
  position : Position
  text : String
  /-- The place behind the comment: a line, and the number of its characters before the place.
  Behind a line comment that is the start of the next line. -/
  behind : Nat × Nat
deriving DecidableEq, Repr

namespace Automaton

/-- What is being read. -/
inductive Mode where
  | code
  /-- A string with escapes; the last character may have been a backslash that escapes. -/
  | plain (quote : Char) (escaped : Bool)
  /-- A string without escapes. -/
  | raw (quote : Char)
  /-- A line comment, with its text so far. -/
  | line (start : Position) (text : List Char)
  /-- A block comment, with its finished lines and its current one so far. -/
  | block (start : Position) (closer : List Char) (lines : List (List Char)) (current : List Char)
deriving DecidableEq, Repr

/-- The state of the automaton. -/
structure State where
  mode : Mode := .code
  /-- The number of characters to pass over, which belong to something already recognized. -/
  passed : Nat := 0
  /-- The number of the current line, from one. -/
  line : Nat := 1
  /-- The number of characters read in the current line. -/
  column : Nat := 0
  /-- The comments that are complete. -/
  found : List Lexeme := []
deriving DecidableEq, Repr

/-! ## What is recognized in code -/

/-- Whether a text is a character literal without its first apostrophe. It closes with an
apostrophe, and before that there is one character, no apostrophe and no backslash, or else a
backslash, any character, and up to nine characters that are no apostrophes. -/
def isLiteral : List Char → Bool
  | [x, close] => x ≠ '\'' && x ≠ '\\' && close = '\''
  | '\\' :: _ :: more =>
    more.getLast? = some '\'' && !more.dropLast.contains '\'' && decide (more.length ≤ 10)
  | _ => false

/-- The length of the character literal that a text continues behind an apostrophe. -/
def literal? (text : List Char) : Option Nat :=
  (List.range (text.length + 1)).find? fun n => isLiteral (text.take n)

/-- What is read from character `c` of code on, and how many characters are recognized. The block
opener comes first, then the first line marker that fits, then the quotes. -/
def recognize (d : Delimiters) (start : Position) (c : Char) (rest : List Char) : Mode × Nat :=
  match d.blockAt? (c :: rest) with
  | some (opener, closer) => (.block start closer [] [], opener.length)
  | none =>
    match d.markerAt? (c :: rest) with
    | some marker => (.line start [], marker.toList.length)
    | none =>
      if d.stringQuotes.contains c then (.plain c false, 1)
      else if d.rawQuotes.contains c then (.raw c, 1)
      else if c = '\'' && d.charLiterals then (.code, 1 + (literal? rest).getD 0)
      else (.code, 1)

/-! ## Steps -/

/-- The block comment with these lines between its delimiters. -/
def blockLexeme (d : Delimiters) (start : Position) (lines : List (List Char))
    (behind : Nat × Nat) : Lexeme :=
  ⟨.block, start, String.ofList (Gutter.textOf (d.gutter.map String.toList) lines), behind⟩

/-- Reads a character, with the rest of its line to look ahead in. -/
def step (d : Delimiters) (file : String) (s : State) (c : Char) (rest : List Char) : State :=
  match s.passed with
  | passed + 1 => { s with passed, column := s.column + 1 }
  | 0 =>
    match s.mode with
    | .code =>
      let (mode, width) := recognize d ⟨file, s.line, s.column + 1⟩ c rest
      { s with mode, passed := width - 1, column := s.column + 1 }
    | .plain quote true => { s with mode := .plain quote false, column := s.column + 1 }
    | .plain quote false =>
      let mode := if c = '\\' then .plain quote true else if c = quote then .code
        else .plain quote false
      { s with mode, column := s.column + 1 }
    | .raw quote =>
      { s with mode := if c = quote then .code else .raw quote, column := s.column + 1 }
    | .line start text => { s with mode := .line start (text ++ [c]), column := s.column + 1 }
    | .block start closer lines current =>
      if closer.isPrefixOf (c :: rest) then
        { s with
          mode := .code
          passed := closer.length - 1
          column := s.column + 1
          found := s.found ++
            [blockLexeme d start (lines ++ [current]) (s.line, s.column + closer.length)] }
      else
        { s with mode := .block start closer lines (current ++ [c]), column := s.column + 1 }

/-- Reads the end of a line. Raw strings and block comments stay open; a plain string ends, and a
line comment is complete. -/
def endLine (s : State) : State :=
  let s' := { s with passed := 0, line := s.line + 1, column := 0 }
  match s.mode with
  | .code | .plain _ _ => { s' with mode := .code }
  | .raw _ => s'
  | .line start text =>
    { s' with
      mode := .code
      found := s.found ++ [⟨.line, start, String.ofList text, (s.line + 1, 0)⟩] }
  | .block start closer lines current =>
    { s' with mode := .block start closer (lines ++ [current]) [] }

/-- Reads the characters of a line, or of the rest of one. -/
def readChars (d : Delimiters) (file : String) (s : State) : List Char → State
  | [] => s
  | c :: rest => readChars d file (step d file s c rest) rest

/-- Reads a line, or the rest of one, with its end. -/
def readLine (d : Delimiters) (file : String) (s : State) (line : List Char) : State :=
  endLine (readChars d file s line)

/-- Reads the end of the text. A block comment that is open there is never closed. -/
def finish (s : State) : List (Except Unclosed Lexeme) :=
  s.found.map .ok ++ match s.mode with
    | .block start _ _ _ => [.error ⟨start⟩]
    | _ => []

/-- The state at the end of a text. -/
def atEnd (d : Delimiters) (file text : String) : State :=
  (Text.lines text.toList).foldl (readLine d file) {}

/-- The comments of a text. -/
def run (d : Delimiters) (file text : String) : List (Except Unclosed Lexeme) :=
  finish (atEnd d file text)

/-! ## Character literals -/

/-- An escaped character literal ends at its first apostrophe, which comes within ten characters. -/
private theorem findIdx?_take_iff {text : List Char} {m : Nat} :
    (text.take 10).findIdx? (· = '\'') = some m ↔
      m < text.length ∧ (text.take (m + 1)).getLast? = some '\'' ∧
        '\'' ∉ (text.take (m + 1)).dropLast ∧ m + 1 ≤ 10 := by
  rw [List.findIdx?_eq_some_iff_getElem]
  simp only [List.length_take, List.getElem_take, decide_eq_true_eq]
  constructor
  · rintro ⟨hm, hquote, hbefore⟩
    have hm' : m < text.length := by omega
    rw [List.take_succ_eq_append_getElem hm', List.getLast?_concat, List.dropLast_concat,
      List.mem_take_iff_getElem, hquote]
    refine ⟨hm', rfl, ?_, by omega⟩
    rintro ⟨j, hj, hjq⟩
    exact hbefore j (by omega) hjq
  · rintro ⟨hm, hlast, hbefore, hten⟩
    rw [List.take_succ_eq_append_getElem hm, List.getLast?_concat, Option.some.injEq] at hlast
    rw [List.take_succ_eq_append_getElem hm, List.dropLast_concat,
      List.mem_take_iff_getElem] at hbefore
    refine ⟨by omega, hlast, fun j hj hjq => hbefore ⟨j, by omega, hjq⟩⟩

private theorem isLiteral_escape (escaped : Char) (more : List Char) :
    isLiteral ('\\' :: escaped :: more) = (more.getLast? = some '\'' &&
      !more.dropLast.contains '\'' && decide (more.length ≤ 10)) := by
  cases more <;> simp [isLiteral]

private theorem isLiteral_cons_iff {x : Char} (hx : x ≠ '\\') {more : List Char} :
    isLiteral (x :: more) ↔ x ≠ '\'' ∧ more = ['\''] := by
  unfold isLiteral
  split <;> simp_all

/-- The search for the end of a character literal finds the one that there is. -/
theorem charLiteral?_eq_some_iff {text : List Char} {n : Nat} :
    Delimiters.charLiteral? text = some n ↔ n ≤ text.length ∧ isLiteral (text.take n) := by
  fun_cases Delimiters.charLiteral? text with
  | case1 rest =>
    -- no literal starts with an apostrophe
    cases n with
    | zero => simp [isLiteral]
    | succ n =>
      rw [List.take_succ_cons, isLiteral_cons_iff (by decide)]
      simp
  | case2 escaped rest =>
    rw [Option.map_eq_some_iff]
    constructor
    · rintro ⟨m, hm, rfl⟩
      obtain ⟨hlen, hlast, hbefore, hten⟩ := findIdx?_take_iff.1 hm
      refine ⟨by simp only [List.length_cons]; omega, ?_⟩
      rw [List.take_succ_cons, List.take_succ_cons, isLiteral_escape, hlast]
      simp [hbefore]
      omega
    · rintro ⟨hlen, hliteral⟩
      match n with
      | 0 => simp [isLiteral] at hliteral
      | 1 => simp [isLiteral] at hliteral
      | 2 => simp [isLiteral] at hliteral
      | m + 3 =>
        rw [List.take_succ_cons, List.take_succ_cons, isLiteral_escape] at hliteral
        refine ⟨m, findIdx?_take_iff.2 ?_, rfl⟩
        simp only [Bool.and_eq_true, decide_eq_true_eq, Bool.not_eq_true',
          List.contains_eq_mem, decide_eq_false_iff_not, List.length_take] at hliteral
        simp only [List.length_cons] at hlen
        exact ⟨by omega, hliteral.1.1, hliteral.1.2, by omega⟩
  | case3 x rest hquote hbackslash =>
    constructor
    · rintro ⟨⟩
      refine ⟨by simp, ?_⟩
      rw [List.take_succ_cons, isLiteral_cons_iff hbackslash]
      exact ⟨hquote, rfl⟩
    · rintro ⟨hlen, hliteral⟩
      cases n with
      | zero => simp [isLiteral] at hliteral
      | succ n =>
        rw [List.take_succ_cons, isLiteral_cons_iff hbackslash] at hliteral
        have hone := congrArg List.length hliteral.2
        simp only [List.length_take, List.length_cons, List.length_nil] at hlen hone
        rw [show n = 1 by omega]
  | case4 text hquote hbackslash hclose =>
    refine iff_of_false (by simp) ?_
    rintro ⟨-, hliteral⟩
    rcases text with _ | ⟨x, more⟩
    · simp [isLiteral] at hliteral
    rcases n with _ | n
    · simp [isLiteral] at hliteral
    by_cases hx : x = '\\'
    · -- a backslash at the very end escapes nothing
      have hmore : more = [] := by
        by_contra hne
        obtain ⟨y, more, rfl⟩ := List.exists_cons_of_ne_nil hne
        exact hbackslash y more (by rw [hx])
      rw [hmore, hx] at hliteral
      simp [isLiteral] at hliteral
    · rw [List.take_succ_cons, isLiteral_cons_iff hx] at hliteral
      have hmore : more = '\'' :: more.drop n := by
        rw [← List.singleton_append, ← hliteral.2, List.take_append_drop]
      exact hclose x _ (by rw [← hmore])

/-- The automaton and the search agree on character literals. -/
theorem literal?_eq (text : List Char) : literal? text = Delimiters.charLiteral? text := by
  have hfound : ∀ n, literal? text = some n → Delimiters.charLiteral? text = some n := by
    intro n hn
    have hlen := List.mem_range.1 (List.mem_of_find?_eq_some hn)
    have hliteral := List.find?_some (p := fun n => isLiteral (text.take n)) hn
    exact charLiteral?_eq_some_iff.2 ⟨by omega, hliteral⟩
  cases hn : Delimiters.charLiteral? text with
  | none =>
    by_contra hne
    obtain ⟨n, hsome⟩ := Option.ne_none_iff_exists'.1 hne
    rw [hfound n hsome] at hn
    exact absurd hn (by simp)
  | some n =>
    obtain ⟨hlen, hliteral⟩ := charLiteral?_eq_some_iff.1 hn
    have hsome : (literal? text).isSome := by
      rw [literal?, List.find?_isSome]
      exact ⟨n, List.mem_range.2 (by omega), hliteral⟩
    -- there is only one length, the one that the search finds
    obtain ⟨m, hm⟩ := Option.isSome_iff_exists.1 hsome
    rw [hm, ← hfound m hm, hn]

/-! ## Stretches of reading -/

section Reading

variable {d : Delimiters} {file : String} {s : State}

/-- What is recognized already is passed over. -/
theorem readChars_passed (xs rest : List Char) :
    readChars d file { s with passed := xs.length } (xs ++ rest)
      = readChars d file { s with passed := 0, column := s.column + xs.length } rest := by
  induction xs generalizing s with
  | nil => rfl
  | cons x xs ih =>
    have hstep : step d file { s with passed := (x :: xs).length } x (xs ++ rest)
        = { { s with column := s.column + 1 } with passed := xs.length } := rfl
    rw [List.cons_append, readChars, hstep, ih, List.length_cons]
    simp only [Nat.add_comm 1, Nat.add_assoc]

/-- A line comment takes everything. -/
theorem readChars_line (start : Position) (text rest : List Char) :
    readChars d file { s with mode := .line start text, passed := 0 } rest
      = { s with
          mode := .line start (text ++ rest), passed := 0, column := s.column + rest.length } := by
  induction rest generalizing s text with
  | nil => simp [readChars]
  | cons c rest ih =>
    have hstep : step d file { s with mode := .line start text, passed := 0 } c rest
        = { { s with column := s.column + 1 } with
            mode := .line start (text ++ [c]), passed := 0 } := rfl
    rw [readChars, hstep, ih]
    simp only [List.append_assoc, List.singleton_append, List.length_cons, Nat.add_assoc,
      Nat.add_comm 1]

variable {start : Position} {closer : List Char} {lines : List (List Char)}

/-- A block comment takes everything before its closer. -/
theorem readChars_block_open {line : List Char} (h : Text.cutAt closer line = none)
    (current : List Char) :
    readChars d file { s with mode := .block start closer lines current, passed := 0 } line
      = { s with
          mode := .block start closer lines (current ++ line)
          passed := 0
          column := s.column + line.length } := by
  induction line generalizing s current with
  | nil => simp [readChars]
  | cons c line ih =>
    rw [Text.cutAt] at h
    cases hafter : Text.after? closer (c :: line) with
    | some rest => simp [hafter] at h
    | none =>
      rw [hafter] at h
      have hstep : step d file { s with mode := .block start closer lines current, passed := 0 }
          c line
          = { { s with column := s.column + 1 } with
              mode := .block start closer lines (current ++ [c]), passed := 0 } := by
        simp [step, Text.isPrefixOf_eq, hafter]
      rw [readChars, hstep, ih (by simpa using h)]
      simp only [List.append_assoc, List.singleton_append, List.length_cons, Nat.add_assoc,
        Nat.add_comm 1]

/-- A block comment ends with its first closer. -/
theorem readChars_block_closed {line before rest : List Char} (hcloser : closer ≠ [])
    (h : Text.cutAt closer line = some (before, rest)) (current : List Char) :
    readChars d file { s with mode := .block start closer lines current, passed := 0 } line
      = readChars d file
          { s with
            mode := .code
            passed := 0
            column := s.column + before.length + closer.length
            found := s.found ++ [blockLexeme d start (lines ++ [current ++ before])
              (s.line, s.column + before.length + closer.length)] } rest := by
  induction line generalizing s current before with
  | nil => simp [Text.cutAt, hcloser] at h
  | cons c line ih =>
    rw [Text.cutAt] at h
    cases hafter : Text.after? closer (c :: line) with
    | some rest' =>
      rw [hafter] at h
      obtain ⟨rfl, rfl⟩ := Prod.mk.inj (Option.some.inj h)
      obtain ⟨c', closer', rfl⟩ := List.exists_cons_of_ne_nil hcloser
      have hline : c :: line = c' :: (closer' ++ rest') := Text.eq_append_of_after? hafter
      obtain ⟨rfl, rfl⟩ := List.cons.inj hline
      -- the automaton recognizes the closer at its first character and passes over the others
      have hstep : step d file { s with mode := .block start (c :: closer') lines current, passed := 0 }
          c (closer' ++ rest')
          = { { s with
                mode := .code
                column := s.column + 1
                found := s.found ++ [blockLexeme d start (lines ++ [current])
                  (s.line, s.column + (closer'.length + 1))] } with
              passed := closer'.length } := by
        simp [step, Text.isPrefixOf_eq, Text.after?_append]
      rw [readChars, hstep, readChars_passed]
      simp only [List.append_nil, List.length_nil, List.length_cons, Nat.add_zero, Nat.add_assoc,
        Nat.add_comm 1]
    | none =>
      rw [hafter] at h
      obtain ⟨⟨before', rest'⟩, hcut, heq⟩ := Option.map_eq_some_iff.1 h
      obtain ⟨rfl, rfl⟩ := Prod.mk.inj heq
      have hstep : step d file { s with mode := .block start closer lines current, passed := 0 }
          c line
          = { { s with column := s.column + 1 } with
              mode := .block start closer lines (current ++ [c]), passed := 0 } := by
        simp [step, Text.isPrefixOf_eq, hafter]
      rw [readChars, hstep, ih hcut]
      simp only [List.append_assoc, List.singleton_append, List.length_cons, Nat.add_assoc,
        Nat.add_comm 1]

end Reading

end Automaton

end Marginalia
