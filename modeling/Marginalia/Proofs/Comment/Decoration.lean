/-
What a decorated block comment says.

Whether a comment is decorated is decided once, by its first line and all of the
others together; what is then taken away is up to each line alone. A line that
carries the gutter says what stands behind it, and a blank line says nothing,
with or without the gutter. All of this comes down to one remark: a gutter that
does not start with white space is found right where the indentation of a line
ends, and only there (`trimStart_carrying`). So the test for a gutter finds what
a writer put there, and taking it away gives back what the writer said.

If a single line does not fit, no further line is touched.
-/
import Marginalia.Proofs.Comment.Slices
import Marginalia.Proofs.Text.Blank

set_option autoImplicit false

namespace Marginalia

namespace Gutter

open Text

/-- A line with the gutter after its indentation. -/
def Carries (gutter line : List Char) : Prop :=
  ∃ indent said, allBlank indent ∧ line = indent ++ (gutter ++ said)

/-- A further line of a decorated comment, and what it says. -/
inductive Decorated (gutter : List Char) : List Char → List Char → Prop where
  /-- The gutter stands after the indentation, and the rest is said. -/
  | carrying (indent said : List Char) (hindent : allBlank indent) :
    Decorated gutter (indent ++ (gutter ++ said)) said
  /-- A blank line says nothing. -/
  | blank (line : List Char) (hline : allBlank line) : Decorated gutter line []

/-- **What a comment says**, by the lines between its delimiters. -/
structure Says (gutter : List Char) (lines : List (List Char)) (text : List Char) : Prop where
  /-- The first line starts with the gutter and every other line is decorated. -/
  decorated : ∀ first others said, lines = (gutter ++ first) :: others →
    List.Forall₂ (Decorated gutter) others said → text = joined '\n' (first :: said)
  /-- The first line starts with the gutter, but another line, which is not blank, has none. -/
  mixed : ∀ first others, lines = (gutter ++ first) :: others →
    (∃ line ∈ others, ¬ allBlank line ∧ ¬ Carries gutter line) →
    text = joined '\n' (first :: others)
  /-- The first line does not start with the gutter. -/
  plain : ∀ first others, lines = first :: others → ¬ gutter <+: first → text = joined '\n' lines

section Lines

variable {gutter line said : List Char}

theorem strip_append (gutter said : List Char) : strip gutter (gutter ++ said) = said := by
  rw [strip, after?_append, Option.getD_some]

theorem startsWith_iff : startsWith gutter line ↔ gutter <+: line := by
  rw [startsWith, ← isPrefixOf_eq, List.isPrefixOf_iff_prefix]

variable (hne : gutter ≠ []) (hstart : ∀ c, gutter.head? = some c → ¬ isBlank c)

include hne hstart in
/-- The indentation of a line ends where the gutter starts. -/
theorem trimStart_carrying {indent : List Char} (hindent : allBlank indent) (said : List Char) :
    trimStart (indent ++ (gutter ++ said)) = gutter ++ said := by
  -- white space is dropped up to the first character of the gutter, which is none
  obtain ⟨c, rest, rfl⟩ := List.exists_cons_of_ne_nil hne
  rw [trimStart_append hindent]
  exact List.dropWhile_cons_of_neg (hstart c rfl)

/-- The test for a further line finds the lines that are blank or carry the gutter. -/
theorem blank_or_carries_of_fits (h : fits gutter line) : allBlank line ∨ Carries gutter line := by
  rw [fits, Bool.or_eq_true] at h
  refine h.imp_right fun hstarts => ?_
  obtain ⟨said, hsaid⟩ := startsWith_iff.1 hstarts
  refine ⟨line.takeWhile isBlank, said, ?_, ?_⟩
  · rw [allBlank, List.all_eq_true]
    exact fun c hc => List.mem_takeWhile_imp hc
  · rw [hsaid, trimStart, List.takeWhile_append_dropWhile]

include hne hstart in
/-- **One further line**: it passes the test, and what is left of it is what it says. -/
theorem Decorated.fits_and_strip (h : Decorated gutter line said) :
    fits gutter line ∧ strip gutter (trimStart line) = said := by
  cases h with
  | carrying indent said hindent =>
    rw [fits, trimStart_carrying hne hstart hindent, strip_append, Bool.or_eq_true, startsWith_iff]
    exact ⟨.inr (List.prefix_append _ _), rfl⟩
  | blank line hline =>
    -- nothing is left to strip, as long as the gutter is not empty
    obtain ⟨c, rest, rfl⟩ := List.exists_cons_of_ne_nil hne
    rw [fits, hline, trimStart_eq_nil_iff.2 hline]
    exact ⟨rfl, rfl⟩

end Lines

section Comments

variable {gutter first : List Char} {others said : List (List Char)}

/-- All further lines at once. -/
theorem map_strip_of_decorated (hne : gutter ≠ [])
    (hstart : ∀ c, gutter.head? = some c → ¬ isBlank c)
    (h : List.Forall₂ (Decorated gutter) others said) :
    others.all (fits gutter) ∧ (others.map fun line => strip gutter (trimStart line)) = said := by
  induction h with
  | nil => exact ⟨rfl, rfl⟩
  | cons hline _ ih =>
    obtain ⟨hfits, hstrip⟩ := hline.fits_and_strip hne hstart
    rw [List.all_cons, List.map_cons, hfits, hstrip, ih.2]
    exact ⟨ih.1, rfl⟩

/-- **The text of a comment is what it says.** -/
theorem says_textOf (hne : gutter ≠ []) (hstart : ∀ c, gutter.head? = some c → ¬ isBlank c)
    (lines : List (List Char)) : Says gutter lines (textOf (some gutter) lines) where
  decorated first others said hlines hothers := by
    obtain ⟨hfits, hsaid⟩ := map_strip_of_decorated hne hstart hothers
    have hfirst : startsWith gutter (gutter ++ first) := startsWith_iff.2 (List.prefix_append _ _)
    rw [textOf, hlines, undecorated]
    simp only [hfirst, hfits, strip_append, hsaid, Bool.not_true, Bool.false_eq_true, if_false,
      if_true]
  mixed first others hlines hothers := by
    have hfits : ¬ others.all (fits gutter) := by
      obtain ⟨line, hline, hblank, hcarries⟩ := hothers
      intro hall
      rcases blank_or_carries_of_fits (List.all_eq_true.1 hall line hline) with h | h
      · exact hblank h
      · exact hcarries h
    have hfirst : startsWith gutter (gutter ++ first) := startsWith_iff.2 (List.prefix_append _ _)
    rw [textOf, hlines, undecorated]
    simp only [hfirst, hfits, strip_append, Bool.not_true, Bool.false_eq_true, if_false]
  plain first others hlines hfirst := by
    have hnot : ¬ startsWith gutter first := fun h => hfirst (startsWith_iff.1 h)
    rw [textOf, hlines, undecorated]
    simp only [Bool.not_eq_true] at hnot
    simp only [hnot, Bool.not_false, if_true]

end Comments

end Gutter

/-! ## Block comments of a text -/

namespace Scan

open Text

/-- A text stands between the delimiters of a comment: it starts behind the opener at the place of
the comment, and the first closer behind that ends it. -/
def Encloses (d : Delimiters) (source : List (List Char)) (c : Comment) (between : List Char) :
    Prop :=
  ∃ opener closer, d.block? = some (opener, closer) ∧
    opener ++ between ++ closer
      <+: joined '\n' (ahead source c.position.line (c.position.column - 1)) ∧
    ¬ closer <:+: between

theorem notMem_of_closeBlock {x : Char} {closer : List Char} {unread lines after : List (List Char)}
    (hfree : ∀ l ∈ unread, x ∉ l) (h : closeBlock closer unread = some (lines, after)) :
    ∀ l ∈ lines, x ∉ l := by
  induction unread generalizing lines with
  | nil => simp [closeBlock] at h
  | cons line later ih =>
    rw [List.forall_mem_cons] at hfree
    rw [closeBlock] at h
    cases hcut : cutAt closer line with
    | some cut =>
      rw [hcut] at h
      obtain ⟨rfl, -⟩ := Prod.mk.inj (Option.some.inj h)
      intro l hl hx
      rw [List.mem_singleton.1 hl] at hx
      apply hfree.1
      rw [eq_append_of_cutAt hcut, List.append_assoc]
      exact List.mem_append_left _ hx
    | none =>
      rw [hcut] at h
      obtain ⟨⟨lines', after'⟩, hlater, heq⟩ := Option.map_eq_some_iff.1 h
      obtain ⟨rfl, rfl⟩ := Prod.mk.inj heq
      exact List.forall_mem_cons.2 ⟨hfree.1, ih hfree.2 hlater⟩

/-- **A block comment that an advance finds** has its text from what stands between its
delimiters. -/
theorem encloses_advance {d : Delimiters} {file : String} {source : List (List Char)}
    {cursor after : Cursor} {line : List Char} {later : List (List Char)} {c : Comment}
    (hfeed : ∀ l ∈ source, '\n' ∉ l) (h : cursor.StandsIn source)
    (hunread : cursor.unread = line :: later)
    (hadvance : advance d file cursor line later = (some (.ok c), after))
    (hform : c.form = .block) :
    ∃ between, Encloses d source c between ∧
      c.text.toList = Gutter.textOf (d.gutter.map String.toList) (pieces '\n' between) := by
  obtain ⟨_, _, _, _, rfl, _⟩ |
    ⟨code, opener, closer, rest, lines, unread, hfirst, hclose, rfl, -⟩ := advance_found hadvance
  · exact absurd hform (by simp [commentAt])
  have hahead : ahead source cursor.line (cursor.column + code.length)
      = (opener ++ rest) :: later := ahead_before h hunread hfirst
  have hrest : ∀ l ∈ rest :: later, '\n' ∉ l := by
    rw [← ahead_within hahead]
    exact notMem_of_mem_ahead hfeed
  obtain ⟨-, hopening⟩ := Delimiters.firstComment_eq_comment hfirst
  have hblock := (Delimiters.listed_of_opening? hopening).2 opener closer rfl
  refine ⟨joined '\n' lines, ⟨opener, closer, hblock, ?_, ?_⟩, ?_⟩
  · change _ <+: joined '\n' (ahead source cursor.line (cursor.column + code.length + 1 - 1))
    rw [Nat.add_sub_cancel, hahead, joined_cons_append, joined_of_closeBlock hclose]
    simp
  · exact not_infix_joined_of_closeBlock (Delimiters.block?_ne_nil hblock).2 hrest hclose
  · rw [pieces_joined (closeBlock_ne_nil hclose) (notMem_of_closeBlock hrest hclose)]
    exact String.toList_ofList

end Scan

namespace Gutter

open Text

/-- **Decoration is transparent, and all or nothing.** What a block comment says is said by the
lines between its delimiters: without the gutter if the comment is decorated, and as they are if it
is not, or only in part. -/
theorem decoration_transparent {gutter : String} (hne : gutter ≠ "")
    (hstart : ∀ c, gutter.toList.head? = some c → ¬ isBlank c) :
    (∀ lines, Says gutter.toList lines (textOf (some gutter.toList) lines)) ∧
    ∀ (d : Delimiters) (file text : String), d.gutter = some gutter →
      ∀ c, .ok c ∈ comments d file text → c.form = .block →
        ∃ between, Scan.Encloses d (Text.lines text.toList) c between ∧
          Says gutter.toList (pieces '\n' between) c.text.toList := by
  have hne' : gutter.toList ≠ [] := by simpa using hne
  refine ⟨says_textOf hne' hstart, fun d file text hgutter => ?_⟩
  have hfeed : ∀ l ∈ Text.lines text.toList, '\n' ∉ l := fun _ hl => feed_notMem_lines hl
  refine Scan.forall_itemsFrom hfeed ?_ (Scan.standsIn_start text.toList)
  intro cursor line later c after h hunread hadvance hform
  obtain ⟨between, hencloses, htext⟩ := Scan.encloses_advance hfeed h hunread hadvance hform
  refine ⟨between, hencloses, ?_⟩
  rw [htext, hgutter]
  exact says_textOf hne' hstart _

/-- A decorated comment with a bullet behind the gutter, and blank lines with and without it. -/
def starLines : List (List Char) :=
  ["* a".toList, "\t* - b".toList, "  ".toList, " *".toList]

def starSaid : List (List Char) :=
  [" - b".toList, [], []]

/-- A comment that is decorated only in part. -/
def bulletLines : List (List Char) :=
  ["* a".toList, " * b".toList, "c".toList]

def starMarks : Delimiters :=
  { Delimiters.of ["//"] (some ("/*", "*/")) with gutter := some "*" }

def starComment : Comment :=
  ⟨" a\n b ", ⟨"a.c", 1, 3⟩, .block, true, some "x", none, none⟩

theorem decoration_star :
    "*" ≠ "" ∧ (∀ c, "*".toList.head? = some c → ¬ isBlank c) ∧
    List.Forall₂ (Decorated ['*']) starLines.tail starSaid ∧
    textOf (some ['*']) starLines = joined '\n' (" a".toList :: starSaid) ∧
    (∃ line ∈ bulletLines.tail, ¬ allBlank line ∧ ¬ Carries ['*'] line) ∧
    textOf (some ['*']) bulletLines = joined '\n' (" a".toList :: bulletLines.tail) ∧
    .ok starComment ∈ comments starMarks "a.c" "x /** a\n  * b */" ∧
    ∃ between, Scan.Encloses starMarks (Text.lines "x /** a\n  * b */".toList) starComment between ∧
      Says ['*'] (pieces '\n' between) starComment.text.toList := by
  have hne : "*" ≠ "" := by decide
  have hstart : ∀ c, "*".toList.head? = some c → ¬ isBlank c := by
    intro c hc
    obtain rfl : '*' = c := Option.some.inj hc
    decide
  have hstar : List.Forall₂ (Decorated ['*']) starLines.tail starSaid :=
    .cons (.carrying ['\t'] _ (by decide)) (.cons (.blank _ (by decide))
      (.cons (.carrying [' '] _ (by decide)) .nil))
  have hbullet : ∃ line ∈ bulletLines.tail, ¬ allBlank line ∧ ¬ Carries ['*'] line := by
    -- a line that carries the gutter has a star in it
    refine ⟨['c'], by decide, by decide, ?_⟩
    rintro ⟨indent, said, -, heq⟩
    have hmem : '*' ∈ ['c'] := by simp [heq]
    exact absurd hmem (by decide)
  have hmem : .ok starComment ∈ comments starMarks "a.c" "x /** a\n  * b */" := by
    have hcomments : comments starMarks "a.c" "x /** a\n  * b */" = [.ok starComment] := by
      decide +kernel
    rw [hcomments]
    exact List.mem_singleton_self _
  obtain ⟨hlines, hcomments⟩ := decoration_transparent hne hstart
  exact ⟨hne, hstart, hstar, (hlines starLines).decorated _ _ _ rfl hstar, hbullet,
    (hlines bulletLines).mixed _ _ rfl hbullet, hmem,
    hcomments starMarks "a.c" _ rfl starComment hmem rfl⟩

end Gutter

end Marginalia
