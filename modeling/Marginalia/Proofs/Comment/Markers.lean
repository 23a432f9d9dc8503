/-
The longest line marker wins.

Markers are listed longest first, and of those that stand at a place the search
takes the first in the list. Two markers that stand at one place start the same
text, so the one is an initial part of the other, and there is only one of any
length. So the first that is found is *the* longest (`markerAt?_eq_some_iff`),
whatever the order in which the markers were given, and whether or not some of
them were given twice or were empty.

A scan sees the line markers only through the comments that they open. Where two
lists of markers open the same comments everywhere (`Alike`), every stage of the
scan does the same with both, and so does the scan.
-/
import Marginalia.Proofs.Comment.Slices
import Marginalia.Proofs.Dialect

set_option autoImplicit false

namespace Marginalia

namespace Delimiters

/-! ## The longest marker -/

/-- The longest of the markers that are not empty and stand at the start of a text. -/
structure Longest (markers : List String) (text : List Char) (marker : String) : Prop where
  listed : marker ∈ markers
  nonempty : marker ≠ ""
  stands : marker.toList <+: text
  longest : ∀ other ∈ markers, other ≠ "" → other.toList <+: text → other.length ≤ marker.length

section Longest

variable {markers markers' : List String} {text : List Char} {marker other : String}

/-- There is only one longest marker. -/
theorem Longest.eq (h : Longest markers text marker) (h' : Longest markers text other) :
    marker = other := by
  have hlength : marker.length = other.length :=
    Nat.le_antisymm (h'.longest marker h.listed h.nonempty h.stands)
      (h.longest other h'.listed h'.nonempty h'.stands)
  rw [← String.length_toList, ← String.length_toList] at hlength
  rw [← String.toList_inj]
  exact (List.prefix_of_prefix_length_le h.stands h'.stands hlength.le).eq_of_length hlength

theorem Longest.perm (h : Longest markers text marker) (hperm : markers.Perm markers') :
    Longest markers' text marker where
  listed := hperm.mem_iff.1 h.listed
  nonempty := h.nonempty
  stands := h.stands
  longest other hother := h.longest other (hperm.mem_iff.2 hother)

/-- Of two markers that stand at one place, the one with more bytes has more characters. -/
theorem length_le_of_utf8ByteSize_le (h : marker.toList <+: text) (h' : other.toList <+: text)
    (hbytes : other.utf8ByteSize ≤ marker.utf8ByteSize) : other.length ≤ marker.length := by
  rw [← String.length_toList, ← String.length_toList]
  rcases List.prefix_or_prefix_of_prefix h' h with hprefix | ⟨rest, hrest⟩
  · exact hprefix.length_le
  · -- the other marker goes on for at least as many bytes as it has characters more
    have hother : other = marker ++ String.ofList rest := by
      rw [← String.toList_inj, String.toList_append, String.toList_ofList, hrest]
    have hzero : (String.ofList rest).utf8ByteSize = 0 := by
      rw [hother, String.utf8ByteSize_append] at hbytes
      omega
    rw [String.utf8ByteSize_eq_zero_iff] at hzero
    rw [hother, hzero, String.append_empty]

/-- The markers in the order in which they are tried. -/
theorem pairwise_lineMarkers (markers : List String) (block : Option (String × String)) :
    (Delimiters.of markers block).lineMarkers.Pairwise
      fun a b => b.utf8ByteSize ≤ a.utf8ByteSize := by
  have hsorted : (Delimiters.of markers block).lineMarkers.Pairwise
      fun a b => decide (b.utf8ByteSize ≤ a.utf8ByteSize) := by
    apply List.pairwise_mergeSort
    · intro a b c hab hbc
      simp only [decide_eq_true_eq] at *
      omega
    · intro a b
      simp only [Bool.or_eq_true, decide_eq_true_eq]
      omega
  exact hsorted.imp of_decide_eq_true

theorem mem_lineMarkers {markers : List String} {block : Option (String × String)}
    {marker : String} : marker ∈ (Delimiters.of markers block).lineMarkers ↔ marker ∈ markers :=
  List.mem_mergeSort

/-- The first marker that is found is the longest that stands there. -/
theorem longest_of_markerAt? {d : Delimiters} {block : Option (String × String)}
    (hd : d.lineMarkers = (Delimiters.of markers block).lineMarkers)
    (h : d.markerAt? text = some marker) : Longest markers text marker := by
  rw [markerAt?, hd] at h
  obtain ⟨hmarker, before, behind, hlist, hbefore⟩ := List.find?_eq_some_iff_append.1 h
  have hsorted := pairwise_lineMarkers markers block
  have hmem : ∀ {m}, m ∈ markers ↔ m ∈ before ++ marker :: behind := by
    intro m
    rw [← hlist, mem_lineMarkers]
  rw [hlist, List.pairwise_append, List.pairwise_cons] at hsorted
  have hfits : ∀ {m : String}, (!m.isEmpty && m.toList.isPrefixOf text) ↔
      m ≠ "" ∧ m.toList <+: text := by
    intro m
    simp [List.isPrefixOf_iff_prefix]
  obtain ⟨hnonempty, hstands⟩ := hfits.1 hmarker
  refine ⟨hmem.2 (by simp), hnonempty, hstands, fun other hother hne hother' => ?_⟩
  rcases List.mem_append.1 (hmem.1 hother) with hother | hother
  · have hnot := hbefore other hother
    rw [hfits.2 ⟨hne, hother'⟩] at hnot
    exact absurd hnot (by simp)
  · rcases List.mem_cons.1 hother with rfl | hother
    · exact Nat.le_refl _
    · exact length_le_of_utf8ByteSize_le hstands hother' (hsorted.2.1.1 other hother)

/-- **The longest marker wins**: it is found wherever it stands. -/
theorem markerAt?_eq_some_iff {d : Delimiters} {block : Option (String × String)}
    (hd : d.lineMarkers = (Delimiters.of markers block).lineMarkers) :
    d.markerAt? text = some marker ↔ Longest markers text marker := by
  refine ⟨longest_of_markerAt? hd, fun h => ?_⟩
  have hsome : (d.markerAt? text).isSome := by
    rw [markerAt?, List.find?_isSome, hd]
    refine ⟨marker, mem_lineMarkers.2 h.listed, ?_⟩
    simpa [List.isPrefixOf_iff_prefix] using ⟨h.nonempty, h.stands⟩
  obtain ⟨found, hfound⟩ := Option.isSome_iff_exists.1 hsome
  rw [hfound, (longest_of_markerAt? hd hfound).eq h]

/-- A line comment is opened by the first marker. -/
theorem markerAt?_of_opening? {d : Delimiters} {mark rest : List Char}
    (h : d.opening? text = some (.line mark, rest)) :
    ∃ marker, d.markerAt? text = some marker ∧ marker.toList = mark := by
  rw [opening?_eq] at h
  cases hblock : d.blockAt? text with
  | some b => simp [hblock] at h
  | none =>
    rw [hblock] at h
    obtain ⟨marker, hmarker, heq⟩ := Option.map_eq_some_iff.1 h
    obtain ⟨hmark, -⟩ := Prod.mk.inj heq
    exact ⟨marker, hmarker, Opening.line.inj hmark⟩

end Longest

/-! ## Marks that open the same comments -/

/-- Two families of marks open the same comments, set the same literals off and have the same
gutter. -/
structure Alike (d d' : Delimiters) : Prop where
  opening : ∀ text, d.opening? text = d'.opening? text
  enter : ∀ c text, d.enter c text = d'.enter c text
  gutter : d.gutter = d'.gutter

section Alike

variable {d d' : Delimiters}

theorem Alike.search (h : Alike d d') (standing : Standing) (text : List Char) :
    d.search standing text = d'.search standing text := by
  induction text generalizing standing with
  | nil => cases standing <;> rfl
  | cons c text ih =>
    match standing with
    | .code 0 => simp only [Delimiters.search, h.opening, h.enter, ih]
    | .code (passed + 1) => simp only [Delimiters.search, ih]
    | .plain quote escaped => simp only [Delimiters.search, ih]
    | .raw quote => simp only [Delimiters.search, ih]

theorem Alike.firstComment (h : Alike d d') (openRaw : Option Char) (text : List Char) :
    d.firstComment openRaw text = d'.firstComment openRaw text :=
  h.search _ text

end Alike

end Delimiters

namespace Scan

open Text

section Alike

variable {d d' : Delimiters}

theorem codeAhead_alike (h : d.Alike d') (unread : List (List Char)) :
    codeAhead d unread = codeAhead d' unread := by
  induction unread using codeAhead.induct d with
  | case1 => rw [codeAhead, codeAhead]
  | case2 line later openRaw hfirst ih =>
    rw [codeAhead, codeAhead, ← h.firstComment, hfirst, ih]
  | case3 line later code marker rest hfirst ih =>
    rw [codeAhead, codeAhead, ← h.firstComment, hfirst, ih]
  | case4 line later code opener closer rest hfirst ih =>
    rw [codeAhead, codeAhead, ← h.firstComment, hfirst]
    dsimp only
    cases hclose : closeBlock closer (rest :: later) with
    | none => rfl
    | some closed => exact congrArg _ (ih _ _ hclose)

theorem codeBehind_alike (h : d.Alike d') (unread : List (List Char)) :
    codeBehind d unread = codeBehind d' unread := by
  cases unread with
  | nil => rfl
  | cons line later => rw [codeBehind, codeBehind, h.firstComment, codeAhead_alike h]

theorem advance_alike (h : d.Alike d') (file : String) (cursor : Cursor) (line : List Char)
    (later : List (List Char)) :
    advance d file cursor line later = advance d' file cursor line later := by
  simp only [advance, h.firstComment, h.gutter, codeAhead_alike h, codeBehind_alike h]

theorem itemsFrom_alike (h : d.Alike d') (file : String) (cursor : Cursor) :
    itemsFrom d file cursor = itemsFrom d' file cursor := by
  induction cursor using itemsFrom.induct d file with
  | case1 cursor hunread => rw [itemsFrom_nil hunread, itemsFrom_nil hunread]
  | case2 cursor line later hunread step ih =>
    rw [itemsFrom_cons hunread, itemsFrom_cons hunread, ← advance_alike h]
    exact congrArg _ ih

/-- **What a scan sees of the marks.** Marks that open the same comments give the same comments. -/
theorem comments_alike (h : d.Alike d') (file text : String) :
    comments d file text = comments d' file text :=
  itemsFrom_alike h file _

end Alike

/-! ## Line comments and their markers -/

section Step

variable {d : Delimiters} {file : String} {source : List (List Char)} {cursor : Cursor}

/-- A line comment is what its line has behind the longest of these markers that stands at its
place. -/
def StripsLongest (markers : List String) (source : List (List Char)) (c : Comment) : Prop :=
  c.form = .line → ∃ marker : String,
    (source[c.position.line - 1]?).map (·.drop (c.position.column - 1))
      = some (marker.toList ++ c.text.toList) ∧
    Delimiters.Longest markers (marker.toList ++ c.text.toList) marker

/-- **A line comment that an advance finds** is opened by the longest marker. -/
theorem stripsLongest_advance {markers : List String} {block : Option (String × String)}
    (hd : d.lineMarkers = (Delimiters.of markers block).lineMarkers) {line : List Char}
    {later : List (List Char)} {c : Comment} {after : Cursor} (h : cursor.StandsIn source)
    (hunread : cursor.unread = line :: later)
    (hadvance : advance d file cursor line later = (some (.ok c), after)) :
    StripsLongest markers source c := by
  intro hform
  obtain ⟨code, mark, rest, hfirst, rfl, -⟩ | ⟨_, _, _, _, _, _, _, _, rfl, _⟩ :=
    advance_found hadvance
  · have hahead : ahead source cursor.line (cursor.column + code.length)
        = (mark ++ rest) :: later := ahead_before h hunread hfirst
    obtain ⟨marker, hmarker, rfl⟩ :=
      Delimiters.markerAt?_of_opening? (Delimiters.firstComment_eq_comment hfirst).2
    refine ⟨marker, ?_, ?_⟩
    · simpa [commentAt, Cursor.before] using getElem?_of_ahead hahead
    · rw [commentAt, String.toList_ofList]
      exact Delimiters.longest_of_markerAt? hd hmarker
  · exact absurd hform (by simp [commentAt])

end Step

/-- Every line comment of a text is opened by the longest marker. -/
theorem stripsLongest_comments {d : Delimiters} {markers : List String}
    {block : Option (String × String)}
    (hd : d.lineMarkers = (Delimiters.of markers block).lineMarkers) (file text : String) :
    ∀ c, .ok c ∈ comments d file text → StripsLongest markers (Text.lines text.toList) c :=
  forall_itemsFrom (fun _ hl => feed_notMem_lines hl)
    (fun _ _ _ _ _ h hunread hadvance => stripsLongest_advance hd h hunread hadvance)
    (standsIn_start text.toList)

end Scan

/-! ## Marks as they are built -/

namespace Delimiters

/-- Marks with these line markers and this block pair, and everything else set at will. -/
def configured (markers : List String) (block : Option (String × String)) (gutter : Option String)
    (stringQuotes rawQuotes : List Char) (charLiterals : Bool) : Delimiters :=
  { Delimiters.of markers block with gutter, stringQuotes, rawQuotes, charLiterals }

theorem lineMarkers_configured (markers : List String) (block : Option (String × String))
    (gutter : Option String) (stringQuotes rawQuotes : List Char) (charLiterals : Bool) :
    (configured markers block gutter stringQuotes rawQuotes charLiterals).lineMarkers
      = (Delimiters.of markers block).lineMarkers :=
  rfl

/-- Marks with the same line markers in another order open the same comments. -/
theorem configured_alike {markers markers' : List String} (hperm : markers.Perm markers')
    (block : Option (String × String)) (gutter : Option String) (stringQuotes rawQuotes : List Char)
    (charLiterals : Bool) :
    Alike (configured markers' block gutter stringQuotes rawQuotes charLiterals)
      (configured markers block gutter stringQuotes rawQuotes charLiterals) where
  opening text := by
    have hmarker : (configured markers' block gutter stringQuotes rawQuotes charLiterals).markerAt?
          text
        = (configured markers block gutter stringQuotes rawQuotes charLiterals).markerAt? text := by
      apply Option.ext
      intro marker
      rw [markerAt?_eq_some_iff (lineMarkers_configured ..),
        markerAt?_eq_some_iff (lineMarkers_configured ..)]
      exact ⟨fun h => h.perm hperm.symm, fun h => h.perm hperm⟩
    rw [opening?_eq, opening?_eq, hmarker]
    rfl
  enter _ _ := rfl
  gutter := rfl

end Delimiters

/-- A dialect keeps its marks as they are given, and nothing else of it depends on them. -/
theorem Dialect.of_eq_ok {name : String} {extensions : List String} {d : Delimiters}
    {declaration : Option String} {dialect : Dialect}
    (h : Dialect.of name extensions d declaration = .ok dialect) :
    dialect.delimiters = d ∧ ∀ d',
      Dialect.of name extensions d' declaration = .ok { dialect with delimiters := d' } := by
  cases declaration with
  | none =>
    obtain rfl := Except.ok.inj h
    exact ⟨rfl, fun d' => rfl⟩
  | some text =>
    simp only [Dialect.of_some] at h ⊢
    cases hparse : Pattern.parse text with
    | error fault =>
      rw [hparse] at h
      exact absurd h (by simp [Except.map])
    | ok pattern =>
      rw [hparse] at h
      obtain rfl := Except.ok.inj h
      exact ⟨rfl, fun d' => rfl⟩

namespace LanguageSettings

/-- The dialect described, with its marks as one value. -/
theorem dialect_eq (s : LanguageSettings) :
    s.dialect = s.block.bind fun block =>
      if s.lineMarkers.isEmpty && block.isNone then
        .error (.settings s!"language `{s.name}` defines no comment markers")
      else
        (Dialect.of s.name
          (s.extensions.map fun e => String.ofList (e.toList.dropWhile (· = '.')))
          (.configured s.lineMarkers block s.gutter (s.stringQuotes.getD ['"']) s.rawQuotes
            s.charLiterals)
          s.declaration).mapError .pattern := by
  unfold dialect
  cases s.block with
  | error failure => rfl
  | ok block =>
    by_cases hnone : (s.lineMarkers.isEmpty && block.isNone) = true
    · simp [hnone, bind, Except.bind, throw, throwThe, MonadExceptOf.throw]
    · simp [hnone, bind, Except.bind]
      rfl

/-- **The marks of a dialect that is described** are built from what is described, and the same
description with other line markers has a dialect too, if it has any. -/
theorem delimiters_of_dialect {s : LanguageSettings} {dialect : Dialect}
    (h : s.dialect = .ok dialect) :
    ∃ block, dialect.delimiters = .configured s.lineMarkers block s.gutter
        (s.stringQuotes.getD ['"']) s.rawQuotes s.charLiterals ∧
      ∀ markers, s.lineMarkers.isEmpty = markers.isEmpty →
        { s with lineMarkers := markers }.dialect = .ok { dialect with
          delimiters := .configured markers block s.gutter (s.stringQuotes.getD ['"']) s.rawQuotes
            s.charLiterals } := by
  rw [dialect_eq] at h
  cases hblock : s.block with
  | error failure =>
    rw [hblock] at h
    exact absurd h (by simp [Except.bind])
  | ok block =>
    rw [hblock, Except.bind] at h
    split_ifs at h with hnone
    cases hof : Dialect.of s.name
        (s.extensions.map fun e => String.ofList (e.toList.dropWhile (· = '.')))
        (.configured s.lineMarkers block s.gutter (s.stringQuotes.getD ['"']) s.rawQuotes
          s.charLiterals) s.declaration with
    | error fault =>
      rw [hof] at h
      exact absurd h (by simp [Except.mapError])
    | ok made =>
      rw [hof] at h
      obtain rfl := Except.ok.inj h
      obtain ⟨hdelimiters, hothers⟩ := Dialect.of_eq_ok hof
      refine ⟨block, hdelimiters, fun markers hempty => ?_⟩
      have hblock' : { s with lineMarkers := markers }.block = .ok block := hblock
      rw [hempty] at hnone
      rw [dialect_eq, hblock', Except.bind, if_neg hnone, hothers]
      rfl

end LanguageSettings

namespace Scan

/-- **The longest line marker wins, in whatever order the markers are given.** Every line comment
has lost the longest marker that stands at its place, empty markers not counted, and the comments of
a text are the same for every order of the markers. So it is with marks that are built and with
those of a dialect that is described. -/
theorem comments_longest_marker (file text : String) :
    (∀ markers block gutter stringQuotes rawQuotes charLiterals,
      (∀ c, .ok c ∈ comments (.configured markers block gutter stringQuotes rawQuotes charLiterals)
          file text → StripsLongest markers (Text.lines text.toList) c) ∧
      ∀ markers', markers.Perm markers' →
        comments (.configured markers' block gutter stringQuotes rawQuotes charLiterals) file text
          = comments (.configured markers block gutter stringQuotes rawQuotes charLiterals)
              file text) ∧
    ∀ (s : LanguageSettings) dialect, s.dialect = .ok dialect →
      (∀ c, .ok c ∈ comments dialect.delimiters file text →
        StripsLongest s.lineMarkers (Text.lines text.toList) c) ∧
      ∀ markers', s.lineMarkers.Perm markers' →
        ∃ dialect', { s with lineMarkers := markers' }.dialect = .ok dialect' ∧
          comments dialect'.delimiters file text = comments dialect.delimiters file text := by
  refine ⟨fun markers block gutter stringQuotes rawQuotes charLiterals => ⟨?_, ?_⟩, ?_⟩
  · exact stripsLongest_comments (Delimiters.lineMarkers_configured ..) file text
  · intro markers' hperm
    exact comments_alike (Delimiters.configured_alike hperm ..) file text
  · intro s dialect hdialect
    obtain ⟨block, hdelimiters, hothers⟩ := LanguageSettings.delimiters_of_dialect hdialect
    rw [hdelimiters]
    refine ⟨stripsLongest_comments (Delimiters.lineMarkers_configured ..) file text, ?_⟩
    intro markers' hperm
    refine ⟨_, hothers markers' hperm.isEmpty_eq, ?_⟩
    exact comments_alike (Delimiters.configured_alike hperm ..) file text

/-- A description with markers that start one another, one of them given twice, and an empty one. -/
def nestedMarkers : LanguageSettings :=
  { name := "notes", extensions := ["note"], lineMarkers := ["//", "", "//!", "///", "//"] }

/-- Its markers, longest first. -/
def nestedSorted : List String :=
  ["//!", "///", "//", "//", ""]

def nestedDialect : Dialect where
  name := "notes"
  extensions := ["note"]
  delimiters := .configured nestedMarkers.lineMarkers none none ['"'] [] false
  declaration := none

/-- A comment behind a marker that another one starts, and a comment behind that other one. -/
def nestedText : String :=
  "x /// a\n//d"

def nestedComment : Comment :=
  ⟨" a", ⟨"a.note", 1, 3⟩, .line, true, some "x", none, none⟩

theorem comments_nestedText :
    comments nestedDialect.delimiters "a.note" nestedText
      = [.ok nestedComment, .ok ⟨"d", ⟨"a.note", 2, 1⟩, .line, false, none, some "x", none⟩] := by
  -- sorted markers stay as they are, so that there is nothing left to sort when the scan is run
  have hperm : nestedSorted.Perm nestedMarkers.lineMarkers := by decide
  have hsorted : nestedSorted.mergeSort (fun a b => b.utf8ByteSize ≤ a.utf8ByteSize)
      = nestedSorted := List.mergeSort_of_pairwise (by decide)
  rw [nestedDialect, comments_alike (Delimiters.configured_alike hperm ..), Delimiters.configured,
    Delimiters.of, hsorted]
  decide +kernel

theorem longest_nestedMarkers :
    nestedMarkers.dialect = .ok nestedDialect ∧
    .ok nestedComment ∈ comments nestedDialect.delimiters "a.note" nestedText ∧
    StripsLongest nestedMarkers.lineMarkers (Text.lines nestedText.toList) nestedComment ∧
    nestedMarkers.lineMarkers.Perm nestedMarkers.lineMarkers.reverse ∧
    ∃ dialect',
      { nestedMarkers with lineMarkers := nestedMarkers.lineMarkers.reverse }.dialect
        = .ok dialect' ∧
      comments dialect'.delimiters "a.note" nestedText
        = comments nestedDialect.delimiters "a.note" nestedText := by
  have hdialect : nestedMarkers.dialect = .ok nestedDialect := rfl
  have hmem : .ok nestedComment ∈ comments nestedDialect.delimiters "a.note" nestedText := by
    rw [comments_nestedText]
    exact List.mem_cons_self
  have hperm : nestedMarkers.lineMarkers.Perm nestedMarkers.lineMarkers.reverse :=
    (List.reverse_perm _).symm
  obtain ⟨hstrips, hothers⟩ :=
    (comments_longest_marker "a.note" nestedText).2 nestedMarkers nestedDialect hdialect
  exact ⟨hdialect, hmem, hstrips _ hmem, hperm, hothers _ hperm⟩

end Scan

end Marginalia
