/-
Notes, written and read.

A note is written as a marker with the path of its topic, then its attribute
groups, then its text, on the same line or below. `reads_as_written` says for
each of the three forms that what is read is what was written, and that white
space in front of it makes no difference.

The text goes through four readers: the line of the marker is cut off, the path
is cut off that line, then come the groups, and what is left is the text. Each
cut is at the first place of a character, so for each there is one thing to
show: the character is not in the part before it. The path of a topic holds no
line feed because it holds no white space at all.
-/
import Marginalia.Note.Read
import Marginalia.Proofs.Note.Attributes
import Marginalia.Proofs.Note.Prose
import Marginalia.Proofs.Text.Blank
import Marginalia.Proofs.Topic

set_option autoImplicit false

namespace Marginalia.Note

open Attributes (Group)

/-- The marker of a path. -/
def marker (path : String) : String :=
  "@[" ++ path ++ "]"

/-- A line with or without further lines below it. -/
def above (line : List Char) : Option (List Char) → List Char
  | none => line
  | some below => line ++ '\n' :: below

/-! ## The parts of a written note -/

section Parts

variable {path : String} {topic : Topic} (groups : List Group) (tail : List Char)
  (below : Option (List Char)) {comment : Comment} {heuristic : Heuristic}

/-- The first line of a note. -/
def markerLine (path : String) (groups : List Group) (tail : List Char) : List Char :=
  path.toList ++ ']' :: ((Attributes.written groups).toList ++ tail)

variable (hpath : Topic.parse path = .ok topic) (hbracket : ']' ∉ path.toList)
  (hproper : ∀ g ∈ groups, g.Proper) (hkeys : (groups.map Group.key).Nodup)
  (hbrace : tail.head? ≠ some '\x7b') (hfeed : '\n' ∉ tail)

include hpath hproper hfeed in
theorem feed_notMem_markerLine : '\n' ∉ markerLine path groups tail := by
  have hpathfeed : '\n' ∉ path.toList := fun h => Topic.not_isBlank_of_parse hpath h (by decide)
  have hgroups := Attributes.feed_notMem_written hproper
  simp [markerLine, hpathfeed, hgroups, hfeed]

include hpath hbracket hproper hkeys hbrace hfeed

/-- The reader finds the parts of a note: the path, then the groups, then what the form is made
of. -/
theorem readMarker_above :
    readMarker comment heuristic (above (markerLine path groups tail) below)
      = (formOf comment heuristic (({} : Attributes).extendedBy groups) (Text.trim tail) below).map
          fun form => ⟨topic, comment.position, form⟩ := by
  have hline := feed_notMem_markerLine groups tail hpath hproper hfeed
  have hcut : Text.cutAt [']'] (markerLine path groups tail)
      = some (path.toList, (Attributes.written groups).toList ++ tail) :=
    Text.cutAt_append hbracket _
  have hread := Attributes.read_written hproper hkeys hbrace
  rw [readMarker]
  cases below with
  | none =>
    simp only [above, Text.cutAt_of_notMem hline, hcut, String.ofList_toList, hpath, hread]
    rfl
  | some below =>
    simp only [above, Text.cutAt_append hline, hcut, String.ofList_toList, hpath, hread]
    rfl

/-- A comment with the text of a note is read as the form its parts make. -/
theorem read_above {form : NoteForm}
    (htext : comment.text.toList = '@' :: '[' :: above (markerLine path groups tail) below)
    (hform : formOf comment heuristic (({} : Attributes).extendedBy groups) (Text.trim tail) below
      = .ok form) :
    read heuristic comment = .note ⟨topic, comment.position, form⟩ := by
  have htrim : Text.trimStart comment.text.toList = comment.text.toList := by
    rw [htext]
    exact List.dropWhile_cons_of_neg (by decide)
  have hmarker : Text.after? ['@', '['] comment.text.toList
      = some (above (markerLine path groups tail) below) := by
    rw [htext]
    exact Text.after?_append ['@', '['] _
  have hread : readMarker comment heuristic (above (markerLine path groups tail) below)
      = .ok ⟨topic, comment.position, form⟩ := by
    rw [readMarker_above groups tail below hpath hbracket hproper hkeys hbrace hfeed, hform]
    rfl
  simp only [read, htrim, hmarker, hread]

end Parts

/-! ## The form of the rest -/

section Form

variable {comment : Comment} {heuristic : Heuristic}

/-- Flush lines below the marker are the body of a block. -/
theorem formOf_flush {body : String} (h : Prose.Flush body) (a : Attributes) :
    formOf comment heuristic a [] (some body.toList) = .ok (.block
      { body := if a.doNotCollect then none else some body
        nickname := a.nickname
        title := a.title
        mentions := if a.doNotCollect then [] else Prose.mentions body
        collected := !a.doNotCollect }) := by
  have hblank : Text.allBlank body.toList = false := by simpa using h.not_allBlank
  have hempty : body.isEmpty = false := by
    rw [← Bool.not_eq_true, String.isEmpty_iff]
    rintro rfl
    exact h.not_allBlank rfl
  rw [formOf]
  simp only [Option.filter_some, hblank, Bool.not_false, if_true, h.dedent_eq_self,
    String.ofList_toList, blockForm, hempty, Bool.and_true]
  cases a.doNotCollect <;> rfl

/-- A title at a declaration. -/
theorem formOf_declaration {code title : String} (hcode : decorated comment = some code)
    (hdeclaration : heuristic.isDeclaration code) (htitle : title ≠ "") :
    formOf comment heuristic {} title.toList none
      = .ok (.declaration (some title) (heuristic.symbolName code) (Prose.mentions title)) := by
  have hne : title.toList.isEmpty = false := by simpa using htitle
  have hsome : (decorated comment).filter heuristic.isDeclaration = some code := by
    rw [hcode, Option.filter_some_pos hdeclaration]
  rw [formOf]
  simp [hsome, hne, Attributes.isEmpty]

/-- A bare marker away from declarations. -/
theorem formOf_reference (h : ∀ code ∈ decorated comment, ¬ heuristic.isDeclaration code) :
    formOf comment heuristic {} [] none = .ok .reference := by
  have hnone : (decorated comment).filter heuristic.isDeclaration = none :=
    Option.filter_eq_none_iff.2 h
  rw [formOf]
  simp [hnone, Attributes.isEmpty]

end Form

/-! ## Round trip -/

theorem trim_space_title {title : String} (h : Text.trimmed title = title) :
    Text.trim (' ' :: title.toList) = title.toList := by
  have hstart : Text.trimStart ([' '] ++ title.toList) = Text.trimStart title.toList :=
    Text.trimStart_append (by decide) title.toList
  have hlist := congrArg String.toList h
  rw [Text.trimmed, String.toList_ofList] at hlist
  rw [← List.singleton_append, Text.trim, hstart]
  exact hlist

/-- White space in front of a comment makes no difference. -/
theorem read_blank_append (heuristic : Heuristic) (comment : Comment) {blank : String}
    (h : Text.allBlank blank.toList) :
    read heuristic { comment with text := blank ++ comment.text } = read heuristic comment := by
  simp only [read, String.toList_append, Text.trimStart_append h]
  rfl

/-- **What is written is read.** For every path that names a topic and holds no bracket, at every
comment and with every heuristic:

- the groups in any order with a flush body below them are a block with what the groups say and
  with that body, which is left out together with its links if the block is not collected;
- a title at a declaration is a declaration with that title and the name of the code;
- the bare marker away from declarations is a reference;
- and white space in front of a text never changes what it is read as. -/
theorem reads_as_written {path : String} {topic : Topic} (hpath : Topic.parse path = .ok topic)
    (hbracket : ']' ∉ path.toList) (heuristic : Heuristic) (comment : Comment) :
    topic.text = path ∧
    (∀ (groups : List Group) (body : String), (∀ g ∈ groups, g.Proper) →
      (groups.map Group.key).Nodup → Prose.Flush body →
      read heuristic
          { comment with text := marker path ++ Attributes.written groups ++ "\n" ++ body }
        = .note ⟨topic, comment.position, .block
            { body := if .doNotCollect ∈ groups then none else some body
              nickname := groups.findSome? Group.nickname?
              title := groups.findSome? Group.title?
              mentions := if .doNotCollect ∈ groups then [] else Prose.mentions body
              collected := .doNotCollect ∉ groups }⟩) ∧
    (∀ title code : String, title ≠ "" → Text.trimmed title = title → '\n' ∉ title.toList →
      decorated comment = some code → heuristic.isDeclaration code →
      read heuristic { comment with text := marker path ++ " " ++ title }
        = .note ⟨topic, comment.position,
            .declaration (some title) (heuristic.symbolName code) (Prose.mentions title)⟩) ∧
    ((∀ code ∈ decorated comment, ¬ heuristic.isDeclaration code) →
      read heuristic { comment with text := marker path }
        = .note ⟨topic, comment.position, .reference⟩) ∧
    ∀ blank text : String, Text.allBlank blank.toList →
      read heuristic { comment with text := blank ++ text }
        = read heuristic { comment with text := text } := by
  refine ⟨Topic.text_of_parse hpath, ?block, ?declaration, ?reference, ?blank⟩
  case block =>
    intro groups body hproper hkeys hflush
    refine read_above groups [] (some body.toList) hpath hbracket hproper hkeys (by simp) (by simp)
      (by simp [marker, markerLine, above]) ?_
    rw [Text.trim_eq_nil_iff.2 rfl, formOf_flush hflush]
    by_cases hflag : Group.doNotCollect ∈ groups <;> simp [Attributes.extendedBy, hflag]
  case declaration =>
    intro title code htitle htrimmed hfeed hcode hdeclaration
    refine read_above [] (' ' :: title.toList) none hpath hbracket (by simp) (by simp) (by simp)
      (by simp [hfeed]) (by simp [marker, markerLine, above, Attributes.written]) ?_
    rw [trim_space_title htrimmed, Attributes.extendedBy_nil]
    exact formOf_declaration hcode hdeclaration htitle
  case reference =>
    intro h
    refine read_above [] [] none hpath hbracket (by simp) (by simp) (by simp) (by simp)
      (by simp [marker, markerLine, above, Attributes.written]) ?_
    rw [Text.trim_eq_nil_iff.2 rfl, Attributes.extendedBy_nil]
    exact formOf_reference h
  case blank =>
    intro blank text hblank
    exact read_blank_append heuristic { comment with text := text } hblank

/-- Code that starts with `func` declares `settle`. -/
def settleHeuristic : Heuristic where
  isDeclaration code := Text.startsWith ['f', 'u', 'n', 'c', ' '] code.toList
  symbolName _ := some "settle"

/-- A comment behind the head of a function. -/
def settleComment : Comment where
  text := ""
  position := ⟨"x.go", 3, 17⟩
  form := .line
  attached := true
  code := some "func settle() \x7b"
  precedingCode := none
  followingCode := none

/-- A body with an empty line, an indented line and a link. -/
def settleBody : String :=
  "First.\n\n  See @[Domain/Money].\nLast."

def settleTopic : Topic :=
  (Topic.single "Domain").child "Rules"

theorem reads_as_written_settle :
    Prose.Flush settleBody ∧
    read settleHeuristic
        { settleComment with
          text := "@[Domain/Rules]\x7btitle:House: rules\x7d\x7balias:R\x7d\n" ++ settleBody }
      = .note ⟨settleTopic, ⟨"x.go", 3, 17⟩, .block
          { body := some settleBody
            nickname := some "R"
            title := some "House: rules"
            mentions := Prose.mentions settleBody
            collected := true }⟩ ∧
    read settleHeuristic
        { settleComment with
          text := "@[Domain/Rules]\x7bdo-not-collect\x7d\x7balias:R\x7d\n" ++ settleBody }
      = .note ⟨settleTopic, ⟨"x.go", 3, 17⟩, .block ⟨none, some "R", none, [], false⟩⟩ ∧
    read settleHeuristic { settleComment with text := " \n\t" ++ "@[Domain/Rules] \x7bx\x7d y" }
      = .note ⟨settleTopic, ⟨"x.go", 3, 17⟩,
          .declaration (some "\x7bx\x7d y") (some "settle") (Prose.mentions "\x7bx\x7d y")⟩ ∧
    read settleHeuristic { settleComment with text := "@[Domain/Rules]", code := none }
      = .note ⟨settleTopic, ⟨"x.go", 3, 17⟩, .reference⟩ := by
  have hpath : Topic.parse "Domain/Rules" = .ok settleTopic := rfl
  have hflush : Prose.Flush settleBody := by decide
  obtain ⟨-, hblock, hdeclaration, -, hblank⟩ :=
    reads_as_written hpath (by decide) settleHeuristic settleComment
  obtain ⟨-, -, -, hreference, -⟩ :=
    reads_as_written hpath (by decide) settleHeuristic { settleComment with code := none }
  refine ⟨hflush, ?_, ?_, ?_, ?_⟩
  · exact hblock [.title "House: rules", .nickname "R"] settleBody (by decide) (by decide) hflush
  · exact hblock [.doNotCollect, .nickname "R"] settleBody (by decide) (by decide) hflush
  · rw [hblank _ _ (by decide)]
    exact hdeclaration "\x7bx\x7d y" _ (by decide) (by decide) (by decide) rfl (by decide)
  · exact hreference (by decide)

end Marginalia.Note
