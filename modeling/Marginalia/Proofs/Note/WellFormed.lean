/-
Every note that is read is well formed.

The merge of notes into an outline takes for granted that a title is not
blank, that a block which is not collected brings no links, and the like. Here
is what the reader guarantees, over every comment and whatever is taken for a
declaration.

The reader is opened once. `Parts` is what it finds on the marker's line, and
`Formed` says which of four things it makes of it: prose below the line, a
declaration, a reference, or a remark on the line itself. What holds of a note
then comes from what holds of the parts: the path has no bracket because it is
cut at the first one, the attributes are legible, and the texts are trimmed.
-/
import Marginalia.Proofs.Note.Dedent
import Marginalia.Proofs.Note.Written

set_option autoImplicit false

namespace Marginalia

namespace Note

/-! ## The reader, backwards -/

/-- The text on the marker's line, if there is any. -/
def inlineText (inline : List Char) : Option String :=
  if inline.isEmpty then none else some (String.ofList inline)

/-- **What becomes of a marker** with these attributes, this text on its line and these lines
below. -/
inductive Formed (comment : Comment) (heuristic : Heuristic) (a : Attributes) (inline : List Char)
    (below : Option (List Char)) : NoteForm → Prop where
  | prose (rest : List Char) (hbelow : below = some rest) (hrest : ¬ Text.allBlank rest) :
      Formed comment heuristic a inline below
        (blockForm (some (String.ofList (Prose.dedent inline rest))) a)
  | declaration (code : String) (hbelow : ∀ rest ∈ below, Text.allBlank rest)
      (hcode : decorated comment = some code) (hdeclaration : heuristic.isDeclaration code)
      (ha : a.isEmpty) :
      Formed comment heuristic a inline below
        (.declaration (inlineText inline) (heuristic.symbolName code)
          (((inlineText inline).map Prose.mentions).getD []))
  | reference (hbelow : ∀ rest ∈ below, Text.allBlank rest) (hinline : inline = [])
      (ha : a.isEmpty) : Formed comment heuristic a inline below .reference
  | remark (hbelow : ∀ rest ∈ below, Text.allBlank rest) (h : inline = [] → ¬ a.isEmpty) :
      Formed comment heuristic a inline below (blockForm (inlineText inline) a)

section Reader

variable {comment : Comment} {heuristic : Heuristic}

theorem formOf_eq (a : Attributes) (inline : List Char) (below : Option (List Char)) :
    formOf comment heuristic a inline below
      = match below.filter fun rest => !Text.allBlank rest with
        | some rest => .ok (blockForm (some (String.ofList (Prose.dedent inline rest))) a)
        | none =>
          match (decorated comment).filter heuristic.isDeclaration with
          | some code =>
            if !a.isEmpty then .error .attributesOnDeclaration
            else .ok (.declaration (inlineText inline) (heuristic.symbolName code)
              (((inlineText inline).map Prose.mentions).getD []))
          | none =>
            if inline.isEmpty && a.isEmpty then .ok .reference
            else if inline.isEmpty && comment.attached then .error .attributesOnReference
            else .ok (blockForm (inlineText inline) a) :=
  rfl

theorem formed_of_formOf {a : Attributes} {inline : List Char} {below : Option (List Char)}
    {form : NoteForm} (h : formOf comment heuristic a inline below = .ok form) :
    Formed comment heuristic a inline below form := by
  rw [formOf_eq] at h
  split at h
  · rename_i rest hrest
    obtain ⟨hbelow, hblank⟩ := Option.filter_eq_some_iff.1 hrest
    cases h
    exact .prose rest hbelow (by simpa using hblank)
  · rename_i hnone
    have hbelow : ∀ rest ∈ below, Text.allBlank rest := by
      intro rest hrest
      simpa using Option.filter_eq_none_iff.1 hnone rest hrest
    split at h
    · rename_i code hsome
      obtain ⟨hcode, hdeclaration⟩ := Option.filter_eq_some_iff.1 hsome
      split at h
      · exact absurd h (by simp)
      · rename_i ha
        cases h
        exact .declaration code hbelow hcode hdeclaration (by simpa using ha)
    · split at h
      · rename_i hbare
        rw [Bool.and_eq_true, List.isEmpty_iff] at hbare
        cases h
        exact .reference hbelow hbare.1 hbare.2
      · rename_i hbare
        split at h
        · exact absurd h (by simp)
        · cases h
          refine .remark hbelow ?_
          rintro rfl ha
          exact hbare (by simpa using ha)

/-- **The parts the reader finds** on a marker's line, once the marker is opened. -/
structure Parts (comment : Comment) (heuristic : Heuristic) (line : List Char)
    (below : Option (List Char)) (note : Note) where
  inside : List Char
  behind : List Char
  attributes : Attributes
  remainder : List Char
  line_eq : line = inside ++ ']' :: behind
  bracket : ']' ∉ inside
  topic_eq : Topic.parse (String.ofList inside) = .ok note.topic
  attributes_eq : Attributes.read behind = .ok (attributes, remainder)
  formed : Formed comment heuristic attributes (Text.trim remainder) below note.form
  position_eq : note.position = comment.position

theorem mapError_eq_ok {ε ε' α : Type} {f : ε → ε'} {x : Except ε α} {a : α}
    (h : x.mapError f = .ok a) : x = .ok a := by
  cases x with
  | error fault => exact absurd h (by simp [Except.mapError])
  | ok b => simpa [Except.mapError] using h

/-- The line of a marker is cut off at its line feed, whether there is one or not. -/
theorem readMarker_line {line : List Char} (hfeed : '\n' ∉ line) (below : Option (List Char)) :
    readMarker comment heuristic (above line below)
      = match Text.cutAt [']'] line with
        | none => .error .unclosedMarker
        | some (inside, behind) => (do
          let topic ← (Topic.parse (String.ofList inside)).mapError (.badTopic (String.ofList inside))
          let (a, remainder) ← (Attributes.read behind).mapError .attributes
          let form ← formOf comment heuristic a (Text.trim remainder) below
          pure ⟨topic, comment.position, form⟩) := by
  have hcut : Text.cutAt ['\n'] (above line below) = below.map fun rest => (line, rest) := by
    cases below with
    | none => exact Text.cutAt_of_notMem hfeed
    | some rest => exact Text.cutAt_append hfeed rest
  unfold readMarker
  rw [hcut]
  cases below <;> rfl

theorem nonempty_parts {line : List Char} {below : Option (List Char)} {note : Note}
    (hfeed : '\n' ∉ line) (h : readMarker comment heuristic (above line below) = .ok note) :
    Nonempty (Parts comment heuristic line below note) := by
  rw [readMarker_line hfeed] at h
  split at h
  · exact absurd h (by simp)
  · rename_i inside behind hbracket
    obtain ⟨topic, htopic, h⟩ := bind_eq_ok_iff.1 h
    obtain ⟨⟨a, remainder⟩, hattributes, h⟩ := bind_eq_ok_iff.1 h
    obtain ⟨form, hform, h⟩ := bind_eq_ok_iff.1 h
    cases h
    exact ⟨{ inside, behind, attributes := a, remainder
             line_eq := by simpa using Text.eq_append_of_cutAt hbracket
             bracket := Text.notMem_of_cutAt hbracket
             topic_eq := mapError_eq_ok htopic
             attributes_eq := mapError_eq_ok hattributes
             formed := formed_of_formOf hform
             position_eq := rfl }⟩

/-- Every text is a line with or without further lines below it. -/
theorem exists_above (text : List Char) :
    ∃ line below, text = above line below ∧ '\n' ∉ line := by
  cases h : Text.cutAt ['\n'] text with
  | none =>
    refine ⟨text, none, rfl, ?_⟩
    intro hfeed
    obtain ⟨front, back, rfl⟩ := List.append_of_mem hfeed
    exact Text.not_infix_of_cutAt_eq_none h ⟨front, back, by simp⟩
  | some cut =>
    obtain ⟨line, below⟩ := cut
    refine ⟨line, some below, ?_, Text.notMem_of_cutAt h⟩
    simpa [above] using Text.eq_append_of_cutAt h

/-- A note comes from a marker behind nothing but white space. -/
theorem exists_marker_of_read {note : Note} (h : read heuristic comment = .note note) :
    ∃ lead line below, comment.text.toList = lead ++ '@' :: '[' :: above line below ∧
      Text.allBlank lead ∧ '\n' ∉ line ∧
      readMarker comment heuristic (above line below) = .ok note := by
  unfold read at h
  split at h
  · exact absurd h (by simp)
  · rename_i text hafter
    obtain ⟨line, below, rfl, hfeed⟩ := exists_above text
    refine ⟨comment.text.toList.takeWhile Text.isBlank, line, below, ?_, ?_, hfeed, ?_⟩
    · have hmarker : Text.trimStart comment.text.toList = '@' :: '[' :: above line below :=
        Text.eq_append_of_after? hafter
      rw [← hmarker]
      exact List.takeWhile_append_dropWhile.symm
    · exact List.all_takeWhile
    · split at h
      · rename_i read hread
        obtain rfl := Reading.note.inj h
        exact hread
      · exact absurd h (by simp)

end Reader

end Note

/-! ## Well-formed notes -/

/-- A block as the reader makes them. -/
structure Block.WellFormed (prose : Block) : Prop where
  nickname : ∀ value ∈ prose.nickname, Attributes.Legible value
  title : ∀ value ∈ prose.title, Attributes.Legible value
  body : ∀ body ∈ prose.body, Prose.Framed body.toList
  mentions : prose.mentions = (prose.body.map Prose.mentions).getD []
  /-- A block that is not collected keeps its attributes only. -/
  uncollected : prose.collected = false → prose.body = none ∧ prose.mentions = []
  /-- A block that is collected has something to say. -/
  collected : prose.collected → prose.body.isSome ∨ prose.title.isSome ∨ prose.nickname.isSome

/-- What a note of each form may hold. -/
def NoteForm.WellFormed : NoteForm → Prop
  | .declaration title _ mentions =>
    (∀ text ∈ title, text ≠ "" ∧ Text.trimmed text = text ∧ '\n' ∉ text.toList) ∧
      mentions = (title.map Prose.mentions).getD []
  | .block prose => prose.WellFormed
  | .reference => True

/-- **A note as it comes from a comment.** -/
structure Note.WellFormed (comment : Comment) (note : Note) : Prop where
  position : note.position = comment.position
  topic : ∀ s ∈ note.topic.segments,
    s ≠ "" ∧ ∀ c ∈ s.toList, ¬ Text.isBlank c ∧ c ≠ '/' ∧ c ≠ ']'
  form : note.form.WellFormed
  nickname : note.nickname.isSome → note.kind = .block
  /-- A reference is a marker with nothing but white space around it: it has neither attributes
  nor a text. -/
  reference : note.kind = .reference → ∃ front back : String,
    Text.allBlank front.toList ∧ Text.allBlank back.toList ∧
      comment.text = front ++ Note.marker note.topic.text ++ back

namespace Note

/-- The body of a block is kept exactly if the block is collected. -/
theorem filter_body {body : Option String} (h : ∀ text ∈ body, text ≠ "") (a : Attributes) :
    (body.filter fun b => !a.doNotCollect && !b.isEmpty)
      = if a.doNotCollect then none else body := by
  cases body with
  | none => simp
  | some text =>
    have hne : text.isEmpty = false := by simpa using h text rfl
    cases hflag : a.doNotCollect <;> simp [Option.filter_some, hne]

theorem blockForm_wellFormed {body : Option String} {a : Attributes}
    (hnickname : ∀ value ∈ a.nickname, Attributes.Legible value)
    (htitle : ∀ value ∈ a.title, Attributes.Legible value)
    (hbody : ∀ text ∈ body, Prose.Framed text.toList) (hsome : body = none → ¬ a.isEmpty) :
    (blockForm body a).WellFormed := by
  have hkept := filter_body (fun text htext => by simpa using (hbody text htext).ne_nil) a
  unfold blockForm
  simp only [hkept]
  refine
    { nickname := hnickname
      title := htitle
      body := ?_
      mentions := rfl
      uncollected := ?_
      collected := ?_ }
  · intro text htext
    by_cases hflag : a.doNotCollect
    · simp [hflag] at htext
    · exact hbody text (by simpa [hflag] using htext)
  · intro hflag
    have hflag : a.doNotCollect = true := by simpa using hflag
    simp [hflag]
  · intro hflag
    have hflag : a.doNotCollect = false := by simpa using hflag
    simp only [hflag, Bool.false_eq_true, if_false]
    by_cases hnone : body = none
    · have hattributes := hsome hnone
      cases htitle : a.title <;> cases hnickname : a.nickname <;>
        simp_all [Attributes.isEmpty]
    · exact .inl (Option.isSome_iff_ne_none.2 hnone)

/-- The segments of a path without brackets. -/
theorem segments_of_bracket_notMem {inside : List Char} {topic : Topic}
    (h : Topic.parse (String.ofList inside) = .ok topic) (hbracket : ']' ∉ inside) :
    ∀ s ∈ topic.segments, s ≠ "" ∧ ∀ c ∈ s.toList, ¬ Text.isBlank c ∧ c ≠ '/' ∧ c ≠ ']' := by
  obtain ⟨hsegments, hfault⟩ := Topic.segments_of_parse h
  rw [String.toList_ofList] at hsegments
  intro s hs
  obtain ⟨hne, hblank⟩ := Topic.firstFault_eq_none_iff.1 hfault s hs
  refine ⟨hne, ?_⟩
  intro c hc
  rw [hsegments] at hs
  obtain ⟨piece, hpiece, rfl⟩ := List.mem_map.1 hs
  have hcblank := hblank c hc
  rw [String.toList_ofList] at hc
  refine ⟨hcblank, ?_, ?_⟩
  · rintro rfl
    exact Text.notMem_of_mem_pieces hpiece hc
  · rintro rfl
    apply hbracket
    rw [← Text.joined_pieces '/' inside]
    exact Text.mem_joined_of_mem hpiece hc

namespace Parts

variable {comment : Comment} {heuristic : Heuristic} {line : List Char}
  {below : Option (List Char)} {note : Note} (parts : Parts comment heuristic line below note)

/-- The text on the marker's line. -/
def inline : List Char :=
  Text.trim parts.remainder

variable (hfeed : '\n' ∉ line)

include parts hfeed

theorem feed_notMem_behind : '\n' ∉ parts.behind := by
  intro hmem
  apply hfeed
  rw [parts.line_eq]
  exact List.mem_append_right _ (List.mem_cons_of_mem _ hmem)

theorem feed_notMem_inline : '\n' ∉ parts.inline := by
  obtain ⟨-, -, hrest, -⟩ :=
    Attributes.legible_of_read (parts.feed_notMem_behind hfeed) parts.attributes_eq
  intro hmem
  exact parts.feed_notMem_behind hfeed (hrest.subset ((Text.trim_infix _).subset hmem))

/-- The text on the marker's line is trimmed and stands on that line. -/
theorem inlineText_trimmed : ∀ text ∈ inlineText parts.inline,
    text ≠ "" ∧ Text.trimmed text = text ∧ '\n' ∉ text.toList ∧ Prose.Framed text.toList := by
  intro text htext
  have hinline := parts.feed_notMem_inline hfeed
  unfold inlineText at htext
  split at htext
  · exact absurd htext (by simp)
  · rename_i hne
    rw [List.isEmpty_iff] at hne
    obtain rfl := Option.some.inj htext
    rw [String.toList_ofList]
    refine ⟨?_, ?_, hinline, Prose.framed_of_oneLine hinline ?_⟩
    · intro hempty
      exact hne (by simpa using congrArg String.toList hempty)
    · rw [Text.trimmed, String.toList_ofList, inline, Text.trim_trim]
    · exact fun hblank => hne (Text.trim_eq_nil_of_allBlank hblank)

theorem form_wellFormed : note.form.WellFormed := by
  obtain ⟨hnickname, htitle, -, -⟩ :=
    Attributes.legible_of_read (parts.feed_notMem_behind hfeed) parts.attributes_eq
  have hinline := parts.inlineText_trimmed hfeed
  have hformed := parts.formed
  generalize note.form = form at hformed
  cases hformed with
  | prose rest hbelow hrest =>
    refine blockForm_wellFormed hnickname htitle ?_ (by simp)
    intro body hbody
    obtain rfl := Option.some.inj hbody
    rw [String.toList_ofList]
    exact Prose.framed_dedent (parts.feed_notMem_inline hfeed) Text.trim_eq_nil_of_allBlank hrest
  | declaration code =>
    refine ⟨?_, rfl⟩
    intro text htext
    obtain ⟨hne, htrimmed, hline, -⟩ := hinline text htext
    exact ⟨hne, htrimmed, hline⟩
  | reference => trivial
  | remark hbelow h =>
    refine blockForm_wellFormed hnickname htitle ?_ ?_
    · intro text htext
      exact (hinline text htext).2.2.2
    · intro hnone
      apply h
      unfold inlineText at hnone
      split at hnone
      · rename_i hempty
        exact List.isEmpty_iff.1 hempty
      · exact absurd hnone (by simp)

/-- Behind the marker of a reference there is nothing but white space. -/
theorem blank_of_reference (h : note.form = .reference) :
    Text.allBlank (above parts.behind below) := by
  obtain ⟨-, -, -, hwhole⟩ :=
    Attributes.legible_of_read (parts.feed_notMem_behind hfeed) parts.attributes_eq
  have hformed := parts.formed
  rw [h] at hformed
  cases hformed with
  | reference hbelow hinline ha =>
    have hbehind : Text.allBlank parts.behind := by
      rw [← hwhole ha]
      exact Text.trim_eq_nil_iff.1 hinline
    cases below with
    | none => exact hbehind
    | some rest =>
      have hrest := hbelow rest rfl
      simp only [Text.allBlank, above, List.all_append, List.all_cons, Bool.and_eq_true] at *
      exact ⟨hbehind, by decide, hrest⟩

end Parts

/-- **Every note that is read is well formed**, whatever the comment and the heuristic. -/
theorem read_wellFormed {heuristic : Heuristic} {comment : Comment} {note : Note}
    (h : read heuristic comment = .note note) : WellFormed comment note := by
  obtain ⟨lead, line, below, htext, hlead, hfeed, hread⟩ := exists_marker_of_read h
  obtain ⟨parts⟩ := nonempty_parts hfeed hread
  refine
    { position := parts.position_eq
      topic := segments_of_bracket_notMem parts.topic_eq parts.bracket
      form := parts.form_wellFormed hfeed
      nickname := ?_
      reference := ?_ }
  · intro hnickname
    unfold nickname at hnickname
    unfold kind
    cases hform : note.form <;> simp_all
  · intro hkind
    have hform : note.form = .reference := by
      unfold kind at hkind
      cases hform : note.form <;> simp_all
    refine ⟨String.ofList lead, String.ofList (above parts.behind below), ?_, ?_, ?_⟩
    · rwa [String.toList_ofList]
    · rw [String.toList_ofList]
      exact parts.blank_of_reference hfeed hform
    · have hpath : note.topic.text = String.ofList parts.inside := Topic.text_of_parse parts.topic_eq
      apply String.toList_inj.1
      rw [htext, hpath]
      conv_lhs => rw [parts.line_eq]
      cases below <;> simp [marker, above]

/-- A block with white space in its braces, a text on the marker's line, and lines of different
indentation between blank ones. -/
def houseText : String :=
  " @[Domain/Rules]\x7b title: House \x7d See\n\n    First @[Domain/Money].\n      deeper\n  \n"

def houseNote : Note :=
  ⟨settleTopic, ⟨"x.go", 3, 17⟩, .block
    { body := some "See\n\nFirst @[Domain/Money].\n  deeper"
      nickname := none
      title := some "House"
      mentions := [(Topic.single "Domain").child "Money"]
      collected := true }⟩

theorem read_wellFormed_house :
    read settleHeuristic { settleComment with text := houseText } = .note houseNote ∧
    WellFormed { settleComment with text := houseText } houseNote ∧
    read settleHeuristic { settleComment with text := "@[Domain/Rules]\n \t", code := none }
      = .note ⟨settleTopic, ⟨"x.go", 3, 17⟩, .reference⟩ ∧
    WellFormed { settleComment with text := "@[Domain/Rules]\n \t", code := none }
      ⟨settleTopic, ⟨"x.go", 3, 17⟩, .reference⟩ := by
  have hblock : read settleHeuristic { settleComment with text := houseText }
      = .note houseNote := by
    decide +kernel
  have hreference : read settleHeuristic
      { settleComment with text := "@[Domain/Rules]\n \t", code := none }
        = .note ⟨settleTopic, ⟨"x.go", 3, 17⟩, .reference⟩ := by
    decide +kernel
  exact ⟨hblock, read_wellFormed hblock, hreference, read_wellFormed hreference⟩

end Note

end Marginalia
