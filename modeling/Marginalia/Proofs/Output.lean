/-
Colour never changes the words.

A listing is styled text, and with its style sequences deleted it reads as it
does without colours, as long as there are no escapes in it (`unstyled_render`).
What is left to show is where escapes could come from. A listing is made of
fixed words, of numbers and of texts that stand in the result it shows, some
of them put together first: a position, a topic, an address. None of this
makes an escape, so a result **without escapes in its texts** has a listing
without escapes.

`strings` are all the texts of a result, shown or not.
-/
import Marginalia.Outline.Build
import Marginalia.Output
import Marginalia.Proofs.Styled
import Marginalia.Proofs.Topic

set_option autoImplicit false

namespace Marginalia

open Style

/-! ## The texts of a result -/

def Content.strings (content : Content) : List String :=
  content.title.toList ++ content.body.toList ++ content.nickname.toList

/-- The texts of a finding. Its topic is not shown, and counts all the same. -/
def Finding.strings (f : Finding) : List String :=
  f.code :: f.message :: (f.location.toList.map Position.file
    ++ f.topic.toList.flatMap Topic.segments ++ f.suggestion.toList)

def Report.strings (report : Report) : List String :=
  report.findings.flatMap Finding.strings

def Site.strings (site : Site) : List String :=
  site.position.file :: site.symbol.toList

def Conflict.strings (conflict : Conflict) : List String :=
  conflict.position.file :: conflict.content.strings

/-- The texts of an entry, with those of its sites and conflicts. -/
def Entry.strings (entry : Entry) : List String :=
  entry.topic.segments ++ SortedSet.elements entry.children
    ++ entry.content.toList.flatMap Content.strings
    ++ (entry.declarationSites ++ entry.blockSites).flatMap Site.strings
    ++ (entry.referenceSites ++ entry.mentionSites).map Position.file
    ++ entry.conflicts.flatMap Conflict.strings

/-- The texts of an outline: of its keys and entries, its roots and its nicknames. -/
def Outline.strings (outline : Outline) : List String :=
  outline.entries.toList.flatMap (fun (topic, entry) => topic.segments ++ entry.strings)
    ++ SortedSet.elements outline.roots
    ++ outline.nicknames.toList.flatMap fun (nickname, topic) => nickname :: topic.segments

/-- The texts of a note, whichever form it is written in. -/
def Note.strings (note : Note) : List String :=
  note.position.file :: note.topic.segments ++ note.title.toList ++ note.body.toList
    ++ note.nickname.toList ++ note.symbol.toList ++ note.mentions.flatMap Topic.segments

def Malformed.strings (m : Malformed) : List String :=
  [m.position.file, m.reason]

def Sheet.strings (sheet : Sheet) : List String :=
  sheet.path :: sheet.notes.flatMap Note.strings ++ sheet.malformed.flatMap Malformed.strings
    ++ sheet.unclosed.toList.map fun e => e.position.file

def Occurrence.strings (o : Occurrence) : List String :=
  o.position.file :: o.symbol.toList

def LinkFormat.strings (format : LinkFormat) : List String :=
  [format.root, format.template]

/-! ## Texts put together from others -/

theorem Position.unescaped_text {position : Position} (h : Unescaped position.file) :
    Unescaped position.text := by
  have hcolon : Unescaped ":" := by decide
  simp only [text, Nat.toString_eq_repr, unescaped_append, unescaped_repr, and_true]
  exact ⟨⟨h, hcolon⟩, hcolon⟩

theorem Unclosed.unescaped_message {e : Unclosed} (h : Unescaped e.position.file) :
    Unescaped e.message := by
  have hwords : Unescaped "unterminated block comment starting at " := by decide +kernel
  unfold message
  rw [unescaped_append]
  exact ⟨hwords, Position.unescaped_text h⟩

theorem Topic.unescaped_text {topic : Topic} (h : ∀ s ∈ topic.segments, Unescaped s) :
    Unescaped topic.text := by
  rw [text, unescaped_ofList]
  intro hmem
  rcases Text.mem_of_mem_joined hmem with heq | ⟨piece, hpiece, hmem⟩
  · exact absurd heq (by decide)
  · obtain ⟨s, hs, rfl⟩ := List.mem_map.1 hpiece
    exact h s hs hmem

theorem Topic.unescaped_name {topic : Topic} (h : ∀ s ∈ topic.segments, Unescaped s) :
    Unescaped topic.name :=
  h _ (List.getLast_mem topic.nonempty)

theorem SourcePath.unescaped_component {path : String} (h : Unescaped path) {step : Component}
    (hstep : step ∈ components path) : Unescaped step.text := by
  cases step with
  | root => decide
  | here => decide
  | up => decide
  | named name =>
    -- only a piece of the path is named
    rw [components, List.mem_append] at hstep
    rcases hstep with hstart | hpieces
    · exfalso
      split at hstart
      · exact absurd hstart (by simp)
      split at hstart
      · exact absurd hstart (by simp)
      · exact absurd hstart (by simp)
    · obtain ⟨piece, hpiece, hname⟩ := List.mem_filterMap.1 hpieces
      obtain ⟨chars, hchars, rfl⟩ := List.mem_map.1 hpiece
      have hsame : String.ofList chars = name := by
        unfold step? at hname
        grind
      rw [Component.text, ← hsame, unescaped_ofList]
      intro hmem
      refine h ?_
      rw [← Text.joined_pieces '/' path.toList]
      exact Text.mem_joined_of_mem hchars hmem

theorem SourcePath.unescaped_slashed {path : String} (h : Unescaped path) :
    Unescaped (slashed path) := by
  refine unescaped_intercalate (by decide) fun part hpart => ?_
  obtain ⟨step, hstep, rfl⟩ := List.mem_map.1 hpart
  exact unescaped_component h (List.mem_of_mem_filter hstep)

/-- An address is made of the texts of its format and the path of the file. -/
theorem LinkFormat.unescaped_url {format : LinkFormat} (h : ∀ s ∈ format.strings, Unescaped s)
    {position : Position} (hfile : Unescaped position.file) : Unescaped (format.url position) := by
  obtain ⟨hroot, htemplate⟩ : Unescaped format.root ∧ Unescaped format.template := by
    simpa [strings] using h
  have hvalues : ∀ place ∈ format.substitutions position, Unescaped place.2 := by
    simp [substitutions, hroot, SourcePath.unescaped_slashed hfile]
  rw [url, unescaped_ofList]
  -- each replacement in turn puts in one of these values
  refine List.foldlRecOn (motive := fun text => escape ∉ text) _ _ htemplate ?_
  intro text htext place hplace hmem
  rcases Text.mem_of_mem_replaceAll hmem with hmem | hmem
  · exact hvalues place hplace hmem
  · exact htext hmem

/-! ## Listings -/

namespace Listing

theorem unescaped_finding {f : Finding} (h : ∀ s ∈ f.strings, Unescaped s) :
    (finding f).Unescaped := by
  have hcode : Unescaped f.code := h _ (by simp [Finding.strings])
  have hmessage : Unescaped f.message := h _ (by simp [Finding.strings])
  have hlocation : ∀ position, f.location = some position → Unescaped position.text := by
    intro position hposition
    exact Position.unescaped_text (h _ (by simp [Finding.strings, hposition]))
  have hsuggestion : ∀ hint, f.suggestion = some hint → Unescaped hint := by
    intro hint hhint
    exact h _ (by simp [Finding.strings, hhint])
  have hseverity : (severity f.severity).Unescaped := by
    cases f.severity <;> simp +decide [severity]
  simp only [finding]
  split <;> split <;> simp_all +decide

/-- A summary shows nothing but numbers. -/
theorem unescaped_summary (r : Report) : (summary r).Unescaped := by
  simp only [summary]
  split
  · simp +decide
  split
  · simp +decide
  · simp +decide

theorem unescaped_report {r : Report} (h : ∀ s ∈ r.strings, Unescaped s) :
    (report r).Unescaped := by
  rw [report, Styled.unescaped_append, Styled.unescaped_flatMap]
  refine ⟨fun f hf => unescaped_finding fun s hs => h s ?_, unescaped_summary r⟩
  exact List.mem_flatMap.2 ⟨f, hf, hs⟩

theorem unescaped_label {e : Entry} (h : ∀ s ∈ e.strings, Unescaped s) : (label e).Unescaped := by
  have hname : Unescaped e.topic.name :=
    Topic.unescaped_name fun s hs => h s (by simp [Entry.strings, hs])
  simp only [label]
  split
  · simp +decide [hname]
  split
  · simpa using hname
  · simpa using hname

theorem unescaped_counts (e : Entry) : Unescaped (counts e) := by
  refine unescaped_intercalate (by decide) fun part hpart => ?_
  obtain ⟨⟨count, what⟩, hmem, rfl⟩ := List.mem_map.1 hpart
  have hwhat : Unescaped what := by
    have hall := List.mem_of_mem_filter hmem
    simp only [List.mem_cons, Prod.mk.injEq, List.not_mem_nil, or_false] at hall
    rcases hall with ⟨-, rfl⟩ | ⟨-, rfl⟩ | ⟨-, rfl⟩ | ⟨-, rfl⟩ <;> decide
  simp +decide [hwhat]

theorem unescaped_entry {e : Entry} (h : ∀ s ∈ e.strings, Unescaped s) : (entry e).Unescaped := by
  have hindent : Unescaped (String.ofList (List.replicate (2 * e.topic.depth) ' ')) :=
    unescaped_ofList.2 (escape_notMem_blanks _)
  have hfield : ∀ (field : Content → Option String) (text : String),
      (∀ content, field content = some text → text ∈ content.strings) →
      e.content.bind field = some text → Unescaped text := by
    intro field text hmem hbind
    obtain ⟨content, hcontent, htext⟩ := Option.bind_eq_some_iff.1 hbind
    exact h text (by simp [Entry.strings, hcontent, hmem content htext])
  simp only [entry, Styled.unescaped_append, Styled.unescaped_plain]
  -- indentation, label, nickname, title, counts, end of line, body
  refine ⟨⟨⟨⟨⟨⟨hindent, unescaped_label h⟩, ?_⟩, ?_⟩, ?_⟩, by decide⟩, ?_⟩
  · split
    · rename_i nickname hnickname
      have hshown := hfield _ nickname (by simp +contextual [Content.strings]) hnickname
      simp +decide [hshown]
    · simp
  · split
    · rename_i title htitle
      have hshown := hfield _ title (by simp +contextual [Content.strings]) htitle
      simp +decide [hshown]
    · simp
  · split
    · simp
    · simp +decide [unescaped_counts e]
  · split
    · rename_i body hbody
      have hshown := hfield _ body (by simp +contextual [Content.strings]) hbody
      rw [Styled.unescaped_flatMap]
      intro line hline
      have hchars : escape ∉ line := fun hmem => hshown (Text.mem_of_mem_lines hline hmem)
      simp +decide [hindent, unescaped_ofList, hchars]
    · simp

theorem unescaped_outline {o : Outline} (h : ∀ s ∈ o.strings, Unescaped s) :
    (outline o).Unescaped := by
  rw [outline, Styled.unescaped_append, Styled.unescaped_flatMap]
  refine ⟨fun e he => unescaped_entry fun s hs => h s ?_, ?_⟩
  · obtain ⟨⟨topic, e⟩, hmem, rfl⟩ := List.mem_map.1 he
    rw [Outline.strings, List.mem_append, List.mem_append]
    exact .inl (.inl (List.mem_flatMap.2 ⟨_, hmem, List.mem_append_right _ hs⟩))
  · split
    · simp +decide
    · simp

theorem unescaped_detail {name : String} {value : Option String} (hname : Unescaped name)
    (hvalue : ∀ v, value = some v → Unescaped v) : (detail name value).Unescaped := by
  cases value with
  | none => simp [detail]
  | some v => simp +decide [detail, hname, hvalue v rfl]

theorem unescaped_note {n : Note} (h : ∀ s ∈ n.strings, Unescaped s) : (note n).Unescaped := by
  have hkind : Unescaped n.kind.text := by cases n.kind <;> decide
  have htopic : Unescaped n.topic.text :=
    Topic.unescaped_text fun s hs => h s (by simp [Note.strings, hs])
  have hbody : ∀ v, (n.body.map fun b => s!"{(Text.lines b.toList).length} lines") = some v →
      Unescaped v := by
    intro v hv
    obtain ⟨body, -, rfl⟩ := Option.map_eq_some_iff.1 hv
    simp +decide
  have hmentions : Unescaped (", ".intercalate (n.mentions.map Topic.text)) := by
    refine unescaped_intercalate (by decide) fun part hpart => ?_
    obtain ⟨topic, hmem, rfl⟩ := List.mem_map.1 hpart
    refine Topic.unescaped_text fun s hs => h s ?_
    exact List.mem_append_right _ (List.mem_flatMap.2 ⟨topic, hmem, hs⟩)
  simp only [note, Styled.unescaped_append]
  -- the line of the note, then symbol, title, nickname, whether it is collected, body, mentions
  refine ⟨⟨⟨⟨⟨⟨?_, ?_⟩, ?_⟩, ?_⟩, ?_⟩, ?_⟩, ?_⟩
  · simp +decide [hkind, htopic]
  · exact unescaped_detail (by decide) fun v hv => h v (by simp [Note.strings, hv])
  · exact unescaped_detail (by decide) fun v hv => h v (by simp [Note.strings, hv])
  · exact unescaped_detail (by decide) fun v hv => h v (by simp [Note.strings, hv])
  · split
    · simp
    · simp +decide
  · exact unescaped_detail (by decide) hbody
  · refine unescaped_detail (by decide) fun v hv => ?_
    split at hv
    · exact absurd hv (by simp)
    · exact Option.some.inj hv ▸ hmentions

theorem unescaped_malformed {m : Malformed} (h : ∀ s ∈ m.strings, Unescaped s) :
    (malformed m).Unescaped := by
  have hreason : Unescaped m.reason := h _ (by simp [Malformed.strings])
  simp +decide [malformed, hreason]

theorem unescaped_sheet {s : Sheet} (h : ∀ t ∈ s.strings, Unescaped t) : (sheet s).Unescaped := by
  have hpath : Unescaped s.path := h _ (by simp [Sheet.strings])
  simp only [sheet, Styled.unescaped_append, Styled.unescaped_plain, Styled.unescaped_bold]
  refine ⟨⟨hpath, by decide⟩, ?_⟩
  split
  · rename_i e he
    have hmessage : Unescaped e.message :=
      Unclosed.unescaped_message (h _ (by simp [Sheet.strings, he]))
    simp +decide [hmessage]
  · simp only [Styled.unescaped_append, Styled.unescaped_flatMap]
    refine ⟨⟨by simp +decide, fun n hn => ?_⟩, fun m hm => ?_⟩
    · refine unescaped_note fun t ht => h t ?_
      exact List.mem_append_left _ (List.mem_append_left _
        (List.mem_cons_of_mem _ (List.mem_flatMap.2 ⟨n, hn, ht⟩)))
    · refine unescaped_malformed fun t ht => h t ?_
      exact List.mem_append_left _ (List.mem_append_right _ (List.mem_flatMap.2 ⟨m, hm, ht⟩))

theorem unescaped_occurrence {o : Occurrence} {links : Option LinkFormat}
    (h : ∀ s ∈ o.strings, Unescaped s)
    (hlinks : ∀ format, links = some format → ∀ s ∈ format.strings, Unescaped s) :
    (occurrence links o).Unescaped := by
  have hfile : Unescaped o.position.file := h _ (by simp [Occurrence.strings])
  have hposition : Unescaped o.position.text := Position.unescaped_text hfile
  have hsymbol : ∀ symbol, o.symbol = some symbol → Unescaped symbol := by
    intro symbol hsymbol
    exact h _ (by simp [Occurrence.strings, hsymbol])
  have hurl : ∀ format, links = some format → Unescaped (format.url o.position) := by
    intro format hformat
    exact LinkFormat.unescaped_url (hlinks format hformat) hfile
  have hkind : Unescaped o.kind.text := by cases o.kind <;> decide
  simp only [occurrence]
  split <;> split <;> simp_all +decide

theorem unescaped_occurrences {topic : Topic} {all : List Occurrence} {links : Option LinkFormat}
    (htopic : ∀ s ∈ topic.segments, Unescaped s)
    (hall : ∀ o ∈ all, ∀ s ∈ o.strings, Unescaped s)
    (hlinks : ∀ format, links = some format → ∀ s ∈ format.strings, Unescaped s) :
    (occurrences topic all links).Unescaped := by
  rw [occurrences]
  simp only [Styled.unescaped_append, Styled.unescaped_flatMap, Styled.unescaped_bold]
  refine ⟨⟨⟨Topic.unescaped_text htopic, by simp +decide⟩, ?_⟩, ?_⟩
  · intro o ho
    exact unescaped_occurrence (hall o ho) hlinks
  · split
    · simp +decide
    · simp

end Listing

/-! ## Results as they are printed -/

/-- **Colour never changes the words.** Of every result without escapes in its texts, the listing
in colour with its style sequences deleted is the listing without colours. -/
theorem colours_keep_words :
    (∀ r : Report, (∀ s ∈ r.strings, Unescaped s) →
      unstyled (OutputFormat.text.report true r).toList
        = (OutputFormat.text.report false r).toList) ∧
    (∀ o : Outline, (∀ s ∈ o.strings, Unescaped s) →
      unstyled (OutputFormat.text.outline true o).toList
        = (OutputFormat.text.outline false o).toList) ∧
    (∀ sheet : Sheet, (∀ s ∈ sheet.strings, Unescaped s) →
      unstyled (OutputFormat.text.sheet true sheet).toList
        = (OutputFormat.text.sheet false sheet).toList) ∧
    (∀ (topic : Topic) (all : List Occurrence) (links : Option LinkFormat),
      (∀ s ∈ topic.segments, Unescaped s) → (∀ o ∈ all, ∀ s ∈ o.strings, Unescaped s) →
      (∀ format, links = some format → ∀ s ∈ format.strings, Unescaped s) →
      unstyled (OutputFormat.text.occurrences true topic all links).toList
        = (OutputFormat.text.occurrences false topic all links).toList) := by
  refine ⟨fun r h => ?_, fun o h => ?_, fun sheet h => ?_, fun topic all links ht ho hl => ?_⟩
  · exact Styled.unstyled_render (Listing.unescaped_report h)
  · exact Styled.unstyled_render (Listing.unescaped_outline h)
  · exact Styled.unstyled_render (Listing.unescaped_sheet h)
  · exact Styled.unstyled_render (Listing.unescaped_occurrences ht ho hl)

section Shown

/-- A declaration at the top of a file. -/
def shownNote : Note :=
  ⟨.single "Domain", ⟨"domain.go", 3, 1⟩, .declaration (some "Collects") (some "Collector") []⟩

def shownOutline : Outline :=
  (Outline.build [shownNote]).1

def shownSheet : Sheet :=
  { path := "domain.go", notes := [shownNote], malformed := [⟨⟨"domain.go", 9, 1⟩, "empty path"⟩] }

def shownReport : Report :=
  ({ filesChecked := 1, annotations := 1 } : Report).extend
    (shownSheet.malformed.map Finding.ofMalformed)

def shownOccurrences : List Occurrence :=
  [⟨.declaration, ⟨"domain.go", 3, 1⟩, some "Collector"⟩]

def shownLinks : LinkFormat :=
  .of "https://example.org" none

theorem colours_keep_words_shown :
    unstyled (OutputFormat.text.report true shownReport).toList
      = (OutputFormat.text.report false shownReport).toList ∧
    unstyled (OutputFormat.text.outline true shownOutline).toList
      = (OutputFormat.text.outline false shownOutline).toList ∧
    unstyled (OutputFormat.text.sheet true shownSheet).toList
      = (OutputFormat.text.sheet false shownSheet).toList ∧
    unstyled (OutputFormat.text.occurrences true (.single "Domain") shownOccurrences
        (some shownLinks)).toList
      = (OutputFormat.text.occurrences false (.single "Domain") shownOccurrences
        (some shownLinks)).toList := by
  obtain ⟨hreport, houtline, hsheet, hoccurrences⟩ := colours_keep_words
  have hlinks : ∀ s ∈ shownLinks.strings, Unescaped s := by decide +kernel
  refine ⟨hreport _ (by decide +kernel), houtline _ (by decide +kernel),
    hsheet _ (by decide +kernel), hoccurrences _ _ _ (by decide +kernel) (by decide +kernel) ?_⟩
  intro format hformat
  exact Option.some.inj hformat ▸ hlinks

end Shown

end Marginalia
