/-
What blank ends of texts change in an outline.

Contents are compared in their normal form, so it should make no difference
whether the notes are brought into it before they are merged. It makes none to
the order of the notes, to the links, to blocks and to what is asked for as a
nickname. It makes one in a single place: the declaration that the others are
held against is **the first that has a title, blank or not**. A blank title
that comes before all others is that title, and then every declaration with a
title that can be read is taken for a disagreement with it. In the normal form
the same declaration has no title and only marks code.

`build_normalized_iff` says that this is the only place: the outline and the
issues stay the same exactly if at no topic a blank title comes first.
-/
import Marginalia.Proofs.Outline.Binding

set_option autoImplicit false

namespace Marginalia

/-! ## Notes in normal form -/

/-- A text that can be read is a text. -/
theorem Content.isSome_of_isSome_normal {text : Option String} (h : (normal text).isSome) :
    text.isSome := by
  obtain ⟨t, rfl, -⟩ := isSome_normal_iff.1 h
  rfl

namespace Note

/-- The note with its title, body and nickname in normal form. -/
def normalized (n : Note) : Note where
  topic := n.topic
  position := n.position
  form :=
    match n.form with
    | .declaration title symbol mentions => .declaration (Content.normal title) symbol mentions
    | .block prose => .block
        { prose with
          body := Content.normal prose.body
          nickname := Content.normal prose.nickname
          title := Content.normal prose.title }
    | .reference => .reference

variable (n : Note)

@[simp]
theorem topic_normalized : n.normalized.topic = n.topic := rfl

@[simp]
theorem position_normalized : n.normalized.position = n.position := rfl

@[simp]
theorem kind_normalized : n.normalized.kind = n.kind := by
  cases hform : n.form <;> simp [kind, normalized, hform]

@[simp]
theorem symbol_normalized : n.normalized.symbol = n.symbol := by
  cases hform : n.form <;> simp [symbol, normalized, hform]

@[simp]
theorem mentions_normalized : n.normalized.mentions = n.mentions := by
  cases hform : n.form <;> simp [mentions, normalized, hform]

@[simp]
theorem isCollected_normalized : n.normalized.isCollected = n.isCollected := by
  cases hform : n.form <;> simp [isCollected, normalized, hform]

@[simp]
theorem title_normalized : n.normalized.title = Content.normal n.title := by
  cases hform : n.form <;> simp [title, normalized, hform, Content.normal]

@[simp]
theorem nickname_normalized : n.normalized.nickname = Content.normal n.nickname := by
  cases hform : n.form <;> simp [nickname, normalized, hform, Content.normal]

/-- The content of a note is in normal form already. -/
@[simp]
theorem content_normalized : n.normalized.content = n.content := by
  cases hform : n.form <;> simp [content, normalized, hform, Content.of]

/-- The order does not look behind the normal form. -/
theorem order_normalized (a b : Note) : order a.normalized b.normalized = order a b := by
  simp only [order, compareLex, compareOn, topic_normalized, position_normalized, kind_normalized,
    content_normalized]

end Note

/-! ## Merging -/

namespace Merge

variable {group : List Note}

/-- The first declaration with a title that is not blank. -/
def spokenDeclaration (group : List Note) : Option Note :=
  group.find? fun n => n.kind = .declaration && (Content.normal n.title).isSome

/-- A blank title comes before all that can be read, and there is one that can. -/
def Shadowed (group : List Note) : Prop :=
  ∃ c s, titledDeclaration group = some c ∧ Content.normal c.title = none ∧
    spokenDeclaration group = some s

theorem contentOf_normalized (n : Note) : contentOf n.normalized = contentOf n := by
  rw [contentOf, contentOf, Note.content_normalized]

theorem siteOf_normalized (n : Note) : siteOf n.normalized = siteOf n := by
  rw [siteOf, siteOf, Note.position_normalized, Note.symbol_normalized]

theorem disagreement_normalized (c n : Note) :
    disagreement c.normalized n.normalized = disagreement c n := by
  simp only [disagreement, contentOf_normalized, Note.topic_normalized, Note.kind_normalized,
    Note.position_normalized]

theorem written_normalized (n : Note) : written n.normalized = written n := by
  rw [written, written, Note.nickname_normalized, Content.normal_normal, Note.position_normalized]

/-- What is looked for without the texts is found at the same place. -/
private theorem find?_normalized {p q : Note → Bool} (h : ∀ n, p n.normalized = q n) :
    (group.map Note.normalized).find? p = (group.find? q).map Note.normalized := by
  rw [List.find?_map]
  exact congrArg (fun r => (group.find? r).map Note.normalized) (funext h)

private theorem filter_normalized {p : Note → Bool} (h : ∀ n, p n.normalized = p n) :
    (group.map Note.normalized).filter p = (group.filter p).map Note.normalized := by
  rw [List.filter_map]
  exact congrArg (fun r => (group.filter r).map Note.normalized) (funext h)

/-- **In normal form a blank title is none**, so the first title is one that can be read. -/
theorem titledDeclaration_normalized (group : List Note) :
    titledDeclaration (group.map Note.normalized)
      = (spokenDeclaration group).map Note.normalized := by
  refine find?_normalized fun n => ?_
  rw [Note.kind_normalized, Note.title_normalized]

theorem collectedBlock_normalized (group : List Note) :
    collectedBlock (group.map Note.normalized) = (collectedBlock group).map Note.normalized := by
  refine find?_normalized fun n => ?_
  rw [Note.kind_normalized, Note.isCollected_normalized]

theorem lentBlocks_normalized (group : List Note) :
    lentBlocks (group.map Note.normalized) = (lentBlocks group).map Note.normalized := by
  refine filter_normalized fun n => ?_
  rw [Note.kind_normalized, Note.isCollected_normalized]

/-- Notes are split into the same sites and disagreements if the same note is canonical. -/
theorem split_normalized (canonical : Option Note) {diverges : Note → Note → Bool}
    (h : ∀ c n, diverges c.normalized n.normalized = diverges c n) (notes : List Note) :
    split (canonical.map Note.normalized) diverges (notes.map Note.normalized)
      = split canonical diverges notes := by
  have hsite : siteOf ∘ Note.normalized = siteOf := funext siteOf_normalized
  cases canonical with
  | none => rw [Option.map_none, split, split, List.map_map, hsite]
  | some c =>
    have hdiverges : diverges c.normalized ∘ Note.normalized = diverges c := funext (h c)
    have hagrees : (fun n => !diverges c.normalized n) ∘ Note.normalized
        = fun n => !diverges c n := by
      funext n
      rw [Function.comp_apply, h]
    have hdisagreement : disagreement c.normalized ∘ Note.normalized = disagreement c :=
      funext (disagreement_normalized c)
    rw [Option.map_some, split, split, List.filter_map, List.filter_map, List.map_map, List.map_map,
      hsite, hdiverges, hagrees, hdisagreement]

/-- The declarations in normal form are held against the first title that can be read. -/
theorem splitDeclarations_normalized (group : List Note) :
    splitDeclarations (group.map Note.normalized)
      = split (spokenDeclaration group) declarationDiverges
          (group.filter fun n => n.kind = .declaration) := by
  have hdiverges : ∀ c n : Note,
      declarationDiverges c.normalized n.normalized = declarationDiverges c n := by
    intro c n
    rw [declarationDiverges, declarationDiverges, contentOf_normalized, contentOf_normalized]
  rw [splitDeclarations, titledDeclaration_normalized,
    filter_normalized fun n => by rw [Note.kind_normalized], split_normalized _ hdiverges]

theorem splitBlocks_normalized (group : List Note) :
    splitBlocks (group.map Note.normalized) = splitBlocks group := by
  have hdiverges : ∀ c n : Note, blockDiverges c.normalized n.normalized = blockDiverges c n := by
    intro c n
    rw [blockDiverges, blockDiverges, contentOf_normalized, contentOf_normalized]
  have hfilter : ∀ n : Note, (decide (n.normalized.kind = .block) && n.normalized.isCollected)
      = (decide (n.kind = .block) && n.isCollected) := by
    intro n
    rw [Note.kind_normalized, Note.isCollected_normalized]
  rw [splitBlocks, splitBlocks, collectedBlock_normalized, filter_normalized hfilter,
    split_normalized _ hdiverges]

private theorem bind_normalized {β : Type} {f : Note → Option β} (h : ∀ n, f n.normalized = f n)
    (found : Option Note) : (found.map Note.normalized).bind f = found.bind f := by
  cases found with
  | none => rfl
  | some n => exact h n

private theorem findSome?_normalized {β : Type} {f : Note → Option β}
    (h : ∀ n, f n.normalized = f n) (notes : List Note) :
    (notes.map Note.normalized).findSome? f = notes.findSome? f := by
  rw [List.findSome?_map]
  exact congrArg (notes.findSome? ·) (funext h)

theorem request_normalized (group : List Note) :
    request (group.map Note.normalized) = request group := by
  rw [request, request, collectedBlock_normalized, lentBlocks_normalized,
    bind_normalized written_normalized, findSome?_normalized written_normalized]

/-! ## Titles -/

theorem of_spokenDeclaration {s : Note} (h : spokenDeclaration group = some s) :
    s ∈ group ∧ s.kind = .declaration ∧ (Content.normal s.title).isSome := by
  have hkind := List.find?_some h
  rw [Bool.and_eq_true, decide_eq_true_eq] at hkind
  exact ⟨List.mem_of_find?_eq_some h, hkind⟩

/-- If the first title can be read, it is the first that can be read. -/
theorem spokenDeclaration_of_titled {c : Note} (h : titledDeclaration group = some c)
    (htitle : (Content.normal c.title).isSome) : spokenDeclaration group = some c := by
  rw [titledDeclaration, List.find?_eq_some_iff_append] at h
  obtain ⟨hc, before, after, rfl, hbefore⟩ := h
  rw [Bool.and_eq_true] at hc
  rw [spokenDeclaration, List.find?_eq_some_iff_append]
  refine ⟨by rw [hc.1, htitle]; rfl, before, after, rfl, fun n hn => ?_⟩
  have huntitled := hbefore n hn
  rw [Bool.not_eq_true', Bool.and_eq_false_imp] at huntitled ⊢
  intro hkind
  rw [← Bool.not_eq_true]
  intro hspoken
  rw [Content.isSome_of_isSome_normal hspoken] at huntitled
  exact absurd (huntitled hkind) (by simp)

/-- Unless a blank title comes first, the first title is the first that can be read, or there is
none that can. -/
theorem spokenDeclaration_of_not_shadowed (h : ¬ Shadowed group) :
    spokenDeclaration group = titledDeclaration group ∨ spokenDeclaration group = none := by
  cases hspoken : spokenDeclaration group with
  | none => exact .inr rfl
  | some s =>
    left
    obtain ⟨hs, hkind, htitle⟩ := of_spokenDeclaration hspoken
    cases htitled : titledDeclaration group with
    | none =>
      have huntitled := List.find?_eq_none.1 htitled s hs
      rw [Content.isSome_of_isSome_normal htitle, hkind] at huntitled
      exact absurd rfl huntitled
    | some c =>
      rw [← hspoken]
      refine spokenDeclaration_of_titled htitled ?_
      by_contra hblank
      exact h ⟨c, s, htitled, Option.not_isSome_iff_eq_none.1 hblank, hspoken⟩

/-- A declaration whose title cannot be read does not diverge. -/
theorem declarationDiverges_eq_false {n : Note} (c : Note) (h : Content.normal n.title = none) :
    declarationDiverges c n = false := by
  rw [declarationDiverges, title_contentOf, h]
  rfl

/-- Where nothing diverges, it does not matter what the notes are held against. -/
theorem split_eq_split_none {c : Note} {diverges : Note → Note → Bool} {notes : List Note}
    (h : ∀ n ∈ notes, diverges c n = false) :
    split (some c) diverges notes = split none diverges notes := by
  have hsites : notes.filter (fun n => !diverges c n) = notes := by
    refine List.filter_eq_self.2 fun n hn => ?_
    rw [h n hn]
    rfl
  have hdisagreements : notes.filter (diverges c) = [] := by
    refine List.filter_eq_nil_iff.2 fun n hn => ?_
    rw [h n hn]
    exact Bool.false_ne_true
  rw [split, split, hsites, hdisagreements]
  rfl

/-- Without a title that can be read, no declaration diverges. -/
theorem splitDeclarations_of_silent (h : spokenDeclaration group = none) :
    splitDeclarations group
      = split none declarationDiverges (group.filter fun n => n.kind = .declaration) := by
  rw [splitDeclarations]
  cases titledDeclaration group with
  | none => rfl
  | some c =>
    refine split_eq_split_none fun n hn => ?_
    rw [List.mem_filter] at hn
    have hsilent := List.find?_eq_none.1 h n hn.1
    rw [hn.2, Bool.true_and, Option.not_isSome_iff_eq_none] at hsilent
    exact declarationDiverges_eq_false c hsilent

theorem splitDeclarations_normalized_of_not_shadowed (h : ¬ Shadowed group) :
    splitDeclarations (group.map Note.normalized) = splitDeclarations group := by
  rw [splitDeclarations_normalized]
  rcases spokenDeclaration_of_not_shadowed h with hsame | hsilent
  · rw [hsame, splitDeclarations]
  · rw [hsilent, splitDeclarations_of_silent hsilent]

theorem heading_normalized (h : ¬ Shadowed group) :
    heading (group.map Note.normalized) = heading group := by
  have htitle : ∀ n : Note, Content.normal n.normalized.title = Content.normal n.title := by
    intro n
    rw [Note.title_normalized, Content.normal_normal]
  have hdeclared : ((spokenDeclaration group).bind fun n => Content.normal n.title)
      = (titledDeclaration group).bind fun n => Content.normal n.title := by
    rcases spokenDeclaration_of_not_shadowed h with hsame | hsilent
    · rw [hsame]
    · rw [hsilent]
      cases htitled : titledDeclaration group with
      | none => rfl
      | some c =>
        -- a title that can be read would be the first that can
        rw [Option.bind_some, Option.bind_none, eq_comm, ← Option.not_isSome_iff_eq_none]
        intro hspoken
        rw [spokenDeclaration_of_titled htitled hspoken] at hsilent
        exact absurd hsilent (by simp)
  rw [heading, heading, titledDeclaration_normalized, collectedBlock_normalized,
    lentBlocks_normalized, bind_normalized htitle, bind_normalized htitle,
    findSome?_normalized htitle, hdeclared]

/-- **A merge looks behind the normal form only for the first title.** -/
theorem merge_normalized (h : ¬ Shadowed group) :
    merge (group.map Note.normalized) = merge group := by
  have hdeclarations := splitDeclarations_normalized_of_not_shadowed h
  have hdeclarationSites : (merge (group.map Note.normalized)).declarationSites
      = (merge group).declarationSites := by
    rw [declarationSites_merge, declarationSites_merge, hdeclarations]
  have hblockSites : (merge (group.map Note.normalized)).blockSites = (merge group).blockSites := by
    rw [blockSites_merge, blockSites_merge, splitBlocks_normalized]
  refine Result.ext ?_ hdeclarationSites hblockSites ?_ ?_ ?_
  · have hbody : ∀ n : Note, (contentOf n.normalized).body = (contentOf n).body := by
      intro n
      rw [contentOf_normalized]
    rw [content_merge, content_merge, hdeclarationSites, hblockSites, heading_normalized h,
      request_normalized, collectedBlock_normalized, bind_normalized hbody]
  · change ((group.map Note.normalized).filter fun n => n.kind = .reference).map Note.position
      = (group.filter fun n => n.kind = .reference).map Note.position
    rw [filter_normalized fun n => by rw [Note.kind_normalized], List.map_map]
    rfl
  · rw [disagreements_merge, disagreements_merge, hdeclarations, splitBlocks_normalized]
  · rw [claim_merge, claim_merge, request_normalized]

/-- Fewer notes agree with one note than with another, if all that agree with the one agree with
the other, and the other does not agree with the one. -/
private theorem length_split_lt {c s : Note} {diverges : Note → Note → Bool} {notes : List Note}
    (hs : s ∈ notes) (hself : diverges s s = false) (hdiverges : diverges c s = true)
    (h : ∀ n ∈ notes, diverges c n = false → diverges s n = false) :
    (split (some c) diverges notes).1.length < (split (some s) diverges notes).1.length := by
  have hfewer : notes.filter (fun n => !diverges c n)
      = (notes.filter fun n => !diverges s n).filter fun n => !diverges c n := by
    rw [List.filter_filter]
    refine List.filter_congr fun n hn => ?_
    cases hn' : diverges c n with
    | true => rfl
    | false =>
      rw [h n hn hn']
      rfl
  rw [split, split, List.length_map, List.length_map, hfewer,
    List.length_filter_lt_length_iff_exists]
  refine ⟨s, List.mem_filter.2 ⟨hs, ?_⟩, ?_⟩
  · rw [hself]
    rfl
  · rw [hdiverges]
    exact Bool.false_ne_true

/-- **A blank title that comes first costs sites.** Held against it, a declaration with a title
that can be read leaves none; held against the first title that can be read, that one does. -/
theorem length_declarationSites_lt (h : Shadowed group) :
    (merge group).declarationSites.length
      < (merge (group.map Note.normalized)).declarationSites.length := by
  obtain ⟨c, s, hc, hblank, hs⟩ := h
  obtain ⟨hmem, hkind, htitle⟩ := of_spokenDeclaration hs
  have hckind := (of_titledDeclaration hc).2
  -- against the blank title, what diverges is every title that can be read
  have hdiverges : ∀ n : Note, n.kind = .declaration →
      declarationDiverges c n = (Content.normal n.title).isSome := by
    intro n hn
    rw [declarationDiverges, content_declaration hn, content_declaration hckind, hblank]
    cases Content.normal n.title <;> simp
  rw [declarationSites_merge, declarationSites_merge, splitDeclarations_normalized,
    splitDeclarations, hc, hs]
  refine length_split_lt (List.mem_filter.2 ⟨hmem, by simpa using hkind⟩) ?_ ?_ fun n hn hnone => ?_
  · simp [declarationDiverges]
  · rw [hdiverges s hkind, htitle]
  · rw [List.mem_filter, decide_eq_true_eq] at hn
    rw [hdiverges n hn.2, ← Bool.not_eq_true, Option.not_isSome_iff_eq_none] at hnone
    exact declarationDiverges_eq_false s hnone

end Merge

/-! ## The notes of a run -/

namespace Note

/-- A declaration whose title says something. -/
def HasTitle (n : Note) : Prop :=
  n.kind = .declaration ∧ ∃ title, n.title = some title ∧ ¬ Text.allBlank title.toList

/-- A declaration whose title is blank; the empty title is blank too. -/
def HasBlankTitle (n : Note) : Prop :=
  n.kind = .declaration ∧ ∃ title, n.title = some title ∧ Text.allBlank title.toList

variable {n : Note}

theorem hasTitle_iff :
    n.HasTitle ↔ n.kind = .declaration ∧ (Content.normal n.title).isSome := by
  refine and_congr_right fun _ => ?_
  cases n.title with
  | none => simp [Content.normal]
  | some t =>
    rw [Option.isSome_iff_ne_none, ne_eq, Content.normal_some_eq_none_iff]
    simp

theorem hasBlankTitle_iff : n.HasBlankTitle ↔
    n.kind = .declaration ∧ n.title.isSome ∧ Content.normal n.title = none := by
  refine and_congr_right fun _ => ?_
  cases n.title with
  | none => simp
  | some t =>
    rw [Content.normal_some_eq_none_iff]
    simp

/-- At one place, a blank title comes before one that says something. -/
theorem order_of_blank {d n : Note} (hd : d.HasBlankTitle) (hn : n.HasTitle)
    (htopic : d.topic = n.topic) (hposition : (compare d.position n.position).isLE) :
    Note.order d n = .lt := by
  obtain ⟨hdkind, -, hblank⟩ := hasBlankTitle_iff.1 hd
  obtain ⟨hnkind, htitle⟩ := hasTitle_iff.1 hn
  obtain ⟨title, htitle⟩ := Option.isSome_iff_exists.1 htitle
  have hcontent : compare d.content n.content = .lt := by
    rw [Merge.content_of_ne_reference (by simp [hdkind]),
      Merge.content_of_ne_reference (by simp [hnkind]), Merge.content_declaration hdkind,
      Merge.content_declaration hnkind, hblank, htitle]
    rfl
  have horder : Note.order d n = (compare d.topic n.topic).then
      ((compare d.position n.position).then
        ((compare d.kind n.kind).then (compare d.content n.content))) := rfl
  rw [horder, htopic, hdkind, hnkind, hcontent, Std.ReflOrd.compare_self, Std.ReflOrd.compare_self]
  cases hcompare : compare d.position n.position with
  | lt => rfl
  | eq => rfl
  | gt => simp [hcompare] at hposition

end Note

namespace Outline

variable {notes : List Note} {t : Topic}

/-- A blank title comes first at a topic: it stands at or before the place of every title that
says something, and there is one. -/
def BlankFirst (notes : List Note) (t : Topic) : Prop :=
  ∃ d ∈ notes, d.topic = t ∧ d.HasBlankTitle ∧
    (∃ n ∈ notes, n.topic = t ∧ n.HasTitle) ∧
    ∀ n ∈ notes, n.topic = t → n.HasTitle → (compare d.position n.position).isLE

/-- What is found first is followed by all else that is looked for. -/
private theorem rel_of_find? {α : Type} {R : α → α → Prop} {l : List α} {p : α → Bool} {a b : α}
    (hl : l.Pairwise R) (ha : l.find? p = some a) (hb : b ∈ l) (hpb : p b) : a = b ∨ R a b := by
  rw [List.find?_eq_some_iff_append] at ha
  obtain ⟨-, before, after, rfl, hbefore⟩ := ha
  rw [List.mem_append, List.mem_cons] at hb
  rcases hb with hb | rfl | hb
  · have hnot := hbefore b hb
    rw [hpb] at hnot
    exact absurd hnot (by simp)
  · exact .inl rfl
  · exact .inr ((List.pairwise_cons.1 (List.pairwise_append.1 hl).2.1).1 b hb)

/-- **What comes first, in terms of places.** -/
theorem shadowed_notesAt_iff : Merge.Shadowed (notesAt notes t) ↔ BlankFirst notes t := by
  constructor
  · rintro ⟨c, s, hc, hblank, hs⟩
    obtain ⟨hs, hstitle⟩ := Merge.of_spokenDeclaration hs
    obtain ⟨hcmem, hckind⟩ := Merge.of_titledDeclaration hc
    have hctitle := List.find?_some hc
    rw [Bool.and_eq_true] at hctitle
    obtain ⟨hsmem, hstopic⟩ := mem_notesAt.1 hs
    refine ⟨c, (mem_notesAt.1 hcmem).1, (mem_notesAt.1 hcmem).2,
      Note.hasBlankTitle_iff.2 ⟨hckind, hctitle.2, hblank⟩,
      ⟨s, hsmem, hstopic, Note.hasTitle_iff.2 hstitle⟩, fun n hn htopic htitle => ?_⟩
    obtain ⟨hkind, htitle⟩ := Note.hasTitle_iff.1 htitle
    have hfound : (decide (n.kind = .declaration) && n.title.isSome) = true := by
      rw [hkind, Content.isSome_of_isSome_normal htitle]
      rfl
    rcases rel_of_find? (pairwise_notesAt notes t) hc (mem_notesAt.2 ⟨hn, htopic⟩) hfound with
      rfl | hle
    · rw [Std.ReflOrd.compare_self]
      rfl
    · exact hle
  · rintro ⟨d, hd, htopic, hblank, ⟨n, hn, hntopic, hntitle⟩, hfirst⟩
    obtain ⟨hdkind, hdtitle, hdblank⟩ := Note.hasBlankTitle_iff.1 hblank
    have hdfound : (decide (d.kind = .declaration) && d.title.isSome) = true := by
      rw [hdkind, hdtitle]
      rfl
    have hdmem : d ∈ notesAt notes t := mem_notesAt.2 ⟨hd, htopic⟩
    have htitled : (Merge.titledDeclaration (notesAt notes t)).isSome :=
      List.find?_isSome.2 ⟨d, hdmem, hdfound⟩
    have hspoken : (Merge.spokenDeclaration (notesAt notes t)).isSome := by
      obtain ⟨hnkind, hntitle⟩ := Note.hasTitle_iff.1 hntitle
      refine List.find?_isSome.2 ⟨n, mem_notesAt.2 ⟨hn, hntopic⟩, ?_⟩
      rw [hnkind, hntitle]
      rfl
    obtain ⟨c, hc⟩ := Option.isSome_iff_exists.1 htitled
    obtain ⟨s, hs⟩ := Option.isSome_iff_exists.1 hspoken
    refine ⟨c, s, hc, ?_, hs⟩
    rw [← Option.not_isSome_iff_eq_none]
    intro hctitle
    -- a title that says something would come before the blank one, and it does not
    obtain ⟨hcmem, hckind⟩ := Merge.of_titledDeclaration hc
    obtain ⟨hcmem, hctopic⟩ := mem_notesAt.1 hcmem
    have hcsays : c.HasTitle := Note.hasTitle_iff.2 ⟨hckind, hctitle⟩
    have hsorted : (notesAt notes t).Pairwise fun a b => (Note.order a b).isLE :=
      (pairwise_inOrder notes).sublist List.filter_sublist
    rcases rel_of_find? hsorted hc hdmem hdfound with rfl | hle
    · rw [hdblank] at hctitle
      exact absurd hctitle (by simp)
    · have hlt := Note.order_of_blank hblank hcsays (htopic.trans hctopic.symm)
        (hfirst c hcmem hctopic hcsays)
      exact absurd hle (Std.OrientedCmp.not_isLE_of_lt hlt)

/-! ## Both builds -/

theorem inOrder_normalized (notes : List Note) :
    inOrder (notes.map Note.normalized) = (inOrder notes).map Note.normalized := by
  refine (List.map_mergeSort fun a _ b _ => ?_).symm
  rw [Note.order_normalized]

theorem notesAt_normalized (notes : List Note) (t : Topic) :
    notesAt (notes.map Note.normalized) t = (notesAt notes t).map Note.normalized := by
  rw [notesAt, notesAt, inOrder_normalized, List.filter_map]
  rfl

theorem topicsOf_normalized (notes : List Note) :
    topicsOf (notes.map Note.normalized) = topicsOf notes := by
  rw [topicsOf, topicsOf, inOrder_normalized, List.map_map]
  rfl

theorem linksTo_normalized (notes : List Note) (t : Topic) :
    linksTo (notes.map Note.normalized) t = linksTo notes t := by
  have hlinks : linksOf (notes.map Note.normalized)
      = (linksOf notes).map fun link => (link.1.normalized, link.2) := by
    rw [linksOf, linksOf, inOrder_normalized, List.flatMap_map, List.map_flatMap]
    refine List.flatMap_congr fun n _ => ?_
    rw [Note.mentions_normalized, List.map_map]
    rfl
  rw [linksTo, linksTo, hlinks, List.filter_map, List.map_map]
  rfl

theorem spokenOf_normalized (notes : List Note) :
    spokenOf (notes.map Note.normalized) = spokenOf notes := by
  rw [spokenOf, spokenOf, List.flatMap_map]
  simp only [Note.topic_normalized, Note.mentions_normalized]

/-- Where no blank title comes first, the normal form changes nothing. -/
theorem build_normalized (h : ∀ t, ¬ BlankFirst notes t) :
    build (notes.map Note.normalized) = build notes := by
  have hmerge : ∀ t, Merge.merge (notesAt (notes.map Note.normalized) t)
      = Merge.merge (notesAt notes t) := by
    intro t
    rw [notesAt_normalized]
    refine Merge.merge_normalized fun hshadowed => ?_
    exact h t (shadowed_notesAt_iff.1 hshadowed)
  have hgrown := grow_history_congr (fun t => by rw [spokenOf_normalized]) hmerge
    (linksTo_normalized notes)
  have hdisagreements : disagreementsOf (notes.map Note.normalized) = disagreementsOf notes := by
    simp only [disagreementsOf, topicsOf_normalized, hmerge]
  have hclaims : claimsOf (notes.map Note.normalized) = claimsOf notes := by
    simp only [claimsOf, topicsOf_normalized, hmerge]
  rw [build_eq, build_eq, hgrown, hdisagreements, hclaims]

/-- Where a blank title comes first, the normal form brings back a site. -/
theorem build_normalized_ne (h : BlankFirst notes t) :
    build (notes.map Note.normalized) ≠ build notes := by
  intro heq
  obtain ⟨d, hd, htopic, -⟩ := id h
  obtain ⟨e, he⟩ := Option.isSome_iff_exists.1 ((isSome_get?_build notes t).2
    (named_of_mem_topicsOf (mem_topicsOf.2 ⟨d, hd, htopic⟩)))
  have hsites : e.declarationSites = (Merge.merge (notesAt notes t)).declarationSites := by
    rw [entry_build he]
    rfl
  rw [← heq] at he
  have hsites' : e.declarationSites
      = (Merge.merge ((notesAt notes t).map Note.normalized)).declarationSites := by
    rw [entry_build he, notesAt_normalized]
    rfl
  have hlt := Merge.length_declarationSites_lt (shadowed_notesAt_iff.2 h)
  rw [← hsites, ← hsites'] at hlt
  exact Nat.lt_irrefl _ hlt

/-- **What the outline shows of texts that are not in normal form.** Bringing the title, body and
nickname of every note into normal form changes neither the outline nor the issues, exactly if at
no topic a blank title comes first. -/
theorem build_normalized_iff (notes : List Note) :
    build (notes.map Note.normalized) = build notes ↔ ∀ t, ¬ BlankFirst notes t := by
  constructor
  · intro heq t hblank
    exact build_normalized_ne hblank heq
  · exact build_normalized

/-- A declaration with a blank title. -/
def blankNote : Note :=
  ⟨.single "Core", ⟨"a.go", 1, 1⟩, .declaration (some "  ") (some "f") []⟩

/-- A declaration about the same topic, further down, with a title. -/
def titledNote : Note :=
  ⟨.single "Core", ⟨"a.go", 2, 1⟩, .declaration (some "Title") (some "g") []⟩

/-- The blank title makes the other a disagreement. -/
theorem build_blankNote_ne :
    build ([blankNote, titledNote].map Note.normalized) ≠ build [blankNote, titledNote] := by
  have hblank : blankNote.HasBlankTitle := ⟨rfl, "  ", rfl, by decide⟩
  have htitle : titledNote.HasTitle := ⟨rfl, "Title", rfl, by decide⟩
  have hfirst : ∀ n ∈ [blankNote, titledNote],
      (compare blankNote.position n.position).isLE := by decide
  exact build_normalized_ne ⟨blankNote, by simp, rfl, hblank, ⟨titledNote, by simp, rfl, htitle⟩,
    fun n hn _ _ => hfirst n hn⟩

end Outline

end Marginalia
