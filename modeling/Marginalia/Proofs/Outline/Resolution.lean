/-
What the content of a topic is made of.

Three questions are answered by looking through the notes about a topic in
order: its title, its body and its nickname. Each has its own order of
preference, and each stops at the first answer. `Resolution` says what the
answers are, and when there is anything to answer, in terms of the notes alone.

The merge finds the title in the first declaration that has one, blank or not.
If no title is blank, that is the first title that can be read, and this is
the only place where the hypothesis is needed.

References are not looked at, and of the collected blocks only the first. So
nothing changes if the references and the blocks in conflict are left out:
what remains are the **contributors**, and they resolve to the same content.
-/
import Marginalia.Proofs.Outline.Binding

set_option autoImplicit false

namespace Marginalia

namespace Content

theorem trimmed_of_normal {text : Option String} {t : String} (h : normal text = some t) :
    Text.trimmed t = t ∧ t ≠ "" := by
  have htwice : normal (some t) = some t := by
    rw [← h, normal_normal, h]
  unfold normal at htwice
  rw [Option.map_some, Option.filter_eq_some_iff, Option.some.injEq] at htwice
  refine ⟨htwice.1, ?_⟩
  intro hempty
  rw [hempty] at htwice
  exact absurd htwice.2 (by decide)

/-- A text without blank ends that is not empty, or none. -/
def Tidy (text : Option String) : Prop :=
  ∀ t, text = some t → Text.trimmed t = t ∧ t ≠ ""

theorem Tidy.or {a b : Option String} (ha : Tidy a) (hb : Tidy b) : Tidy (a.or b) := by
  intro t ht
  rcases Option.or_eq_some_iff.1 ht with h | ⟨-, h⟩
  · exact ha t h
  · exact hb t h

theorem tidy_bind {α : Type} (x : Option α) (f : α → Option String) :
    Tidy (x.bind fun a => normal (f a)) := by
  intro t ht
  obtain ⟨a, -, h⟩ := Option.bind_eq_some_iff.1 ht
  exact trimmed_of_normal h

theorem tidy_findSome? {α : Type} (l : List α) (f : α → Option String) :
    Tidy (l.findSome? fun a => normal (f a)) := by
  intro t ht
  obtain ⟨a, -, h⟩ := List.exists_of_findSome?_eq_some ht
  exact trimmed_of_normal h

end Content

namespace Merge

/-! ## Orders of preference -/

/-- The first title of a declaration. -/
def declaredTitle (group : List Note) : Option String :=
  (group.filter fun n => n.kind = .declaration).findSome? fun n => Content.normal n.title

/-- A text of the first collected block, or else the first that a block lends. -/
def blockText (part : Note → Option String) (group : List Note) : Option String :=
  ((collectedBlock group).bind fun n => Content.normal (part n)).or
    ((lentBlocks group).findSome? fun n => Content.normal (part n))

/-- **The content that notes about one topic come to**, given in order. If its nickname is lost to
another topic, it has none. -/
structure Resolution (group : List Note) (lost : Prop) (content : Option Content) : Prop where
  present : content.isSome ↔ ∃ n ∈ group, n.BearsContent
  title : content.bind Content.title = (declaredTitle group).or (blockText Note.title group)
  body : content.bind Content.body = (collectedBlock group).bind fun n => Content.normal n.body
  nickname : ¬ lost → content.bind Content.nickname = blockText Note.nickname group
  nickname_lost : lost → content.bind Content.nickname = none
  tidy : ∀ c, content = some c →
    Content.Tidy c.title ∧ Content.Tidy c.body ∧ Content.Tidy c.nickname

theorem tidy_blockText (part : Note → Option String) (group : List Note) :
    Content.Tidy (blockText part group) :=
  (Content.tidy_bind _ part).or (Content.tidy_findSome? _ part)

/-! ## What a merge resolves to -/

section Merged

variable {group : List Note}

/-- Without blank titles, the first declaration with a title has the first title. -/
theorem bind_titledDeclaration (h : NoBlankTitles group) :
    ((titledDeclaration group).bind fun n => Content.normal n.title) = declaredTitle group := by
  rw [← find?_declarations]
  unfold declaredTitle
  have hsome : ∀ n ∈ group.filter fun n => n.kind = .declaration,
      n.title.isSome = (Content.normal n.title).isSome := by
    intro n hn
    rw [List.mem_filter, decide_eq_true_eq] at hn
    exact (isSome_normal_title hn.2 h hn.1).symm
  generalize group.filter (fun n => n.kind = .declaration) = declarations at hsome
  induction declarations with
  | nil => rfl
  | cons n declarations ih =>
    have hn := hsome n List.mem_cons_self
    by_cases htitle : n.title.isSome
    · rw [List.find?_cons, htitle, Option.bind_some, List.findSome?_cons]
      rw [hn] at htitle
      obtain ⟨t, ht⟩ := Option.isSome_iff_exists.1 htitle
      rw [ht]
    · rw [List.find?_cons, Bool.eq_false_of_not_eq_true htitle, List.findSome?_cons]
      rw [hn, Option.not_isSome_iff_eq_none] at htitle
      rw [htitle]
      exact ih fun m hm => hsome m (List.mem_cons_of_mem _ hm)

theorem heading_eq (h : NoBlankTitles group) :
    heading group = (declaredTitle group).or (blockText Note.title group) := by
  rw [heading, bind_titledDeclaration h, Option.or_assoc, blockText]

theorem request_eq (group : List Note) :
    (request group).map (·.1) = blockText Note.nickname group := by
  have hwritten : ∀ n, (written n).map (·.1) = Content.normal n.nickname := by
    intro n
    rw [written, Option.map_map]
    exact congrFun Option.map_id _
  rw [request, Option.map_or, Option.map_bind, List.map_findSome?, blockText]
  simp only [Function.comp_def, hwritten]

theorem body_contentOf (n : Note) : (contentOf n).body = Content.normal n.body := by
  cases hform : n.form <;>
    simp [contentOf, Note.content, Note.body, hform, Content.of, Content.normal]

/-- A topic without content has neither a title nor a body. -/
theorem title_content_merge (group : List Note) :
    (merge group).content.bind Content.title = heading group ∧
    (merge group).content.bind Content.body
      = (collectedBlock group).bind fun n => Content.normal n.body := by
  rw [content_merge]
  simp only [body_contentOf]
  split
  · exact ⟨rfl, rfl⟩
  · rename_i hnone
    simp only [Bool.or_eq_true, not_or, Bool.not_eq_true', Bool.not_eq_false,
      Option.not_isSome_iff_eq_none, List.isEmpty_iff] at hnone
    obtain ⟨⟨⟨-, hblocks⟩, htitle⟩, -⟩ := hnone
    refine ⟨htitle.symm, ?_⟩
    cases hblock : collectedBlock group with
    | none => rfl
    | some n =>
      obtain ⟨hn, hkind, hcollected⟩ := of_collectedBlock hblock
      exact absurd hcollected (blockSites_eq_nil_iff.1 hblocks n hn hkind)

/-- **The merge resolves its notes.** -/
theorem resolution_merge (h : NoBlankTitles group) :
    Resolution group False (merge group).content := by
  obtain ⟨htitle, hbody⟩ := title_content_merge group
  have hnickname := nickname_content_merge group
  rw [heading_eq h] at htitle
  rw [request_eq] at hnickname
  refine ⟨isSome_content_merge group, htitle, hbody, fun _ => hnickname, False.elim, ?_⟩
  intro c hc
  rw [hc, Option.bind_some] at htitle hbody hnickname
  rw [htitle, hbody, hnickname]
  refine ⟨Content.Tidy.or (Content.tidy_findSome? _ _) (tidy_blockText _ _),
    Content.tidy_bind _ _, tidy_blockText _ _⟩

/-- Losing the nickname leaves the rest. -/
theorem Resolution.losing {content : Option Content} (h : Resolution group False content) :
    Resolution group True (content.map fun c => { c with nickname := none }) := by
  refine ⟨?_, ?_, ?_, fun hlost => absurd trivial hlost, fun _ => ?_, ?_⟩
  · rw [Option.isSome_map, h.present]
  · rw [← h.title]
    cases content <;> rfl
  · rw [← h.body]
    cases content <;> rfl
  · cases content <;> rfl
  · intro c hc
    obtain ⟨c', hc', rfl⟩ := Option.map_eq_some_iff.1 hc
    obtain ⟨htitle, hbody, -⟩ := h.tidy c' hc'
    exact ⟨htitle, hbody, fun _ hnone => by simp at hnone⟩

end Merged

/-! ## Contributors -/

/-- Whether a note is neither a reference nor a block in conflict. -/
def contributes (group : List Note) (n : Note) : Bool :=
  n.kind = .declaration || n.kind = .block && (!n.isCollected || blockAgrees group n)

/-- The notes about a topic without its references and its blocks in conflict. -/
def contributors (group : List Note) : List Note :=
  group.filter (contributes group)

section Contributors

variable {group : List Note}

theorem declaredTitle_contributors (group : List Note) :
    declaredTitle (contributors group) = declaredTitle group := by
  have hfilter : (contributors group).filter (fun n => n.kind = .declaration)
      = group.filter fun n => n.kind = .declaration := by
    rw [contributors, List.filter_filter]
    refine List.filter_congr fun n _ => ?_
    by_cases hkind : n.kind = .declaration <;> simp [contributes, hkind]
  rw [declaredTitle, hfilter, declaredTitle]

theorem lentBlocks_contributors (group : List Note) :
    lentBlocks (contributors group) = lentBlocks group := by
  rw [lentBlocks, contributors, List.filter_filter, lentBlocks]
  refine List.filter_congr fun n _ => ?_
  by_cases hcollected : n.isCollected <;> by_cases hkind : n.kind = .block <;>
    simp [contributes, hcollected, hkind]

/-- The first collected block is never in conflict. -/
theorem mem_contributors_of_collectedBlock {c : Note} (h : collectedBlock group = some c) :
    c ∈ contributors group := by
  obtain ⟨hc, hkind, -⟩ := of_collectedBlock h
  refine List.mem_filter.2 ⟨hc, ?_⟩
  have hagrees : blockAgrees group c := by
    rw [blockAgrees, h, Option.any_some, decide_eq_true_eq]
  simp [contributes, hkind, hagrees]

theorem collectedBlock_contributors (group : List Note) :
    collectedBlock (contributors group) = collectedBlock group := by
  cases hblock : collectedBlock group with
  | none =>
    refine List.find?_eq_none.2 fun n hn => ?_
    exact List.find?_eq_none.1 hblock n (List.mem_filter.1 hn).1
  | some c =>
    have hc := (List.mem_filter.1 (mem_contributors_of_collectedBlock hblock)).2
    obtain ⟨hfits, before, behind, rfl, hbefore⟩ := List.find?_eq_some_iff_append.1 hblock
    -- nothing before the block is a collected block, and leaving notes out does not change that
    have hsplit := List.filter_append before (c :: behind) (p := contributes (before ++ c :: behind))
    rw [List.filter_cons_of_pos hc] at hsplit
    refine List.find?_eq_some_iff_append.2 ⟨hfits, _, _, hsplit, ?_⟩
    intro n hn
    exact hbefore n (List.mem_filter.1 hn).1

/-- Where a note bears content, some contributor does. -/
theorem bears_contributors_iff :
    (∃ n ∈ contributors group, n.BearsContent) ↔ ∃ n ∈ group, n.BearsContent := by
  constructor
  · rintro ⟨n, hn, hbears⟩
    exact ⟨n, (List.mem_filter.1 hn).1, hbears⟩
  · rintro ⟨n, hn, hbears⟩
    by_cases hcollected : n.kind = .block ∧ n.isCollected
    · -- the block may be in conflict, but then it is with the first
      have hsome : (collectedBlock group).isSome := by
        rw [collectedBlock, List.find?_isSome]
        exact ⟨n, hn, by simp [hcollected]⟩
      obtain ⟨c, hc⟩ := Option.isSome_iff_exists.1 hsome
      obtain ⟨-, hkind, hcollected⟩ := of_collectedBlock hc
      exact ⟨c, mem_contributors_of_collectedBlock hc, .collected hkind hcollected⟩
    · refine ⟨n, List.mem_filter.2 ⟨hn, ?_⟩, hbears⟩
      cases hbears with
      | declaration hkind => simp [contributes, hkind]
      | collected hkind hblock => exact absurd ⟨hkind, hblock⟩ hcollected
      | lentTitle hkind hlent => simp [contributes, hkind, hlent]
      | lentNickname hkind hlent => simp [contributes, hkind, hlent]

/-- **Only contributors count.** -/
theorem Resolution.contributors {lost : Prop} {content : Option Content}
    (h : Resolution group lost content) : Resolution (contributors group) lost content := by
  have hblockText : ∀ part, blockText part (Merge.contributors group) = blockText part group := by
    intro part
    rw [blockText, collectedBlock_contributors, lentBlocks_contributors, blockText]
  refine ⟨?_, ?_, ?_, ?_, h.nickname_lost, h.tidy⟩
  · rw [h.present, bears_contributors_iff]
  · rw [h.title, declaredTitle_contributors, hblockText]
  · rw [h.body, collectedBlock_contributors]
  · intro hkept
    rw [h.nickname hkept, hblockText]

end Contributors

end Merge

/-! ## Entries -/

namespace Outline

/-- The content of a topic, if it has any. -/
def contentAt (outline : Outline) (p : Topic) : Option Content :=
  outline.entry? p |>.bind Entry.content

/-- Whether the nickname of a topic went to another. -/
def LosesNickname (notes : List Note) (p : Topic) : Prop :=
  ∃ d, Issue.collision d ∈ (build notes).2 ∧ d.claimedTopic = p

theorem losesNickname_iff {notes : List Note} {p : Topic} :
    LosesNickname notes p ↔ p ∈ losersOf notes := by
  unfold LosesNickname losersOf
  rw [issues_build, List.mem_map]
  simp

/-- The content of a topic is what its notes are merged to, without a nickname that is lost. A
topic without an entry has no notes. -/
theorem contentAt_build (notes : List Note) (p : Topic) :
    (build notes).1.contentAt p
      = if p ∈ losersOf notes
        then (Merge.merge (notesAt notes p)).content.map fun c => { c with nickname := none }
        else (Merge.merge (notesAt notes p)).content := by
  unfold contentAt
  cases he : entry? (build notes).1 p with
  | some e =>
    rw [Option.bind_some, entry_build he]
  | none =>
    have hempty : notesAt notes p = [] := by
      by_contra hne
      have hmissing : (build notes).1.entries.get? p = none := he
      have hnamed := named_of_mem_topicsOf (notesAt_ne_nil_iff.1 hne)
      rw [← isSome_get?_build, hmissing] at hnamed
      exact absurd hnamed (by simp)
    rw [hempty]
    have hnone : (Merge.merge []).content = none := rfl
    rw [hnone, Option.map_none, ite_self]
    rfl

/-- **The content of every topic** is resolved from the notes about it, and from the contributors
among them alone. -/
theorem content_resolves {notes : List Note} (h : Merge.NoBlankTitles notes) (p : Topic) :
    Merge.Resolution (notesAt notes p) (LosesNickname notes p) ((build notes).1.contentAt p) ∧
    Merge.Resolution (Merge.contributors (notesAt notes p)) (LosesNickname notes p)
      ((build notes).1.contentAt p) := by
  have hblank : Merge.NoBlankTitles (notesAt notes p) := fun n hn => h n (mem_notesAt.1 hn).1
  have hmerged := Merge.resolution_merge hblank
  have hresolved : Merge.Resolution (notesAt notes p) (LosesNickname notes p)
      ((build notes).1.contentAt p) := by
    rw [contentAt_build, propext losesNickname_iff]
    by_cases hlost : p ∈ losersOf notes
    · rw [if_pos hlost, eq_true hlost]
      exact hmerged.losing
    · rw [if_neg hlost, eq_false hlost]
      exact hmerged
  exact ⟨hresolved, hresolved.contributors⟩

/-- Two blocks that differ, two that lend and an untitled declaration about one topic. The nickname
that is lent goes to another topic, which claims it first. -/
def contestedNotes : List Note :=
  [⟨.single "A", ⟨"b.go", 7, 1⟩, .block ⟨some "other", some "x", some "late", [], true⟩⟩,
   ⟨.single "A", ⟨"b.go", 4, 1⟩, .block ⟨some " text ", none, some "block", [], true⟩⟩,
   ⟨.single "A", ⟨"a.go", 1, 1⟩, .block ⟨none, none, some "lent", [], false⟩⟩,
   ⟨.single "A", ⟨"a.go", 2, 1⟩, .block ⟨none, some "n", none, [], false⟩⟩,
   ⟨.single "A", ⟨"a.go", 3, 1⟩, .declaration none (some "f") []⟩,
   ⟨.single "B", ⟨"a.go", 1, 1⟩, .block ⟨none, some "n", none, [.single "C"], true⟩⟩]

theorem content_contestedNotes :
    Merge.NoBlankTitles contestedNotes ∧
    Merge.Resolution (notesAt contestedNotes (.single "A"))
      (LosesNickname contestedNotes (.single "A"))
      ((build contestedNotes).1.contentAt (.single "A")) ∧
    Merge.Resolution (Merge.contributors (notesAt contestedNotes (.single "A")))
      (LosesNickname contestedNotes (.single "A"))
      ((build contestedNotes).1.contentAt (.single "A")) := by
  have hblank : Merge.NoBlankTitles contestedNotes := by decide
  exact ⟨hblank, content_resolves hblank (.single "A")⟩

end Outline

end Marginalia
