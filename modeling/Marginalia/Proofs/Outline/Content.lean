/-
What the notes about a topic come to: whether there is content, and which
nickname is asked for.

The merge decides by the sites it has filed and by the texts it has found, and
both are results of its own. Here the decision is read off the notes. A
declaration or a collected block always leaves a site, because the note that
the others are held against agrees with itself; a block that is not collected
leaves nothing but its title and its nickname. So a topic has content exactly
if one of its notes **bears content**, and the notes need not be merged to see
that.
-/
import Marginalia.Proofs.Outline.Accounting

set_option autoImplicit false

namespace Marginalia

theorem Content.isSome_normal_iff {text : Option String} :
    (normal text).isSome ↔ ∃ t, text = some t ∧ Text.trimmed t ≠ "" := by
  cases text with
  | none => simp [normal]
  | some t =>
    simp only [normal, Option.map_some, Option.isSome_filter, Option.any_some, Option.some.injEq,
      exists_eq_left', Bool.not_eq_true', ne_eq]
    rw [← Bool.not_eq_true, String.isEmpty_iff]

/-- A note that gives its topic content. -/
inductive Note.BearsContent (n : Note) : Prop where
  | declaration (hkind : n.kind = .declaration)
  | collected (hkind : n.kind = .block) (hcollected : n.isCollected)
  | lentTitle (hkind : n.kind = .block) (hcollected : ¬ n.isCollected) (title : String)
      (htitle : n.title = some title) (htext : Text.trimmed title ≠ "")
  | lentNickname (hkind : n.kind = .block) (hcollected : ¬ n.isCollected) (nickname : String)
      (hnickname : n.nickname = some nickname) (htext : Text.trimmed nickname ≠ "")

namespace Merge

/-! ## The parts of a merge -/

theorem title_contentOf (n : Note) : (contentOf n).title = Content.normal n.title := by
  cases hform : n.form <;> simp [contentOf, Note.content, Note.title, hform, Content.of, Content.normal]

theorem nickname_contentOf (n : Note) : (contentOf n).nickname = Content.normal n.nickname := by
  cases hform : n.form <;>
    simp [contentOf, Note.content, Note.nickname, hform, Content.of, Content.normal]

/-- The blocks that are not collected. -/
def lentBlocks (group : List Note) : List Note :=
  group.filter fun n => n.kind = .block && !n.isCollected

/-- The nickname that a note has in it, and where the note stands. -/
def written (n : Note) : Option (String × Position) :=
  (Content.normal n.nickname).map fun a => (a, n.position)

/-- **The nickname that the notes about a topic ask for**, and where it is written: that of the
first collected block, or else the first that a block lends. -/
def request (group : List Note) : Option (String × Position) :=
  ((collectedBlock group).bind written).or ((lentBlocks group).findSome? written)

/-- The title that the notes about a topic come to. -/
def heading (group : List Note) : Option String :=
  (((titledDeclaration group).bind fun n => Content.normal n.title).or
    ((collectedBlock group).bind fun n => Content.normal n.title)).or
    ((lentBlocks group).findSome? fun n => Content.normal n.title)

private theorem filter_lent (group : List Note) :
    (group.filter fun n => n.kind = .block).filter (fun n => !n.isCollected)
      = lentBlocks group := by
  rw [List.filter_filter, lentBlocks]
  simp only [Bool.and_comm]

theorem claim_merge (group : List Note) : (merge group).claim = request group := by
  have hwritten : (fun n => (contentOf n).nickname.map fun a => (a, n.position)) = written := by
    funext n
    rw [nickname_contentOf, written]
  have hclaim : (merge group).claim
      = ((collectedBlock group).bind fun n =>
          (((collectedBlock group).map contentOf).getD {}).nickname.map fun a => (a, n.position)).or
        ((lentBlocks group).findSome? fun n =>
          (contentOf n).nickname.map fun a => (a, n.position)) := by
    rw [← head?_blocks, ← filter_lent]
    rfl
  rw [hclaim, hwritten, request]
  cases collectedBlock group with
  | none => rfl
  | some c =>
    rw [Option.bind_some, Option.bind_some, Option.map_some, Option.getD_some, nickname_contentOf]
    rfl

/-- **The content of a merge**, from what it is looked for in. -/
theorem content_merge (group : List Note) :
    (merge group).content
      = if (!(merge group).declarationSites.isEmpty || !(merge group).blockSites.isEmpty)
            || (heading group).isSome || (request group).isSome then
          some { title := heading group
                 body := (collectedBlock group).bind fun n => (contentOf n).body
                 nickname := (request group).map (·.1) }
        else none := by
  have htitle : (fun n => (contentOf n).title) = fun n => Content.normal n.title :=
    funext title_contentOf
  have hheading : heading group
      = (((titledDeclaration group).bind fun n => (contentOf n).title).or
          (((collectedBlock group).map contentOf).getD {}).title).or
        ((lentBlocks group).findSome? fun n => (contentOf n).title) := by
    rw [heading, htitle]
    cases collectedBlock group with
    | none => rfl
    | some c => rw [Option.bind_some, Option.map_some, Option.getD_some, title_contentOf]
  have hbody : ((collectedBlock group).bind fun n => (contentOf n).body)
      = (((collectedBlock group).map contentOf).getD {}).body := by
    cases collectedBlock group <;> rfl
  rw [hheading, hbody, ← claim_merge, ← find?_declarations, ← head?_blocks, ← filter_lent]
  rfl

/-- The nickname of a merged content is the one asked for. -/
theorem nickname_content_merge (group : List Note) :
    (merge group).content.bind Content.nickname = (request group).map (·.1) := by
  rw [content_merge]
  split
  · rfl
  · rename_i h
    have hnone : request group = none := by
      rw [← Option.not_isSome_iff_eq_none]
      intro hsome
      rw [hsome, Bool.or_true] at h
      exact h rfl
    rw [hnone]
    rfl

/-! ## Where the parts are found -/

variable {group : List Note} {n : Note}

theorem mem_lentBlocks : n ∈ lentBlocks group ↔ n ∈ group ∧ n.kind = .block ∧ ¬ n.isCollected := by
  rw [lentBlocks, List.mem_filter, Bool.and_eq_true, decide_eq_true_eq, Bool.not_eq_true',
    Bool.not_eq_true]

theorem of_titledDeclaration (h : titledDeclaration group = some n) :
    n ∈ group ∧ n.kind = .declaration := by
  have hkind := List.find?_some h
  rw [Bool.and_eq_true, decide_eq_true_eq] at hkind
  exact ⟨List.mem_of_find?_eq_some h, hkind.1⟩

theorem of_collectedBlock (h : collectedBlock group = some n) :
    n ∈ group ∧ n.kind = .block ∧ n.isCollected := by
  have hkind := List.find?_some h
  rw [Bool.and_eq_true, decide_eq_true_eq] at hkind
  exact ⟨List.mem_of_find?_eq_some h, hkind⟩

/-! ## Sites are left -/

/-- Where the canonical note is one of the notes and agrees with itself, some site is left. -/
private theorem split_fst_eq_nil_iff {canonical : Option Note} {diverges : Note → Note → Bool}
    {notes : List Note} (hmem : ∀ c, canonical = some c → c ∈ notes)
    (hself : ∀ c, diverges c c = false) :
    (split canonical diverges notes).1 = [] ↔ notes = [] := by
  cases canonical with
  | none => rw [split, List.map_eq_nil_iff]
  | some c =>
    rw [split, List.map_eq_nil_iff]
    constructor
    · intro hnil
      have hc : c ∈ notes.filter fun n => !diverges c n :=
        List.mem_filter.2 ⟨hmem c rfl, by rw [hself]; rfl⟩
      rw [hnil] at hc
      exact absurd hc List.not_mem_nil
    · rintro rfl
      rfl

theorem declarationSites_eq_nil_iff :
    (merge group).declarationSites = [] ↔ ∀ n ∈ group, n.kind ≠ .declaration := by
  rw [declarationSites_merge, splitDeclarations, split_fst_eq_nil_iff, List.filter_eq_nil_iff]
  · simp
  · intro c hc
    obtain ⟨hmem, hkind⟩ := of_titledDeclaration hc
    exact List.mem_filter.2 ⟨hmem, by simpa using hkind⟩
  · intro c
    rw [declarationDiverges]
    simp

theorem blockSites_eq_nil_iff :
    (merge group).blockSites = [] ↔ ∀ n ∈ group, n.kind = .block → ¬ n.isCollected := by
  rw [blockSites_merge, splitBlocks, split_fst_eq_nil_iff, List.filter_eq_nil_iff]
  · simp
  · intro c hc
    obtain ⟨hmem, hkind⟩ := of_collectedBlock hc
    exact List.mem_filter.2 ⟨hmem, by simpa using hkind⟩
  · intro c
    rw [blockDiverges]
    simp

/-! ## Content -/

private theorem bears_of_collectedBlock {α : Type} {part : Note → Option α}
    (h : ((collectedBlock group).bind part).isSome) : ∃ n ∈ group, n.BearsContent := by
  obtain ⟨_, h⟩ := Option.isSome_iff_exists.1 h
  obtain ⟨n, hn, _⟩ := Option.bind_eq_some_iff.1 h
  obtain ⟨hmem, hkind, hcollected⟩ := of_collectedBlock hn
  exact ⟨n, hmem, .collected hkind hcollected⟩

/-- A title is found only in a note that bears content. -/
private theorem bears_of_heading (h : (heading group).isSome) : ∃ n ∈ group, n.BearsContent := by
  rw [heading, Option.isSome_or, Option.isSome_or, Bool.or_eq_true, Bool.or_eq_true] at h
  rcases h with (h | h) | h
  · obtain ⟨_, h⟩ := Option.isSome_iff_exists.1 h
    obtain ⟨n, hn, _⟩ := Option.bind_eq_some_iff.1 h
    obtain ⟨hmem, hkind⟩ := of_titledDeclaration hn
    exact ⟨n, hmem, .declaration hkind⟩
  · exact bears_of_collectedBlock h
  · obtain ⟨n, hn, htitle⟩ := List.findSome?_isSome_iff.1 h
    obtain ⟨hmem, hkind, hcollected⟩ := mem_lentBlocks.1 hn
    obtain ⟨t, ht, htext⟩ := Content.isSome_normal_iff.1 htitle
    exact ⟨n, hmem, .lentTitle hkind hcollected t ht htext⟩

theorem isSome_written_iff : (written n).isSome ↔ ∃ a, n.nickname = some a ∧ Text.trimmed a ≠ "" := by
  rw [written, Option.isSome_map, Content.isSome_normal_iff]

/-- A nickname is found only in a note that bears content. -/
private theorem bears_of_request (h : (request group).isSome) : ∃ n ∈ group, n.BearsContent := by
  rw [request, Option.isSome_or, Bool.or_eq_true] at h
  rcases h with h | h
  · exact bears_of_collectedBlock h
  · obtain ⟨n, hn, hwritten⟩ := List.findSome?_isSome_iff.1 h
    obtain ⟨hmem, hkind, hcollected⟩ := mem_lentBlocks.1 hn
    obtain ⟨a, ha, htext⟩ := isSome_written_iff.1 hwritten
    exact ⟨n, hmem, .lentNickname hkind hcollected a ha htext⟩

/-- **When there is content**: exactly if one of the notes bears it. -/
theorem isSome_content_merge (group : List Note) :
    (merge group).content.isSome ↔ ∃ n ∈ group, n.BearsContent := by
  have hcontent : (merge group).content.isSome ↔
      (¬ (merge group).declarationSites = [] ∨ ¬ (merge group).blockSites = []) ∨
        (heading group).isSome ∨ (request group).isSome := by
    rw [content_merge]
    split <;> rename_i h <;> simpa [or_assoc] using h
  rw [hcontent, declarationSites_eq_nil_iff, blockSites_eq_nil_iff]
  constructor
  · rintro ((h | h) | h | h)
    · push Not at h
      obtain ⟨n, hn, hkind⟩ := h
      exact ⟨n, hn, .declaration hkind⟩
    · push Not at h
      obtain ⟨n, hn, hkind, hcollected⟩ := h
      exact ⟨n, hn, .collected hkind hcollected⟩
    · exact bears_of_heading h
    · exact bears_of_request h
  · rintro ⟨n, hn, hbears⟩
    cases hbears with
    | declaration hkind => exact .inl (.inl fun hnone => hnone n hn hkind)
    | collected hkind hcollected => exact .inl (.inr fun hnone => hnone n hn hkind hcollected)
    | lentTitle hkind hcollected title htitle htext =>
      have hlent := mem_lentBlocks.2 ⟨hn, hkind, hcollected⟩
      have hfound : ((lentBlocks group).findSome? fun n => Content.normal n.title).isSome :=
        List.findSome?_isSome_iff.2 ⟨n, hlent, Content.isSome_normal_iff.2 ⟨title, htitle, htext⟩⟩
      refine .inr (.inl ?_)
      rw [heading, Option.isSome_or, hfound, Bool.or_true]
    | lentNickname hkind hcollected nickname hnickname htext =>
      have hlent := mem_lentBlocks.2 ⟨hn, hkind, hcollected⟩
      have hfound : ((lentBlocks group).findSome? written).isSome :=
        List.findSome?_isSome_iff.2 ⟨n, hlent, isSome_written_iff.2 ⟨nickname, hnickname, htext⟩⟩
      refine .inr (.inr ?_)
      rw [request, Option.isSome_or, hfound, Bool.or_true]

end Merge

/-! ## Entries -/

namespace Outline

/-- A topic with a note that bears content. -/
def Documented (notes : List Note) (p : Topic) : Prop :=
  ∃ n ∈ notes, n.topic = p ∧ n.BearsContent

/-- **An entry has content exactly if its topic is documented.** Losing a nickname leaves the rest
of the content behind. -/
theorem isSome_content_build {notes : List Note} {p : Topic} {e : Entry}
    (he : (build notes).1.entries.get? p = some e) : e.content.isSome ↔ Documented notes p := by
  have hmerged : e.content.isSome = (Merge.merge (notesAt notes p)).content.isSome := by
    rw [entry_build he]
    dsimp only
    split
    · rw [Option.isSome_map]
    · rfl
  rw [hmerged, Merge.isSome_content_merge, Documented]
  simp only [mem_notesAt, and_assoc]

end Outline

end Marginalia
