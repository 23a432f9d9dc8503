/-
The order in which notes come does not show in their outline.

Sorting alone does not give this. The sort key leaves out whether a block is
collected, what a declaration marks, the links of a note and the blank ends of
its texts, so notes that differ may tie, and ties stay in the order they came.
What saves the outline is that everything it takes from a note, apart from
these, is fixed by the key, and that these only decide **which** notes are
looked at: collected blocks apart from lent ones, declarations with a title
apart from those without, the links to one topic apart from the links to
another. A filter leaves two arrangements in order and with the same notes, so
they agree up to ties after it, too.

The one thing the key does not fix is how a position is spelled, and the name
of the code a declaration marks. Notes that tie have to agree there, and that
is all the hypothesis of `build_perm` asks.
-/
import Marginalia.Proofs.Outline.History
import Mathlib.Data.Option.Basic

set_option autoImplicit false

namespace Marginalia

open Arranged

/-! ## Notes that are alike to a merge -/

/-- Notes that have the same parts as far as merging writes them down. -/
structure Note.Alike (a b : Note) : Prop where
  topic : a.topic = b.topic
  position : a.position = b.position
  kind : a.kind = b.kind
  content : a.content = b.content
  symbol : a.symbol = b.symbol

/-- Notes that tie are alike if they spell their position alike and, as declarations, mark the
same code. -/
theorem Note.Ties.alike {a b : Note} (h : a.Ties b) (hposition : a.position = b.position)
    (hsymbol : a.kind = .declaration → a.symbol = b.symbol) : a.Alike b where
  topic := h.1
  position := hposition
  kind := h.2.2.1
  content := h.2.2.2
  symbol := by
    by_cases hkind : a.kind = .declaration
    · exact hsymbol hkind
    · rw [Note.symbol_eq_none hkind, Note.symbol_eq_none (h.2.2.1 ▸ hkind)]

namespace Merge

theorem contentOf_congr {a b : Note} (h : a.Alike b) : contentOf a = contentOf b := by
  rw [contentOf, contentOf, h.content]

theorem siteOf_congr {a b : Note} (h : a.Alike b) : siteOf a = siteOf b := by
  rw [siteOf, siteOf, h.position, h.symbol]

theorem disagreement_congr {c c' a b : Note} (hc : c.Alike c') (h : a.Alike b) :
    disagreement c a = disagreement c' b := by
  simp only [disagreement, contentOf_congr hc, contentOf_congr h, hc.position, h.topic, h.kind,
    h.position]

/-- The first of alike lists are alike. -/
private theorem rel_head? {l₁ l₂ : List Note} (h : List.Forall₂ Note.Alike l₁ l₂) :
    Option.Rel Note.Alike l₁.head? l₂.head? := by
  cases h with
  | nil => exact .none
  | cons hab _ => exact .some hab

private theorem bind_congr {β : Type} {a b : Option Note} (h : Option.Rel Note.Alike a b)
    {f g : Note → Option β} (hf : ∀ x y, x.Alike y → f x = g y) : a.bind f = b.bind g := by
  cases h with
  | none => rfl
  | some hxy => exact hf _ _ hxy

/-- Notes that are alike are sorted alike into sites and disagreements. -/
private theorem split_congr {c₁ c₂ : Option Note} {l₁ l₂ : List Note}
    (hc : Option.Rel Note.Alike c₁ c₂) (hl : List.Forall₂ Note.Alike l₁ l₂)
    {d : Note → Note → Bool}
    (hd : ∀ {c c' a b : Note}, c.Alike c' → a.Alike b → d c a = d c' b) :
    split c₁ d l₁ = split c₂ d l₂ := by
  cases hc with
  | none =>
    have hsites : l₁.map siteOf = l₂.map siteOf := by
      simpa using map_filter_eq_of_forall₂ hl (p := fun _ => true) (q := fun _ => true)
        (fun _ _ _ => rfl) fun _ _ h => siteOf_congr h
    simp only [split, hsites]
  | some hcc =>
    simp only [split]
    refine Prod.ext ?_ ?_
    · refine map_filter_eq_of_forall₂ hl (fun a b h => ?_) fun a b h => siteOf_congr h
      rw [hd hcc h]
    · exact map_filter_eq_of_forall₂ hl (fun a b h => hd hcc h) fun a b h =>
        disagreement_congr hcc h

/-- **A merge does not tell alike notes apart.** Lists of notes that are alike under every filter
come to the same. -/
theorem merge_congr {l₁ l₂ : List Note}
    (h : ∀ p : Note → Bool, List.Forall₂ Note.Alike (l₁.filter p) (l₂.filter p)) :
    merge l₁ = merge l₂ := by
  have hdeclarations := h fun n => n.kind = .declaration
  -- every list that a merge looks at is picked out by a filter
  have hblocks : List.Forall₂ Note.Alike
      ((l₁.filter fun n => n.kind = .block).filter Note.isCollected)
      ((l₂.filter fun n => n.kind = .block).filter Note.isCollected) := by
    rw [List.filter_filter, List.filter_filter]
    exact h _
  have hlent : List.Forall₂ Note.Alike
      ((l₁.filter fun n => n.kind = .block).filter fun n => !n.isCollected)
      ((l₂.filter fun n => n.kind = .block).filter fun n => !n.isCollected) := by
    rw [List.filter_filter, List.filter_filter]
    exact h _
  have htitled : Option.Rel Note.Alike
      ((l₁.filter fun n => n.kind = .declaration).find? fun n => n.title.isSome)
      ((l₂.filter fun n => n.kind = .declaration).find? fun n => n.title.isSome) := by
    rw [← List.head?_filter, ← List.head?_filter, List.filter_filter, List.filter_filter]
    exact rel_head? (h _)
  have hfirst := rel_head? hblocks
  have hreferences : ((l₁.filter fun n => n.kind = .reference).map Note.position)
      = (l₂.filter fun n => n.kind = .reference).map Note.position := by
    simpa using map_filter_eq_of_forall₂ (h fun n => n.kind = .reference)
      (p := fun _ => true) (q := fun _ => true) (fun _ _ _ => rfl) fun _ _ h => h.position
  -- the parts of the result, one by one
  have hdsplit := split_congr htitled hdeclarations (d := declarationDiverges)
    fun hc ha => by simp only [declarationDiverges, contentOf_congr hc, contentOf_congr ha]
  have hbsplit := split_congr hfirst hblocks (d := blockDiverges)
    fun hc ha => by simp only [blockDiverges, contentOf_congr hc, contentOf_congr ha]
  have hlentTitle := findSome?_eq_of_forall₂ hlent (f := fun n => (contentOf n).title)
    (g := fun n => (contentOf n).title) fun a b hab => by rw [contentOf_congr hab]
  have hlentClaim := findSome?_eq_of_forall₂ hlent
    (f := fun n => (contentOf n).nickname.map fun a => (a, n.position))
    (g := fun n => (contentOf n).nickname.map fun a => (a, n.position)) fun a b hab => by
      rw [contentOf_congr hab, hab.position]
  have hblock : (((l₁.filter fun n => n.kind = .block).filter Note.isCollected).head?.map contentOf)
      = ((l₂.filter fun n => n.kind = .block).filter Note.isCollected).head?.map contentOf := by
    rw [Option.map_eq_bind, Option.map_eq_bind]
    exact bind_congr hfirst fun a b hab => by
      simp only [Function.comp_apply, contentOf_congr hab]
  have htitle := bind_congr htitled (f := fun n => (contentOf n).title)
    (g := fun n => (contentOf n).title) fun a b hab => by rw [contentOf_congr hab]
  have hclaim := fun nickname : Option String =>
    bind_congr hfirst (f := fun n => nickname.map fun a => (a, n.position))
      (g := fun n => nickname.map fun a => (a, n.position)) fun a b hab => by rw [hab.position]
  simp only [merge, hdsplit, hbsplit, hlentTitle, hlentClaim, hblock, htitle, hclaim, hreferences]

end Merge

/-! ## Two orders of the same notes -/

namespace Outline

/-- Notes that tie spell their position alike and, as declarations, mark the same code. -/
def TiesAgree (notes : List Note) : Prop :=
  ∀ a ∈ notes, ∀ b ∈ notes, a.Ties b →
    a.position = b.position ∧ (a.kind = .declaration → a.symbol = b.symbol)

section Permutation

variable {notes notes' : List Note}

/-- Whatever is picked from the notes in order is alike for both orders of the notes. -/
theorem forall₂_alike (h : notes.Perm notes') (hties : TiesAgree notes) (p : Note → Bool) :
    List.Forall₂ Note.Alike ((inOrder notes).filter p) ((inOrder notes').filter p) := by
  have hsorted : Rearranged Note.order (inOrder notes) (inOrder notes') := rearranged_sorted h
  refine (hsorted.filter p).forall₂.imp fun a b hab => ?_
  obtain ⟨ha, hb, heq⟩ := hab
  have ha : a ∈ notes := mem_inOrder.1 (List.mem_filter.1 ha).1
  have hb : b ∈ notes := mem_inOrder.1 (List.mem_filter.1 hb).1
  have htie : a.Ties b := Note.order_eq_iff.1 heq
  obtain ⟨hposition, hsymbol⟩ := hties a ha b hb htie
  exact htie.alike hposition hsymbol

/-- The notes about a topic come to the same. -/
theorem merge_notesAt_perm (h : notes.Perm notes') (hties : TiesAgree notes) (t : Topic) :
    Merge.merge (notesAt notes t) = Merge.merge (notesAt notes' t) := by
  refine Merge.merge_congr fun p => ?_
  rw [notesAt, notesAt, List.filter_filter, List.filter_filter]
  exact forall₂_alike h hties _

/-- Ties are about one topic, so the order of the notes fixes that of the topics. -/
theorem topicsOf_perm (h : notes.Perm notes') : topicsOf notes = topicsOf notes' := by
  have hsorted : Rearranged Note.order (inOrder notes) (inOrder notes') := rearranged_sorted h
  rw [topicsOf, topicsOf, hsorted.map_eq fun a _ b _ heq => (Note.order_eq_iff.1 heq).1]

/-- The places of the links to a topic come in the same order. Notes that tie may differ in their
links, but then the places they leave are spelled alike. -/
theorem linksTo_perm (h : notes.Perm notes') (hties : TiesAgree notes) (t : Topic) :
    linksTo notes t = linksTo notes' t := by
  have hsorted : Rearranged Note.order (inOrder notes) (inOrder notes') := rearranged_sorted h
  have : Std.TransCmp fun x y : Note × Topic => Note.order x.1 y.1 := transCmp_fst
  -- links tie if their notes do, wherever the links lead; those to `t` are picked out after that
  refine ((hsorted.pairs Note.mentions).filter fun link => link.2 = t).map_eq ?_
  intro x hx y hy heq
  have hmem : ∀ z ∈ (linksOf notes).filter fun link => link.2 = t, z.1 ∈ notes := by
    intro z hz
    obtain ⟨n, hn, hz⟩ := List.mem_flatMap.1 (List.mem_filter.1 hz).1
    obtain ⟨_, _, rfl⟩ := List.mem_map.1 hz
    exact mem_inOrder.1 hn
  exact (hties x.1 (hmem x hx) y.1 (hmem y hy) (Note.order_eq_iff.1 heq)).1

/-- The history leaves the same outline. -/
theorem grow_history_perm (h : notes.Perm notes') (hties : TiesAgree notes) :
    Outline.empty.grow (history notes) = Outline.empty.grow (history notes') :=
  grow_history_congr (fun _ => (h.flatMap_right _).mem_iff) (merge_notesAt_perm h hties)
    (linksTo_perm h hties)

/-- **Order independence.** Two orders of the same notes have the same outline and the same
issues in the same order, as long as notes that tie spell their position alike and, as
declarations, mark the same code. -/
theorem build_perm (h : notes.Perm notes') (hties : TiesAgree notes) :
    build notes = build notes' := by
  have hdisagreements : disagreementsOf notes = disagreementsOf notes' := by
    simp only [disagreementsOf, topicsOf_perm h, merge_notesAt_perm h hties]
  have hclaims : claimsOf notes = claimsOf notes' := by
    simp only [claimsOf, topicsOf_perm h, merge_notesAt_perm h hties]
  rw [build_eq, build_eq, grow_history_perm h hties, hdisagreements, hclaims]

end Permutation

/-- Four notes at one place. The two declarations tie although their titles are spelled
differently and only one of them has a link, and the two blocks tie although only one of them is
collected. -/
def tiedNotes : List Note :=
  [⟨.single "A", ⟨"a.go", 3, 1⟩, .declaration (some "x") (some "f") []⟩,
   ⟨.single "A", ⟨"a.go", 3, 1⟩, .declaration (some " x ") (some "f") [.single "B"]⟩,
   ⟨.single "A", ⟨"a.go", 3, 1⟩, .block ⟨none, some "N", some "T", [], true⟩⟩,
   ⟨.single "A", ⟨"a.go", 3, 1⟩, .block ⟨none, some "N", some "T", [], false⟩⟩]

theorem build_tiedNotes_reverse :
    tiedNotes.Perm tiedNotes.reverse ∧ TiesAgree tiedNotes ∧
      build tiedNotes = build tiedNotes.reverse := by
  have hperm : tiedNotes.Perm tiedNotes.reverse := (List.reverse_perm _).symm
  have hposition : ∀ n ∈ tiedNotes, n.position = ⟨"a.go", 3, 1⟩ := by decide
  have hsymbol : ∀ n ∈ tiedNotes, n.kind = .declaration → n.symbol = some "f" := by decide
  have hties : TiesAgree tiedNotes := by
    intro a ha b hb htie
    refine ⟨(hposition a ha).trans (hposition b hb).symm, fun hkind => ?_⟩
    have hkind' : b.kind = .declaration := htie.2.2.1 ▸ hkind
    rw [hsymbol a ha hkind, hsymbol b hb hkind']
  exact ⟨hperm, hties, build_perm hperm hties⟩

end Outline

end Marginalia
