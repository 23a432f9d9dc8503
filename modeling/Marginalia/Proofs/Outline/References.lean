/-
References leave footprints and nothing else.

A reference says only that a topic matters somewhere, so putting references
into a list of notes should add their places to the outline and change nothing
that was there. Two outlines are compared here, one of some notes and one of
the same notes with references spread among them.

Every stage of building is looked at once. The sort does not disturb the notes
that were there, however the references tie with them, and that carries over to
the notes about one topic. Of these a merge reads all but the places of the
references from its declarations and blocks, and a reference is neither. It has
no links. So the disagreements, the links, the nicknames asked for and with them
the collisions are **the same lists** for both outlines, and an entry can differ
in its references and, since references name topics, in its children.
-/
import Marginalia.Proofs.Outline.Shape

set_option autoImplicit false

namespace Marginalia

open Arranged
open Topic (Named)

theorem Note.mentions_of_reference {n : Note} (h : n.kind = .reference) : n.mentions = [] := by
  cases hform : n.form <;> simp_all [kind, mentions]

/-! ## Merging -/

/-- **References do not count in a merge**, apart from their places. -/
theorem Merge.merge_interleaved {group refs all : List Note} (h : Interleaved group refs all)
    (hrefs : ∀ r ∈ refs, r.kind = .reference) :
    merge all = { merge group with
      referenceSites := (all.filter fun n => n.kind = .reference).map Note.position } := by
  have hdeclarations : (all.filter fun n => n.kind = .declaration)
      = group.filter fun n => n.kind = .declaration := by
    apply h.filter_eq
    intro r hr
    rw [hrefs r hr]
    rfl
  have hblocks : (all.filter fun n => n.kind = .block) = group.filter fun n => n.kind = .block := by
    apply h.filter_eq
    intro r hr
    rw [hrefs r hr]
    rfl
  simp only [merge, hdeclarations, hblocks]

namespace Outline

/-! ## Notes with references among them -/

section Among

variable {notes refs all : List Note}

theorem notesAt_interleaved (h : Interleaved notes refs all) (t : Topic) :
    Interleaved (notesAt notes t) (notesAt refs t) (notesAt all t) :=
  h.sorted.filter _

theorem mem_of_interleaved (h : Interleaved notes refs all) {n : Note} :
    n ∈ all ↔ n ∈ notes ∨ n ∈ refs := by
  rw [h.perm.mem_iff, List.mem_append]

/-- Whatever was named is still named. -/
theorem named_interleaved (h : Interleaved notes refs all) {p : Topic}
    (hp : Named (spokenOf notes) p) : Named (spokenOf all) p := by
  obtain ⟨n, hn, t, ht, hfront⟩ := named_spokenOf_iff.1 hp
  exact named_spokenOf_iff.2 ⟨n, (mem_of_interleaved h).2 (.inl hn), t, ht, hfront⟩

/-- What is gathered topic by topic is the same, if a topic that has references only brings
nothing. -/
theorem flatMap_topicsOf_interleaved {β : Type} (h : Interleaved notes refs all)
    {f g : Topic → List β} (hsame : ∀ t, g t = f t)
    (hnone : ∀ t, notesAt notes t = [] → f t = []) :
    (topicsOf all).flatMap g = (topicsOf notes).flatMap f := by
  -- the topics of the notes are among those of all, in the same order
  have htopics : topicsOf notes = (topicsOf all).filter (· ∈ topicsOf notes) := by
    refine eq_of_pairwise_lt id (pairwise_topicsOf notes)
      ((pairwise_topicsOf all).sublist List.filter_sublist) fun t => ?_
    rw [List.mem_filter, decide_eq_true_eq, mem_topicsOf, mem_topicsOf]
    constructor
    · rintro ⟨n, hn, rfl⟩
      exact ⟨⟨n, (mem_of_interleaved h).2 (.inl hn), rfl⟩, n, hn, rfl⟩
    · exact And.right
  have hgf : g = f := funext hsame
  rw [hgf, htopics]
  symm
  apply flatMap_filter_of_nil
  intro t _ ht
  apply hnone
  by_contra hne
  simp [notesAt_ne_nil_iff.1 hne] at ht

variable (hrefs : ∀ r ∈ refs, r.kind = .reference)
include hrefs

theorem merge_notesAt_interleaved (h : Interleaved notes refs all) (t : Topic) :
    Merge.merge (notesAt all t) = { Merge.merge (notesAt notes t) with
      referenceSites :=
        ((notesAt all t).filter fun n => n.kind = .reference).map Note.position } := by
  refine Merge.merge_interleaved (notesAt_interleaved h t) fun r hr => ?_
  exact hrefs r (mem_notesAt.1 hr).1

/-- The links are the same, in the same order. -/
theorem linksTo_interleaved (h : Interleaved notes refs all) (t : Topic) :
    linksTo all t = linksTo notes t := by
  have hlinks : linksOf all = linksOf notes := by
    unfold linksOf
    apply h.sorted.flatMap_eq
    intro r hr
    rw [Note.mentions_of_reference (hrefs r (mem_inOrder.1 hr))]
    rfl
  unfold linksTo
  rw [hlinks]

theorem disagreementsOf_interleaved (h : Interleaved notes refs all) :
    disagreementsOf all = disagreementsOf notes := by
  apply flatMap_topicsOf_interleaved h
  · intro t
    rw [merge_notesAt_interleaved hrefs h]
  · intro t hempty
    rw [hempty]
    rfl

theorem claimsOf_interleaved (h : Interleaved notes refs all) :
    claimsOf all = claimsOf notes := by
  apply flatMap_topicsOf_interleaved h
  · intro t
    rw [merge_notesAt_interleaved hrefs h]
  · intro t hempty
    rw [hempty]
    rfl

theorem collisionsOf_interleaved (h : Interleaved notes refs all) :
    collisionsOf all = collisionsOf notes := by
  unfold collisionsOf
  rw [claimsOf_interleaved hrefs h]

/-- A topic that is new is at or above that of a reference. -/
theorem exists_reference_of_named (h : Interleaved notes refs all) {p : Topic}
    (hp : Named (spokenOf all) p) (hnew : ¬ Named (spokenOf notes) p) :
    ∃ r ∈ refs, p.segments <+: r.topic.segments := by
  obtain ⟨n, hn, t, ht, hfront⟩ := named_spokenOf_iff.1 hp
  rcases (mem_of_interleaved h).1 hn with hn | hn
  · exact absurd (named_spokenOf_iff.2 ⟨n, hn, t, ht, hfront⟩) hnew
  · rw [Note.mentions_of_reference (hrefs n hn), List.mem_singleton] at ht
    exact ⟨n, hn, ht ▸ hfront⟩

end Among

/-! ## Entries -/

/-- **What references may leave in an outline.** Compared with the outline `before` they were put
in, the outline `after` has their places and the topics they name, and is the same otherwise. -/
structure Footprints (refs : List Note) (before after : Outline) : Prop where
  nicknames : after.nicknames = before.nicknames
  /-- An entry that was there keeps all but its references and its children. -/
  kept : ∀ p e, before.entry? p = some e → ∃ e', after.entry? p = some e' ∧
    e' = { e with referenceSites := e'.referenceSites, children := e'.children } ∧
    (∀ s ∈ SortedSet.elements e.children, s ∈ SortedSet.elements e'.children) ∧
    -- the places of the references to the topic come in, and all places are in order
    e.referenceSites.Sublist e'.referenceSites ∧
    e'.referenceSites.Perm
      (e.referenceSites ++ (refs.filter fun r => r.topic = p).map Note.position) ∧
    e'.referenceSites.Pairwise fun a b => (compare a b).isLE
  /-- An entry that is new has nothing but references and children. -/
  fresh : ∀ p e', after.entry? p = some e' → before.entry? p = none →
    e' = { Entry.structural p with
      referenceSites := e'.referenceSites, children := e'.children } ∧
    ∃ r ∈ refs, p.segments <+: r.topic.segments

section Entries

variable {notes refs all : List Note} {p : Topic} {e e' : Entry}

theorem referenceSites_build (he : (build notes).1.entries.get? p = some e) :
    e.referenceSites
      = ((notesAt notes p).filter fun n => n.kind = .reference).map Note.position := by
  rw [entry_build he]
  rfl

/-- The references to a topic, from the notes as they came. -/
theorem perm_references (hrefs : ∀ r ∈ refs, r.kind = .reference) (p : Topic) :
    (((notesAt refs p).filter fun n => n.kind = .reference).map Note.position).Perm
      ((refs.filter fun r => r.topic = p).map Note.position) := by
  have hall : (notesAt refs p).filter (fun n => n.kind = .reference) = notesAt refs p := by
    refine List.filter_eq_self.2 fun n hn => ?_
    rw [hrefs n (mem_notesAt.1 hn).1]
    rfl
  rw [hall]
  exact ((List.mergeSort_perm refs _).filter _).map _

/-- An entry is the same for both, up to references and children. -/
theorem entry_interleaved (hrefs : ∀ r ∈ refs, r.kind = .reference)
    (h : Interleaved notes refs all) (he : (build notes).1.entries.get? p = some e)
    (he' : (build all).1.entries.get? p = some e') :
    e' = { e with referenceSites := e'.referenceSites, children := e'.children } := by
  have hlosers : losersOf all = losersOf notes := by
    unfold losersOf
    rw [collisionsOf_interleaved hrefs h]
  have hafter := entry_build he'
  rw [merge_notesAt_interleaved hrefs h, linksTo_interleaved hrefs h, hlosers,
    ← referenceSites_build he'] at hafter
  rw [entry_build he]
  exact hafter

/-- The places of the references come in. -/
theorem references_interleaved (hrefs : ∀ r ∈ refs, r.kind = .reference)
    (h : Interleaved notes refs all) (he : (build notes).1.entries.get? p = some e)
    (he' : (build all).1.entries.get? p = some e') :
    e.referenceSites.Sublist e'.referenceSites ∧
    e'.referenceSites.Perm
      (e.referenceSites ++ (refs.filter fun r => r.topic = p).map Note.position) ∧
    e'.referenceSites.Pairwise fun a b => (compare a b).isLE := by
  have hsites := ((notesAt_interleaved h p).filter fun n => n.kind = .reference).map Note.position
  rw [← referenceSites_build he, ← referenceSites_build he'] at hsites
  refine ⟨hsites.sublist, hsites.perm.trans ((perm_references hrefs p).append_left _), ?_⟩
  rw [referenceSites_build he', List.pairwise_map]
  exact (pairwise_notesAt all p).sublist List.filter_sublist

/-- An entry for a topic that was not named is what merging nothing leaves. -/
theorem entry_fresh (hrefs : ∀ r ∈ refs, r.kind = .reference) (h : Interleaved notes refs all)
    (hnew : ¬ Named (spokenOf notes) p) (he' : (build all).1.entries.get? p = some e') :
    e' = { Entry.structural p with
      referenceSites := e'.referenceSites, children := e'.children } := by
  have hnotes : notesAt notes p = [] := by
    by_contra hne
    exact hnew (named_of_mem_topicsOf (notesAt_ne_nil_iff.1 hne))
  have hlinks : linksTo notes p = [] := by
    rw [List.eq_nil_iff_forall_not_mem]
    intro x hx
    obtain ⟨n, hn, hp, -⟩ := mem_linksTo.1 hx
    exact hnew (named_spokenOf_iff.2 ⟨n, hn, p, List.mem_cons_of_mem _ hp, List.prefix_rfl⟩)
  have hafter := entry_build he'
  rw [merge_notesAt_interleaved hrefs h, linksTo_interleaved hrefs h, hnotes, hlinks,
    ← referenceSites_build he'] at hafter
  -- losing a nickname does not matter where there is no content
  have hcontent : (Merge.merge []).content = none := rfl
  have hplaces : distinctPlaces [] = [] := by simp [distinctPlaces]
  rw [hcontent, Option.map_none, ite_self, hplaces] at hafter
  exact hafter

/-- **References leave footprints only**, wherever they are put among the notes. -/
theorem build_footprints (hrefs : ∀ r ∈ refs, r.kind = .reference)
    (h : Interleaved notes refs all) :
    (build all).2 = (build notes).2 ∧ Footprints refs (build notes).1 (build all).1 := by
  have hclaims := claimsOf_interleaved hrefs h
  refine ⟨?_, ?_, fun p e he => ?_, fun p e' he' hnone => ?_⟩
  · rw [issues_build, issues_build, disagreementsOf_interleaved hrefs h,
      collisionsOf_interleaved hrefs h]
  · rw [build_eq, build_eq, bind_eq, bind_eq, hclaims]
  · have hnamed := (isSome_get?_build notes p).1 (Option.isSome_of_mem he)
    have hnamed' := named_interleaved h hnamed
    obtain ⟨e', he'⟩ := Option.isSome_iff_exists.1 ((isSome_get?_build all p).2 hnamed')
    refine ⟨e', he', entry_interleaved hrefs h he he', ?_, references_interleaved hrefs h he he'⟩
    intro s hs
    rw [(grown_build notes).child_iff he] at hs
    rw [(grown_build all).child_iff he']
    exact named_interleaved h hs
  · have hnew : ¬ Named (spokenOf notes) p := by
      rw [← isSome_get?_build, Option.not_isSome_iff_eq_none]
      exact hnone
    have hnamed := (isSome_get?_build all p).1 (Option.isSome_of_mem he')
    exact ⟨entry_fresh hrefs h hnew he', exists_reference_of_named hrefs h hnamed hnew⟩

/-- Notes with a reference of their own. -/
def referredNotes : List Note :=
  [⟨.single "A", ⟨"s/a.go", 3, 1⟩, .reference⟩,
   ⟨.single "A", ⟨"s/a.go", 1, 1⟩, .declaration (some "x") (some "f") [.single "B"]⟩]

/-- References to put among them. The first is to the place of the one that is there, in another
spelling, and the second names a topic that is new. -/
def addedReferences : List Note :=
  [⟨.single "A", ⟨"s//a.go", 3, 1⟩, .reference⟩,
   ⟨(Topic.single "A").child "C", ⟨"s/a.go", 2, 1⟩, .reference⟩]

def mixedNotes : List Note :=
  addedReferences.take 1 ++ referredNotes.take 1 ++ addedReferences.drop 1 ++ referredNotes.drop 1

theorem build_mixedNotes :
    (∀ r ∈ addedReferences, r.kind = .reference) ∧
    Interleaved referredNotes addedReferences mixedNotes ∧
    (build mixedNotes).2 = (build referredNotes).2 ∧
    Footprints addedReferences (build referredNotes).1 (build mixedNotes).1 := by
  have hrefs : ∀ r ∈ addedReferences, r.kind = .reference := by decide
  have h : Interleaved referredNotes addedReferences mixedNotes :=
    .right (.left (.right (.left .nil)))
  exact ⟨hrefs, h, build_footprints hrefs h⟩

end Entries

end Outline

end Marginalia
