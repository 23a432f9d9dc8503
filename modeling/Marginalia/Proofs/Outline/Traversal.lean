/-
The walk over an outline is a traversal of its hierarchy.

`walk` lists the entries in the order of their topics and looks at neither the
roots nor the children. A reader who descends does the opposite: from the
roots, visiting each entry, then everything below its children, child by child
(`Visits`). Both see the same sequence, and the reason is the order of topics.
What lies at or below a topic is one stretch of the walk (`under`), it starts
with the topic's own entry, and **the stretches of siblings follow one another
without overlap**. So the stretch of a topic is its entry followed by the
stretches of its children, and the whole walk is the stretches of the roots.

The order of texts would not do: there `a-b` comes between `a` and `a/b`.
-/
import Marginalia.Proofs.Outline.Shape

set_option autoImplicit false

namespace Marginalia

/-! ## Topics apart from each other -/

namespace Topic

theorem isLE_of_prefixed {p q : Topic} (h : p.segments <+: q.segments) : (compare p q).isLE := by
  by_cases hpq : p = q
  · rw [hpq, Std.ReflOrd.compare_self]
    rfl
  · exact Ordering.isLE_of_eq_lt (lt_of_isAbove (isAbove_iff.2 ⟨h, hpq⟩))

/-- What lies below is at or below a child. -/
theorem isAbove_iff_child {p q : Topic} :
    p.isAbove q ↔ ∃ s, (p.child s).segments <+: q.segments := by
  constructor
  · intro h
    obtain ⟨⟨rest, hrest⟩, hne⟩ := isAbove_iff.1 h
    cases rest with
    | nil => exact absurd (ext_segments (by simpa using hrest)) hne
    | cons s rest =>
      refine ⟨s, rest, ?_⟩
      rw [← hrest, segments_child, List.append_assoc]
      rfl
  · rintro ⟨s, h⟩
    refine isAbove_iff.2 ⟨(List.prefix_append _ _).trans h, ?_⟩
    rintro rfl
    have hlen := h.length_le
    rw [segments_child, List.length_append, List.length_singleton] at hlen
    omega

/-- **Stretches do not overlap.** If neither of two topics lies at or below the other, everything
at or below the first comes before everything at or below the second. -/
theorem lt_of_apart {a b x y : Topic} (hab : compare a b = .lt) (hapart : ¬ a.segments <+: b.segments)
    (hx : a.segments <+: x.segments) (hy : b.segments <+: y.segments) : compare x y = .lt := by
  by_contra hlt
  have hyx : (compare y x).isLE := by
    cases hxy : compare x y with
    | lt => exact absurd hxy hlt
    | eq => rw [Std.OrientedCmp.eq_comm.1 hxy]; rfl
    | gt => rw [Std.OrientedCmp.lt_of_gt hxy]; rfl
  -- otherwise the second topic would stand between the first and something below the first
  have hbx : (compare b x).isLE := Std.TransCmp.isLE_trans (isLE_of_prefixed hy) hyx
  have hax : a ≠ x := by
    rintro rfl
    rw [Std.OrientedCmp.gt_of_lt hab] at hbx
    exact absurd hbx (by decide)
  have habove := isAbove_of_between hab hbx (isAbove_iff.2 ⟨hx, hax⟩)
  exact hapart (isAbove_iff.1 habove).1

end Topic

namespace Outline

open Arranged

/-! ## Traversals -/

/-- A depth-first traversal in pre-order, from a list of entries yet to be visited: the first of
them, then what is visited from its children, then what is visited from the others. -/
inductive Visits (outline : Outline) : List Entry → List Entry → Prop where
  | done : Visits outline [] []
  | next {e : Entry} {children others below after : List Entry}
      (hchildren : outline.children? e.topic = some children)
      (hbelow : Visits outline children below) (hafter : Visits outline others after) :
      Visits outline (e :: others) (e :: (below ++ after))

/-- A traversal can go one way only. -/
theorem Visits.unique {outline : Outline} {entries visited visited' : List Entry}
    (h : Visits outline entries visited) (h' : Visits outline entries visited') :
    visited = visited' := by
  induction h generalizing visited' with
  | done =>
    cases h'
    rfl
  | next hchildren _ _ ihbelow ihafter =>
    cases h' with
    | next hchildren' hbelow' hafter' =>
      obtain rfl := Option.some.inj (hchildren.symm.trans hchildren')
      rw [ihbelow hbelow', ihafter hafter']

/-! ## Stretches of the walk -/

/-- The entries at or below a topic. -/
def under (outline : Outline) (p : Topic) : List Entry :=
  outline.walk.filter fun e => p.segments.isPrefixOf e.topic.segments

theorem mem_under {outline : Outline} {p : Topic} {e : Entry} :
    e ∈ outline.under p ↔ e ∈ outline.walk ∧ p.segments <+: e.topic.segments := by
  rw [under, List.mem_filter, List.isPrefixOf_iff_prefix]

section Stretches

variable {outline : Outline} {topics : List Topic}

/-- The stretches of topics with equally many segments make up what is at or below any of them. -/
theorem Linked.flatMap_under (h : Linked outline.entries topics) {tops : List Entry} {n : Nat}
    (hsorted : tops.Pairwise fun a b => compare a.topic b.topic = .lt)
    (hlength : ∀ e ∈ tops, e.topic.segments.length = n) :
    (tops.flatMap fun e => outline.under e.topic)
      = outline.walk.filter fun e => tops.any fun t => t.topic.segments.isPrefixOf e.topic.segments := by
  refine eq_of_pairwise_lt Entry.topic ?_ (h.pairwise_walk.filter _) ?_
  · rw [List.pairwise_flatMap]
    refine ⟨fun e _ => h.pairwise_walk.filter _, ?_⟩
    refine hsorted.imp_of_mem fun {a b} ha hb hab x hx y hy => ?_
    refine Topic.lt_of_apart hab ?_ (mem_under.1 hx).2 (mem_under.1 hy).2
    intro hfront
    have hsame := Topic.ext_segments (hfront.eq_of_length ((hlength a ha).trans (hlength b hb).symm))
    rw [hsame] at hab
    simp at hab
  · intro e
    simp only [List.mem_flatMap, mem_under, List.mem_filter, List.any_eq_true,
      List.isPrefixOf_iff_prefix]
    constructor
    · rintro ⟨t, ht, he, hfront⟩
      exact ⟨he, t, ht, hfront⟩
    · rintro ⟨he, t, ht, hfront⟩
      exact ⟨t, ht, he, hfront⟩

/-- The stretch of a topic starts with its own entry. -/
theorem Linked.under_eq_cons (h : Linked outline.entries topics) {p : Topic} {e : Entry}
    (he : outline.entry? p = some e) :
    outline.under p = e :: outline.walk.filter fun x => p.isAbove x.topic := by
  have htopic : e.topic = p := h.topic_eq he
  refine eq_of_pairwise_lt Entry.topic (h.pairwise_walk.filter _) ?_ ?_
  · rw [List.pairwise_cons]
    refine ⟨fun x hx => ?_, h.pairwise_walk.filter _⟩
    rw [htopic]
    exact Topic.lt_of_isAbove (List.mem_filter.1 hx).2
  · intro x
    rw [mem_under, List.mem_cons, List.mem_filter]
    constructor
    · rintro ⟨hx, hfront⟩
      by_cases hp : p = x.topic
      · have hself := h.mem_walk.1 hx
        rw [← hp, he] at hself
        exact .inl (Option.some.inj hself).symm
      · exact .inr ⟨hx, Topic.isAbove_iff.2 ⟨hfront, hp⟩⟩
    · rintro (rfl | ⟨hx, habove⟩)
      · exact ⟨h.mem_walk.2 (by rw [htopic, he]), [], by rw [List.append_nil, htopic]⟩
      · exact ⟨hx, (Topic.isAbove_iff.1 habove).1⟩

/-- What is at or above an entry's topic has an entry, too. -/
theorem Linked.exists_above (h : Linked outline.entries topics) {p : Topic} {e : Entry}
    (he : e ∈ outline.walk) (hfront : p.segments <+: e.topic.segments) :
    ∃ e' ∈ outline.walk, e'.topic = p := by
  have hnamed := (h.named (h.mem_walk.1 he)).above hfront
  obtain ⟨e', he'⟩ := Option.isSome_iff_exists.1 ((h.isSome_iff p).2 hnamed)
  have htopic : e'.topic = p := h.topic_eq he'
  refine ⟨e', h.mem_walk.2 ?_, htopic⟩
  rw [htopic]
  exact he'

/-- **One step down.** The stretch of a topic is its own entry and then the stretches of its
children. -/
theorem Linked.under_children (h : Linked outline.entries topics) {p : Topic} {e : Entry}
    (he : outline.entry? p = some e) :
    ∃ children, outline.children? p = some children ∧ (∀ c ∈ children, c ∈ outline.walk) ∧
      outline.under p = e :: children.flatMap fun c => outline.under c.topic := by
  refine ⟨outline.walk.filter fun c => c.topic.parent? = some p, ?_, ?_, ?_⟩
  · rw [children?, he, Option.map_some, h.children_eq he]
  · intro c hc
    exact (List.mem_filter.1 hc).1
  have hlength : ∀ c ∈ outline.walk.filter (fun c => c.topic.parent? = some p),
      c.topic.segments.length = p.segments.length + 1 := by
    intro c hc
    obtain ⟨s, hs⟩ := Topic.parent?_eq_some_iff.1 (of_decide_eq_true (List.mem_filter.1 hc).2)
    rw [hs, Topic.segments_child, List.length_append, List.length_singleton]
  rw [h.flatMap_under (h.pairwise_walk.filter _) hlength, h.under_eq_cons he]
  congr 1
  refine List.filter_congr fun x hx => Bool.eq_iff_iff.2 ?_
  rw [Topic.isAbove_iff_child, List.any_eq_true]
  constructor
  · rintro ⟨s, hfront⟩
    obtain ⟨c, hc, htopic⟩ := h.exists_above hx hfront
    refine ⟨c, List.mem_filter.2 ⟨hc, ?_⟩, ?_⟩
    · rw [htopic, Topic.parent?_child, decide_eq_true_eq]
    · rw [htopic, List.isPrefixOf_iff_prefix]
      exact hfront
  · rintro ⟨c, hc, hfront⟩
    obtain ⟨s, hs⟩ := Topic.parent?_eq_some_iff.1 (of_decide_eq_true (List.mem_filter.1 hc).2)
    rw [hs, List.isPrefixOf_iff_prefix] at hfront
    exact ⟨s, hfront⟩

/-- The stretches of the entries without a parent are the whole walk. -/
theorem Linked.flatMap_under_roots (h : Linked outline.entries topics) :
    ((outline.walk.filter fun e => e.topic.parent? = none).flatMap fun e => outline.under e.topic)
      = outline.walk := by
  have hlength : ∀ c ∈ outline.walk.filter (fun c => c.topic.parent? = none),
      c.topic.segments.length = 1 := by
    intro c hc
    obtain ⟨s, hs⟩ := Topic.parent?_eq_none_iff.1 (of_decide_eq_true (List.mem_filter.1 hc).2)
    rw [hs, Topic.segments_single, List.length_singleton]
  rw [h.flatMap_under (h.pairwise_walk.filter _) hlength, List.filter_eq_self]
  intro e he
  have hfront : (Topic.single e.topic.root).segments <+: e.topic.segments :=
    Topic.single_prefix_iff.2 rfl
  obtain ⟨c, hc, htopic⟩ := h.exists_above he hfront
  rw [List.any_eq_true]
  refine ⟨c, List.mem_filter.2 ⟨hc, ?_⟩, ?_⟩
  · rw [htopic, Topic.parent?_single, decide_eq_true_eq]
  · rw [htopic, List.isPrefixOf_iff_prefix]
    exact hfront

/-- **A traversal goes through stretches.** From any entries it visits the stretch of each. -/
theorem Linked.visits (h : Linked outline.entries topics) (tops : List Entry)
    (htops : ∀ e ∈ tops, e ∈ outline.walk) :
    Visits outline tops (tops.flatMap fun e => outline.under e.topic) := by
  -- by the number of visits: the children have fewer below them, and so have the entries behind
  induction hn : (tops.flatMap fun e => outline.under e.topic).length using Nat.strong_induction_on
    generalizing tops with
  | _ n ih =>
    cases tops with
    | nil => exact .done
    | cons e others =>
      have he := h.mem_walk.1 (htops e List.mem_cons_self)
      obtain ⟨children, hchildren, hwalk, hunder⟩ := h.under_children he
      rw [List.flatMap_cons, hunder, List.cons_append] at hn ⊢
      rw [List.length_cons, List.length_append] at hn
      refine .next hchildren (ih _ ?_ children hwalk rfl) (ih _ ?_ others ?_ rfl)
      · omega
      · omega
      · intro x hx
        exact htops x (List.mem_cons_of_mem _ hx)

end Stretches

/-- **The walk is the traversal.** From the roots, descending through the children, exactly the
walk is visited, and the walk has every entry once. -/
theorem walk_is_preorder {notes : List Note} (hread : ∀ t ∈ spokenOf notes, t.Readable) :
    (∀ visited, Visits (build notes).1 (build notes).1.rootEntries visited ↔
      visited = (build notes).1.walk) ∧
    (build notes).1.walk.map Entry.topic = (build notes).1.entries.keys ∧
    (build notes).1.entries.keys.Nodup := by
  have hgrown := grown_build notes
  have h := hgrown.toLinked
  have hvisits : Visits (build notes).1 (build notes).1.rootEntries (build notes).1.walk := by
    have hroots := h.visits (build notes).1.rootEntries
    rw [hgrown.rootEntries_eq hread] at hroots ⊢
    rw [h.flatMap_under_roots] at hroots
    exact hroots fun e he => (List.mem_filter.1 he).1
  refine ⟨fun visited => ⟨fun hvisited => hvisited.unique hvisits, ?_⟩, ?_, ?_⟩
  · rintro rfl
    exact hvisits
  · rw [walk, SortedMap.values, SortedMap.keys, List.map_map]
    refine List.map_congr_left fun x hx => ?_
    exact h.topic_eq (SortedMap.get?_eq_some_iff.2 hx)
  · have hordered : (build notes).1.entries.keys.Pairwise fun a b => compare a b = .lt :=
      List.pairwise_map.2 (build notes).1.entries.ordered
    refine hordered.imp fun {a b} hab => ?_
    rintro rfl
    simp at hab

theorem walk_branchedNotes :
    (∀ t ∈ spokenOf branchedNotes, t.Readable) ∧
    (∀ visited, Visits (build branchedNotes).1 (build branchedNotes).1.rootEntries visited ↔
      visited = (build branchedNotes).1.walk) ∧
    (build branchedNotes).1.walk.map Entry.topic = (build branchedNotes).1.entries.keys ∧
    (build branchedNotes).1.entries.keys.Nodup := by
  have hread : ∀ t ∈ spokenOf branchedNotes, t.Readable := by decide
  exact ⟨hread, walk_is_preorder hread⟩

end Outline

end Marginalia
