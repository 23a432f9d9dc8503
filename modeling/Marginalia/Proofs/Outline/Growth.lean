/-
How an outline grows, and what a history of changes leaves behind.

Everything that builds an outline does so through `update`, which first puts
in the missing topics from the top down and then changes one entry. Two facts
about it carry the theory. The **shape** (which topics have an entry, the
children listed in each, the roots) depends only on which topics were ever
updated: it is `Grown`. And the **record** of a topic (its entry apart from
the children) depends only on the changes made to that topic, in their order.
Together they say what an outline is without saying how it was built, and that
two histories with the same topics and the same records give one outline.

The invariant `Grown` is not kept by a single `attach`: an entry must not come
in before its parent does. So the step lemma for `attach` asks for the parent,
and `ensure` is handled by induction along the topic.
-/
import Marginalia.Outline.Build
import Marginalia.Proofs.Data.Lookup
import Marginalia.Proofs.Topic

set_option autoImplicit false

namespace Marginalia

open Topic (Named)

/-! ## Changes -/

/-- A change to the entry of a topic, which leaves the entry's topic alone and neither reads nor
writes its children. -/
structure Touch where
  topic : Topic
  change : Entry → Entry
  keepsTopic : ∀ e, (change e).topic = e.topic
  ignoresChildren : ∀ e c, change { e with children := c } = { change e with children := c }

theorem Touch.children_change (touch : Touch) (e : Entry) :
    (touch.change e).children = e.children := by
  have h : touch.change e = { touch.change e with children := e.children } :=
    touch.ignoresChildren e e.children
  rw [h]

namespace Outline

/-- The outline after some changes. -/
def grow (outline : Outline) (touches : List Touch) : Outline :=
  touches.foldl (fun o touch => o.update touch.topic touch.change) outline

theorem grow_append (outline : Outline) (first second : List Touch) :
    outline.grow (first ++ second) = (outline.grow first).grow second := by
  rw [grow, List.foldl_append]
  rfl

/-! ## Shape -/

/-- A table of entries that fits these topics: a topic has an entry exactly if it is named, each
entry is about its key, and the children it lists are exactly those that are named. -/
structure Linked (entries : SortedMap Topic Entry) (topics : List Topic) : Prop where
  isSome_iff : ∀ p, (entries.get? p).isSome ↔ Named topics p
  topic_eq : ∀ {p e}, entries.get? p = some e → e.topic = p
  child_iff : ∀ {p e s}, entries.get? p = some e →
    (s ∈ SortedSet.elements e.children ↔ Named topics (p.child s))

/-- **The shape of an outline of these topics.** The entries fit the topics, and the roots are the
first segments of what is named. -/
structure Grown (outline : Outline) (topics : List Topic) : Prop
    extends Linked outline.entries topics where
  root_iff : ∀ s, s ∈ SortedSet.elements outline.roots ↔ Named topics (.single s)

theorem grown_empty : Grown Outline.empty [] where
  isSome_iff p := by simp [Outline.empty, Topic.not_named_nil]
  topic_eq h := by simp [Outline.empty] at h
  child_iff h := by simp [Outline.empty] at h
  root_iff s := by simp [Outline.empty, Topic.not_named_nil]

theorem Linked.congr {entries : SortedMap Topic Entry} {topics topics' : List Topic}
    (h : Linked entries topics) (hnamed : ∀ p, Named topics p ↔ Named topics' p) :
    Linked entries topics' where
  isSome_iff p := (h.isSome_iff p).trans (hnamed p)
  topic_eq := h.topic_eq
  child_iff hp := (h.child_iff hp).trans (hnamed _)

theorem Linked.named {entries : SortedMap Topic Entry} {topics : List Topic}
    (h : Linked entries topics) {p : Topic} {e : Entry} (hp : entries.get? p = some e) :
    Named topics p := by
  rw [← h.isSome_iff, hp, Option.isSome_some]

/-- `attach` puts in the topic's entry, lists the topic with its parent, and leaves every other
entry as it is. -/
theorem get?_attach (outline : Outline) (t k : Topic) :
    (outline.attach t).entries.get? k
      = if k = t then some ((outline.entries.get? t).getD (.structural t))
        else if t.parent? = some k then
          (outline.entries.get? k).map fun e =>
            { e with children := SortedSet.add e.children t.name }
        else outline.entries.get? k := by
  simp only [attach]
  cases hp : t.parent? with
  | none =>
    rw [SortedMap.get?_insertNew]
    simp
  | some parent =>
    obtain ⟨s, rfl⟩ := Topic.parent?_eq_some_iff.1 hp
    have hne : parent.child s ≠ parent := Topic.child_ne_self parent s
    rw [SortedMap.get?_insertNew, SortedMap.get?_modify, SortedMap.get?_modify, if_neg hne]
    by_cases hk : k = parent.child s
    · rw [if_pos hk, if_pos hk]
    · rw [if_neg hk, if_neg hk]
      by_cases hkp : k = parent
      · rw [if_pos hkp, if_pos (by rw [hkp]), hkp]
      · rw [if_neg hkp, if_neg (by simpa using Ne.symm hkp)]

/-- At or above a topic whose parent is named, only the topic itself can be new. -/
private theorem named_cons_of_ne {topics : List Topic} {t p : Topic}
    (hparent : ∀ q, t.parent? = some q → Named topics q) (hne : p ≠ t) :
    Named (t :: topics) p ↔ Named topics p := by
  rw [Topic.named_cons]
  constructor
  · rintro (h | h)
    -- strictly above `t` is at or above its parent
    · induction t using Topic.induction_child with
      | single s => exact absurd (Topic.prefix_single_iff.1 h) hne
      | child q s _ =>
        rcases Topic.prefix_child_iff.1 h with h | h
        · exact absurd h hne
        · exact (hparent q (Topic.parent?_child q s)).above h
    · exact h
  · exact .inr

/-- **One step of growth.** Putting in a topic whose parent is named keeps the entries fitting. -/
theorem Linked.attach {outline : Outline} {topics : List Topic} {t : Topic}
    (h : Linked outline.entries topics) (hparent : ∀ q, t.parent? = some q → Named topics q) :
    Linked (outline.attach t).entries (t :: topics) where
  isSome_iff k := by
    rw [get?_attach]
    by_cases hk : k = t
    · subst hk
      simp
    · rw [if_neg hk, named_cons_of_ne hparent hk]
      by_cases hp : t.parent? = some k
      · rw [if_pos hp, Option.isSome_map, h.isSome_iff]
      · rw [if_neg hp, h.isSome_iff]
  topic_eq {k e} he := by
    rw [get?_attach] at he
    by_cases hk : k = t
    · subst hk
      rw [if_pos rfl] at he
      cases hold : outline.entries.get? k with
      | none =>
        rw [hold] at he
        cases he
        rfl
      | some e' =>
        rw [hold] at he
        cases he
        exact h.topic_eq hold
    · rw [if_neg hk] at he
      by_cases hp : t.parent? = some k
      · rw [if_pos hp] at he
        obtain ⟨e', he', rfl⟩ := Option.map_eq_some_iff.1 he
        have htopic : e'.topic = k := h.topic_eq he'
        exact htopic
      · rw [if_neg hp] at he
        exact h.topic_eq he
  child_iff {k e s} he := by
    rw [get?_attach] at he
    by_cases hk : k = t
    · -- nothing below the new topic is named, unless the topic was there before
      subst hk
      rw [if_pos rfl] at he
      rw [named_cons_of_ne hparent (Topic.child_ne_self k s)]
      cases hold : outline.entries.get? k with
      | none =>
        have hnone : ¬ Named topics k := by simp [← h.isSome_iff, hold]
        rw [hold] at he
        cases he
        refine ⟨fun hs => absurd hs (SortedSet.mem_elements_empty s), fun hs => ?_⟩
        exact absurd hs.of_child hnone
      | some e' =>
        rw [hold] at he
        cases he
        exact h.child_iff hold
    · rw [if_neg hk] at he
      by_cases hp : t.parent? = some k
      · rw [if_pos hp] at he
        obtain ⟨e', he', rfl⟩ := Option.map_eq_some_iff.1 he
        obtain ⟨s', rfl⟩ := Topic.parent?_eq_some_iff.1 hp
        rw [SortedSet.mem_elements_add, h.child_iff he', Topic.name_child]
        by_cases hs : s = s'
        · subst hs
          simp
        -- a sibling of the new topic, which names nothing but its own line
        · have hne : k.child s ≠ k.child s' := fun h => hs (Topic.child_inj.1 h).2
          rw [named_cons_of_ne hparent hne]
          simp [hs]
      · rw [if_neg hp] at he
        have hne : k.child s ≠ t := fun h => hp (Topic.parent?_eq_some_iff.2 ⟨s, h.symm⟩)
        rw [h.child_iff he, named_cons_of_ne hparent hne]

/-- Putting in a topic from the top down keeps the entries fitting. -/
theorem Linked.foldl_attach {outline : Outline} {topics : List Topic}
    (h : Linked outline.entries topics) (t : Topic) :
    Linked (t.lineage.foldl Outline.attach outline).entries (t :: topics) := by
  induction t using Topic.induction_child with
  | single s => exact h.attach (by simp)
  | child p s ih =>
    rw [Topic.lineage_child, List.foldl_append]
    have hstep : Linked ((p.lineage.foldl Outline.attach outline).attach (p.child s)).entries
        (p.child s :: p :: topics) := by
      refine ih.attach fun q hq => ?_
      rw [Topic.parent?_child, Option.some_inj] at hq
      subst hq
      simp
    -- the parent, put in on the way, names nothing that the child does not
    refine hstep.congr fun q => ?_
    rw [Topic.named_cons, Topic.named_cons, Topic.named_cons, ← or_assoc]
    refine or_congr_left (or_iff_left_of_imp fun hq => ?_)
    exact hq.trans (List.prefix_append _ _)

/-- Putting in entries leaves roots and nicknames alone. -/
theorem foldl_attach_eq (outline : Outline) (topics : List Topic) :
    topics.foldl attach outline
      = { outline with entries := (topics.foldl attach outline).entries } := by
  induction topics generalizing outline with
  | nil => rfl
  | cons t topics ih =>
    rw [List.foldl_cons]
    exact ih _

/-- **`ensure` names its topic**, whether or not it had to put anything in. -/
theorem Grown.ensure {outline : Outline} {topics : List Topic} (h : Grown outline topics)
    (t : Topic) : Grown (outline.ensure t) (t :: topics) := by
  have hlinked := h.toLinked
  by_cases ht : outline.entries.contains t
  -- the topic is there already, and so is everything above it
  · have hnamed : Named topics t := (h.isSome_iff t).1 ht
    have hsame : ∀ p, Named topics p ↔ Named (t :: topics) p := fun p => by
      rw [Topic.named_cons]
      exact (or_iff_right_of_imp fun hp => hnamed.above hp).symm
    rw [Outline.ensure, if_pos ht]
    exact ⟨hlinked.congr hsame, fun s => (h.root_iff s).trans (hsame _)⟩
  · rw [Outline.ensure, if_neg ht]
    refine ⟨?_, fun s => ?_⟩
    · exact @Linked.foldl_attach { outline with roots := SortedSet.add outline.roots t.root }
        topics hlinked t
    · rw [foldl_attach_eq, SortedSet.mem_elements_add, h.root_iff, Topic.named_cons,
        Topic.single_prefix_iff]

/-- A change to an entry leaves the shape. -/
theorem Grown.modify {outline : Outline} {topics : List Topic} (h : Grown outline topics)
    (touch : Touch) :
    Grown { outline with entries := outline.entries.modify touch.topic touch.change } topics := by
  have hget : ∀ {p e}, (outline.entries.modify touch.topic touch.change).get? p = some e →
      ∃ e', outline.entries.get? p = some e' ∧ e.topic = e'.topic ∧ e.children = e'.children := by
    intro p e he
    rw [SortedMap.get?_modify] at he
    by_cases hp : p = touch.topic
    · rw [if_pos hp, ← hp] at he
      obtain ⟨e', he', rfl⟩ := Option.map_eq_some_iff.1 he
      exact ⟨e', he', touch.keepsTopic e', touch.children_change e'⟩
    · rw [if_neg hp] at he
      exact ⟨e, he, rfl, rfl⟩
  -- the entries look the same from outside, so each part of the shape goes over
  refine { isSome_iff := fun p => ?_, topic_eq := fun he => ?_, child_iff := fun he => ?_,
           root_iff := h.root_iff }
  · rw [← h.isSome_iff, SortedMap.get?_modify]
    by_cases hp : p = touch.topic
    · rw [if_pos hp, hp, Option.isSome_map]
    · rw [if_neg hp]
  · obtain ⟨e', he', htopic, _⟩ := hget he
    rw [htopic, h.topic_eq he']
  · obtain ⟨e', he', _, hchildren⟩ := hget he
    rw [hchildren, h.child_iff he']

/-- **The shape after a history** is that of all topics touched. -/
theorem Grown.grow {outline : Outline} {topics : List Topic} (h : Grown outline topics)
    (touches : List Touch) :
    Grown (outline.grow touches) ((touches.map Touch.topic).reverse ++ topics) := by
  induction touches generalizing outline topics with
  | nil => exact h
  | cons touch touches ih =>
    have hstep : Grown (outline.update touch.topic touch.change) (touch.topic :: topics) :=
      (h.ensure touch.topic).modify touch
    have hrest := ih hstep
    rwa [List.map_cons, List.reverse_cons, List.append_assoc]

theorem nicknames_grow (outline : Outline) (touches : List Touch) :
    (outline.grow touches).nicknames = outline.nicknames := by
  have hensure : ∀ (o : Outline) (t : Topic), (o.ensure t).nicknames = o.nicknames := by
    intro o t
    rw [ensure]
    split
    · rfl
    · rw [foldl_attach_eq]
  induction touches generalizing outline with
  | nil => rfl
  | cons touch touches ih => exact (ih _).trans (hensure _ _)

/-! ## Records -/

/-- The entry of a topic without its children. A topic that has no entry has an empty record. -/
def record (outline : Outline) (p : Topic) : Entry :=
  ((outline.entries.get? p).map fun e => { e with children := SortedMap.empty }).getD
    (.structural p)

@[simp]
theorem record_empty (p : Topic) : Outline.empty.record p = .structural p := rfl

theorem record_attach (outline : Outline) (t p : Topic) :
    (outline.attach t).record p = outline.record p := by
  rw [record, record, get?_attach]
  by_cases hp : p = t
  · rw [if_pos hp, hp]
    cases outline.entries.get? t <;> rfl
  · rw [if_neg hp]
    by_cases hparent : t.parent? = some p
    · rw [if_pos hparent]
      cases outline.entries.get? p <;> rfl
    · rw [if_neg hparent]

/-- Putting in topics writes nothing down. -/
theorem record_ensure (outline : Outline) (t p : Topic) :
    (outline.ensure t).record p = outline.record p := by
  have hfold : ∀ (topics : List Topic) (o : Outline),
      (topics.foldl attach o).record p = o.record p := by
    intro topics
    induction topics with
    | nil => exact fun o => rfl
    | cons t topics ih => exact fun o => (ih _).trans (record_attach o t p)
  rw [ensure]
  split
  · rfl
  · exact hfold _ _

/-- After `ensure` the topic has an entry. -/
theorem isSome_get?_ensure (outline : Outline) (t : Topic) :
    ((outline.ensure t).entries.get? t).isSome := by
  rw [ensure]
  split
  · rename_i h
    exact h
  · rw [List.foldl_append, List.foldl_cons, List.foldl_nil, get?_attach, if_pos rfl,
      Option.isSome_some]

/-- **One change** is made to the record of its topic and to no other. -/
theorem record_update (outline : Outline) (touch : Touch) (p : Topic) :
    (outline.update touch.topic touch.change).record p
      = if touch.topic = p then touch.change (outline.record p) else outline.record p := by
  rw [← record_ensure outline touch.topic p]
  simp only [update, record, SortedMap.get?_modify]
  by_cases hp : p = touch.topic
  -- the entry is there after `ensure`, and a change does not look at its children
  · subst hp
    obtain ⟨e, he⟩ := Option.isSome_iff_exists.1 (isSome_get?_ensure outline touch.topic)
    simp only [he, if_pos, Option.map_some, Option.getD_some]
    exact (touch.ignoresChildren e _).symm
  · rw [if_neg hp, if_neg (Ne.symm hp)]

/-- **The record after a history**: the changes made to the topic, in order. -/
theorem record_grow (outline : Outline) (touches : List Touch) (p : Topic) :
    (outline.grow touches).record p
      = (touches.filter fun touch => touch.topic = p).foldl (fun e touch => touch.change e)
          (outline.record p) := by
  induction touches generalizing outline with
  | nil => rfl
  | cons touch touches ih =>
    rw [grow, List.foldl_cons, ← grow, ih, record_update]
    by_cases hp : touch.topic = p
    · rw [if_pos hp, List.filter_cons_of_pos (by simpa using hp), List.foldl_cons]
    · rw [if_neg hp, List.filter_cons_of_neg (by simpa using hp)]

/-! ## Shape and records make the outline -/

/-- An entry is its record and its children. -/
theorem entry_eq_record {outline : Outline} {p : Topic} {e : Entry}
    (he : outline.entries.get? p = some e) :
    e = { outline.record p with children := e.children } := by
  rw [record, he]
  rfl

/-- **Extensionality.** Outlines of topics that name the same, with the same records and
nicknames, are equal. -/
theorem Grown.ext {a b : Outline} {topics topics' : List Topic} (ha : Grown a topics)
    (hb : Grown b topics') (hnamed : ∀ p, Named topics p ↔ Named topics' p)
    (hrecord : ∀ p, a.record p = b.record p) (hnicknames : a.nicknames = b.nicknames) : a = b := by
  have hentries : a.entries = b.entries := by
    refine SortedMap.ext_get? fun p => ?_
    -- the shape decides whether there is an entry, and shape and record what it is
    cases hpa : a.entries.get? p with
    | none =>
      have hpb : ¬ (b.entries.get? p).isSome := by
        rw [hb.isSome_iff, ← hnamed, ← ha.isSome_iff, hpa]
        simp
      exact (Option.not_isSome_iff_eq_none.1 hpb).symm
    | some e =>
      have hpb : (b.entries.get? p).isSome := by
        rw [hb.isSome_iff, ← hnamed]
        exact ha.toLinked.named hpa
      obtain ⟨e', hpb⟩ := Option.isSome_iff_exists.1 hpb
      have hchildren : e.children = e'.children := SortedSet.ext_elements fun s => by
        rw [ha.child_iff hpa, hb.child_iff hpb, hnamed]
      rw [hpb, entry_eq_record hpa, entry_eq_record hpb, hrecord, hchildren]
  have hroots : a.roots = b.roots := SortedSet.ext_elements fun s => by
    rw [ha.root_iff, hb.root_iff, hnamed]
  cases a
  cases b
  simp_all

end Outline

end Marginalia
