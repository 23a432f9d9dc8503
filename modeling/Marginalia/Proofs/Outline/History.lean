/-
The history behind a built outline.

Building sorts the notes, cuts them into groups, and folds over the groups and
then over the links. Said without the folds: the notes about each topic are
merged once, topic by topic, then each link is recorded at its target, and the
nicknames are given out last. `build_eq` is that equation, and the record of
every topic before the nicknames are given out follows from it (`record_history`):
it is the merge of the notes about the topic, together with the places of the
links to it.

This works for topics without notes too, because merging no notes writes
nothing down.
-/
import Marginalia.Proofs.Data.Arranged
import Marginalia.Proofs.Note
import Marginalia.Proofs.Outline.Growth

set_option autoImplicit false

namespace Marginalia.Outline

open Arranged
open Topic (Named)

/-! ## Notes in order -/

/-- Notes by topic, position, form and content; those that tie stay in the order they came. -/
def inOrder (notes : List Note) : List Note :=
  notes.mergeSort fun a b => (Note.order a b).isLE

/-- The notes about a topic, in order. -/
def notesAt (notes : List Note) (t : Topic) : List Note :=
  (inOrder notes).filter fun n => n.topic = t

/-- The topics there are notes about, in order and each once. -/
def topicsOf (notes : List Note) : List Topic :=
  ((inOrder notes).map Note.topic).dedup

/-- Every link, with the note it stands in, in the order of the notes. -/
def linksOf (notes : List Note) : List (Note × Topic) :=
  (inOrder notes).flatMap fun n => n.mentions.map (n, ·)

/-- The places of the links to a topic, in the order of the notes. -/
def linksTo (notes : List Note) (t : Topic) : List Position :=
  ((linksOf notes).filter fun link => link.2 = t).map fun link => link.1.position

/-- The topics that notes are about or link to. -/
def spokenOf (notes : List Note) : List Topic :=
  notes.flatMap fun n => n.topic :: n.mentions

@[simp]
theorem mem_inOrder {notes : List Note} {n : Note} : n ∈ inOrder notes ↔ n ∈ notes :=
  List.mem_mergeSort

theorem pairwise_inOrder (notes : List Note) :
    (inOrder notes).Pairwise fun a b => (Note.order a b).isLE :=
  pairwise_sorted notes

theorem mem_notesAt {notes : List Note} {t : Topic} {n : Note} :
    n ∈ notesAt notes t ↔ n ∈ notes ∧ n.topic = t := by
  rw [notesAt, List.mem_filter, mem_inOrder, decide_eq_true_eq]

/-- The notes about a topic are in the order of their places. -/
theorem pairwise_notesAt (notes : List Note) (t : Topic) :
    (notesAt notes t).Pairwise fun a b => (compare a.position b.position).isLE := by
  refine ((pairwise_inOrder notes).sublist List.filter_sublist).imp_of_mem fun {a b} ha hb hab => ?_
  exact Note.position_isLE hab ((mem_notesAt.1 ha).2.trans (mem_notesAt.1 hb).2.symm)

theorem mem_topicsOf {notes : List Note} {t : Topic} :
    t ∈ topicsOf notes ↔ ∃ n ∈ notes, n.topic = t := by
  simp [topicsOf]

theorem notesAt_ne_nil_iff {notes : List Note} {t : Topic} :
    notesAt notes t ≠ [] ↔ t ∈ topicsOf notes := by
  rw [mem_topicsOf]
  constructor
  · intro h
    obtain ⟨n, hn⟩ := List.exists_mem_of_ne_nil _ h
    exact ⟨n, mem_notesAt.1 hn⟩
  · rintro ⟨n, hn⟩
    exact List.ne_nil_of_mem (mem_notesAt.2 hn)

theorem nodup_topicsOf (notes : List Note) : (topicsOf notes).Nodup :=
  List.nodup_dedup _

/-- The topics come in increasing order. -/
theorem pairwise_topicsOf (notes : List Note) :
    (topicsOf notes).Pairwise fun a b => compare a b = .lt := by
  refine pairwise_lt_of_nodup ?_ (nodup_topicsOf notes)
  refine List.Pairwise.sublist (List.dedup_sublist _) (List.pairwise_map.2 ?_)
  exact (pairwise_inOrder notes).imp Note.topic_isLE

/-- **Groups.** The notes in order, cut wherever the topic changes, are the notes about each
topic. -/
theorem splitBy_inOrder (notes : List Note) :
    ((inOrder notes).splitBy fun a b => a.topic = b.topic)
      = (topicsOf notes).map (notesAt notes) :=
  splitBy_key ((pairwise_inOrder notes).imp Note.topic_isLE)

/-- The links to a topic stand where the notes that mention it do. -/
theorem mem_linksTo {notes : List Note} {t : Topic} {x : Position} :
    x ∈ linksTo notes t ↔ ∃ n ∈ notes, t ∈ n.mentions ∧ n.position = x := by
  rw [linksTo, List.mem_map]
  constructor
  · rintro ⟨link, hlink, rfl⟩
    obtain ⟨hlink, htopic⟩ := List.mem_filter.1 hlink
    obtain ⟨n, hn, hlink⟩ := List.mem_flatMap.1 hlink
    obtain ⟨t', ht, rfl⟩ := List.mem_map.1 hlink
    obtain rfl : t' = t := by simpa using htopic
    exact ⟨n, mem_inOrder.1 hn, ht, rfl⟩
  · rintro ⟨n, hn, ht, rfl⟩
    refine ⟨(n, t), List.mem_filter.2 ⟨List.mem_flatMap.2 ⟨n, mem_inOrder.2 hn, ?_⟩, by simp⟩, rfl⟩
    exact List.mem_map.2 ⟨t, ht, rfl⟩

private theorem mem_of_mem_distinctAfter {last p : Position} {positions : List Position}
    (h : p ∈ distinctAfter last positions) : p ∈ positions := by
  induction positions generalizing last with
  | nil => exact h
  | cons q positions ih =>
    rw [distinctAfter] at h
    split at h
    · exact List.mem_cons_of_mem _ (ih h)
    · rcases List.mem_cons.1 h with rfl | h
      · exact List.mem_cons_self
      · exact List.mem_cons_of_mem _ (ih h)

theorem mem_of_mem_distinctPlaces {p : Position} {positions : List Position}
    (h : p ∈ distinctPlaces positions) : p ∈ positions := by
  have hsorted : p ∈ positions.mergeSort fun a b => (compare a b).isLE := by
    rw [distinctPlaces] at h
    split at h
    · exact absurd h List.not_mem_nil
    · rename_i first later hpositions
      rw [hpositions]
      rcases List.mem_cons.1 h with rfl | h
      · exact List.mem_cons_self
      · exact List.mem_cons_of_mem _ (mem_of_mem_distinctAfter h)
  exact List.mem_mergeSort.1 hsorted

/-! ## What happens to the outline -/

/-- The notes about a topic are merged into its entry. -/
def noted (notes : List Note) (t : Topic) : Touch where
  topic := t
  change := fill (Merge.merge (notesAt notes t))
  keepsTopic _ := rfl
  ignoresChildren _ _ := rfl

/-- A link is recorded at the entry it leads to. -/
def linked (link : Note × Topic) : Touch where
  topic := link.2
  change e := { e with mentionSites := e.mentionSites ++ [link.1.position] }
  keepsTopic _ := rfl
  ignoresChildren _ _ := rfl

/-- All changes made to the outline of some notes, in order. -/
def history (notes : List Note) : List Touch :=
  (topicsOf notes).map (noted notes) ++ (linksOf notes).map linked

/-- The disagreements among the notes, topic by topic. -/
def disagreementsOf (notes : List Note) : List Disagreement :=
  (topicsOf notes).flatMap fun t => (Merge.merge (notesAt notes t)).disagreements

/-- The nicknames asked for, topic by topic. -/
def claimsOf (notes : List Note) : List Claim :=
  (topicsOf notes).flatMap fun t =>
    ((Merge.merge (notesAt notes t)).claim.map fun c => (⟨c.2, t, c.1⟩ : Claim)).toList

/-- Adding a group that is not empty, field by field. -/
private theorem addGroup_notesAt {notes : List Note} {t : Topic} (ht : t ∈ topicsOf notes)
    (draft : Draft) :
    addGroup draft (notesAt notes t) =
      { outline := draft.outline.update t (fill (Merge.merge (notesAt notes t)))
        issues := draft.issues ++
          (Merge.merge (notesAt notes t)).disagreements.map Issue.disagreement
        claims := draft.claims ++
          ((Merge.merge (notesAt notes t)).claim.map fun c => (⟨c.2, t, c.1⟩ : Claim)).toList } := by
  cases hgroup : notesAt notes t with
  | nil => exact absurd hgroup (notesAt_ne_nil_iff.2 ht)
  | cons n group =>
    have hn : n.topic = t := (mem_notesAt.1 (hgroup ▸ List.mem_cons_self)).2
    simp only [addGroup, hn]

/-- Folding over the groups, topic by topic: the outline, the issues and the claims come apart. -/
private theorem foldl_addGroup {notes : List Note} {topics : List Topic}
    (ht : ∀ t ∈ topics, t ∈ topicsOf notes) (draft : Draft) :
    (topics.map (notesAt notes)).foldl addGroup draft =
      { outline := draft.outline.grow (topics.map (noted notes))
        issues := draft.issues ++ (topics.flatMap fun t =>
          (Merge.merge (notesAt notes t)).disagreements.map Issue.disagreement)
        claims := draft.claims ++ topics.flatMap fun t =>
          ((Merge.merge (notesAt notes t)).claim.map fun c => (⟨c.2, t, c.1⟩ : Claim)).toList } := by
  induction topics generalizing draft with
  | nil => simp [grow]
  | cons t topics ih =>
    rw [List.map_cons, List.foldl_cons, addGroup_notesAt (ht t List.mem_cons_self),
      ih fun t' ht' => ht t' (List.mem_cons_of_mem _ ht')]
    simp only [List.flatMap_cons, List.append_assoc]
    rfl

/-- Folding over the notes for their links is folding over the links. -/
private theorem foldl_addMentions (notes : List Note) (outline : Outline) :
    notes.foldl addMentions outline
      = outline.grow ((notes.flatMap fun n => n.mentions.map (n, ·)).map linked) := by
  induction notes generalizing outline with
  | nil => rfl
  | cons n notes ih =>
    have hstep : addMentions outline n = outline.grow ((n.mentions.map (n, ·)).map linked) := by
      rw [addMentions, grow, List.map_map, List.foldl_map]
      rfl
    rw [List.foldl_cons, ih, hstep, List.flatMap_cons, List.map_append, grow_append]

/-- **Building, without the folds.** The history makes the outline; links are put in order, and
the nicknames are given out on top of what the history leaves. -/
theorem build_eq (notes : List Note) :
    build notes = bind
      { outline := settleMentions (Outline.empty.grow (history notes))
        issues := (disagreementsOf notes).map .disagreement
        claims := claimsOf notes }
      SortedMap.empty ((claimsOf notes).mergeSort fun a b => (Claim.order a b).isLE) := by
  -- the groups are folded over first, and only their outline goes on to the links
  have hall : ∀ t ∈ topicsOf notes, t ∈ topicsOf notes := fun _ ht => ht
  have hgroups := foldl_addGroup hall ⟨Outline.empty, [], []⟩
  have hissues : ((topicsOf notes).flatMap fun t =>
      (Merge.merge (notesAt notes t)).disagreements.map Issue.disagreement)
      = (disagreementsOf notes).map .disagreement := by
    rw [disagreementsOf, List.map_flatMap]
  rw [← splitBy_inOrder, List.nil_append, List.nil_append, hissues] at hgroups
  have hsorted : (notes.mergeSort fun a b => (Note.order a b).isLE) = inOrder notes := rfl
  simp only [build, hsorted, hgroups, foldl_addMentions]
  rw [← grow_append]
  rfl

/-! ## What the history leaves -/

/-- The topics touched are those that notes are about or link to. -/
theorem mem_touched_iff {notes : List Note} {t : Topic} :
    t ∈ (history notes).map Touch.topic ↔ t ∈ spokenOf notes := by
  have htopics : (history notes).map Touch.topic
      = topicsOf notes ++ (linksOf notes).map (·.2) := by
    simp only [history, List.map_append, List.map_map]
    congr 1
    exact List.map_id _
  rw [htopics, List.mem_append, mem_topicsOf]
  simp only [linksOf, spokenOf, List.mem_map, List.mem_flatMap, List.mem_cons, mem_inOrder]
  constructor
  · rintro (⟨n, hn, rfl⟩ | ⟨link, ⟨n, hn, t', ht', rfl⟩, rfl⟩)
    · exact ⟨n, hn, .inl rfl⟩
    · exact ⟨n, hn, .inr ht'⟩
  · rintro ⟨n, hn, rfl | ht⟩
    · exact .inl ⟨n, hn, rfl⟩
    · exact .inr ⟨(n, t), ⟨n, hn, t, ht, rfl⟩, rfl⟩

/-- A topic that notes are about is named. -/
theorem named_of_mem_topicsOf {notes : List Note} {t : Topic} (h : t ∈ topicsOf notes) :
    Named (spokenOf notes) t := by
  obtain ⟨n, hn, rfl⟩ := mem_topicsOf.1 h
  exact ⟨n.topic, List.mem_flatMap.2 ⟨n, hn, List.mem_cons_self⟩, List.prefix_rfl⟩

/-- **The shape of the outline** is that of the topics that notes are about or link to. -/
theorem grown_history (notes : List Note) :
    Grown (Outline.empty.grow (history notes)) (spokenOf notes) := by
  have h := grown_empty.grow (history notes)
  have htopics : ∀ t, t ∈ ((history notes).map Touch.topic).reverse ++ [] ↔ t ∈ spokenOf notes := by
    intro t
    rw [List.append_nil, List.mem_reverse, mem_touched_iff]
  have hsame := Topic.named_congr htopics
  exact ⟨h.toLinked.congr hsame, fun s => (h.root_iff s).trans (hsame _)⟩

/-- Recording links appends their places. -/
private theorem foldl_linked (links : List (Note × Topic)) (e : Entry) :
    (links.map linked).foldl (fun e touch => touch.change e) e
      = { e with mentionSites := e.mentionSites ++ links.map fun link => link.1.position } := by
  induction links generalizing e with
  | nil => simp
  | cons link links ih =>
    rw [List.map_cons, List.foldl_cons, ih]
    simp [linked]

/-- Merging no notes writes nothing down. -/
private theorem fill_merge_nil (p : Topic) :
    fill (Merge.merge []) (.structural p) = .structural p := rfl

/-- **The record of a topic** is what its notes come to, with the places of the links to it. -/
theorem record_history (notes : List Note) (p : Topic) :
    (Outline.empty.grow (history notes)).record p =
      { fill (Merge.merge (notesAt notes p)) (.structural p) with
        mentionSites := linksTo notes p } := by
  have hnotes : (((topicsOf notes).map (noted notes)).filter fun touch => touch.topic = p).foldl
      (fun e touch => touch.change e) (.structural p)
      = fill (Merge.merge (notesAt notes p)) (.structural p) := by
    rw [List.filter_map]
    by_cases hp : p ∈ topicsOf notes
    -- the notes about a topic are merged once
    · have hone : (topicsOf notes).filter ((fun touch => decide (touch.topic = p)) ∘ noted notes)
          = [p] := by
        rw [show ((fun touch : Touch => decide (touch.topic = p)) ∘ noted notes) = (· == p) from rfl,
          List.filter_beq, List.count_eq_one_of_mem (nodup_topicsOf notes) hp]
        rfl
      rw [hone]
      rfl
    -- without notes nothing is merged, which is the same as merging no notes
    · have hnone : (topicsOf notes).filter ((fun touch => decide (touch.topic = p)) ∘ noted notes)
          = [] := by
        refine List.filter_eq_nil_iff.2 fun t ht htp => hp ?_
        have htp : t = p := of_decide_eq_true htp
        exact htp ▸ ht
      have hempty : notesAt notes p = [] := by
        by_contra hne
        exact hp (notesAt_ne_nil_iff.1 hne)
      rw [hnone, hempty, fill_merge_nil]
      rfl
  rw [record_grow, history, List.filter_append, List.foldl_append, record_empty, hnotes,
    List.filter_map, foldl_linked]
  rfl

/-! ## Two histories -/

variable {notes notes' : List Note}

/-- **Histories that leave the same outline**: the same topics are named, the notes about each
topic come to the same, and the links to each topic stand at the same places. The order in which
entries come in may differ, and does not show. -/
theorem grow_history_congr (hspoken : ∀ t, t ∈ spokenOf notes ↔ t ∈ spokenOf notes')
    (hmerge : ∀ t, Merge.merge (notesAt notes t) = Merge.merge (notesAt notes' t))
    (hlinks : ∀ t, linksTo notes t = linksTo notes' t) :
    Outline.empty.grow (history notes) = Outline.empty.grow (history notes') := by
  refine (grown_history notes).ext (grown_history notes') (Topic.named_congr hspoken)
    (fun p => ?_) ?_
  · rw [record_history, record_history, hmerge, hlinks]
  · rw [nicknames_grow, nicknames_grow]

end Marginalia.Outline
