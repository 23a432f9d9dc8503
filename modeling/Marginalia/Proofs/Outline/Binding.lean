/-
Nicknames and topics answer for each other.

Every topic asks for at most one nickname, so the claims can be sorted out by
nickname: among the claims to one, the **first** in the order of places and
topics gets it, and each of the others becomes one collision with the first.
That is a statement about the loop alone, and it is proved for any list of
claims and anything bound before (`get?_boundAfter`, `filter_collisions`).

The rest is bookkeeping between three tables: the claims, the contents and the
nicknames given out. A topic that loses is named by a collision, and a topic
named by a collision has made no other claim. So a content keeps its nickname
exactly if the nickname is bound to its topic.
-/
import Marginalia.Proofs.Outline.Content

set_option autoImplicit false

namespace Marginalia.Outline

open Arranged

/-! ## One nickname, among any claims -/

/-- What becomes of a claim that comes after another to the same nickname. -/
def collide (first later : Claim) : Collision :=
  ⟨later.nickname, first.topic, first.position, later.topic, later.position⟩

section Loop

variable {bound : SortedMap String (Topic × Position)} {a : String}

/-- What is bound to a nickname, as the claim that has been heard for it. -/
def heard (bound : SortedMap String (Topic × Position)) (a : String) : List Claim :=
  ((bound.get? a).map fun b => (⟨b.2, b.1, a⟩ : Claim)).toList

theorem heard_insert (bound : SortedMap String (Topic × Position)) (c : Claim) :
    heard (bound.insert c.nickname (c.topic, c.position)) c.nickname = [c] := by
  rw [heard, SortedMap.get?_insert, if_pos rfl]
  rfl

theorem heard_insert_of_ne {c : Claim} (hc : c.nickname ≠ a) :
    heard (bound.insert c.nickname (c.topic, c.position)) a = heard bound a := by
  rw [heard, SortedMap.get?_insert, if_neg hc.symm, heard]

/-- The claims after the first, each as a collision with the first. -/
def late : List Claim → List Collision
  | [] => []
  | first :: later => later.map (collide first)

/-- **Collisions over one nickname.** Of the claims to it, those heard before included, all but
the first collide with the first. -/
theorem filter_collisions (bound : SortedMap String (Topic × Position)) (claims : List Claim)
    (a : String) :
    (collisions bound claims).filter (fun c => c.nickname = a)
      = late (heard bound a ++ claims.filter fun c => c.nickname = a) := by
  induction claims generalizing bound with
  | nil =>
    rw [collisions, List.filter_nil, List.filter_nil, List.append_nil, heard]
    cases bound.get? a <;> rfl
  | cons c claims ih =>
    rw [collisions]
    by_cases hc : c.nickname = a
    · subst hc
      rw [List.filter_cons_of_pos (by simp)]
      cases hb : bound.get? c.nickname with
      | none =>
        have hnone : heard bound c.nickname = [] := by
          rw [heard, hb]
          rfl
        rw [ih, heard_insert, hnone]
        rfl
      | some b =>
        have hsome : heard bound c.nickname = [⟨b.2, b.1, c.nickname⟩] := by
          rw [heard, hb]
          rfl
        rw [List.filter_cons_of_pos (by simp), ih, hsome]
        rfl
    · rw [List.filter_cons_of_neg (by simpa using hc)]
      cases bound.get? c.nickname with
      | none => rw [ih, heard_insert_of_ne hc]
      | some b => rw [List.filter_cons_of_neg (by simpa using hc), ih]

/-- **What a nickname is bound to**: the first of the claims to it, those heard before
included. -/
theorem get?_boundAfter (bound : SortedMap String (Topic × Position)) (claims : List Claim)
    (a : String) :
    (boundAfter bound claims).get? a
      = (heard bound a ++ claims.filter fun c => c.nickname = a).head?.map
          fun c => (c.topic, c.position) := by
  induction claims generalizing bound with
  | nil =>
    rw [boundAfter, List.foldl_nil, List.filter_nil, List.append_nil, heard]
    cases bound.get? a <;> rfl
  | cons c claims ih =>
    rw [boundAfter, List.foldl_cons, ← boundAfter, ih]
    by_cases hc : c.nickname = a
    · subst hc
      rw [List.filter_cons_of_pos (by simp), heard, heard, SortedMap.get?_insertNew, if_pos rfl]
      cases bound.get? c.nickname <;> rfl
    · rw [List.filter_cons_of_neg (by simpa using hc), heard, heard, SortedMap.get?_insertNew,
        if_neg (Ne.symm hc)]

end Loop

/-! ## The claims of some notes -/

instance : Std.TransCmp Claim.order :=
  inferInstanceAs (Std.TransCmp (compareLex _ (compareLex _ _)))

/-- The claims to a nickname, in the order in which they are heard. -/
def claimsTo (notes : List Note) (a : String) : List Claim :=
  ((claimsOf notes).mergeSort fun c d => (Claim.order c d).isLE).filter fun c => c.nickname = a

variable {notes : List Note} {a : String} {p : Topic} {c : Claim}

/-- Where nothing is said, nothing is asked for. -/
theorem mem_topicsOf_of_request {r : String × Position}
    (h : Merge.request (notesAt notes p) = some r) : p ∈ topicsOf notes := by
  rw [← notesAt_ne_nil_iff]
  intro hnil
  rw [hnil] at h
  simp [Merge.request, Merge.collectedBlock, Merge.lentBlocks] at h

/-- A claim is what the notes about its topic ask for. -/
theorem mem_claimsOf :
    c ∈ claimsOf notes ↔ Merge.request (notesAt notes c.topic) = some (c.nickname, c.position) := by
  simp only [claimsOf, List.mem_flatMap, Option.mem_toList, Option.map_eq_some_iff,
    Merge.claim_merge]
  constructor
  · rintro ⟨t, _, ⟨nickname, position⟩, hrequest, rfl⟩
    exact hrequest
  · intro hrequest
    exact ⟨c.topic, mem_topicsOf_of_request hrequest, (c.nickname, c.position), hrequest, rfl⟩

theorem mem_claimsTo : c ∈ claimsTo notes a ↔
    c.nickname = a ∧ Merge.request (notesAt notes c.topic) = some (a, c.position) := by
  rw [claimsTo, List.mem_filter, List.mem_mergeSort, mem_claimsOf, decide_eq_true_eq, and_comm]
  exact and_congr_right fun hc => by rw [hc]

/-- No topic makes two claims. -/
theorem pairwise_claimsOf (notes : List Note) :
    (claimsOf notes).Pairwise fun c d => c.topic ≠ d.topic := by
  rw [claimsOf, List.pairwise_flatMap]
  refine ⟨fun t _ => ?_, (nodup_topicsOf notes).imp fun {t t'} hne c hc d hd => ?_⟩
  · cases (Merge.merge (notesAt notes t)).claim <;> simp
  · obtain ⟨_, _, rfl⟩ := Option.map_eq_some_iff.1 (Option.mem_toList.1 hc)
    obtain ⟨_, _, rfl⟩ := Option.map_eq_some_iff.1 (Option.mem_toList.1 hd)
    exact hne

/-- Earlier places first, then topics in order. -/
def Claim.Before (c d : Claim) : Prop :=
  compareLex (compareOn Claim.position) (compareOn Claim.topic) c d = .lt

theorem Claim.before_of_order {c d : Claim} (h : (Claim.order c d).isLE) (hne : c.topic ≠ d.topic) :
    c.Before d := by
  have htopic : compare c.topic d.topic ≠ .eq := fun heq =>
    hne (Std.LawfulEqCmp.eq_of_compare heq)
  have h : ((compare c.position d.position).then ((compare c.topic d.topic).then
      (compare c.nickname d.nickname))).isLE := h
  have hgoal : (compare c.position d.position).then (compare c.topic d.topic) = .lt := by
    cases hp : compare c.position d.position <;> cases ht : compare c.topic d.topic <;> simp_all
  exact hgoal

theorem pairwise_claimsTo (notes : List Note) (a : String) :
    (claimsTo notes a).Pairwise fun c d => c.Before d ∧ c.topic ≠ d.topic := by
  have hdistinct : ((claimsOf notes).mergeSort fun c d => (Claim.order c d).isLE).Pairwise
      fun c d => c.topic ≠ d.topic :=
    (List.mergeSort_perm _ _).symm.pairwise (pairwise_claimsOf notes) Ne.symm
  have hsorted : ((claimsOf notes).mergeSort fun c d => (Claim.order c d).isLE).Pairwise
      fun c d => (Claim.order c d).isLE := pairwise_sorted (claimsOf notes)
  refine ((hsorted.and hdistinct).imp fun {c d} h => ?_).filter _
  exact ⟨Claim.before_of_order h.1 h.2, h.2⟩

/-- Claims of one topic are one claim. -/
theorem eq_of_mem_claimsTo {b : String} {d : Claim} (hc : c ∈ claimsTo notes a)
    (hd : d ∈ claimsTo notes b) (htopic : c.topic = d.topic) : c = d := by
  obtain ⟨hca, hc⟩ := mem_claimsTo.1 hc
  obtain ⟨hdb, hd⟩ := mem_claimsTo.1 hd
  rw [htopic, hd, Option.some.injEq, Prod.mk.injEq] at hc
  cases c
  cases d
  simp_all

/-! ## The three tables -/

/-- **A nickname stands for the topic that claims it first.** -/
theorem resolve?_build (notes : List Note) (a : String) :
    resolve? (build notes).1 a = (claimsTo notes a).head?.map Claim.topic := by
  have hnicknames : (build notes).1.nicknames
      = (boundAfter SortedMap.empty ((claimsOf notes).mergeSort fun c d =>
          (Claim.order c d).isLE)).mapEntries fun _ b => b.1 := by
    rw [build_eq, bind_eq]
  rw [resolve?, hnicknames, SortedMap.get?_mapEntries, get?_boundAfter, Option.map_map]
  rfl

/-- The collision that an issue is. -/
def collision? : Issue → Option Collision
  | .disagreement _ => none
  | .collision c => some c

/-- The collisions among the issues. -/
theorem filterMap_collision?_issues (notes : List Note) :
    (build notes).2.filterMap collision? = collisionsOf notes := by
  have hdisagreements :
      ((disagreementsOf notes).map Issue.disagreement).filterMap collision? = [] := by
    rw [List.filterMap_eq_nil_iff]
    intro issue hissue
    obtain ⟨d, -, rfl⟩ := List.mem_map.1 hissue
    rfl
  rw [issues_build, List.filterMap_append, hdisagreements, List.nil_append, List.filterMap_map]
  exact List.filterMap_some

theorem filter_collisionsOf (notes : List Note) (a : String) :
    (collisionsOf notes).filter (fun c => c.nickname = a) = late (claimsTo notes a) :=
  filter_collisions SortedMap.empty _ a

theorem mem_late {claims : List Claim} {d : Collision} :
    d ∈ late claims ↔ ∃ first l, claims.head? = some first ∧ l ∈ claims.tail ∧ d = collide first l := by
  cases claims with
  | nil => simp [late]
  | cons first later => simp [late, eq_comm]

/-- The topics that lose are those of the claims that come too late. -/
theorem mem_losersOf : p ∈ losersOf notes ↔ ∃ a, ∃ l ∈ (claimsTo notes a).tail, l.topic = p := by
  rw [losersOf, List.mem_map]
  constructor
  · rintro ⟨d, hd, rfl⟩
    have hmem : d ∈ (collisionsOf notes).filter fun c => c.nickname = d.nickname :=
      List.mem_filter.2 ⟨hd, by simp⟩
    rw [filter_collisionsOf, mem_late] at hmem
    obtain ⟨first, l, _, hl, hd⟩ := hmem
    exact ⟨d.nickname, l, hl, by rw [hd]; rfl⟩
  · rintro ⟨a, l, hl, rfl⟩
    cases hclaims : claimsTo notes a with
    | nil =>
      rw [hclaims] at hl
      exact absurd hl List.not_mem_nil
    | cons first later =>
      rw [hclaims] at hl
      have hmem : collide first l ∈ (collisionsOf notes).filter fun c => c.nickname = a := by
        rw [filter_collisionsOf, hclaims]
        exact List.mem_map.2 ⟨l, hl, rfl⟩
      exact ⟨collide first l, (List.mem_filter.1 hmem).1, rfl⟩

/-- The topic of the first claim does not lose: it has made no other claim. -/
theorem first_notMem_losersOf (h : (claimsTo notes a).head? = some c) : c.topic ∉ losersOf notes := by
  intro hloses
  obtain ⟨b, l, hl, htopic⟩ := mem_losersOf.1 hloses
  have hc : c ∈ claimsTo notes a := List.mem_of_head? h
  have hl' : l ∈ claimsTo notes b := List.mem_of_mem_tail hl
  obtain rfl : l = c := eq_of_mem_claimsTo hl' hc htopic
  have hab : b = a := (mem_claimsTo.1 hl').1.symm.trans (mem_claimsTo.1 hc).1
  subst hab
  -- the first claim to a nickname does not come up again
  cases hclaims : claimsTo notes b with
  | nil => simp [hclaims] at h
  | cons first later =>
    rw [hclaims] at h hl
    obtain rfl : first = l := by simpa using h
    have hpairwise := pairwise_claimsTo notes b
    rw [hclaims, List.pairwise_cons] at hpairwise
    exact (hpairwise.1 first hl).2 rfl

/-- **The nickname in a finished content** is the one asked for, unless it is lost. -/
theorem nickname_build {e : Entry} (he : (build notes).1.entries.get? p = some e) :
    e.content.bind Content.nickname
      = if p ∈ losersOf notes then none
        else (Merge.request (notesAt notes p)).map (·.1) := by
  rw [entry_build he]
  dsimp only
  by_cases hp : p ∈ losersOf notes
  · rw [if_pos hp, if_pos hp]
    cases (Merge.merge (notesAt notes p)).content <;> rfl
  · rw [if_neg hp, if_neg hp, Merge.nickname_content_merge]

/-- A topic that asks for a nickname has an entry. -/
theorem exists_entry_of_mem_claimsTo (h : c ∈ claimsTo notes a) :
    ∃ e, (build notes).1.entries.get? c.topic = some e := by
  rw [← Option.isSome_iff_exists, isSome_get?_build]
  exact named_of_mem_topicsOf (mem_topicsOf_of_request (mem_claimsTo.1 h).2)

/-- **A nickname stands for a topic exactly if the topic's content has it.** -/
theorem resolve?_eq_some_iff : resolve? (build notes).1 a = some p ↔
    ∃ e, entry? (build notes).1 p = some e ∧ e.content.bind Content.nickname = some a := by
  rw [resolve?_build, Option.map_eq_some_iff]
  constructor
  · rintro ⟨first, hfirst, rfl⟩
    have hmem : first ∈ claimsTo notes a := List.mem_of_head? hfirst
    obtain ⟨e, he⟩ := exists_entry_of_mem_claimsTo hmem
    refine ⟨e, he, ?_⟩
    rw [nickname_build he, if_neg (first_notMem_losersOf hfirst), (mem_claimsTo.1 hmem).2]
    rfl
  · rintro ⟨e, he, hnickname⟩
    rw [nickname_build he] at hnickname
    by_cases hp : p ∈ losersOf notes
    · rw [if_pos hp] at hnickname
      exact absurd hnickname (by simp)
    · rw [if_neg hp] at hnickname
      obtain ⟨⟨b, position⟩, hrequest, rfl⟩ := Option.map_eq_some_iff.1 hnickname
      have hmem : (⟨position, p, b⟩ : Claim) ∈ claimsTo notes b :=
        mem_claimsTo.2 ⟨rfl, hrequest⟩
      cases hclaims : claimsTo notes b with
      | nil => simp [hclaims] at hmem
      | cons first later =>
        rw [hclaims] at hmem
        rcases List.mem_cons.1 hmem with hfirst | hlater
        · exact ⟨first, rfl, by rw [← hfirst]⟩
        -- a claim that is not the first would have been lost
        · refine absurd (mem_losersOf.2 ⟨b, ⟨position, p, b⟩, ?_, rfl⟩) hp
          rw [hclaims]
          exact hlater

/-! ## The contest over a nickname -/

/-- **How a nickname is given out** among all claims to it. -/
structure Contest (notes : List Note) (a : String) (claims : List Claim) : Prop where
  /-- The claims are those of the topics whose notes ask for the nickname. -/
  claimants : ∀ c, c ∈ claims ↔
    c.nickname = a ∧ Merge.request (notesAt notes c.topic) = some (a, c.position)
  distinct : (claims.map Claim.topic).Nodup
  inOrder : claims.Pairwise Claim.Before
  /-- The first gets it. -/
  bound : resolve? (build notes).1 a = claims.head?.map Claim.topic
  /-- Each of the others is one collision, which names both. -/
  collisions : ((build notes).2.filterMap collision?).filter (fun d => d.nickname = a)
    = late claims
  /-- A topic that loses keeps its content, except for the nickname. -/
  losers : ∀ l ∈ claims.tail, ∃ e before, entry? (build notes).1 l.topic = some e ∧
    (Merge.merge (notesAt notes l.topic)).content = some before ∧ before.nickname = some a ∧
    e.content = some { before with nickname := none }

/-- What a topic keeps that loses its nickname. -/
theorem content_of_late {l : Claim} (hl : l ∈ (claimsTo notes a).tail) :
    ∃ e before, entry? (build notes).1 l.topic = some e ∧
      (Merge.merge (notesAt notes l.topic)).content = some before ∧ before.nickname = some a ∧
      e.content = some { before with nickname := none } := by
  have hmem := List.mem_of_mem_tail hl
  obtain ⟨e, he⟩ := exists_entry_of_mem_claimsTo hmem
  have hnickname := Merge.nickname_content_merge (notesAt notes l.topic)
  rw [(mem_claimsTo.1 hmem).2, Option.map_some] at hnickname
  obtain ⟨before, hbefore, hnickname⟩ := Option.bind_eq_some_iff.1 hnickname
  refine ⟨e, before, he, hbefore, hnickname, ?_⟩
  rw [entry_build he]
  dsimp only
  rw [if_pos (mem_losersOf.2 ⟨a, l, hl, rfl⟩), hbefore, Option.map_some]

/-- **Nicknames and topics answer for each other**, and every nickname goes to the first that
claims it. -/
theorem nicknames_build (notes : List Note) :
    (∀ a p, resolve? (build notes).1 a = some p ↔
      ∃ e, entry? (build notes).1 p = some e ∧ e.content.bind Content.nickname = some a) ∧
    ∀ a, ∃ claims, Contest notes a claims := by
  refine ⟨fun a p => resolve?_eq_some_iff, fun a => ⟨claimsTo notes a, ?_⟩⟩
  have hpairwise := pairwise_claimsTo notes a
  exact
    { claimants := fun c => mem_claimsTo
      distinct := List.pairwise_map.2 (hpairwise.imp And.right)
      inOrder := hpairwise.imp And.left
      bound := resolve?_build notes a
      collisions := by rw [filterMap_collision?_issues, filter_collisionsOf]
      losers := fun l hl => content_of_late hl }

end Marginalia.Outline
