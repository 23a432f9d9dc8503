/-
Giving out nicknames, without the loop.

A claim either finds its nickname free and binds it, or finds it bound and
becomes a collision. So what is bound in the end, and which collisions there
are, depend on the claims alone, and the outline only loses the nicknames of
the topics that a collision names. Apart from its content an entry comes out
as it went in.
-/
import Marginalia.Proofs.Outline.History

set_option autoImplicit false

namespace Marginalia.Outline

open Topic (Named)

/-! ## Bound nicknames and collisions -/

/-- What is bound after some claims: each nickname to the first that claims it. -/
def boundAfter (bound : SortedMap String (Topic × Position)) (claims : List Claim) :
    SortedMap String (Topic × Position) :=
  claims.foldl (fun b c => b.insertNew c.nickname (c.topic, c.position)) bound

/-- The claims that come too late, each with what it collides with. -/
def collisions : SortedMap String (Topic × Position) → List Claim → List Collision
  | _, [] => []
  | bound, c :: claims =>
    match bound.get? c.nickname with
    | some (topic, position) => ⟨c.nickname, topic, position, c.topic, c.position⟩
        :: collisions bound claims
    | none => collisions (bound.insert c.nickname (c.topic, c.position)) claims

/-- The entries after some topics have lost their nicknames. -/
def losing (entries : SortedMap Topic Entry) (topics : List Topic) : SortedMap Topic Entry :=
  topics.foldl (fun es t => es.modify t loseNickname) entries

/-- Losing a nickname twice is losing it once. -/
theorem loseNickname_idem (e : Entry) : loseNickname (loseNickname e) = loseNickname e := by
  cases h : e.content <;> simp [loseNickname, h]

theorem get?_losing (entries : SortedMap Topic Entry) (topics : List Topic) (p : Topic) :
    (losing entries topics).get? p
      = if p ∈ topics then (entries.get? p).map loseNickname else entries.get? p := by
  induction topics generalizing entries with
  | nil => simp [losing]
  | cons t topics ih =>
    rw [losing, List.foldl_cons, ← losing, ih, SortedMap.get?_modify]
    by_cases hp : p = t
    · subst hp
      rw [if_pos rfl, if_pos List.mem_cons_self, Option.map_map]
      have hidem : loseNickname ∘ loseNickname = loseNickname := funext loseNickname_idem
      rw [hidem, ite_self]
    · rw [if_neg hp]
      simp [hp]

/-- A nickname that is bound stays bound to the same. -/
private theorem insertNew_of_get? {bound : SortedMap String (Topic × Position)} {k : String}
    {v w : Topic × Position} (h : bound.get? k = some v) : bound.insertNew k w = bound := by
  refine SortedMap.ext_get? fun k' => ?_
  rw [SortedMap.get?_insertNew, h]
  by_cases hk : k' = k
  · rw [if_pos hk, hk, h, Option.getD_some]
  · rw [if_neg hk]

private theorem insertNew_of_get?_none {bound : SortedMap String (Topic × Position)} {k : String}
    {w : Topic × Position} (h : bound.get? k = none) : bound.insertNew k w = bound.insert k w := by
  refine SortedMap.ext_get? fun k' => ?_
  rw [SortedMap.get?_insertNew, SortedMap.get?_insert, h, Option.getD_none]

/-- **Giving out nicknames, without the loop.** -/
theorem bind_eq (draft : Draft) (bound : SortedMap String (Topic × Position))
    (claims : List Claim) :
    bind draft bound claims =
      ({ draft.outline with
          entries := losing draft.outline.entries ((collisions bound claims).map (·.claimedTopic))
          nicknames := (boundAfter bound claims).mapEntries fun _ b => b.1 },
        draft.issues ++ (collisions bound claims).map .collision) := by
  induction claims generalizing draft bound with
  | nil => simp [bind, collisions, boundAfter, losing]
  | cons c claims ih =>
    cases h : bound.get? c.nickname with
    | some b =>
      -- the nickname is bound: one collision more, and its topic loses the nickname
      obtain ⟨topic, position⟩ := b
      simp only [bind, collisions, h, ih, List.map_cons]
      rw [boundAfter, boundAfter, List.foldl_cons, insertNew_of_get? h, losing, losing,
        List.foldl_cons]
      simp
    | none =>
      -- the nickname is free: it is bound, and no entry changes
      simp only [bind, collisions, h, ih]
      rw [boundAfter, boundAfter, List.foldl_cons, insertNew_of_get?_none h]

/-! ## The finished outline -/

/-- The collisions among the nicknames that notes ask for, which are given out in the order of the
claims. -/
def collisionsOf (notes : List Note) : List Collision :=
  collisions SortedMap.empty ((claimsOf notes).mergeSort fun a b => (Claim.order a b).isLE)

/-- The topics that lose their nickname to another. -/
def losersOf (notes : List Note) : List Topic :=
  (collisionsOf notes).map (·.claimedTopic)

/-- **The issues**: the disagreements topic by topic, then the collisions. -/
theorem issues_build (notes : List Note) :
    (build notes).2
      = (disagreementsOf notes).map .disagreement ++ (collisionsOf notes).map .collision := by
  rw [build_eq, bind_eq]
  rfl

/-- An entry of the finished outline: the history's, with its links in order and each place once,
and without its nickname if that went to another topic. -/
theorem get?_build (notes : List Note) (p : Topic) :
    (build notes).1.entries.get? p
      = ((Outline.empty.grow (history notes)).entries.get? p).map fun e =>
          let settled := { e with mentionSites := distinctPlaces e.mentionSites }
          if p ∈ losersOf notes then loseNickname settled else settled := by
  have hentries : (build notes).1.entries
      = losing (settleMentions (Outline.empty.grow (history notes))).entries (losersOf notes) := by
    rw [build_eq, bind_eq]
    rfl
  rw [hentries, get?_losing]
  simp only [settleMentions, SortedMap.get?_mapEntries]
  by_cases hp : p ∈ losersOf notes
  · rw [if_pos hp, Option.map_map]
    simp only [if_pos hp]
    rfl
  · rw [if_neg hp]
    simp only [if_neg hp]

/-- A topic has an entry exactly if a note is about it, links to it, or does so further down. -/
theorem isSome_get?_build (notes : List Note) (p : Topic) :
    ((build notes).1.entries.get? p).isSome ↔ Named (spokenOf notes) p := by
  rw [get?_build, Option.isSome_map, (grown_history notes).isSome_iff]

/-- **The finished entry of a topic**: what its notes come to, the links to it, and its children. -/
theorem entry_build {notes : List Note} {p : Topic} {e : Entry}
    (he : (build notes).1.entries.get? p = some e) :
    e = { fill (Merge.merge (notesAt notes p)) (.structural p) with
          children := e.children
          mentionSites := distinctPlaces (linksTo notes p)
          content := if p ∈ losersOf notes
            then (Merge.merge (notesAt notes p)).content.map fun c => { c with nickname := none }
            else (Merge.merge (notesAt notes p)).content } := by
  rw [get?_build] at he
  obtain ⟨e', he', rfl⟩ := Option.map_eq_some_iff.1 he
  have hrecord := entry_eq_record he'
  rw [record_history] at hrecord
  rw [hrecord]
  by_cases hp : p ∈ losersOf notes
  · simp only [if_pos hp]
    rfl
  · simp only [if_neg hp]
    rfl

end Marginalia.Outline
