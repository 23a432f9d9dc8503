/-
What is built from notes that read back reads back.

An outline has more topics in it than the notes are about, and its positions
have been sorted, thinned out and handed on to issues on the way. But no topic
in it is anything else than a topic of a note, a topic that a note links to,
or **one above these**, and no position is made up. So if the notes read back,
then so do their outline and its issues, and an outline that is loaded from its
document is checked with the same outcome as the one that was built.
-/
import Marginalia.Proofs.Codec.RoundTrip
import Marginalia.Proofs.Finding
import Marginalia.Proofs.Outline.Binding

set_option autoImplicit false

namespace Marginalia

/-! ## Where positions come from -/

namespace Merge

variable {group : List Note}

/-- A site is that of one of the notes. -/
theorem mem_split_fst {canonical : Option Note} {diverges : Note → Note → Bool} {s : Site}
    (h : s ∈ (split canonical diverges group).1) : ∃ n ∈ group, s = siteOf n := by
  cases canonical with
  | none =>
    obtain ⟨n, hn, rfl⟩ := List.mem_map.1 h
    exact ⟨n, hn, rfl⟩
  | some c =>
    obtain ⟨n, hn, rfl⟩ := List.mem_map.1 h
    exact ⟨n, (List.mem_filter.1 hn).1, rfl⟩

theorem mem_declarationSites_merge {s : Site} (h : s ∈ (merge group).declarationSites) :
    ∃ n ∈ group, s = siteOf n := by
  rw [declarationSites_merge, splitDeclarations] at h
  obtain ⟨n, hn, hs⟩ := mem_split_fst h
  exact ⟨n, (List.mem_filter.1 hn).1, hs⟩

theorem mem_blockSites_merge {s : Site} (h : s ∈ (merge group).blockSites) :
    ∃ n ∈ group, s = siteOf n := by
  rw [blockSites_merge, splitBlocks] at h
  obtain ⟨n, hn, hs⟩ := mem_split_fst h
  exact ⟨n, (List.mem_filter.1 hn).1, hs⟩

theorem mem_referenceSites_merge {p : Position} (h : p ∈ (merge group).referenceSites) :
    ∃ n ∈ group, p = n.position := by
  obtain ⟨n, hn, rfl⟩ := List.mem_map.1 h
  exact ⟨n, (List.mem_filter.1 hn).1, rfl⟩

/-- What a kind of notes is held against is one of the notes. -/
theorem mem_of_canonicalOf {kind : NoteKind} {c : Note} (h : canonicalOf group kind = some c) :
    c ∈ group := by
  cases kind with
  | declaration => exact (of_titledDeclaration h).1
  | block => exact (of_collectedBlock h).1
  | reference => simp [canonicalOf] at h

/-- A nickname is asked for at the place of one of the notes. -/
theorem mem_of_request {nickname : String} {p : Position}
    (h : request group = some (nickname, p)) : ∃ n ∈ group, p = n.position := by
  have hwritten : ∀ {n : Note}, written n = some (nickname, p) → p = n.position := by
    intro n hn
    obtain ⟨_, -, heq⟩ := Option.map_eq_some_iff.1 hn
    exact (Prod.mk.inj heq).2.symm
  rw [request, Option.or_eq_some_iff] at h
  rcases h with h | ⟨-, h⟩
  · obtain ⟨n, hn, h⟩ := Option.bind_eq_some_iff.1 h
    exact ⟨n, (of_collectedBlock hn).1, hwritten h⟩
  · obtain ⟨n, hn, h⟩ := List.exists_of_findSome?_eq_some h
    exact ⟨n, (mem_lentBlocks.1 hn).1, hwritten h⟩

end Merge

namespace Outline

variable {notes : List Note}

/-! ## Outlines -/

section Writable

variable (h : ∀ n ∈ notes, n.Writable)
include h

/-- Every topic that is named can be read. -/
theorem readable_of_named {t : Topic} (ht : Topic.Named (spokenOf notes) t) : t.Readable := by
  obtain ⟨spoken, hspoken, habove⟩ := ht
  obtain ⟨n, hn, hspoken⟩ := List.mem_flatMap.1 hspoken
  rcases List.mem_cons.1 hspoken with rfl | hspoken
  · exact (h n hn).topic.above habove
  · exact ((h n hn).mentions spoken hspoken).above habove

private theorem fits_of_mem_notesAt {t : Topic} {p : Position}
    (hp : ∃ n ∈ notesAt notes t, p = n.position) : p.Fits := by
  obtain ⟨n, hn, rfl⟩ := hp
  exact (h n (mem_notesAt.1 hn).1).position

/-- **Entries.** Every part of an entry comes from the notes about its topic or from the links to
it. -/
theorem writable_of_get?_build {t : Topic} {e : Entry}
    (he : (build notes).1.entries.get? t = some e) : t.Readable ∧ e.Writable := by
  have htopic : t.Readable := by
    refine readable_of_named h ?_
    rw [← isSome_get?_build, he]
    rfl
  refine ⟨htopic, ?_⟩
  obtain ⟨hetopic, hconflicts⟩ := conflicts_build he
  have hentry := entry_build he
  constructor
  · rw [hetopic]
    exact htopic
  · intro s hs
    rw [hentry] at hs
    obtain ⟨n, hn, rfl⟩ := Merge.mem_declarationSites_merge hs
    exact fits_of_mem_notesAt h ⟨n, hn, rfl⟩
  · intro s hs
    rw [hentry] at hs
    obtain ⟨n, hn, rfl⟩ := Merge.mem_blockSites_merge hs
    exact fits_of_mem_notesAt h ⟨n, hn, rfl⟩
  · intro p hp
    rw [hentry] at hp
    exact fits_of_mem_notesAt h (Merge.mem_referenceSites_merge hp)
  · intro p hp
    rw [hentry] at hp
    obtain ⟨n, hn, -, rfl⟩ := mem_linksTo.1 (mem_of_mem_distinctPlaces hp)
    exact (h n hn).position
  · intro c hc
    rw [hconflicts] at hc
    obtain ⟨d, hd, rfl⟩ := List.mem_map.1 hc
    obtain ⟨_, n, -, -, hn, rfl⟩ := Merge.mem_disagreements_merge hd
    exact fits_of_mem_notesAt h ⟨n, hn, rfl⟩

/-- What a claim is about can be read, and where it is made fits. -/
theorem writable_of_mem_claimsTo {nickname : String} {c : Claim}
    (hc : c ∈ claimsTo notes nickname) : c.topic.Readable ∧ c.position.Fits := by
  have hrequest := (mem_claimsTo.1 hc).2
  refine ⟨readable_of_named h (named_of_mem_topicsOf (mem_topicsOf_of_request hrequest)), ?_⟩
  exact fits_of_mem_notesAt h (Merge.mem_of_request hrequest)

theorem writable_build : (build notes).1.Writable where
  entries := by
    rintro ⟨t, e⟩ he
    exact writable_of_get?_build h (SortedMap.get?_eq_some_iff.2 he)
  nicknames := by
    rintro ⟨nickname, t⟩ he
    have hresolve : resolve? (build notes).1 nickname = some t := SortedMap.get?_eq_some_iff.2 he
    rw [resolve?_build] at hresolve
    obtain ⟨c, hc, rfl⟩ := Option.map_eq_some_iff.1 hresolve
    exact (writable_of_mem_claimsTo h (List.mem_of_mem_head? hc)).1

theorem writable_issues_build : ∀ issue ∈ (build notes).2, issue.Writable := by
  intro issue hissue
  rw [issues_build, List.mem_append] at hissue
  rcases hissue with hissue | hissue
  · obtain ⟨d, hd, rfl⟩ := List.mem_map.1 hissue
    obtain ⟨t, -, hd⟩ := List.mem_flatMap.1 hd
    obtain ⟨c, n, hc, -, hn, rfl⟩ := Merge.mem_disagreements_merge hd
    refine ⟨(h n (mem_notesAt.1 hn).1).topic, ?_, fits_of_mem_notesAt h ⟨n, hn, rfl⟩⟩
    exact fits_of_mem_notesAt h ⟨c, Merge.mem_of_canonicalOf hc, rfl⟩
  · obtain ⟨d, hd, rfl⟩ := List.mem_map.1 hissue
    -- a collision is between the first claim to its nickname and a later one
    have hlate : d ∈ late (claimsTo notes d.nickname) := by
      rw [← filter_collisionsOf]
      exact List.mem_filter.2 ⟨hd, by simp⟩
    obtain ⟨first, later, hfirst, hlater, heq⟩ := mem_late.1 hlate
    rw [heq]
    obtain ⟨hbound, hboundPosition⟩ := writable_of_mem_claimsTo h (List.mem_of_mem_head? hfirst)
    obtain ⟨hclaimed, hposition⟩ := writable_of_mem_claimsTo h (List.mem_of_mem_tail hlater)
    exact ⟨hbound, hboundPosition, hclaimed, hposition⟩

end Writable

/-! ## Checking what was loaded -/

/-- The findings on an outline and its issues after both are written and read again. -/
def checkLoaded (outline : Outline) (issues : List Issue) : Option (List Finding) := do
  let outline ← Outline.decode outline.encode
  let issues ← Value.toList? Issue.decode (.list (issues.map Issue.encode))
  pure (outline.check issues)

theorem checkLoaded_eq {outline : Outline} {issues : List Issue} (h : outline.Writable)
    (hissues : ∀ issue ∈ issues, issue.Writable) :
    checkLoaded outline issues = some (outline.check issues) := by
  rw [checkLoaded, decode_encode h,
    Value.toList?_map fun issue hissue => Issue.decode_encode (hissues issue hissue)]
  rfl

end Outline

/-- **Documents read back as what was written**: notes, outlines, issues and reports whose topics
can be read and whose numbers fit into sixty-four bits. What is built from such notes is of this
kind again, and checking it gives the same findings whether it was loaded or just built. -/
theorem documents_read_back :
    (∀ n : Note, n.Writable → Note.decode n.encode = some n) ∧
    (∀ o : Outline, o.Writable → Outline.decode o.encode = some o) ∧
    (∀ issue : Issue, issue.Writable → Issue.decode issue.encode = some issue) ∧
    (∀ r : Report, r.Writable → Report.decode r.encode = some r) ∧
    (∀ (o : Outline) (issues : List Issue), o.Writable → (∀ issue ∈ issues, issue.Writable) →
      o.checkLoaded issues = some (o.check issues)) ∧
    ∀ notes : List Note, (∀ n ∈ notes, n.Writable) →
      (Outline.build notes).1.Writable ∧ ∀ issue ∈ (Outline.build notes).2, issue.Writable := by
  refine ⟨fun n hn => Note.decode_encode hn, fun o ho => Outline.decode_encode ho,
    fun issue hissue => Issue.decode_encode hissue, fun r hr => Report.decode_encode hr,
    fun o issues ho hissues => Outline.checkLoaded_eq ho hissues, fun notes hnotes => ?_⟩
  exact ⟨Outline.writable_build hnotes, Outline.writable_issues_build hnotes⟩

/-- Notes that disagree and ask for the same nickname; the last is at the last line that fits. -/
def storedNotes : List Note :=
  [⟨(Topic.single "A").child "B", ⟨"a.go", 1, 1⟩, .declaration (some "x") (some "f") [.single "C"]⟩,
   ⟨(Topic.single "A").child "B", ⟨"a.go", 2, 1⟩, .declaration (some "") none []⟩,
   ⟨(Topic.single "A").child "B", ⟨"a.go", 3, 1⟩, .declaration (some "y") none []⟩,
   ⟨.single "A", ⟨"b.go", 1, 1⟩, .block ⟨some "text", some "n", none, [], true⟩⟩,
   ⟨.single "C", ⟨"b.go", 9, 1⟩, .block ⟨none, some "n", some "T", [], false⟩⟩,
   ⟨.single "D", ⟨"c.go", 18446744073709551615, 1⟩, .reference⟩]

/-- A report on one topic that is only referred to. -/
def storedReport : Report where
  filesChecked := 3
  annotations := 6
  findings := [.undefinedReference (.single "D") ⟨"c.go", 18446744073709551615, 1⟩]
  warnings := 1

theorem documents_read_back_storedNotes :
    (∀ n ∈ storedNotes, n.Writable ∧ Note.decode n.encode = some n) ∧
    Outline.decode (Outline.build storedNotes).1.encode = some (Outline.build storedNotes).1 ∧
    (∀ issue ∈ (Outline.build storedNotes).2, Issue.decode issue.encode = some issue) ∧
    (Outline.build storedNotes).1.checkLoaded (Outline.build storedNotes).2
      = some ((Outline.build storedNotes).1.check (Outline.build storedNotes).2) ∧
    Report.decode storedReport.encode = some storedReport := by
  obtain ⟨hnote, houtline, hissue, hreport, hcheck, hbuild⟩ := documents_read_back
  have hnotes : ∀ n ∈ storedNotes, n.Writable := by decide
  obtain ⟨hwritable, hissues⟩ := hbuild storedNotes hnotes
  have hfindings : ∀ f ∈ storedReport.findings, f.Writable := by
    intro f hf
    rw [List.mem_singleton.1 hf]
    exact ⟨by decide, by decide⟩
  refine ⟨fun n hn => ⟨hnotes n hn, hnote n (hnotes n hn)⟩, houtline _ hwritable,
    fun issue h => hissue issue (hissues issue h), hcheck _ _ hwritable hissues, ?_⟩
  exact hreport storedReport ⟨by decide, by decide, by decide, by decide, hfindings⟩

end Marginalia
