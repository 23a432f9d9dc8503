/-
The links of a prose, and those that are found.

A link is a marker `@[` with a path and `]` behind it, where the path names a
topic and no bracket closes and no other marker opens before its end. `links`
looks for one at every place of a text. The search for mentions does not. It
runs from marker to bracket and on from there, and so it never looks at a
marker that opens behind another one and before the bracket.

What both see can be told apart bracket by bracket. A **stretch** is what
stands between two closing brackets, and a link ends where a stretch does. The
search takes a stretch from its first marker on, and a link starts at the last.
Where a stretch has one marker, that is the same. Where it has two, the search
goes wrong in one of two ways: it passes over a link whose marker comes last,
or it takes everything from the first marker on for one path. `Nested` says
when this happens, and that **the search finds exactly the links if and only if
it does not**.
-/
import Marginalia.Note.Prose
import Marginalia.Proofs.Topic
import Mathlib.Data.List.Infix

set_option autoImplicit false

namespace Marginalia.Prose

/-! ## Links -/

/-- What opens a marker. -/
abbrev opener : List Char := ['@', '[']

/-- The topic that a path names. -/
def topicOf? (path : List Char) : Option Topic :=
  (Topic.parse (String.ofList path)).toOption

theorem topicOf?_eq_some_iff {path : List Char} {t : Topic} :
    topicOf? path = some t ↔ Topic.parse (String.ofList path) = .ok t := by
  unfold topicOf?
  cases Topic.parse (String.ofList path) with
  | error fault => simp [Except.toOption]
  | ok topic => simp [Except.toOption]

/-- The topic of the link that a text starts with. -/
def linkAt? (text : List Char) : Option Topic :=
  match Text.after? opener text with
  | none => none
  | some rest =>
    match Text.cutAt [']'] rest with
    | none => none
    | some (path, _) => if Text.contains opener path then none else topicOf? path

/-- **The links of a text**, from left to right and with repetitions: one for each place where a
link stands. -/
def links (text : List Char) : List Topic :=
  text.tails.filterMap linkAt?

/-- Whether a marker opens anywhere in a text. -/
theorem contains_opener_iff {text : List Char} : Text.contains opener text ↔ opener <:+: text := by
  unfold Text.contains
  cases h : Text.cutAt opener text with
  | none => simpa using Text.not_infix_of_cutAt_eq_none h
  | some cut =>
    obtain ⟨before, rest⟩ := cut
    simp only [Option.isSome_some, true_iff]
    exact ⟨before, rest, (Text.eq_append_of_cutAt h).symm⟩

/-- A text starts with a link exactly if it starts with a marker, a path that names a topic and
holds neither a closing bracket nor another marker, and the closing bracket. -/
theorem linkAt?_eq_some_iff {text : List Char} {t : Topic} :
    linkAt? text = some t ↔ ∃ path rest, text = opener ++ path ++ ']' :: rest ∧ ']' ∉ path ∧
      ¬ opener <:+: path ∧ Topic.parse (String.ofList path) = .ok t := by
  constructor
  · intro h
    unfold linkAt? at h
    split at h
    · exact absurd h (by simp)
    · rename_i behind hafter
      split at h
      · exact absurd h (by simp)
      · rename_i path rest hcut
        split at h
        · exact absurd h (by simp)
        · rename_i hopener
          refine ⟨path, rest, ?_, Text.notMem_of_cutAt hcut, ?_, topicOf?_eq_some_iff.1 h⟩
          · rw [Text.eq_append_of_after? hafter, Text.eq_append_of_cutAt hcut]
            simp
          · rwa [← contains_opener_iff]
  · rintro ⟨path, rest, rfl, hbracket, hopener, hparse⟩
    have hafter : Text.after? opener (opener ++ path ++ ']' :: rest) = some (path ++ ']' :: rest) := by
      rw [List.append_assoc]
      exact Text.after?_append opener _
    have hcontains : ¬ Text.contains opener path := by rwa [contains_opener_iff]
    unfold linkAt?
    simp only [hafter, Text.cutAt_append hbracket, if_neg hcontains]
    exact topicOf?_eq_some_iff.2 hparse

/-! ## Stretches -/

/-- What stands before each closing bracket, back to the one before it. -/
def stretches (text : List Char) : List (List Char) :=
  (Text.pieces ']' text).dropLast

theorem stretches_of_notMem {text : List Char} (h : ']' ∉ text) : stretches text = [] := by
  rw [stretches, Text.pieces_of_notMem h]
  rfl

theorem stretches_cons {stretch : List Char} (h : ']' ∉ stretch) (rest : List Char) :
    stretches (stretch ++ ']' :: rest) = stretch :: stretches rest := by
  rw [stretches, Text.pieces_append_cons h, List.dropLast_cons_of_ne_nil (Text.pieces_ne_nil _ _),
    stretches]

/-- What stands behind the first marker of a stretch. -/
def behindFirst? (stretch : List Char) : Option (List Char) :=
  (Text.cutAt opener stretch).map Prod.snd

/-- What stands behind the last marker of a stretch. -/
def behindLast? : List Char → Option (List Char)
  | [] => none
  | c :: stretch => (behindLast? stretch).or (Text.after? opener (c :: stretch))

theorem behindLast?_eq_none_iff {stretch : List Char} :
    behindLast? stretch = none ↔ ¬ opener <:+: stretch := by
  induction stretch with
  | nil => simp [behindLast?]
  | cons c stretch ih =>
    have hfront : Text.after? opener (c :: stretch) = none ↔ ¬ opener <+: c :: stretch := by
      rw [← List.isPrefixOf_iff_prefix, Text.isPrefixOf_eq]
      simp
    rw [behindLast?, Option.or_eq_none_iff, ih, hfront, List.infix_cons_iff, not_or, and_comm]

/-- Behind the last marker there is no other. -/
theorem not_infix_of_behindLast? {stretch path : List Char} (h : behindLast? stretch = some path) :
    ¬ opener <:+: path := by
  induction stretch with
  | nil => exact absurd h (by simp [behindLast?])
  | cons c stretch ih =>
    rw [behindLast?] at h
    cases hlast : behindLast? stretch with
    | some path' =>
      rw [hlast, Option.some_or] at h
      exact ih (hlast.trans h)
    | none =>
      rw [hlast, Option.none_or] at h
      have htext := Text.eq_append_of_after? h
      rw [behindLast?_eq_none_iff] at hlast
      intro hinfix
      apply hlast
      -- the path is an end of the stretch behind `c`
      obtain ⟨-, rfl⟩ := List.cons.inj htext
      exact List.infix_cons hinfix

theorem exists_of_behindLast? {stretch path : List Char} (h : behindLast? stretch = some path) :
    ∃ before, stretch = before ++ opener ++ path := by
  induction stretch with
  | nil => exact absurd h (by simp [behindLast?])
  | cons c stretch ih =>
    rw [behindLast?] at h
    cases hlast : behindLast? stretch with
    | some path' =>
      rw [hlast, Option.some_or] at h
      obtain ⟨before, rfl⟩ := ih (hlast.trans h)
      exact ⟨c :: before, by simp⟩
    | none =>
      rw [hlast, Option.none_or] at h
      exact ⟨[], Text.eq_append_of_after? h⟩

/-- The last marker behind a marker is the last of all. -/
theorem behindLast?_append (before path : List Char) :
    behindLast? (before ++ opener ++ path) = (behindLast? path).or (some path) := by
  induction before with
  | nil => simp [behindLast?, Text.after?]
  | cons c before ih =>
    rw [List.cons_append, List.cons_append, behindLast?, ih]
    cases behindLast? path <;> rfl

/-! ## What is found, stretch by stretch -/

/-- What the search makes of a stretch. -/
def found? (stretch : List Char) : Option Topic :=
  (behindFirst? stretch).bind topicOf?

/-- The link that ends with a stretch. -/
def link? (stretch : List Char) : Option Topic :=
  (behindLast? stretch).bind topicOf?

/-- The search, one marker and one bracket further. -/
theorem mentionsFrom_step (text : List Char) :
    mentionsFrom text = match Text.cutAt opener text with
      | none => []
      | some (_, behind) =>
        match Text.cutAt [']'] behind with
        | none => []
        | some (path, rest) => (topicOf? path).toList ++ mentionsFrom rest := by
  rw [mentionsFrom]
  split
  · rename_i hopener
    simp only [hopener]
  · rename_i before behind hopener
    simp only [hopener]
    split
    · rename_i hcut
      simp only [hcut]
    · rename_i path rest hcut
      simp only [hcut]
      rfl

theorem mentionsFrom_of_notMem {text : List Char} (h : ']' ∉ text) : mentionsFrom text = [] := by
  rw [mentionsFrom_step]
  cases hopener : Text.cutAt opener text with
  | none => rfl
  | some cut =>
    obtain ⟨before, behind⟩ := cut
    have hbehind : ']' ∉ behind := by
      intro hmem
      apply h
      rw [Text.eq_append_of_cutAt hopener]
      exact List.mem_append_right _ hmem
    simp only [Text.cutAt_of_notMem hbehind]

/-- One turn of the search. It ends behind a bracket, and what it found is up to the stretch. -/
theorem mentionsFrom_cons {stretch : List Char} (h : ']' ∉ stretch) (rest : List Char) :
    mentionsFrom (stretch ++ ']' :: rest) = (found? stretch).toList ++ mentionsFrom rest := by
  have hcut : Text.cutAt opener (stretch ++ ']' :: rest) = _ :=
    Text.cutAt_append_cons (by decide) (by decide) stretch rest
  unfold found? behindFirst?
  cases hfirst : Text.cutAt opener stretch with
  | none =>
    -- no marker opens in the stretch, and the search goes on as it would from the bracket
    rw [Option.map_none, Option.bind_none, Option.toList_none, List.nil_append, mentionsFrom_step,
      hcut, hfirst, mentionsFrom_step rest]
    cases Text.cutAt opener rest <;> rfl
  | some cut =>
    obtain ⟨before, path⟩ := cut
    have hpath : ']' ∉ path := by
      intro hmem
      apply h
      rw [Text.eq_append_of_cutAt hfirst]
      exact List.mem_append_right _ hmem
    rw [mentionsFrom_step, hcut, hfirst]
    simp only [Text.cutAt_append hpath, Option.map_some, Option.bind_some]

/-- **What the search finds**: each stretch is read from its first marker on. -/
theorem mentionsFrom_eq (text : List Char) :
    mentionsFrom text = (stretches text).filterMap found? := by
  induction text using Text.induction_cut (c := ']') with
  | whole text h => rw [mentionsFrom_of_notMem h, stretches_of_notMem h, List.filterMap_nil]
  | cut stretch rest h ih =>
    rw [mentionsFrom_cons h, stretches_cons h, ih]
    cases hfound : found? stretch <;> simp [hfound]

theorem links_cons_char (c : Char) (text : List Char) :
    links (c :: text) = (linkAt? (c :: text)).toList ++ links text := by
  unfold links
  rw [List.tails_cons]
  cases h : linkAt? (c :: text) <;> simp [h]

theorem linkAt?_of_notMem {text : List Char} (h : ']' ∉ text) : linkAt? text = none := by
  rw [Option.eq_none_iff_forall_not_mem]
  intro t ht
  obtain ⟨path, rest, rfl, -⟩ := linkAt?_eq_some_iff.1 ht
  simp at h

theorem links_of_notMem {text : List Char} (h : ']' ∉ text) : links text = [] := by
  induction text with
  | nil => rfl
  | cons c text ih =>
    rw [links_cons_char, linkAt?_of_notMem h, ih fun hmem => h (List.mem_cons_of_mem c hmem)]
    rfl

/-- A link at the front of a stretch is one whose marker is the last. -/
theorem linkAt?_append {stretch : List Char} (h : ']' ∉ stretch) (rest : List Char) :
    linkAt? (stretch ++ ']' :: rest)
      = (Text.after? opener stretch).bind fun path =>
          if Text.contains opener path then none else topicOf? path := by
  have hafter : Text.after? opener (stretch ++ ']' :: rest) = _ :=
    Text.after?_append_cons (by decide) stretch rest
  unfold linkAt?
  cases hfront : Text.after? opener stretch with
  | none => simp [hafter, hfront]
  | some path =>
    have hpath : ']' ∉ path := by
      intro hmem
      apply h
      rw [Text.eq_append_of_after? hfront]
      exact List.mem_append_right _ hmem
    simp [hafter, hfront, Text.cutAt_append hpath]

/-- A marker in front of another one starts no link. -/
theorem linkAt?_of_later {c : Char} {stretch path : List Char} (h : ']' ∉ c :: stretch)
    (hlast : behindLast? stretch = some path) (rest : List Char) :
    linkAt? (c :: stretch ++ ']' :: rest) = none := by
  rw [linkAt?_append h]
  cases hfront : Text.after? opener (c :: stretch) with
  | none => rfl
  | some behind =>
    have hcontains : Text.contains opener behind := by
      -- the later marker stands in `[` and what follows, but not at that bracket
      obtain ⟨-, rfl⟩ := List.cons.inj (Text.eq_append_of_after? hfront)
      have hinfix : opener <:+: '[' :: behind := by
        by_contra hnot
        rw [← behindLast?_eq_none_iff] at hnot
        exact absurd (hlast.symm.trans hnot) (by simp)
      rw [contains_opener_iff]
      rcases List.infix_cons_iff.1 hinfix with hprefix | hinfix
      · exact absurd hprefix (by simp)
      · exact hinfix
    rw [Option.bind_some, if_pos hcontains]

/-- With no other marker behind it, a marker at the front starts a link if a path follows. -/
theorem linkAt?_of_last {c : Char} {stretch : List Char} (h : ']' ∉ c :: stretch)
    (hlast : behindLast? stretch = none) (rest : List Char) :
    linkAt? (c :: stretch ++ ']' :: rest) = link? (c :: stretch) := by
  have hbehind : behindLast? (c :: stretch) = Text.after? opener (c :: stretch) := by
    rw [behindLast?, hlast, Option.none_or]
  rw [linkAt?_append h, link?, hbehind]
  cases hfront : Text.after? opener (c :: stretch) with
  | none => rfl
  | some behind =>
    have hcontains : ¬ Text.contains opener behind := by
      rw [contains_opener_iff]
      exact not_infix_of_behindLast? (hbehind.trans hfront)
    rw [Option.bind_some, if_neg hcontains, Option.bind_some]

theorem links_cons {stretch : List Char} (h : ']' ∉ stretch) (rest : List Char) :
    links (stretch ++ ']' :: rest) = (link? stretch).toList ++ links rest := by
  induction stretch with
  | nil =>
    have hnone : linkAt? ([] ++ ']' :: rest) = none := linkAt?_append List.not_mem_nil rest
    rw [List.nil_append, links_cons_char, ← List.nil_append (']' :: rest), hnone]
    rfl
  | cons c stretch ih =>
    have hstretch : ']' ∉ stretch := fun hmem => h (List.mem_cons_of_mem c hmem)
    rw [List.cons_append, links_cons_char, ← List.cons_append, ih hstretch]
    cases hlast : behindLast? stretch with
    | some path =>
      have hlink : link? (c :: stretch) = link? stretch := by
        rw [link?, link?, behindLast?, hlast, Option.some_or]
      rw [linkAt?_of_later h hlast, hlink, Option.toList_none, List.nil_append]
    | none =>
      have hlink : link? stretch = none := by rw [link?, hlast, Option.bind_none]
      rw [linkAt?_of_last h hlast, hlink, Option.toList_none, List.nil_append]

/-- **The links**, read off the stretches: each stretch ends with at most one, from its last marker
on. -/
theorem links_eq (text : List Char) : links text = (stretches text).filterMap link? := by
  induction text using Text.induction_cut (c := ']') with
  | whole text h => rw [links_of_notMem h, stretches_of_notMem h, List.filterMap_nil]
  | cut stretch rest h ih =>
    rw [links_cons h, stretches_cons h, ih]
    cases hlink : link? stretch <;> simp [hlink]

/-! ## Where the two differ -/

/-- **A stretch that is misread.** A second marker opens behind the first, and either the last
marker is that of a link or everything behind the first is a path. -/
def Nested (stretch : List Char) : Prop :=
  ∃ front outer inner, stretch = front ++ opener ++ (outer ++ opener ++ inner) ∧
    ¬ opener <:+: front ∧ ¬ opener <:+: inner ∧
    ((topicOf? inner).isSome ∨ (topicOf? (outer ++ opener ++ inner)).isSome)

/-- A text is cut at its first marker. -/
theorem cutAt_opener {front : List Char} (h : ¬ opener <:+: front) (path : List Char) :
    Text.cutAt opener (front ++ opener ++ path) = some (front, path) := by
  induction front with
  | nil => simp [Text.cutAt, Text.after?]
  | cons c front ih =>
    rw [List.infix_cons_iff, not_or] at h
    -- the two characters of a marker differ, so none starts with the last one in front
    have hnot : Text.after? opener (c :: (front ++ opener ++ path)) = none := by
      cases front with
      | nil =>
        by_cases hc : c = '@'
        · simp [Text.after?, hc]
        · simp [Text.after?, Ne.symm hc]
      | cons d front =>
        have hfront : ¬ (c = '@' ∧ d = '[') := by
          rintro ⟨rfl, rfl⟩
          exact h.1 ⟨front, rfl⟩
        simp only [List.cons_append, Text.after?]
        split
        · rename_i hc
          rw [if_neg fun hd => hfront ⟨hc.symm, hd.symm⟩]
        · rfl
    rw [List.cons_append, List.cons_append, Text.cutAt, hnot, ih h.2]
    rfl

/-- Different paths name different topics. -/
theorem eq_of_topicOf? {path path' : List Char} {t : Topic} (h : topicOf? path = some t)
    (h' : topicOf? path' = some t) : path = path' := by
  have htext := Topic.text_of_parse (topicOf?_eq_some_iff.1 h)
  have htext' := Topic.text_of_parse (topicOf?_eq_some_iff.1 h')
  simpa using congrArg String.toList (htext.symm.trans htext')

theorem found?_ne_link?_iff {stretch : List Char} : found? stretch ≠ link? stretch ↔ Nested stretch := by
  constructor
  · intro hne
    unfold found? behindFirst? link? at hne
    cases hfirst : Text.cutAt opener stretch with
    | none =>
      have hlast := behindLast?_eq_none_iff.2 (Text.not_infix_of_cutAt_eq_none hfirst)
      rw [hfirst, hlast] at hne
      exact absurd rfl hne
    | some cut =>
      obtain ⟨front, path⟩ := cut
      have hstretch := Text.eq_append_of_cutAt hfirst
      rw [hfirst, hstretch, behindLast?_append] at hne
      cases hlast : behindLast? path with
      | none =>
        rw [hlast] at hne
        exact absurd rfl hne
      | some inner =>
        obtain ⟨outer, rfl⟩ := exists_of_behindLast? hlast
        refine ⟨front, outer, inner, hstretch, Text.not_infix_of_cutAt (by decide) hfirst,
          not_infix_of_behindLast? hlast, ?_⟩
        rw [hlast] at hne
        by_contra hneither
        simp only [not_or, Option.not_isSome_iff_eq_none] at hneither
        apply hne
        rw [Option.map_some, Option.bind_some, Option.some_or, Option.bind_some, hneither.1,
          hneither.2]
  · rintro ⟨front, outer, inner, rfl, hfront, hinner, hnames⟩ heq
    have hlast : behindLast? (front ++ opener ++ (outer ++ opener ++ inner)) = some inner := by
      rw [behindLast?_append, behindLast?_append, behindLast?_eq_none_iff.2 hinner]
      rfl
    have hsame : topicOf? (outer ++ opener ++ inner) = topicOf? inner := by
      rw [found?, behindFirst?, cutAt_opener hfront, link?, hlast] at heq
      exact heq
    rw [hsame, or_self, Option.isSome_iff_exists] at hnames
    obtain ⟨t, ht⟩ := hnames
    have hlength := congrArg List.length (eq_of_topicOf? (hsame.trans ht) ht)
    simp only [List.length_append, List.length_cons] at hlength
    omega

/-- A topic is found in a stretch that is misread only if its path has a marker in it. -/
theorem infix_text_of_found? {stretch : List Char} {t : Topic} (h : found? stretch = some t)
    (hne : found? stretch ≠ link? stretch) : opener <:+: t.text.toList := by
  obtain ⟨front, outer, inner, rfl, hfront, -, -⟩ := found?_ne_link?_iff.1 hne
  rw [found?, behindFirst?, cutAt_opener hfront] at h
  have hparse := topicOf?_eq_some_iff.1 h
  rw [Topic.text_of_parse hparse, String.toList_ofList]
  exact ⟨outer, inner, rfl⟩

theorem not_infix_text_of_link? {stretch : List Char} {t : Topic} (h : link? stretch = some t) :
    ¬ opener <:+: t.text.toList := by
  obtain ⟨path, hlast, hpath⟩ := Option.bind_eq_some_iff.1 h
  rw [Topic.text_of_parse (topicOf?_eq_some_iff.1 hpath), String.toList_ofList]
  exact not_infix_of_behindLast? hlast

section Selections

variable {α β : Type} {f g : α → Option β} {l : List α}

private theorem filterMap_sublist (h : ∀ a ∈ l, f a ≠ g a → f a = none) :
    (l.filterMap f).Sublist (l.filterMap g) := by
  induction l with
  | nil => exact List.Sublist.refl _
  | cons a l ih =>
    rw [List.forall_mem_cons] at h
    have hrest := ih h.2
    by_cases hsame : f a = g a
    · cases hg : g a with
      | none => simpa [hsame, hg] using hrest
      | some b => simpa [hsame, hg] using hrest
    · have hnone := h.1 hsame
      cases hg : g a with
      | none => exact absurd (hnone.trans hg.symm) hsame
      | some b => simpa [hnone, hg] using hrest.cons b

/-- If one selection only ever leaves out what another takes, and both give the same list, it
leaves out nothing. -/
private theorem eq_of_filterMap_eq (h : ∀ a ∈ l, f a ≠ g a → f a = none)
    (heq : l.filterMap f = l.filterMap g) : ∀ a ∈ l, f a = g a := by
  induction l with
  | nil => simp
  | cons a l ih =>
    rw [List.forall_mem_cons] at h ⊢
    by_cases hsame : f a = g a
    · refine ⟨hsame, ih h.2 ?_⟩
      cases hg : g a <;> simpa [hsame, hg] using heq
    · -- one element more on the other side cannot be made up for
      have hnone := h.1 hsame
      have hle := (filterMap_sublist h.2).length_le
      cases hg : g a with
      | none => exact absurd (hnone.trans hg.symm) hsame
      | some b =>
        have hlength := congrArg List.length heq
        simp only [List.filterMap_cons, hnone, hg, List.length_cons] at hlength
        omega

end Selections

/-- **What is found of the links of a prose.** The search reads each stretch from its first marker
on, while a link starts at the last. It finds exactly the links if no stretch is misread, and only
then. -/
theorem mentions_eq_links_iff (text : String) :
    mentions text = (stretches text.toList).filterMap found? ∧
    links text.toList = (stretches text.toList).filterMap link? ∧
    (mentions text = links text.toList ↔ ∀ stretch ∈ stretches text.toList, ¬ Nested stretch) := by
  have hfound : mentions text = (stretches text.toList).filterMap found? := mentionsFrom_eq _
  refine ⟨hfound, links_eq _, ?_⟩
  rw [hfound, links_eq]
  constructor
  · intro heq stretch hstretch hnested
    refine found?_ne_link?_iff.2 hnested (eq_of_filterMap_eq ?_ heq stretch hstretch)
    -- a topic found in a misread stretch has a marker in its text, as no topic of a link has
    intro other hother hne
    cases ht : found? other with
    | none => rfl
    | some t =>
      have hmem : t ∈ (stretches text.toList).filterMap found? :=
        List.mem_filterMap.2 ⟨other, hother, ht⟩
      rw [heq] at hmem
      obtain ⟨linked, -, hlink⟩ := List.mem_filterMap.1 hmem
      exact absurd (infix_text_of_found? ht hne) (not_infix_text_of_link? hlink)
  · intro hnone
    apply List.filterMap_congr
    intro stretch hstretch
    by_contra hne
    exact hnone stretch hstretch (found?_ne_link?_iff.1 hne)

/-- A link behind a marker that was never closed. -/
def hiddenLink : String :=
  "see @[a b and @[Good]"

/-- The link is there, and it is not found. -/
theorem mentions_hiddenLink :
    links hiddenLink.toList = [Topic.single "Good"] ∧ mentions hiddenLink = [] := by
  decide +kernel

end Marginalia.Prose
