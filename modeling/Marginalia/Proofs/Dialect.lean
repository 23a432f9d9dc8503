/-
What a collection of dialects answers, in terms of how it came about.

A registration drops the dialect that had its name and puts the new one at the
end. So what a collection holds is the last registration of every name, in the
order of registration: one registration keeps this up (`register_lastOfNames`),
and so does any number of them (`foldl_register`). Look-up by name goes through
that list from the front and look-up by file from the back, and both can be said
without the list (`Follows`): which registration answers, and when none does.

The built-in collection is such a history too, the registrations of all
languages. It exists because the declarations of every language are described
by a text that is a pattern (`Language.exists_dialect`). Settings register
further dialects on it, in the order in which they are described.
-/
import Marginalia.Settings
import Mathlib.Data.List.Dedup
import Mathlib.Tactic.Choose

set_option autoImplicit false

namespace Marginalia

namespace Dialects

/-! ## The last registration of every name -/

/-- The dialect was registered, those that are `later` after it, and none of them has its name. -/
structure LastOfName (history : List Dialect) (dialect : Dialect) (later : List Dialect) :
    Prop where
  registered : dialect :: later <:+ history
  unreplaced : ∀ d ∈ later, dialect.name ≠ d.name

/-- The last registration of every name, in the order of registration. -/
def lastOfNames (history : List Dialect) : List Dialect :=
  history.pwFilter fun a b => a.name ≠ b.name

section LastOfNames

variable {history later front back : List Dialect} {dialect : Dialect}

theorem map_name_lastOfNames (history : List Dialect) :
    (lastOfNames history).map Dialect.name = (history.map Dialect.name).dedup :=
  (List.pwFilter_map (R := (· ≠ ·)) Dialect.name history).symm

/-- Every name is kept. -/
theorem forall_lastOfNames_ne {name : String} :
    (∀ d ∈ lastOfNames history, name ≠ d.name) ↔ ∀ d ∈ history, name ≠ d.name := by
  have hmem : name ∈ (lastOfNames history).map Dialect.name ↔ name ∈ history.map Dialect.name := by
    rw [map_name_lastOfNames, List.mem_dedup]
  simpa [eq_comm] using not_congr hmem

theorem lastOfNames_cons_of_unreplaced (h : ∀ d ∈ later, dialect.name ≠ d.name) :
    lastOfNames (dialect :: later) = dialect :: lastOfNames later :=
  List.pwFilter_cons_of_pos (forall_lastOfNames_ne.2 h)

theorem lastOfNames_cons_of_replaced (h : ¬ ∀ d ∈ later, dialect.name ≠ d.name) :
    lastOfNames (dialect :: later) = lastOfNames later :=
  List.pwFilter_cons_of_neg (mt forall_lastOfNames_ne.1 h)

/-- What is kept is the last of its name, and behind it stands what is kept of the later ones. -/
theorem exists_lastOfName (h : lastOfNames history = front ++ dialect :: back) :
    ∃ later, LastOfName history dialect later ∧ lastOfNames later = back := by
  induction history generalizing front with
  | nil => simp [lastOfNames] at h
  | cons d history ih =>
    -- a split further back is one of the shorter history
    have hback : ∀ {front}, lastOfNames history = front ++ dialect :: back →
        ∃ later, LastOfName (d :: history) dialect later ∧ lastOfNames later = back := by
      intro front hfront
      obtain ⟨later, hlast, hlater⟩ := ih hfront
      exact ⟨later, ⟨hlast.registered.trans (List.suffix_cons d history), hlast.unreplaced⟩, hlater⟩
    by_cases hd : ∀ e ∈ history, d.name ≠ e.name
    · rw [lastOfNames_cons_of_unreplaced hd] at h
      rcases List.cons_eq_append_iff.1 h with ⟨rfl, hcons⟩ | ⟨front', rfl, hfront⟩
      · obtain ⟨rfl, rfl⟩ := List.cons.inj hcons
        exact ⟨history, ⟨List.suffix_rfl, hd⟩, rfl⟩
      · exact hback hfront
    · rw [lastOfNames_cons_of_replaced hd] at h
      exact hback h

/-- The last of a name is kept, before what is kept of the later ones. -/
theorem LastOfName.exists_front (h : LastOfName history dialect later) :
    ∃ front, lastOfNames history = front ++ dialect :: lastOfNames later := by
  obtain ⟨before, rfl⟩ := h.registered
  -- an earlier registration is kept in front or not at all
  induction before with
  | nil => exact ⟨[], lastOfNames_cons_of_unreplaced h.unreplaced⟩
  | cons d before ih =>
    obtain ⟨front, hfront⟩ := ih ⟨List.suffix_append .., h.unreplaced⟩
    by_cases hd : ∀ e ∈ before ++ dialect :: later, d.name ≠ e.name
    · exact ⟨d :: front, by rw [List.cons_append, lastOfNames_cons_of_unreplaced hd, hfront]; rfl⟩
    · exact ⟨front, by rw [List.cons_append, lastOfNames_cons_of_replaced hd, hfront]⟩

theorem mem_lastOfNames :
    dialect ∈ lastOfNames history ↔ ∃ later, LastOfName history dialect later := by
  constructor
  · intro h
    obtain ⟨front, back, hsplit⟩ := List.append_of_mem h
    obtain ⟨later, hlast, -⟩ := exists_lastOfName hsplit
    exact ⟨later, hlast⟩
  · rintro ⟨later, hlast⟩
    obtain ⟨front, hsplit⟩ := hlast.exists_front
    simp [hsplit]

/-- **One registration.** -/
theorem lastOfNames_concat (history : List Dialect) (dialect : Dialect) :
    lastOfNames (history ++ [dialect])
      = (lastOfNames history).filter (fun d => d.name ≠ dialect.name) ++ [dialect] := by
  induction history with
  | nil => rfl
  | cons d history ih =>
    rw [List.cons_append]
    by_cases hd : ∀ e ∈ history, d.name ≠ e.name
    · -- it was kept so far, and stays unless the new one has its name
      rw [lastOfNames_cons_of_unreplaced hd]
      by_cases hname : d.name = dialect.name
      · rw [lastOfNames_cons_of_replaced (by simp [hname]), ih, List.filter_cons_of_neg (by simpa)]
      · rw [lastOfNames_cons_of_unreplaced, ih, List.filter_cons_of_pos (by simpa),
          List.cons_append]
        simpa [or_imp, forall_and, hname] using hd
    · rw [lastOfNames_cons_of_replaced hd, lastOfNames_cons_of_replaced, ih]
      exact fun h => hd fun e he => h e (List.mem_append_left _ he)

theorem register_lastOfNames (history : List Dialect) (dialect : Dialect) :
    register ⟨lastOfNames history⟩ dialect = ⟨lastOfNames (history ++ [dialect])⟩ := by
  rw [lastOfNames_concat, register]

/-- **Any number of registrations.** -/
theorem foldl_register (past history : List Dialect) :
    history.foldl register ⟨lastOfNames past⟩ = ⟨lastOfNames (past ++ history)⟩ := by
  induction history generalizing past with
  | nil => rw [List.foldl_nil, List.append_nil]
  | cons d history ih =>
    rw [List.foldl_cons, register_lastOfNames, ih, List.append_assoc, List.singleton_append]

end LastOfNames

/-! ## Look-ups -/

/-- **Dialects that answer as a history of registrations has it.** -/
structure Follows (dialects : Dialects) (history : List Dialect) : Prop where
  /-- Every name is listed once. -/
  names_nodup : dialects.names.Nodup
  /-- A name stands for the last registration under it. -/
  get?_eq_some : ∀ name dialect, dialects.get? name = some dialect ↔
    dialect.name = name ∧ ∃ later, LastOfName history dialect later
  get?_eq_none : ∀ name, dialects.get? name = none ↔ ∀ d ∈ history, name ≠ d.name
  /-- A file is handled by the latest of the registrations that are the last of their own name and
  have its extension. -/
  detect?_eq_some : ∀ path dialect, dialects.detect? path = some dialect ↔
    dialect.handles path = true ∧ ∃ later, LastOfName history dialect later ∧
      ∀ d later', LastOfName later d later' → d.handles path = false
  detect?_eq_none : ∀ path, dialects.detect? path = none ↔
    ∀ d later, LastOfName history d later → d.handles path = false
  /-- What answers for a file is what its own name stands for: a dialect that was replaced never
  answers. -/
  detect?_registered : ∀ path dialect, dialects.detect? path = some dialect →
    dialects.get? dialect.name = some dialect

section Follows

variable {history : List Dialect} {dialect : Dialect} {name path : String}

theorem get?_lastOfNames_eq_some_iff :
    get? ⟨lastOfNames history⟩ name = some dialect ↔
      dialect.name = name ∧ ∃ later, LastOfName history dialect later := by
  constructor
  · intro h
    have hname : dialect.name = name := by simpa using List.find?_some h
    exact ⟨hname, mem_lastOfNames.1 (List.mem_of_find?_eq_some h)⟩
  · rintro ⟨rfl, later, hlast⟩
    obtain ⟨front, hsplit⟩ := hlast.exists_front
    -- nothing in front of it has its name, so the search from the front gets there
    have hdistinct : (lastOfNames history).Pairwise fun a b => a.name ≠ b.name :=
      List.pairwise_pwFilter history
    rw [hsplit, List.pairwise_append] at hdistinct
    refine List.find?_eq_some_iff_append.2 ⟨by simp, front, _, hsplit, fun d hd => ?_⟩
    simpa using hdistinct.2.2 d hd dialect List.mem_cons_self

theorem get?_lastOfNames_eq_none_iff :
    get? ⟨lastOfNames history⟩ name = none ↔ ∀ d ∈ history, name ≠ d.name := by
  rw [get?, List.find?_eq_none, ← forall_lastOfNames_ne]
  simp [eq_comm]

theorem detect?_lastOfNames_eq_some_iff :
    detect? ⟨lastOfNames history⟩ path = some dialect ↔
      dialect.handles path = true ∧ ∃ later, LastOfName history dialect later ∧
        ∀ d later', LastOfName later d later' → d.handles path = false := by
  -- the search from the back has passed what is kept of the later registrations
  have hpassed : ∀ later : List Dialect,
      (∀ d ∈ (lastOfNames later).reverse, (!d.handles path) = true) ↔
        ∀ d later', LastOfName later d later' → d.handles path = false := by
    simp [mem_lastOfNames]
  rw [detect?, List.find?_eq_some_iff_append]
  refine and_congr_right fun _ => ?_
  constructor
  · rintro ⟨back, front, hsplit, hback⟩
    have hsplit' : lastOfNames history = front.reverse ++ dialect :: back.reverse := by
      rw [← List.reverse_inj, hsplit]
      simp
    obtain ⟨later, hlast, hlater⟩ := exists_lastOfName hsplit'
    refine ⟨later, hlast, (hpassed later).1 ?_⟩
    rwa [hlater, List.reverse_reverse]
  · rintro ⟨later, hlast, hlater⟩
    obtain ⟨front, hsplit⟩ := hlast.exists_front
    refine ⟨(lastOfNames later).reverse, front.reverse, ?_, (hpassed later).2 hlater⟩
    rw [hsplit]
    simp

theorem detect?_lastOfNames_eq_none_iff :
    detect? ⟨lastOfNames history⟩ path = none ↔
      ∀ d later, LastOfName history d later → d.handles path = false := by
  rw [detect?, List.find?_eq_none]
  simp [mem_lastOfNames]

/-- Dialects that hold the last registration of every name answer as their history has it. -/
theorem follows_lastOfNames (history : List Dialect) : Follows ⟨lastOfNames history⟩ history where
  names_nodup := by
    rw [names, map_name_lastOfNames]
    exact List.nodup_dedup _
  get?_eq_some _ _ := get?_lastOfNames_eq_some_iff
  get?_eq_none _ := get?_lastOfNames_eq_none_iff
  detect?_eq_some _ _ := detect?_lastOfNames_eq_some_iff
  detect?_eq_none _ := detect?_lastOfNames_eq_none_iff
  detect?_registered path dialect h := by
    obtain ⟨-, later, hlast, -⟩ := detect?_lastOfNames_eq_some_iff.1 h
    exact get?_lastOfNames_eq_some_iff.2 ⟨rfl, later, hlast⟩

end Follows

end Dialects

/-! ## The built-in dialects -/

theorem Dialect.of_some (name : String) (extensions : List String) (d : Delimiters)
    (text : String) : Dialect.of name extensions d (some text)
      = (Pattern.parse text).map fun pattern => ⟨name, extensions, d, some pattern⟩ := by
  unfold Dialect.of
  dsimp only
  cases Pattern.parse text <;> rfl

/-- A text is a pattern if its characters are read to the end. -/
theorem Pattern.exists_parse_ofList {chars : List Char}
    (h : (match (alternatives (4 * chars.length + 8)).run { rest := chars } with
      | .ok (_, reader) => reader.rest.isEmpty
      | .error _ => false) = true) :
    ∃ pattern, parse (String.ofList chars) = .ok pattern := by
  rw [parse, String.toList_ofList]
  cases hread : (alternatives (4 * chars.length + 8)).run { rest := chars } with
  | error fault =>
    rw [hread] at h
    exact absurd h (by simp)
  | ok read =>
    rw [hread] at h
    have hrest : read.2.rest = [] := List.isEmpty_iff.1 h
    exact ⟨read.1, by simp [bind, Except.bind, hrest]⟩

namespace Language

-- The texts are long: evaluation is fast on their characters, but not on the texts themselves.
set_option maxRecDepth 20000 in
theorem exists_parse_declaration (language : Language) :
    ∃ pattern, Pattern.parse language.declaration = .ok pattern := by
  cases language <;> exact Pattern.exists_parse_ofList (by decide +kernel)

/-- Every language has a dialect. -/
theorem exists_dialect (language : Language) : ∃ dialect, language.dialect = .ok dialect := by
  obtain ⟨pattern, hpattern⟩ := language.exists_parse_declaration
  rw [dialect, Dialect.of_some, hpattern]
  exact ⟨_, rfl⟩

theorem exists_mapM_dialect (languages : List Language) :
    ∃ dialects, languages.mapM dialect = .ok dialects := by
  choose made hmade using exists_dialect
  have hdialect : dialect = fun language => pure (made language) := funext hmade
  exact ⟨languages.map made, by rw [hdialect, List.mapM_pure]; rfl⟩

end Language

namespace Dialects

/-- The built-in dialects hold the last registration of every name too. -/
theorem builtin_eq {languages : List Dialect}
    (h : Language.all.mapM Language.dialect = .ok languages) :
    builtin = .ok ⟨lastOfNames languages⟩ := by
  have hregister : languages.foldl register {} = ⟨lastOfNames languages⟩ :=
    foldl_register [] languages
  rw [builtin, h, ← hregister]
  rfl

end Dialects

/-! ## The dialects of settings -/

/-- Registering as the descriptions are read comes to the same as reading all of them first. -/
theorem LanguageSettings.foldlM_register (languages : List LanguageSettings) (start : Dialects) :
    languages.foldlM (fun dialects language => do
        let dialect ← language.dialect
        pure (dialects.register dialect)) start
      = (languages.mapM dialect).map fun described => described.foldl Dialects.register start := by
  induction languages generalizing start with
  | nil => rfl
  | cons language languages ih =>
    rw [List.foldlM_cons, List.mapM_cons]
    cases language.dialect with
    | error failure => rfl
    | ok described =>
      refine (ih (start.register described)).trans ?_
      cases languages.mapM dialect <;> rfl

theorem Settings.dialects_eq {start : Dialects} (h : Dialects.builtin = .ok start)
    (settings : Settings) :
    settings.dialects = (settings.languages.mapM LanguageSettings.dialect).map
      fun described => described.foldl Dialects.register start := by
  rw [← LanguageSettings.foldlM_register, Settings.dialects, h]
  rfl

namespace Dialects

/-- **Look-ups after any history.** Dialects that are registered on an empty collection answer as
their history has it. So do those that are registered on the built-in one, where the history starts
with the languages, and the dialects of settings come about in this way. -/
theorem follows_history (history : List Dialect) :
    Follows (history.foldl register {}) history ∧
    ∃ languages start, Language.all.mapM Language.dialect = .ok languages ∧
      builtin = .ok start ∧ Follows (history.foldl register start) (languages ++ history) ∧
      ∀ settings : Settings, settings.dialects
        = (settings.languages.mapM LanguageSettings.dialect).map
            fun described => described.foldl register start := by
  constructor
  · have hempty : history.foldl register {} = ⟨lastOfNames history⟩ := foldl_register [] history
    rw [hempty]
    exact follows_lastOfNames history
  · obtain ⟨languages, hlanguages⟩ := Language.exists_mapM_dialect Language.all
    have hbuiltin := builtin_eq hlanguages
    refine ⟨languages, _, hlanguages, hbuiltin, ?_, Settings.dialects_eq hbuiltin⟩
    rw [foldl_register]
    exact follows_lastOfNames (languages ++ history)

end Dialects

end Marginalia
