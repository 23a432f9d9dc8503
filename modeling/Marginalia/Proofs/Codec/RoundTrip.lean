/-
Documents read back as what was written.

For each type the reader undoes the writer, field by field. Two things have to
be asked of the data. A topic is written as its text, and only the text of a
**readable** topic is cut into the same segments again. And a number is read
only if it fits into sixty-four bits. Everything else (texts of any kind,
absent parts, empty lists, sets and maps) reads back unconditionally, and so
the conditions of a record are those of its topics and positions, collected
under the name `Writable`.
-/
import Marginalia.Codec.Outline
import Marginalia.Codec.Report
import Marginalia.Proofs.Data.Lookup
import Marginalia.Proofs.Data.Value
import Marginalia.Proofs.Topic

set_option autoImplicit false

namespace Marginalia

/-! ## Topics and positions -/

theorem Topic.decode_encode {t : Topic} (h : t.Readable) : Topic.decode t.encode = some t := by
  rw [Topic.decode, Topic.encode, Value.toText?, Option.bind_some, Topic.parse_text h]
  rfl

namespace Position

/-- The line and the column fit into sixty-four bits. -/
def Fits (p : Position) : Prop :=
  p.line < Value.natBound ∧ p.column < Value.natBound

instance (p : Position) : Decidable p.Fits :=
  inferInstanceAs (Decidable (_ ∧ _))

theorem decode_encode {p : Position} (h : p.Fits) : decode p.encode = some p := by
  have hline := Value.toNat?_nat h.1
  have hcolumn := Value.toNat?_nat h.2
  simp [decode, encode, Fields.of?, Fields.required, Value.toText?, hline, hcolumn]

end Position

/-! ## Contents -/

theorem Content.decode_encode (c : Content) : Content.decode c.encode = some c := by
  rw [Content.decode, Content.encode, Fields.of?_record]
  simp only [Option.bind_eq_bind, Option.bind_some]
  rw [Fields.optional_text "title" c.title (by simp), Fields.optional_text "body" c.body (by simp),
    Fields.optional_text "alias" c.nickname (by simp)]
  rfl

/-! ## Notes -/

theorem NoteKind.decode_encode (kind : NoteKind) : NoteKind.decode kind.encode = some kind := by
  cases kind <;> rfl

/-- A note that reads back: its topics can be read, and its position fits. -/
structure Note.Writable (n : Note) : Prop where
  topic : n.topic.Readable
  mentions : ∀ t ∈ n.mentions, t.Readable
  position : n.position.Fits

instance (n : Note) : Decidable n.Writable :=
  decidable_of_iff (n.topic.Readable ∧ (∀ t ∈ n.mentions, t.Readable) ∧ n.position.Fits)
    ⟨fun h => ⟨h.1, h.2.1, h.2.2⟩, fun h => ⟨h.topic, h.mentions, h.position⟩⟩

section Form

variable {entries : List (String × Value)} {positional : Bool} {name : String}

@[simp]
theorem Fields.find?_mentionsField {mentions : List Topic} :
    (Fields.mk (Note.mentionsField mentions) positional).find? name
      = if "mentions" = name ∧ mentions ≠ [] then some (.list (mentions.map Topic.encode))
        else none := by
  rw [Note.mentionsField]
  cases mentions with
  | nil => simp
  | cons t mentions => simp

/-- Links are left out where there are none. -/
theorem Fields.orDefault_mentions (mentions : List Topic) (h : ∀ t ∈ mentions, t.Readable)
    (hfind : (Fields.mk entries false).find? "mentions"
      = (Fields.mk (Note.mentionsField mentions) false).find? "mentions") :
    (Fields.mk entries false).orDefault "mentions" [] (Value.toList? Topic.decode)
      = some mentions := by
  rw [Fields.find?_mentionsField] at hfind
  refine orDefault_of_find? "mentions" mentions [] (fun hnone => ?_) fun hsome => ?_
  · rw [hfind, if_neg fun hboth => hboth.2 hnone]
  · rw [if_pos ⟨rfl, hsome⟩] at hfind
    exact ⟨_, hfind, Value.toList?_map fun t ht => Topic.decode_encode (h t ht)⟩

/-- A block says of itself that it is not collected, and nothing where it is. -/
theorem Fields.orDefault_collected (collected : Bool)
    (hfind : (Fields.mk entries false).find? "collected"
      = if collected then none else some (.bool false)) :
    (Fields.mk entries false).orDefault "collected" true Value.toBool? = some collected := by
  refine orDefault_of_find? "collected" collected true (fun htrue => ?_) fun hfalse => ?_
  · rw [hfind, if_pos htrue]
  · rw [if_neg hfalse] at hfind
    refine ⟨_, hfind, ?_⟩
    rw [ne_eq, Bool.not_eq_true] at hfalse
    rw [hfalse]
    rfl

/-- **Forms.** The fields of a form are found among those of its note. -/
theorem NoteForm.ofFields?_fields {n : Note} (h : ∀ t ∈ n.mentions, t.Readable) :
    NoteForm.ofFields?
      ⟨[("path", n.topic.encode), ("position", n.position.encode)] ++ n.form.fields, false⟩
      = some n.form := by
  rw [Note.mentions] at h
  cases hform : n.form with
  | declaration title symbol mentions =>
    rw [hform] at h
    rw [ofFields?, fields, Fields.optional_optText "title" title (by simp),
      Fields.optional_optText "bound_symbol" symbol (by simp),
      Fields.orDefault_mentions mentions h (by simp)]
    rfl
  | block b =>
    rw [hform] at h
    rw [ofFields?, fields, Fields.optional_optText "body" b.body (by simp),
      Fields.optional_optText "alias" b.nickname (by simp),
      Fields.optional_text "title" b.title (by simp),
      Fields.orDefault_mentions b.mentions h (by simp),
      Fields.orDefault_collected b.collected (by simp)]
    rfl
  | reference => rfl

end Form

theorem Note.decode_encode {n : Note} (h : n.Writable) : Note.decode n.encode = some n := by
  rw [Note.encode, Note.decode, NoteForm.ofFields?_fields h.mentions]
  simp [Fields.required, Topic.decode_encode h.topic, Position.decode_encode h.position]

/-! ## Entries -/

theorem Site.decode_encode {s : Site} (h : s.position.Fits) : Site.decode s.encode = some s := by
  rw [Site.decode, Site.encode, Fields.of?_record]
  simp only [Option.bind_eq_bind, Option.bind_some]
  rw [Fields.optional_text "bound_symbol" s.symbol (by simp)]
  simp [Fields.required, Position.decode_encode h]

theorem Conflict.decode_encode {c : Conflict} (h : c.position.Fits) :
    Conflict.decode c.encode = some c := by
  simp [Conflict.decode, Conflict.encode, Fields.of?_record, Fields.required,
    NoteKind.decode_encode, Position.decode_encode h, Content.decode_encode]

theorem SortedSet.decode_encode (s : SortedSet String) : decode (encode s) = some s := by
  have hlist : Value.toList? Value.toText? (.texts (elements s)) = some (elements s) :=
    Value.toList?_map fun _ _ => rfl
  rw [decode, encode, hlist, Option.map_some, ofList_elements]

/-- An entry that reads back: its topic can be read, and the positions in it fit. -/
structure Entry.Writable (e : Entry) : Prop where
  topic : e.topic.Readable
  declarationSites : ∀ s ∈ e.declarationSites, s.position.Fits
  blockSites : ∀ s ∈ e.blockSites, s.position.Fits
  referenceSites : ∀ p ∈ e.referenceSites, p.Fits
  mentionSites : ∀ p ∈ e.mentionSites, p.Fits
  conflicts : ∀ c ∈ e.conflicts, c.position.Fits

/-- Content may be there and say nothing, which is not the same as its absence. -/
theorem Fields.optional_content {entries : List (String × Value)} (content : Option Content)
    (hfind : (Fields.mk entries false).find? "content"
      = some (match content with | some c => c.encode | none => .null)) :
    (Fields.mk entries false).optional "content" Content.decode = some content := by
  rw [optional, hfind]
  cases content with
  | none => rfl
  | some c =>
    refine Value.toOption?_of_decode (fun hnull => ?_) c.decode_encode
    simp [Content.encode] at hnull

theorem Entry.decode_encode {e : Entry} (h : e.Writable) : Entry.decode e.encode = some e := by
  have hdeclarations := Value.toList?_map fun s hs => Site.decode_encode (h.declarationSites s hs)
  have hblocks := Value.toList?_map fun s hs => Site.decode_encode (h.blockSites s hs)
  have hreferences := Value.toList?_map fun p hp => Position.decode_encode (h.referenceSites p hp)
  have hmentions := Value.toList?_map fun p hp => Position.decode_encode (h.mentionSites p hp)
  have hconflicts := Value.toList?_map fun c hc => Conflict.decode_encode (h.conflicts c hc)
  rw [Entry.decode, Entry.encode, Fields.of?_record]
  simp only [Option.bind_eq_bind, Option.bind_some]
  rw [Fields.optional_content e.content (by cases e.content <;> simp)]
  simp [Fields.required, Topic.decode_encode h.topic, SortedSet.decode_encode, hdeclarations,
    hblocks, hreferences, hmentions, hconflicts]

/-! ## Outlines -/

/-- **A map reads back** if each of its keys and values does. Its entries come in order, and
reading puts them in order again. -/
theorem SortedMap.decode_encode {κ α : Type} [Ord κ] [Std.TransOrd κ] {key : κ → String}
    {value : α → Value} {key? : String → Option κ} {value? : Value → Option α}
    {map : SortedMap κ α} (h : ∀ e ∈ map.toList, key? (key e.1) = some e.1 ∧
      value? (value e.2) = some e.2) : decode key? value? (encode key value map) = some map := by
  rw [encode, decode, Value.mapM_map_eq_some fun e he => ?_, Option.map_some, ofList_toList]
  obtain ⟨hkey, hvalue⟩ := h e he
  simp only [hkey, hvalue]
  rfl

/-- An outline that reads back: its topics can be read, and the positions in its entries fit. -/
structure Outline.Writable (o : Outline) : Prop where
  entries : ∀ e ∈ o.entries.toList, e.1.Readable ∧ e.2.Writable
  nicknames : ∀ e ∈ o.nicknames.toList, e.2.Readable

theorem Outline.decode_encode {o : Outline} (h : o.Writable) : decode o.encode = some o := by
  have hentries : SortedMap.decode (fun s => (Topic.parse s).toOption) Entry.decode
      (SortedMap.encode Topic.text Entry.encode o.entries) = some o.entries := by
    refine SortedMap.decode_encode fun e he => ?_
    obtain ⟨hkey, hentry⟩ := h.entries e he
    exact ⟨by rw [Topic.parse_text hkey]; rfl, Entry.decode_encode hentry⟩
  have hnicknames : SortedMap.decode some Topic.decode
      (SortedMap.encode id Topic.encode o.nicknames) = some o.nicknames :=
    SortedMap.decode_encode fun e he => ⟨rfl, Topic.decode_encode (h.nicknames e he)⟩
  simp [decode, encode, Fields.of?_record, Fields.required, SortedSet.decode_encode, hentries,
    hnicknames]

/-! ## Issues -/

/-- An issue that reads back. -/
def Issue.Writable : Issue → Prop
  | .disagreement d => d.topic.Readable ∧ d.canonicalPosition.Fits ∧ d.position.Fits
  | .collision c =>
    c.boundTopic.Readable ∧ c.boundPosition.Fits ∧ c.claimedTopic.Readable ∧ c.position.Fits

theorem Issue.decode_encode {issue : Issue} (h : issue.Writable) :
    Issue.decode issue.encode = some issue := by
  cases issue with
  | disagreement d =>
    obtain ⟨htopic, hcanonical, hposition⟩ := h
    simp [Issue.decode, Issue.encode, Value.toTag?, Fields.of?_record, Disagreement.fields,
      Disagreement.ofFields?, Fields.required, Topic.decode_encode htopic, NoteKind.decode_encode,
      Content.decode_encode, Position.decode_encode hcanonical, Position.decode_encode hposition]
  | collision c =>
    obtain ⟨hbound, hboundPosition, hclaimed, hposition⟩ := h
    simp [Issue.decode, Issue.encode, Value.toTag?, Fields.of?_record, Collision.fields,
      Collision.ofFields?, Fields.required, Value.toText?, Topic.decode_encode hbound,
      Topic.decode_encode hclaimed, Position.decode_encode hboundPosition,
      Position.decode_encode hposition]

/-! ## Reports -/

theorem Severity.decode_text (severity : Severity) :
    Severity.decode (.text severity.text) = some severity := by
  cases severity <;> rfl

theorem FindingKind.decode_tag (kind : FindingKind) :
    FindingKind.decode (.text kind.tag) = some kind := by
  cases kind <;> rfl

/-- A finding that reads back. -/
structure Finding.Writable (f : Finding) : Prop where
  location : ∀ p ∈ f.location, p.Fits
  topic : ∀ t ∈ f.topic, t.Readable

theorem Finding.decode_encode {f : Finding} (h : f.Writable) :
    Finding.decode f.encode = some f := by
  rw [Finding.decode, Finding.encode, Fields.of?_record]
  simp only [Option.bind_eq_bind, Option.bind_some]
  have hposition : ∀ p : Position, p.encode ≠ .null := fun p hp => by simp [Position.encode] at hp
  have htopic : ∀ t : Topic, t.encode ≠ .null := fun t ht => by simp [Topic.encode] at ht
  rw [Fields.optional_of_find? "location" f.location (by simp) hposition
      fun p hp => Position.decode_encode (h.location p hp),
    Fields.optional_of_find? "path" f.topic (by simp) htopic
      fun t ht => Topic.decode_encode (h.topic t ht),
    Fields.optional_text "suggestion" f.suggestion (by simp)]
  simp [Fields.required, Value.toText?, Severity.decode_text, FindingKind.decode_tag]

/-- A report that reads back: its counts fit, and its findings read back. -/
structure Report.Writable (r : Report) : Prop where
  filesChecked : r.filesChecked < Value.natBound
  annotations : r.annotations < Value.natBound
  errors : r.errors < Value.natBound
  warnings : r.warnings < Value.natBound
  findings : ∀ f ∈ r.findings, f.Writable

theorem Report.decode_encode {r : Report} (h : r.Writable) : Report.decode r.encode = some r := by
  have hfindings := Value.toList?_map fun f hf => Finding.decode_encode (h.findings f hf)
  simp [Report.decode, Report.encode, Fields.of?_record, Fields.required, hfindings,
    Value.toNat?_nat h.filesChecked, Value.toNat?_nat h.annotations, Value.toNat?_nat h.errors,
    Value.toNat?_nat h.warnings]

end Marginalia
