/-
Merging the notes about one topic.

Declarations and blocks are merged apart. In each kind one note is canonical:
of the declarations the first that has a title, of the collected blocks the
first. A note whose content differs from the canonical one's is a
disagreement, except that an untitled declaration only marks code and never
disagrees. Blocks that are not collected lend a title and a nickname where the
others leave them open.
-/
import Marginalia.Outline

set_option autoImplicit false

namespace Marginalia.Merge

/-- What the notes about one topic come to. -/
@[ext]
structure Result where
  content : Option Content
  declarationSites : List Site
  blockSites : List Site
  referenceSites : List Position
  disagreements : List Disagreement
  /-- The nickname, and where it is written. -/
  claim : Option (String × Position)
deriving DecidableEq

/-- The content of a note; a reference has an empty one. -/
def contentOf (note : Note) : Content :=
  note.content.getD {}

/-- The site of a note. -/
def siteOf (note : Note) : Site :=
  ⟨note.position, note.symbol⟩

/-- A note that differs from the canonical one. -/
def disagreement (canonical note : Note) : Disagreement :=
  { topic := note.topic
    kind := note.kind
    canonical := contentOf canonical
    canonicalPosition := canonical.position
    divergent := contentOf note
    position := note.position }

/-- Sorts notes into sites and disagreements with the canonical note. -/
def split (canonical : Option Note) (diverges : Note → Note → Bool) (notes : List Note) :
    List Site × List Disagreement :=
  match canonical with
  | none => (notes.map siteOf, [])
  | some c =>
    ((notes.filter fun n => !diverges c n).map siteOf,
      (notes.filter (diverges c)).map (disagreement c))

/-- Whether a declaration with a title says something else than the canonical one. -/
def declarationDiverges (canonical note : Note) : Bool :=
  (contentOf note).title.isSome && contentOf note ≠ contentOf canonical

/-- Whether a block says something else than the canonical one. -/
def blockDiverges (canonical note : Note) : Bool :=
  contentOf note ≠ contentOf canonical

/-- Merges notes about one topic, given in order. -/
def merge (notes : List Note) : Result :=
  let declarations := notes.filter fun n => n.kind = .declaration
  let allBlocks := notes.filter fun n => n.kind = .block
  let blocks := allBlocks.filter Note.isCollected
  let lent := allBlocks.filter fun n => !n.isCollected
  let canonicalDeclaration := declarations.find? fun n => n.title.isSome
  let canonicalBlock := blocks.head?
  let (declarationSites, declarationDisagreements) :=
    split canonicalDeclaration declarationDiverges declarations
  let (blockSites, blockDisagreements) := split canonicalBlock blockDiverges blocks
  let lentTitle := lent.findSome? fun n => (contentOf n).title
  let lentClaim := lent.findSome? fun n => (contentOf n).nickname.map fun a => (a, n.position)
  let block := (canonicalBlock.map contentOf).getD {}
  let title := ((canonicalDeclaration.bind fun n => (contentOf n).title).or block.title).or lentTitle
  let claim := (canonicalBlock.bind fun n => block.nickname.map fun a => (a, n.position)).or lentClaim
  let hasSites := !declarationSites.isEmpty || !blockSites.isEmpty
  { content :=
      if hasSites || title.isSome || claim.isSome then
        some { title, body := block.body, nickname := claim.map (·.1) }
      else none
    declarationSites
    blockSites
    referenceSites := (notes.filter fun n => n.kind = .reference).map Note.position
    disagreements := declarationDisagreements ++ blockDisagreements
    claim }

end Marginalia.Merge
