/-
Results as they are printed: as a listing to read, or as a JSON document on
one line or over indented lines.

Every result has both a listing and a document, and the format only picks one
of them. Colours are a matter of listings alone.
-/
import Marginalia.Codec.Outline
import Marginalia.Codec.Report
import Marginalia.Data.Json
import Marginalia.Listing.Occurrences
import Marginalia.Listing.Outline
import Marginalia.Listing.Report
import Marginalia.Listing.Sheet

set_option autoImplicit false

namespace Marginalia

/-- How results are written. -/
inductive OutputFormat where
  | text
  | json
  | jsonPretty
deriving DecidableEq, Repr, Inhabited

namespace OutputFormat

/-- A result that has a listing and a document. -/
def write (format : OutputFormat) (colours : Bool) (listing : Styled) (document : Value) :
    String :=
  match format with
  | .text => listing.render colours
  | .json => Json.compact document
  | .jsonPretty => Json.pretty document

/-- A report. -/
def report (format : OutputFormat) (colours : Bool) (r : Report) : String :=
  format.write colours (Listing.report r) r.encode

/-- An outline. -/
def outline (format : OutputFormat) (colours : Bool) (o : Outline) : String :=
  format.write colours (Listing.outline o) o.encode

/-- The sheet of a file. -/
def sheet (format : OutputFormat) (colours : Bool) (s : Sheet) : String :=
  format.write colours (Listing.sheet s) s.encode

/-- The places of a topic, with addresses where there is a link format. -/
def occurrences (format : OutputFormat) (colours : Bool) (topic : Topic)
    (all : List Occurrence) (links : Option LinkFormat) : String :=
  format.write colours (Listing.occurrences topic all links)
    (.list (all.map (Occurrence.encode links)))

end OutputFormat

end Marginalia
