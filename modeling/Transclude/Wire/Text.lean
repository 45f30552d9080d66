import Transclude.Json.Text
import Transclude.Text.Utf8
import Transclude.Wire.Decode
import Transclude.Wire.Encode

/-!
# Documents as texts

Main definitions:

- {lit}`Document.ofText`, {lit}`Document.ofBytes`: the document of a text or of its bytes.
- {lit}`Document.toText`, {lit}`Document.toBytes`: the compact text of a document.
-/

namespace Transclude.Document

/-- The document of a text. -/
def ofText (text : String) : Reading Document :=
  match Json.parse? text with
  | some v => Document.ofJson v
  | none => .error .invalidJson

/-- The document of some bytes; bytes that are no text are no document either. -/
def ofBytes (bytes : List UInt8) : Reading Document :=
  match Utf8.decode bytes with
  | .ok text => ofText text
  | .error _ => .error .invalidJson

/-- The compact text of a document. -/
def toText (d : Document) : String :=
  d.toJson.render

/-- The bytes of the compact text of a document. -/
def toBytes (d : Document) : List UInt8 :=
  Utf8.encode d.toText

end Transclude.Document
