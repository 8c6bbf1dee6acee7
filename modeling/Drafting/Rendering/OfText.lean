import Drafting.Formula.Parse
import Drafting.Rendering.Canonical
import Drafting.Rendering.Document

/-!
# From text to text

The two renderings that are asked for most, straight from a formula text.

## Main definitions

* `normalize` — the canonical text of a formula text.
* `storedDocument` — the document of a formula text, as it is stored.
-/

namespace Drafting

def normalize (options : Options) (text : List Char) : Except Failure (List Char) :=
  (Formula.parse options text).map Rendering.canonical

def storedDocument (options : Options) (text : List Char) : Except Failure ByteArray :=
  (Formula.parse options text).map fun formula => Rendering.stored (Rendering.document formula)

end Drafting
