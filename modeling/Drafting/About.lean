/-!
# About

The name and the version under which the program reports.
-/

namespace Drafting.About

def program : String := "patternformula"

def version : String := "0.1.0"

end Drafting.About
