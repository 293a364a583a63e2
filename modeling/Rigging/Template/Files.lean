import Rigging.Template.Model
import Rigging.Template.Public
import Rigging.Template.Sails

/-!
# Fixed files

The files that every output directory holds besides the declarations of its entities.
-/

namespace Rigging.Template

/-- The names and texts of the fixed files, in the order in which they are written. -/
def files : List (String × String) :=
  [("model.d.ts", String.intercalate "\n" modelLines),
    ("public.d.ts", String.intercalate "\n" publicLines),
    ("sails.ts", String.intercalate "\n" sailsLines)]

end Rigging.Template
