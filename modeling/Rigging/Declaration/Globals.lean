import Rigging.Declaration.Member

/-!
# Global declarations

One file imports every model and service and declares them as global constants.
-/

namespace Rigging.Declaration

/-- The constants of the framework itself. -/
def frameworkNames : List String := ["sails", "SailsRequest", "SailsResponse"]

/-- The declaration of a global constant. -/
def globalConstant (name : String) : String :=
  indent ++ "const " ++ name ++ ": " ++ name ++ ";"

/-- The import of a model and its instances. -/
def modelImport (name : String) : String :=
  "import \x7b " ++ name ++ ", " ++ TypeExpr.instanceName name ++ " \x7d from './models/" ++ name ++
    "';"

/-- The import of a service. -/
def serviceImport (name : String) : String :=
  "import \x7b " ++ name ++ " \x7d from './services/" ++ name ++ "';"

/-- Lines with lines in front, or none when there are none. -/
def headed (front lines : List String) : List String :=
  if lines.isEmpty then [] else front ++ lines

/-- The lines of the global declarations. -/
def globalLines (models services : List String) : List String :=
  ["import \x7b sails \x7d from './sails/sails';",
    "import \x7b SailsRequest, SailsResponse \x7d from './sails/public';"] ++
  headed ["", "// Models"] (models.map modelImport) ++
  headed ["", "// Services"] (services.map serviceImport) ++
  ["", "declare global \x7b", ""] ++ frameworkNames.map globalConstant ++
  headed [""] (models.map globalConstant) ++
  headed [""] (models.map fun name => globalConstant (TypeExpr.instanceName name)) ++
  headed [""] (services.map globalConstant) ++
  ["", "\x7d", ""]

/-- The text of the global declarations. -/
def globals (models services : List String) : String :=
  String.intercalate "\n" (globalLines models services)

end Rigging.Declaration
