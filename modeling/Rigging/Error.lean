import Rigging.Entity.Basic

/-!
# Errors

Why something could not be done.  Every cause is a constructor, its wording is in `Error.message`,
and `Error.family` says what sort of trouble it is.  The first three families are the program's own:
they end a run in an orderly way.
-/

namespace Rigging

/-- The sorts of trouble. -/
inductive Family where
  /-- A model or service that no declarations can be made of. -/
  | structural
  /-- A module that could not be read. -/
  | load
  /-- A project or hook package that could not be discovered. -/
  | project
  /-- A step that was asked for too early. -/
  | phase
  /-- A configuration or record with unfit fields. -/
  | fields
  /-- Trouble that belongs to the machine. -/
  | system
deriving DecidableEq, Repr

/-- What is wrong with a field. -/
inductive FieldFault where
  | missing
  | notString
  | notInteger
  | unreadableInteger
  | fractionalInteger
  | tooSmall
  | notBoolean
  | unreadableBoolean
  | unknownChoice
  | notRecord
deriving DecidableEq, Repr

/-- Trouble with the file system or with numbers. -/
inductive SystemFault where
  | notADirectory
  | noSuchFile
  | isADirectory
  | fileExists
  | nameTooLong
  | nullInPath
  | unencodable
  | numberTooLarge
  | tooManyDigits
  | missingText
deriving DecidableEq, Repr

/-- Why something could not be done.  Entities are given as messages describe them. -/
inductive Error where
  | attributeConflict (entity owner attr previous : String)
  | untypedAttribute (attr entity : String)
  | ambiguousAttribute (attr entity : String) (kinds : List String)
  | unknownType (type attr entity : String)
  | unknownModel (collection : Bool) (identity attr entity : String) (models : List String)
  | duplicateEntity (kind : EntityKind) (name filename owner otherFilename otherOwner : String)
  | brokenModule (kind : EntityKind) (filename : String) (line : Nat)
  | unreadableModule (kind : EntityKind) (path reason : String)
  | missingPackage (path : String)
  | unreadablePackage (path reason : String)
  | packageNotObject (path : String)
  | missingHookPackage (name directory : String)
  | nestedTypeHook (nested hook : String)
  | misplacedTypeHook (hook : String)
  | invalidRoot (root : String)
  | outputHoldsProject (output root : String)
  | notStandalone (entity : String)
  | notLinked (entity : String)
  | unfitFields (faults : List (FieldFault × List String))
  | system (fault : SystemFault)
deriving DecidableEq, Repr

namespace Error

/-- The family of an error. -/
def family : Error → Family
  | attributeConflict .. | untypedAttribute .. | ambiguousAttribute .. | unknownType ..
  | unknownModel .. | duplicateEntity .. => .structural
  | brokenModule .. | unreadableModule .. => .load
  | missingPackage .. | unreadablePackage .. | packageNotObject .. | missingHookPackage ..
  | nestedTypeHook .. | misplacedTypeHook .. | invalidRoot .. | outputHoldsProject .. => .project
  | notStandalone .. | notLinked .. => .phase
  | unfitFields .. => .fields
  | system .. => .system

/-- Whether an error is one of the program's own. -/
def isOwn (e : Error) : Bool :=
  match e.family with
  | .structural | .load | .project => true
  | _ => false

/-- The types that an attribute can have. -/
def attributeTypes : List String := ["string", "number", "boolean", "json", "ref"]

/-- The message of an error; empty for the last two families. -/
def message : Error → String
  | attributeConflict entity owner attr previous =>
    "Found attribute conflict in " ++ entity ++ " (owner: " ++ owner ++ "). The \"" ++ attr ++
      "\" attribute's identity has already been assigned by \"" ++ previous ++ "\"."
  | untypedAttribute attr entity =>
    "Invalid attribute \"" ++ attr ++ "\" found in " ++ entity ++
      ". Expected either a type or association specified, but found neither! " ++
      "Please add a type, model, or collection property for this attribute."
  | ambiguousAttribute attr entity kinds =>
    "Conflicting attribute \"" ++ attr ++ "\" found in " ++ entity ++ ". Only one of " ++
      String.intercalate ", " kinds ++ " may be specified."
  | unknownType type attr entity =>
    "Invalid type \"" ++ type ++ "\" specified for attribute \"" ++ attr ++ "\" in " ++
      entity ++ "! Valid attribute values are: " ++ String.intercalate ", " attributeTypes ++ "."
  | unknownModel collection identity attr entity models =>
    "Failed to resolve " ++ (if collection then "model collection type" else "model type") ++
      " \"" ++ identity ++ "\" for attribute \"" ++ attr ++ "\" in " ++ entity ++
      ". Valid models are: " ++ String.intercalate ", " models ++ "."
  | duplicateEntity kind name filename owner otherFilename otherOwner =>
    "Found duplicate definition of " ++ kind.word ++ " \"" ++ name ++ "\" (" ++ filename ++
      ") in " ++ owner ++ " (defined already in \"" ++ otherFilename ++ "\" [" ++ otherOwner ++
      "])."
  | brokenModule kind filename line =>
    "Failed to load " ++ kind.word ++ " file \"" ++ filename ++ "\": syntax error on line " ++
      toString line ++ "."
  | unreadableModule kind path reason =>
    "Failed to load " ++ kind.word ++ " file \"" ++ path ++ "\": " ++ reason
  | missingPackage path =>
    "Unable to load \"" ++ path ++ "\"! Ensure that this file is accessible and try again."
  | unreadablePackage path reason => "Unable to load \"" ++ path ++ "\"! " ++ reason
  | packageNotObject path =>
    "Unable to load \"" ++ path ++ "\"! The package is not a JSON object."
  | missingHookPackage name directory =>
    "Unable to load hook information for \"" ++ name ++ "\" from \"" ++ directory ++
      "\"! Ensure that all dependencies have been installed via npm/yarn."
  | nestedTypeHook nested hook =>
    "Found a type hook (" ++ nested ++ ") within dependencies of subhook \"" ++ hook ++
      "\". Please install all type hooks as devDependencies."
  | misplacedTypeHook hook =>
    "Found type hook \"" ++ hook ++
      "\" within package dependencies. Please install all type hooks as devDependencies instead."
  | invalidRoot root => "Invalid project root: " ++ root
  | outputHoldsProject output root =>
    "Refusing to use \"" ++ output ++ "\" as output directory: it contains the project root \"" ++
      root ++ "\" and is cleared on every run."
  | notStandalone entity => entity ++ " has no standalone declarations to link"
  | notLinked entity => entity ++ " has no linked declarations to write"
  | unfitFields _ => ""
  | system _ => ""

/-- The error that shows a value, or the one that says that the value has too many digits to be
shown. -/
def showing (v : Scalar) (error : String → Error) : Error :=
  if v.isShowable then error v.display else system .tooManyDigits

end Error

/-- The value as a text, if it can be shown. -/
def Scalar.shown (v : Scalar) : Except Error String :=
  if v.isShowable then .ok v.display else .error (.system .tooManyDigits)

end Rigging
