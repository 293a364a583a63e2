import Rigging.Entity.Basic
import Rigging.Script.Tree

/-!
# Notices

What a run reports besides its result.  A notice has a level, a topic, and one message.
-/

namespace Rigging

/-- How much a notice matters. -/
inductive Level where
  | debug
  | info
  | warning
  | error
deriving DecidableEq, Repr

/-- What a notice is about. -/
inductive Topic where
  | extraction
  | resolution
  | declaration
  | discovery
  | run
  | command
deriving DecidableEq, Repr

/-- A notice.  Entities are given as messages describe them. -/
inductive Notice where
  | noExports (entity : String)
  | shorthandAttributes (entity : String)
  | attributesNotObject (entity : String) (kind : Script.Kind)
  | duplicateProperty (key attr entity : String)
  | attributeNotObject (attr entity : String) (kind : Script.Kind)
  | methodAsProperty (method entity : String)
  | mixedCaseIdentity (identity attr entity : String)
  | unknownImport (model entity : String)
  | missingInstance (model entity : String)
  | wroteFiles (count : Nat) (directory : String)
  | noSailsDependency (project : String)
  | missingHook (hook dependency : String)
  | includingHook (hook : String)
  | foundModules (count : Nat)
  | createdFile (path : String)
  | processing (root : String)
  | failed (message : String)
  | entitySummary (text : String)
  | overview (text : String)
  | finished (seconds : String)
deriving DecidableEq, Repr

namespace Notice

/-- The level of a notice. -/
def level : Notice → Level
  | wroteFiles .. | entitySummary .. => .debug
  | includingHook .. | foundModules .. | createdFile .. | processing .. | overview ..
  | finished .. => .info
  | failed .. => .error
  | _ => .warning

/-- The topic of a notice. -/
def topic : Notice → Topic
  | noExports .. | shorthandAttributes .. | attributesNotObject .. | duplicateProperty ..
  | attributeNotObject .. | methodAsProperty .. => .extraction
  | mixedCaseIdentity .. => .resolution
  | unknownImport .. | missingInstance .. | wroteFiles .. => .declaration
  | noSailsDependency .. | missingHook .. => .discovery
  | includingHook .. | foundModules .. | createdFile .. => .run
  | processing .. | failed .. | entitySummary .. | overview .. | finished .. => .command

/-- The message of a notice. -/
def message : Notice → String
  | noExports entity =>
    "No module.exports assignment found for " ++ entity ++
      ", type information will not be generated."
  | shorthandAttributes entity =>
    "Found shorthand attributes key in " ++ entity ++
      ". Please note that this is not currently supported, and that inline attributes should be used instead."
  | attributesNotObject entity kind =>
    "Found attributes in " ++ entity ++ " declared as " ++ kind.label ++
      ", expected an object expression. No attribute types will be generated."
  | duplicateProperty key attr entity =>
    "Duplicate key \"" ++ key ++ "\" used in attribute \"" ++ attr ++ "\" definition in " ++
      entity ++ ". Using new key value..."
  | attributeNotObject attr entity kind =>
    "Found invalid attribute \"" ++ attr ++ "\" in " ++ entity ++
      ". Expected an object expression but found " ++ kind.label ++ " instead."
  | methodAsProperty method entity =>
    "Found method \"" ++ method ++ "\" defined as property in " ++ entity ++
      ". Please use the ES2015 object method syntax instead!"
  | mixedCaseIdentity identity attr entity =>
    "Model identity \"" ++ identity ++ "\" for attribute \"" ++ attr ++
      "\" should be all lowercase (in " ++ entity ++ ")."
  | unknownImport model entity => "Failed to import model " ++ model ++ " within " ++ entity ++ "."
  | missingInstance model entity =>
    "Model " ++ model ++ " has no instance declaration yet, it will be missing from " ++ entity ++
      "."
  | wroteFiles count directory =>
    "Wrote " ++ toString count ++ " declaration files to " ++ directory
  | noSailsDependency project =>
    "The active project (" ++ project ++
      ") has no sails dependency listed! It is recommended that you run `npm install sails --save`, " ++
      "so this project may function without a global sails installation."
  | missingHook hook dependency =>
    "Imported hook \"" ++ hook ++ "\" contains a reference to potential hook \"" ++ dependency ++
      "\", though " ++ dependency ++
      " has not been installed in the main package's devDependencies."
  | includingHook hook => "Including type hook " ++ hook
  | foundModules count => "Found " ++ toString count ++ " model and service modules"
  | createdFile path => "Created " ++ path
  | processing root => "processing Sails project at " ++ root ++ "..."
  | failed message => message
  | entitySummary text => text
  | overview text => text
  | finished seconds => "finished after " ++ seconds ++ "s"

end Notice

end Rigging
