import Rigging.Project.Package

/-!
# Hook packages

A hook is an installed package that is flagged as one; a type hook is a hook that depends on the
marker package.  Type hooks belong into the development dependencies of the project itself: among
its other dependencies, or among those of another hook, they are refused.
-/

namespace Rigging.Project

/-- An installed package that may be a hook. -/
structure Hook where
  name : String
  path : String
  hookName : Option String
  isHook : Bool
  isTypeHook : Bool
  dependencies : List String
  devDependencies : List String
  parent : Option String
deriving DecidableEq, Repr

/-- The first of two values that counts as given, or else the second. -/
def firstGiven (a b : Json) : Json :=
  if a.truthy then a else b

/-- A text, or a fault of the named field. -/
def textField (field : String) : Json → Except (FieldFault × List String) String
  | .string s => .ok s
  | _ => .error (.notString, [field])

/-- A text that may be missing, or a fault of the named field. -/
def textField? (field : String) : Json → Except (FieldFault × List String) (Option String)
  | .null => .ok none
  | v => some <$> textField field v

namespace Hook

/-- The directory of an installed package. -/
def directory (project name : String) : String :=
  Path.joinAll project ["node_modules", name]

/-- The hook that a package file describes. -/
def ofPackage (path installedAs marker : String) (parent : Option String) (pkg : Package) :
    Except Error Hook :=
  let sails := pkg.get "sails"
  let flag := ((sails.get? "isHook").getD .null).truthy
  let name := textField "name" (firstGiven (pkg.get "name") (.string installedAs))
  let hookName :=
    textField? "hook_name" (firstGiven ((sails.get? "hookName").getD .null) (pkg.get "name"))
  match name, hookName with
  | .ok name, .ok hookName =>
    .ok
      { name, path, hookName, isHook := flag
        isTypeHook := flag && pkg.dependencies.contains marker
        dependencies := pkg.dependencies
        devDependencies := pkg.devDependencies
        parent }
  | .error a, .error b => .error (.unfitFields [a, b])
  | .error a, .ok _ => .error (.unfitFields [a])
  | .ok _, .error b => .error (.unfitFields [b])

/-- Loads an installed package. -/
def load (t : FileTree) (project name marker : String) (parent : Option String) :
    Except Error Hook :=
  let path := directory project name
  if !t.isFileAt (Path.join path packageFile) then .error (.missingHookPackage name path)
  else do
    let pkg ← Package.read t path
    ofPackage path name marker parent pkg

/-- The type hooks among installed packages; every one of them has to be there. -/
def findAll (t : FileTree) (project : String) (names : List String) (marker : String)
    (parent : Option String) : Except Error (List Hook) := do
  let hooks ← names.mapM fun name => load t project name marker parent
  return hooks.filter (·.isTypeHook)

/-- Whether a text holds another one. -/
def holdsText (part : List Char) : List Char → Bool
  | [] => part.isEmpty
  | c :: cs => part.isPrefixOf (c :: cs) || holdsText part cs

/-- Whether a package's name looks like that of a hook. -/
def looksLikeHook (name : String) : Bool :=
  holdsText "hook-".toList name.toList || holdsText "-hook".toList name.toList

/-- Refuses a type hook among the dependencies of a hook.  A dependency that is not installed below
the hook is passed over. -/
def checkDependency (t : FileTree) (marker : String) (hook : Hook) (dependency : String) :
    Except Error Unit :=
  match load t hook.path dependency marker (some hook.name) with
  | .ok nested =>
    if nested.isTypeHook then .error (.nestedTypeHook nested.name hook.name) else .ok ()
  | .error e => if e.family = .project then .ok () else .error e

/-- Checks one hook: its dependencies, and the hooks that its developers need. -/
def check (t : FileTree) (marker : String) (installed : List String) (hook : Hook) :
    Act FileTree Unit := do
  Act.forEach (fun d => Act.ofExcept (checkDependency t marker hook d)) hook.dependencies
  Act.forEach (fun d =>
    if looksLikeHook d && !installed.contains d then Act.notify (.missingHook hook.name d)
    else pure ()) hook.devDependencies

end Hook

/-- The type hooks of a project. -/
def discover (root marker : String) (includeHooks : Bool) : Act FileTree (List Hook) := do
  let t ← Act.state
  let pkg ← Act.ofExcept (Package.read t root)
  if !pkg.dependencies.contains "sails" && !pkg.devDependencies.contains "sails" then
    Act.notify (.noSailsDependency (pkg.get "name").display)
  if !includeHooks then return []
  else
    match ← Act.ofExcept (Hook.findAll t root pkg.dependencies marker none) with
    | hook :: _ => Act.fail (.misplacedTypeHook hook.name)
    | [] =>
      let hooks ← Act.ofExcept (Hook.findAll t root pkg.devDependencies marker none)
      Act.forEach (Hook.check t marker (hooks.map (·.name))) hooks
      return hooks

end Rigging.Project
