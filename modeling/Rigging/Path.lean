/-!
# Paths

Paths are texts with slashes between their components.  `absolute` and `normal` work on the text
alone; a path that starts with exactly two slashes keeps them.  `real` is the path with every
component settled, `components` the list that the file tree knows it by.
-/

namespace Rigging.Path

/-- The pieces of a text between slashes. -/
def pieces (p : String) : List String :=
  (p.toList.splitOnP (· == '/')).map String.ofList

/-- Whether a path starts at the root. -/
def isAbsolute (p : String) : Bool :=
  p.toList.head? == some '/'

/-- One path behind another; an absolute one stands for itself. -/
def join (p q : String) : String :=
  if isAbsolute q then q
  else if p = "" || p.toList.getLast? == some '/' then p ++ q
  else p ++ "/" ++ q

/-- One path behind another for several pieces. -/
def joinAll (p : String) (qs : List String) : String :=
  qs.foldl join p

/-- Components with the steps up settled, as a stack.  At the root there is no way up; elsewhere a
step up that has nothing to undo stays. -/
def settle (rooted : Bool) (stack : List String) : List String → List String
  | [] => stack.reverse
  | c :: cs =>
    if c = "" || c = "." then settle rooted stack cs
    else if c = ".." then
      match stack with
      | [] => if rooted then settle rooted [] cs else settle rooted [".."] cs
      | top :: below =>
        if top = ".." then settle rooted (".." :: stack) cs else settle rooted below cs
    else settle rooted (c :: stack) cs

/-- The slashes that a path keeps in front. -/
def leadingSlashes (p : String) : String :=
  match (p.toList.takeWhile (· == '/')).length with
  | 0 => ""
  | 2 => "//"
  | _ => "/"

/-- The path without needless slashes, points and steps up. -/
def normal (p : String) : String :=
  let front := leadingSlashes p
  let text := front ++ String.intercalate "/" (settle (front != "") [] (pieces p))
  if text = "" then "." else text

/-- The normal path, seen from a working directory. -/
def absolute (cwd p : String) : String :=
  normal (join cwd p)

/-- The components of an absolute path. -/
def components (p : String) : List String :=
  settle true [] (pieces p)

/-- The path of components from the root. -/
def ofComponents (cs : List String) : String :=
  "/" ++ String.intercalate "/" cs

/-- The path with all its components settled from the root. -/
def real (cwd p : String) : String :=
  ofComponents (components (join cwd p))

/-- The length of the common start of two lists. -/
def commonLength : List String → List String → Nat
  | a :: as, b :: bs => if a = b then commonLength as bs + 1 else 0
  | _, _ => 0

/-- The way from one absolute path to another. -/
def relative (path start : String) : String :=
  let ps := components path
  let ss := components start
  let n := commonLength ps ss
  let steps := List.replicate (ss.length - n) ".." ++ ps.drop n
  if steps.isEmpty then "." else String.intercalate "/" steps

/-- The pieces of a path that lead anywhere. -/
def steps (p : String) : List String :=
  (pieces p).filter fun c => c != "" && c != "."

/-- The longest path that two absolute paths start with. -/
def common (p q : String) : String :=
  ofComponents ((steps p).take (commonLength (steps p) (steps q)))

/-- Whether a directory is, or holds, another path. -/
def holds (directory path : String) : Bool :=
  common path directory = directory

/-- The last piece of a path. -/
def base (p : String) : String :=
  (pieces p).getLast?.getD ""

/-- A file's name without its extension.  Points in front of a name start no extension. -/
def stem (name : String) : String :=
  let cs := name.toList
  let dots := cs.takeWhile (· == '.')
  let rest := cs.drop dots.length
  let fromDot := rest.reverse.dropWhile (· != '.')
  if fromDot.isEmpty then name else String.ofList (dots ++ (fromDot.drop 1).reverse)

end Rigging.Path
