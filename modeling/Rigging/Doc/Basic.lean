/-!
# Doc comments

What a doc comment says: a description, the parameters and the result it documents, and every
other tag as it was written.
-/

namespace Rigging

/-- A tag that is kept as written, with the text that follows it. -/
structure Doc.Tag where
  name : String
  value : Option String
deriving DecidableEq, Repr, Inhabited

/-- A documented parameter.  `types` are the members of its union, empty when none is given. -/
structure Doc.Param where
  name : String
  types : List String
  description : Option String
  optional : Bool
deriving DecidableEq, Repr, Inhabited

/-- A documented result. -/
structure Doc.Result where
  types : List String
  description : Option String
deriving DecidableEq, Repr, Inhabited

/-- A doc comment. -/
structure Doc where
  description : String
  tags : List Doc.Tag
  params : List Doc.Param
  result : Option Doc.Result
deriving DecidableEq, Repr, Inhabited

namespace Doc

/-- A doc comment that says nothing. -/
def empty : Doc := ⟨"", [], [], none⟩

/-- The first documented parameter with a name. -/
def param? (doc : Doc) (name : String) : Option Param :=
  doc.params.find? fun p => p.name == name

/-- The tag of a parameter. -/
def paramTag : String := "@param"

/-- The tag of a result. -/
def resultTag : String := "@returns"

/-- The other spelling of the result's tag. -/
def resultAlias : String := "@return"

/-- The tag of a method that answers later. -/
def asyncTag : String := "@async"

end Doc

end Rigging
