import Rigging.Doc.Printer
import Rigging.Error
import Rigging.TypeExpr

/-!
# Members of declared classes

How attributes and functions are written as members of a class: the doc comment, and one line with
the member itself.  An attribute cannot be written if its type would show a number that is too long.
-/

namespace Rigging.Declaration

/-- What a level is indented by. -/
def indent : String := "  "

/-- A member: its doc comment, if it has one, above its declaration. -/
def member (doc declaration : String) : String :=
  if doc = "" then indent ++ declaration else doc ++ "\n" ++ indent ++ declaration

/-- A class with its members. -/
def classText (header : String) (members : List String) : String :=
  if members.isEmpty then header ++ " \x7b\n\x7d"
  else header ++ " \x7b\n\n" ++ String.intercalate "\n\n" members ++ "\n\n\x7d"

/-- The declared types of attribute types. -/
def attributeTypeNames : List (String × String) :=
  [("string", "string"), ("number", "number"), ("boolean", "boolean"), ("json", "object"),
    ("ref", "any")]

/-- The declared type of an attribute type; anything for what is none. -/
def ofAttributeType : Scalar → String
  | .string s => (attributeTypeNames.lookup s).getD TypeExpr.wildcard
  | _ => TypeExpr.wildcard

/-- The declared type of an attribute.  An association shows its model, whatever that is. -/
def attributeType (ps : Properties) : Except Error String :=
  match ps.given? "type" with
  | some type => .ok (ofAttributeType type)
  | none =>
    match ps.given? "model" with
    | some model => model.shown.map TypeExpr.instanceName
    | none =>
      match ps.given? "collection" with
      | some model => model.shown.map fun name => TypeExpr.instanceName name ++ "[]"
      | none => .ok TypeExpr.wildcard

/-- The doc comment of the identifier that every model has. -/
def idDoc : Doc :=
  { Doc.empty with
    description := "A unique identifier generated for each document within the database. " ++
      "Of type string if using MongoDB, otherwise a number." }

/-- The member of an attribute, marked when it may be missing. -/
def attributeMember (a : Attribute) : Except Error String := do
  let mark := if (a.properties.given? "required").isSome then "" else "?"
  let type ← attributeType a.properties
  return member (Doc.write? indent a.doc) (a.name ++ mark ++ ": " ++ type ++ ";")

/-- The member of the identifier. -/
def idMember : String :=
  member (idDoc.write indent) "id: string | number;"

/-- The members of a model's instances. -/
def instanceMembers (e : Entity) : Except Error (List String) := do
  let members ← e.attributes.mapM attributeMember
  return (if e.attributes.any fun a => a.name == "id" then [] else [idMember]) ++ members

/-- A type as the type of a list of it, unless it is one. -/
def asList (type : String) : String :=
  if "[]".toList.isSuffixOf type.toList then type else type ++ "[]"

/-- A parameter with its types.  A rest parameter is a list and is never marked optional. -/
def parameter (p : TypedParam) : String :=
  let types := if p.types.isEmpty then [TypeExpr.wildcard] else p.types
  let types := if p.isRest then types.map asList else types
  let mark := if p.optional && !p.isRest then "?" else ""
  p.name ++ mark ++ ": " ++ String.intercalate " | " types

/-- The types of a function's result; anything if none are given. -/
def resultTypes (f : Function) : List String :=
  match f.doc.bind (·.result) with
  | some r => if r.types.isEmpty then [TypeExpr.wildcard] else r.types
  | none => [TypeExpr.wildcard]

/-- Whether types are one promise already. -/
def isPromise (types : List String) : Bool :=
  match types with
  | [t] => "Promise<".toList.isPrefixOf t.toList
  | _ => false

/-- The type of a function's result.  An asynchronous function gives a promise. -/
def resultType (f : Function) : String :=
  let types := resultTypes f
  let union := String.intercalate " | " types
  if f.isAsync && !isPromise types then "Promise<" ++ union ++ ">" else union

/-- The doc comment of a method, with a tag that tells an asynchronous one. -/
def methodDoc (f : Function) : Doc :=
  let doc := f.doc.getD Doc.empty
  if f.isAsync && !doc.tags.any (fun t => t.name == Doc.asyncTag) then
    { doc with tags := doc.tags ++ [⟨Doc.asyncTag, none⟩] }
  else doc

/-- The member of a function under a name. -/
def methodAs (name : String) (f : Function) : String :=
  member ((methodDoc f).write indent)
    ("abstract " ++ name ++ "(" ++ String.intercalate ", " (f.typedParams.map parameter) ++ "): " ++
      resultType f ++ ";")

/-- The member of a function. -/
def method (f : Function) : String :=
  methodAs f.name f

end Rigging.Declaration
