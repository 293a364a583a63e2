/-!
# What a script says

The view of a JavaScript module that declarations are taken from.  Object literals are kept in
full, with the comments between their members; of every other expression only its kind is kept, and
what a declaration can show of it.
-/

namespace Rigging.Script

/-- The kinds of expressions. -/
inductive Kind where
  | function
  | generator
  | arrow
  | classExpr
  | object
  | array
  | string
  | template
  | number
  | regex
  | trueWord
  | falseWord
  | nullWord
  | undefinedWord
  | thisWord
  | superWord
  | importWord
  | identifier
  | privateName
  | member
  | subscript
  | call
  | new
  | unary
  | binary
  | update
  | ternary
  | assignment
  | augmented
  | await
  | yield
  | parenthesized
  | metaProperty
  | sequence
  | element
  | selfClosing
deriving DecidableEq, Repr, Inhabited

/-- The name of a kind in messages. -/
def Kind.label : Kind → String
  | .function => "function_expression"
  | .generator => "generator_function"
  | .arrow => "arrow_function"
  | .classExpr => "class"
  | .object => "object"
  | .array => "array"
  | .string => "string"
  | .template => "template_string"
  | .number => "number"
  | .regex => "regex"
  | .trueWord => "true"
  | .falseWord => "false"
  | .nullWord => "null"
  | .undefinedWord => "undefined"
  | .thisWord => "this"
  | .superWord => "super"
  | .importWord => "import"
  | .identifier => "identifier"
  | .privateName => "private_property_identifier"
  | .member => "member_expression"
  | .subscript => "subscript_expression"
  | .call => "call_expression"
  | .new => "new_expression"
  | .unary => "unary_expression"
  | .binary => "binary_expression"
  | .update => "update_expression"
  | .ternary => "ternary_expression"
  | .assignment => "assignment_expression"
  | .augmented => "augmented_assignment_expression"
  | .await => "await_expression"
  | .yield => "yield_expression"
  | .parenthesized => "parenthesized_expression"
  | .metaProperty => "meta_property"
  | .sequence => "sequence_expression"
  | .element => "jsx_element"
  | .selfClosing => "jsx_self_closing_element"

/-- A part of a string literal: text as it stands, or an escape, given without its backslash. -/
inductive Piece where
  | text (value : String)
  | escape (body : String)
deriving DecidableEq, Repr, Inhabited

/-- The key of an object's member. -/
inductive Key where
  | name (text : String)
  | string (pieces : List Piece)
  | other
deriving DecidableEq, Repr, Inhabited

/-- A parameter: a plain name, a rest parameter with a plain name, or anything else. -/
inductive Param where
  | name (text : String)
  | rest (text : String)
  | other
deriving DecidableEq, Repr, Inhabited

mutual

/-- An expression. -/
inductive Expr where
  | object (items : List Item)
  | string (pieces : List Piece)
  | number (text : String)
  | boolean (value : Bool)
  | function (kind : Kind) (async : Bool) (params : List Param)
  | name (text : String)
  /-- A property of something; the object is given when it is a plain name. -/
  | member (object : Option String) (property : String)
  | assignment (target value : Expr)
  | other (kind : Kind)

/-- What stands in an object literal. -/
inductive Item where
  | comment (text : String)
  | htmlComment
  | pair (key : Key) (value : Expr)
  | method (key : Key) (async : Bool) (params : List Param)
  | shorthand (name : String)
  | spread

end

instance : Inhabited Expr := ⟨.other .identifier⟩

instance : Inhabited Item := ⟨.spread⟩

/-- The kind of an expression. -/
def Expr.kind : Expr → Kind
  | .object _ => .object
  | .string _ => .string
  | .number _ => .number
  | .boolean true => .trueWord
  | .boolean false => .falseWord
  | .function kind _ _ => kind
  | .name _ => .identifier
  | .member _ _ => .member
  | .assignment _ _ => .assignment
  | .other kind => kind

/-- A statement of a module: an expression, or anything else. -/
inductive Statement where
  | expression (value : Expr)
  | other

instance : Inhabited Statement := ⟨.other⟩

end Rigging.Script
