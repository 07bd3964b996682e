import EntitySchema.Text.Basic
import EntitySchema.Token.Keyword

/-!
Type expressions: a primitive, a type with numeric parameters, a type with type arguments, or a
user-defined name inside one of those.
-/

namespace EntitySchema

inductive TypeExpr where
  | primitive (name : Text)
  /-- A decimal has a precision and perhaps a scale, the others have a length. -/
  | parametric (name : Text) (precision scale length : Option Int)
  | generic (name : Text) (arguments : List TypeExpr)
  | named (name : Text)
  deriving Inhabited, Repr

namespace TypeExpr

def baseName : TypeExpr → Text
  | .primitive name => name
  | .parametric name .. => name
  | .generic name _ => name
  | .named name => name

def parameterTexts : (precision scale length : Option Int) → List Text
  | some precision, some scale, _ => [Text.ofInt precision, Text.ofInt scale]
  | some precision, none, _ => [Text.ofInt precision]
  | none, _, some length => [Text.ofInt length]
  | none, _, none => []

mutual

def renderBefore (rest : Text) : TypeExpr → Text
  | .primitive name => name ++ rest
  | .parametric name precision scale length =>
    name ++ utf8 "(" ++ Text.join (utf8 ",") (parameterTexts precision scale length) ++
      utf8 ")" ++ rest
  | .generic name arguments =>
    name ++ utf8 "<" ++ renderAllBefore (utf8 ">" ++ rest) arguments
  | .named name => name ++ rest

def renderAllBefore (rest : Text) : List TypeExpr → Text
  | [] => rest
  | [argument] => argument.renderBefore rest
  | argument :: arguments =>
    argument.renderBefore (utf8 "," ++ renderAllBefore rest arguments)

end

def render (expr : TypeExpr) : Text := expr.renderBefore []

mutual

theorem renderBefore_eq (rest : Text) (expr : TypeExpr) :
    expr.renderBefore rest = expr.render ++ rest := by
  cases expr with
  | primitive name => simp [render, renderBefore]
  | parametric name precision scale length => simp [render, renderBefore]
  | generic name arguments =>
    simp [render, renderBefore, renderAllBefore_eq (utf8 ">" ++ rest) arguments,
      renderAllBefore_eq (utf8 ">") arguments]
  | named name => simp [render, renderBefore]

theorem renderAllBefore_eq (rest : Text) (arguments : List TypeExpr) :
    renderAllBefore rest arguments = Text.join (utf8 ",") (arguments.map render) ++ rest := by
  match arguments with
  | [] => simp [renderAllBefore, Text.join]
  | [argument] => simp [renderAllBefore, Text.join, renderBefore_eq rest argument]
  | argument :: second :: arguments =>
    simp [renderAllBefore, Text.join, renderAllBefore_eq rest (second :: arguments),
      renderBefore_eq (utf8 "," ++ _) argument]

end

@[simp]
theorem render_primitive (name : Text) : (primitive name).render = name := by
  simp [render, renderBefore]

@[simp]
theorem render_parametric (name : Text) (precision scale length : Option Int) :
    (parametric name precision scale length).render =
      name ++ utf8 "(" ++ Text.join (utf8 ",") (parameterTexts precision scale length) ++
        utf8 ")" := by
  simp [render, renderBefore]

@[simp]
theorem render_generic (name : Text) (arguments : List TypeExpr) :
    (generic name arguments).render =
      name ++ utf8 "<" ++ Text.join (utf8 ",") (arguments.map render) ++ utf8 ">" := by
  simp [render, renderBefore, renderAllBefore_eq]

@[simp]
theorem render_named (name : Text) : (named name).render = name := by
  simp [render, renderBefore]

end TypeExpr

end EntitySchema
