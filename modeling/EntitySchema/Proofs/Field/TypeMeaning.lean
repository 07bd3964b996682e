import EntitySchema.Proofs.Expression.Syntax
import EntitySchema.Proofs.Field.Grammar
import EntitySchema.Proofs.Token.Spelling

/-!
Types as they are written and types as they are meant: reading a type and checking its arguments
accepts exactly the lexemes that denote a type, and finds the type they denote.
-/

namespace EntitySchema

open Expression Expression.Grammar Expression.Reading

namespace TypeName

theorem mem_of_lookup {α : Type} {table : List (Text × α)} {name : Text} {value : α}
    (found : table.lookup name = some value) : (name, value) ∈ table := by
  obtain ⟨before, behind, rfl, _⟩ := List.lookup_eq_some_iff.mp found
  simp

theorem parametricArity?_eq_some {base : Text} {arity : Nat × Nat}
    (found : parametricArity? base = some arity) :
    base = decimal ∧ arity = (1, 2) ∨ base ∈ sized ∧ arity = (1, 1) := by
  have member := mem_of_lookup found
  simp only [parametrics, List.mem_cons, List.not_mem_nil, or_false, Prod.mk.injEq] at member
  rcases member with ⟨rfl, rfl⟩ | ⟨rfl, rfl⟩ | ⟨rfl, rfl⟩ | ⟨rfl, rfl⟩
  · exact Or.inl ⟨rfl, rfl⟩
  · exact Or.inr ⟨by simp [sized], rfl⟩
  · exact Or.inr ⟨by simp [sized], rfl⟩
  · exact Or.inr ⟨by simp [sized], rfl⟩

theorem genericArity?_eq_some {base : Text} {count : Nat}
    (found : genericArity? base = some count) :
    base = utf8 "map" ∧ count = 2 ∨ base = list ∧ count = 1 ∨
      base ∈ nameTakers ∧ count = 1 := by
  have member := mem_of_lookup found
  simp only [generics, List.mem_cons, List.not_mem_nil, or_false, Prod.mk.injEq] at member
  rcases member with ⟨rfl, rfl⟩ | ⟨rfl, rfl⟩ | ⟨rfl, rfl⟩ | ⟨rfl, rfl⟩ | ⟨rfl, rfl⟩
  · exact Or.inl ⟨rfl, rfl⟩
  · exact Or.inr (Or.inl ⟨rfl, rfl⟩)
  · exact Or.inr (Or.inr ⟨by simp [nameTakers], rfl⟩)
  · exact Or.inr (Or.inr ⟨by simp [nameTakers], rfl⟩)
  · exact Or.inr (Or.inr ⟨by simp [nameTakers], rfl⟩)

theorem isPrimitive_of_canonical {name base : Text} (found : canonical? name = some base)
    (notParametric : parametricArity? base = none) (notGeneric : genericArity? base = none) :
    isPrimitive base = true := by
  simp only [canonical?, Option.ite_none_right_eq_some, Option.some.injEq] at found
  obtain ⟨builtIn, rfl⟩ := found
  simpa [isParametric, isGeneric, notParametric, notGeneric] using builtIn

theorem arities_of_primitive {base : Text} (isPrimitive : isPrimitive base = true) :
    parametricArity? base = none ∧ genericArity? base = none := by
  have all : ∀ name ∈ primitives, parametricArity? name = none ∧ genericArity? name = none := by
    decide
  exact all base (by simpa [TypeName.isPrimitive] using isPrimitive)

theorem parametricArity?_of_sized {base : Text} (member : base ∈ sized) :
    parametricArity? base = some (1, 1) ∧ base ≠ decimal := by
  have all : ∀ name ∈ sized, parametricArity? name = some (1, 1) ∧ name ≠ decimal := by decide
  exact all base member

theorem arities_of_nameTaker {base : Text} (member : base ∈ nameTakers) :
    parametricArity? base = none ∧ genericArity? base = some 1 := by
  have all : ∀ name ∈ nameTakers, parametricArity? name = none ∧ genericArity? name = some 1 := by
    decide
  exact all base member

end TypeName

namespace Expression.Grammar

variable {α : Type} {item : Reading α} {index depth : Nat} {used : List Lexeme}

theorem repeated_cons_iff {value : α} {values : List α} :
    repeated item index used (value :: values) ↔ ∃ left right, used = left ++ right ∧
      item index left value ∧ repeated item (index + left.length) right values := by
  constructor
  · intro read
    cases read with
    | cons first others => exact ⟨_, _, rfl, first, others⟩
  · rintro ⟨left, right, rfl, first, others⟩
    exact .cons first others

theorem repeated_nil_iff : repeated item index used [] ↔ used = [] := by
  constructor
  · intro read
    cases read
    rfl
  · rintro rfl
    exact .nil

theorem separatedReading_cons_iff {value : α} {values : List α} :
    separatedReading item index used (value :: values) ↔ ∃ left right, used = left ++ right ∧
      item index left value ∧
      repeated (mapped Prod.snd (pair (kindReading .comma) item)) (index + left.length) right
        values := by
  constructor
  · rintro ⟨found, read, same⟩
    cases found with
    | none => simp at same
    | some found =>
        simp only [List.cons.injEq] at same
        obtain ⟨rfl, rfl⟩ := same
        exact read
  · intro read
    exact ⟨some (value, values), read, rfl⟩

theorem separatedReading_one_iff {value : α} :
    separatedReading item index used [value] ↔ item index used value := by
  rw [separatedReading_cons_iff]
  simp only [repeated_nil_iff]
  constructor
  · rintro ⟨left, right, rfl, read, rfl⟩
    simpa using read
  · intro read
    exact ⟨used, [], by simp, read, rfl⟩

theorem separatedReading_two_iff {first second : α} :
    separatedReading item index used [first, second] ↔ ∃ left comma right,
      used = left ++ comma :: right ∧ comma.kind = .comma ∧ item index left first ∧
        item (index + left.length + 1) right second := by
  rw [separatedReading_cons_iff]
  simp only [repeated_cons_iff, repeated_nil_iff]
  constructor
  · rintro ⟨left, _, rfl, read, _, _, rfl, ⟨found, ⟨_, right, rfl, ⟨rfl, comma⟩, last⟩, rfl⟩, rfl⟩
    exact ⟨left, found.1, right, by simp, by simpa using comma, read, last⟩
  · rintro ⟨left, comma, right, rfl, kind, read, last⟩
    exact ⟨left, comma :: right, rfl, read, comma :: right, [], by simp,
      ⟨(comma, second), ⟨[comma], right, rfl, ⟨rfl, by simpa using kind⟩, last⟩, rfl⟩, rfl⟩

theorem bracketedReading_iff {opening closing : TokenKind} {values : List α} :
    bracketedReading opening item closing index used values ↔ ∃ first inner last,
      used = first :: (inner ++ [last]) ∧ first.kind = opening ∧ last.kind = closing ∧
        separatedReading item (index + 1) inner values := by
  constructor
  · rintro ⟨found, ⟨_, _, rfl, ⟨rfl, first⟩, inner, _, rfl, read, rfl, last⟩, rfl⟩
    exact ⟨_, inner, _, rfl, by simpa using first, by simpa using last, read⟩
  · rintro ⟨first, inner, last, rfl, opens, closes, read⟩
    exact ⟨(first, values, last), ⟨[first], inner ++ [last], rfl, ⟨rfl, by simpa using opens⟩,
      inner, [last], rfl, read, rfl, by simpa using closes⟩, rfl⟩

theorem parameterReading_iff {parameter : Parameter} :
    parameterReading index used parameter ↔
      ∃ lexeme, used = [lexeme] ∧ isParameter lexeme = true ∧
        parameter = ⟨index, lexeme.text⟩ := by
  constructor
  · rintro ⟨⟨_, lexeme⟩, ⟨rfl, rfl, passed⟩, rfl⟩
    exact ⟨lexeme, rfl, passed, rfl⟩
  · rintro ⟨lexeme, rfl, passed, rfl⟩
    exact ⟨(index, lexeme), ⟨rfl, rfl, passed⟩, rfl⟩

theorem typeReading_succ_iff {parsed : TypeSyntax} :
    typeReading (depth + 1) index used parsed ↔ ∃ name rest, used = name :: rest ∧
      name.isName = true ∧
      (rest = [] ∧ parsed = .bare index name.text ∨
        (∃ parameters, bracketedReading .lParen parameterReading .rParen (index + 1) rest
          parameters ∧ parsed = .paren index name.text parameters) ∨
        ∃ arguments, bracketedReading .lAngle (typeReading depth) .rAngle (index + 1) rest
          arguments ∧ parsed = .angle index name.text arguments) := by
  constructor
  · rintro ⟨⟨_, name, found⟩, ⟨rfl, _, rest, rfl, ⟨rfl, isName⟩, read⟩, rfl⟩
    refine ⟨_, rest, rfl, isName, ?_⟩
    cases found with
    | none => exact Or.inl ⟨read, rfl⟩
    | some found =>
        obtain ⟨parameters, read, rfl⟩ | ⟨arguments, read, rfl⟩ := read
        · exact Or.inr (Or.inl ⟨parameters, read, rfl⟩)
        · exact Or.inr (Or.inr ⟨arguments, read, rfl⟩)
  · rintro ⟨name, rest, rfl, isName, ⟨rfl, rfl⟩ | ⟨parameters, read, rfl⟩ | ⟨arguments, read, rfl⟩⟩
    · exact ⟨(index, name, none), ⟨rfl, [name], [], rfl, ⟨rfl, isName⟩, rfl⟩, rfl⟩
    · exact ⟨(index, name, some (.parameters parameters)),
        ⟨rfl, [name], rest, rfl, ⟨rfl, isName⟩, Or.inl ⟨parameters, read, rfl⟩⟩, rfl⟩
    · exact ⟨(index, name, some (.types arguments)),
        ⟨rfl, [name], rest, rfl, ⟨rfl, isName⟩, Or.inr ⟨arguments, read, rfl⟩⟩, rfl⟩

end Expression.Grammar

namespace TypeExpr

theorem ofLength_eq_ok {name : Text} {index : Nat} {length : Int} {expr : TypeExpr} :
    ofLength name index length = .ok expr ↔
      1 ≤ length ∧ expr = .parametric name none none (some length) := by
  unfold ofLength
  split
  · simp only [reduceCtorEq, false_iff, not_and]
    omega
  · simp only [Except.ok.injEq]
    constructor
    · rintro rfl
      exact ⟨by omega, rfl⟩
    · exact fun found => found.2.symm

theorem ofPrecision_eq_ok {name : Text} {index : Nat} {precision : Int}
    {scale : Option (Nat × Int)} {expr : TypeExpr} :
    ofPrecision name index precision scale = .ok expr ↔ 1 ≤ precision ∧ precision ≤ 38 ∧
      (∀ found ∈ scale, 0 ≤ found.2 ∧ found.2 ≤ precision) ∧
      expr = .parametric name (some precision) (scale.map Prod.snd) none := by
  have limit : (maxDecimalPrecision : Int) = 38 := rfl
  unfold ofPrecision
  rw [limit]
  split
  next outside =>
    simp only [reduceCtorEq, false_iff, not_and]
    omega
  next inside =>
    have bounds : 1 ≤ precision ∧ precision ≤ 38 := by omega
    cases scale with
    | none => simp [bounds, eq_comm]
    | some found =>
        obtain ⟨scaleIndex, scale⟩ := found
        dsimp only
        split
        next outside =>
          simp only [reduceCtorEq, Option.mem_some_iff, forall_eq', false_iff, not_and]
          omega
        next inside =>
          have scaleBounds : 0 ≤ scale ∧ scale ≤ precision := by omega
          simp [bounds, scaleBounds, eq_comm]

theorem ofParameters_eq_ok_of_sized {base : Text} {index : Nat} {parameters : List Parameter}
    {expr : TypeExpr} (notDecimal : base ≠ TypeName.decimal) :
    ofParameters base index 1 1 parameters = .ok expr ↔ ∃ parameter length,
      parameters = [parameter] ∧ readInteger? parameter.text = some length ∧ 1 ≤ length ∧
        expr = .parametric base none none (some length) := by
  match parameters with
  | [] => simp [ofParameters]
  | [parameter] =>
      cases value : readInteger? parameter.text with
      | none => simp [ofParameters, readParameters, value]
      | some length =>
          simp [ofParameters, readParameters, value, Except.map, notDecimal, ofLength_eq_ok]
  | parameter :: second :: others => simp [ofParameters]

theorem ofParameters_eq_ok_of_decimal {index : Nat} {parameters : List Parameter}
    {expr : TypeExpr} :
    ofParameters TypeName.decimal index 1 2 parameters = .ok expr ↔
      (∃ parameter precision, parameters = [parameter] ∧
        readInteger? parameter.text = some precision ∧ 1 ≤ precision ∧ precision ≤ 38 ∧
        expr = .parametric TypeName.decimal (some precision) none none) ∨
      ∃ parameter second precision scale, parameters = [parameter, second] ∧
        readInteger? parameter.text = some precision ∧ 1 ≤ precision ∧ precision ≤ 38 ∧
        readInteger? second.text = some scale ∧ 0 ≤ scale ∧ scale ≤ precision ∧
        expr = .parametric TypeName.decimal (some precision) (some scale) none := by
  match parameters with
  | [] => simp [ofParameters]
  | [parameter] =>
      cases value : readInteger? parameter.text with
      | none => simp [ofParameters, readParameters, value]
      | some precision =>
          simp [ofParameters, readParameters, value, Except.map, ofPrecision_eq_ok]
  | [parameter, second] =>
      cases value : readInteger? parameter.text with
      | none => simp [ofParameters, readParameters, value]
      | some precision =>
          cases scaleValue : readInteger? second.text with
          | none => simp [ofParameters, readParameters, value, scaleValue, Except.map]
          | some scale =>
              simp [ofParameters, readParameters, value, scaleValue, Except.map,
                ofPrecision_eq_ok, and_assoc]
  | parameter :: second :: third :: others => simp [ofParameters]

theorem ofNames_eq_ok {name : Text} {argument : TypeSyntax} {exprs : List TypeExpr} :
    ofNames name [argument] = .ok exprs ↔
      ∃ index text, argument = .bare index text ∧ exprs = [.named text] := by
  cases argument with
  | bare index text => simp [ofNames, ofName, Except.map, eq_comm]
  | paren index text parameters => simp [ofNames, ofName]
  | angle index text arguments => simp [ofNames, ofName]

theorem ofSyntaxes_eq_ok_one {argument : TypeSyntax} {exprs : List TypeExpr} :
    ofSyntaxes [argument] = .ok exprs ↔
      ∃ expr, ofSyntax argument = .ok expr ∧ exprs = [expr] := by
  cases meaning : ofSyntax argument with
  | error fault => simp [ofSyntaxes, meaning]
  | ok expr => simp [ofSyntaxes, meaning, Except.map, eq_comm]

theorem ofSyntaxes_eq_ok_two {first second : TypeSyntax} {exprs : List TypeExpr} :
    ofSyntaxes [first, second] = .ok exprs ↔ ∃ key value, ofSyntax first = .ok key ∧
      ofSyntax second = .ok value ∧ exprs = [key, value] := by
  cases keyMeaning : ofSyntax first with
  | error fault => simp [ofSyntaxes, keyMeaning]
  | ok key =>
      cases valueMeaning : ofSyntax second with
      | error fault => simp [ofSyntaxes, keyMeaning, valueMeaning, Except.map]
      | ok value => simp [ofSyntaxes, keyMeaning, valueMeaning, Except.map, eq_comm]

theorem ofSyntax_bare_eq_ok {index : Nat} {name : Text} {expr : TypeExpr} :
    ofSyntax (.bare index name) = .ok expr ↔ ∃ base, TypeName.canonical? name = some base ∧
      TypeName.isPrimitive base = true ∧ expr = .primitive base := by
  cases known : TypeName.canonical? name with
  | none => simp [ofSyntax, known]
  | some base =>
      constructor
      · intro meaning
        simp only [ofSyntax, known] at meaning
        split at meaning
        next => simp at meaning
        next => simp at meaning
        next notParametric notGeneric =>
          exact ⟨base, rfl, TypeName.isPrimitive_of_canonical known notParametric notGeneric,
            by simpa using meaning.symm⟩
      · rintro ⟨_, same, isPrimitive, rfl⟩
        obtain rfl := Option.some.inj same
        obtain ⟨notParametric, notGeneric⟩ := TypeName.arities_of_primitive isPrimitive
        simp [ofSyntax, known, notParametric, notGeneric]

theorem ofSyntax_paren_eq_ok {index : Nat} {name : Text} {parameters : List Parameter}
    {expr : TypeExpr} :
    ofSyntax (.paren index name parameters) = .ok expr ↔ ∃ base least greatest,
      TypeName.canonical? name = some base ∧
      TypeName.parametricArity? base = some (least, greatest) ∧
      ofParameters base index least greatest parameters = .ok expr := by
  cases known : TypeName.canonical? name with
  | none => simp [ofSyntax, known]
  | some base =>
      simp only [ofSyntax, known, Option.some.injEq]
      split
      next least greatest arity => simp [arity]
      next notParametric _ => simp [notParametric]
      next notParametric _ => simp [notParametric]

theorem ofSyntax_angle_eq_ok {index : Nat} {name : Text} {arguments : List TypeSyntax}
    {expr : TypeExpr} :
    ofSyntax (.angle index name arguments) = .ok expr ↔ ∃ base exprs,
      TypeName.canonical? name = some base ∧ TypeName.parametricArity? base = none ∧
      TypeName.genericArity? base = some arguments.length ∧
      (if base ∈ TypeName.nameTakers then ofNames base arguments
        else ofSyntaxes arguments) = .ok exprs ∧ expr = .generic base exprs := by
  cases known : TypeName.canonical? name with
  | none => simp [ofSyntax, known]
  | some base =>
      simp only [ofSyntax, known, Option.some.injEq]
      split
      next arity => simp [arity]
      next arity => simp [arity]
      next wanted notParametric arity =>
        by_cases count : arguments.length = wanted
        · by_cases taker : base ∈ TypeName.nameTakers
          · cases meaning : ofNames base arguments <;>
              simp [notParametric, arity, count, taker, meaning, Except.map, eq_comm]
          · cases ofSyntaxes arguments <;>
              simp [notParametric, arity, count, taker, Except.map, eq_comm]
        · have different : ¬wanted = arguments.length := fun same => count same.symm
          simp [notParametric, arity, count, different]

end TypeExpr

namespace Expression.Grammar

theorem denotes_of_parens {name : Lexeme} {rest : List Lexeme} {index : Nat}
    {parameters : List Parameter} {expr : TypeExpr} (isName : name.isName = true)
    (read : bracketedReading .lParen parameterReading .rParen (index + 1) rest parameters)
    (meaning : TypeExpr.ofSyntax (.paren index name.text parameters) = .ok expr) :
    TypeDenotes (name :: rest) expr := by
  obtain ⟨base, least, greatest, known, arity, meaning⟩ :=
    TypeExpr.ofSyntax_paren_eq_ok.mp meaning
  obtain ⟨opening, inner, closing, rfl, opens, closes, read⟩ := bracketedReading_iff.mp read
  rcases TypeName.parametricArity?_eq_some arity with ⟨rfl, same⟩ | ⟨sized, same⟩
  · obtain ⟨rfl, rfl⟩ := Prod.mk.inj same
    rcases TypeExpr.ofParameters_eq_ok_of_decimal.mp meaning with
      ⟨parameter, precision, rfl, value, low, high, rfl⟩ |
      ⟨parameter, second, precision, scale, rfl, value, low, high, secondValue, above, below, rfl⟩
    · obtain ⟨argument, rfl, _, rfl⟩ := parameterReading_iff.mp (separatedReading_one_iff.mp read)
      exact .decimal ⟨isName, known⟩ opens value low high closes
    · obtain ⟨_, comma, _, rfl, between, first, last⟩ := separatedReading_two_iff.mp read
      obtain ⟨argument, rfl, _, rfl⟩ := parameterReading_iff.mp first
      obtain ⟨scaleArgument, rfl, _, rfl⟩ := parameterReading_iff.mp last
      exact .scaled ⟨isName, known⟩ opens value low high between secondValue above below closes
  · obtain ⟨rfl, rfl⟩ := Prod.mk.inj same
    have notDecimal := (TypeName.parametricArity?_of_sized sized).2
    obtain ⟨parameter, length, rfl, value, low, rfl⟩ :=
      (TypeExpr.ofParameters_eq_ok_of_sized notDecimal).mp meaning
    obtain ⟨argument, rfl, _, rfl⟩ := parameterReading_iff.mp (separatedReading_one_iff.mp read)
    exact .sized ⟨isName, known⟩ sized opens value low closes

theorem denotes_of_typeReading {depth index : Nat} {used : List Lexeme} {parsed : TypeSyntax}
    {expr : TypeExpr} (read : typeReading depth index used parsed)
    (meaning : TypeExpr.ofSyntax parsed = .ok expr) : TypeDenotes used expr := by
  induction depth generalizing index used parsed expr with
  | zero => exact read.elim
  | succ depth ih =>
      obtain ⟨name, rest, rfl, isName, ⟨rfl, rfl⟩ | ⟨parameters, inside, rfl⟩ |
        ⟨arguments, inside, rfl⟩⟩ := typeReading_succ_iff.mp read
      · obtain ⟨base, known, isPrimitive, rfl⟩ := TypeExpr.ofSyntax_bare_eq_ok.mp meaning
        exact .primitive ⟨isName, known⟩ isPrimitive
      · exact denotes_of_parens isName inside meaning
      · obtain ⟨base, exprs, known, _, arity, checked, rfl⟩ :=
          TypeExpr.ofSyntax_angle_eq_ok.mp meaning
        obtain ⟨opening, inner, closing, rfl, opens, closes, items⟩ :=
          bracketedReading_iff.mp inside
        rcases TypeName.genericArity?_eq_some arity with
          ⟨rfl, count⟩ | ⟨rfl, count⟩ | ⟨taker, count⟩
        · obtain ⟨first, second, rfl⟩ := List.length_eq_two.mp count
          rw [if_neg (by decide)] at checked
          obtain ⟨key, value, keyMeaning, valueMeaning, rfl⟩ :=
            TypeExpr.ofSyntaxes_eq_ok_two.mp checked
          obtain ⟨left, comma, right, rfl, between, first, last⟩ :=
            separatedReading_two_iff.mp items
          exact .map ⟨isName, known⟩ opens (ih first keyMeaning) between (ih last valueMeaning)
            closes
        · obtain ⟨argument, rfl⟩ := List.length_eq_one_iff.mp count
          rw [if_neg (by decide)] at checked
          obtain ⟨item, itemMeaning, rfl⟩ := TypeExpr.ofSyntaxes_eq_ok_one.mp checked
          exact .list ⟨isName, known⟩ opens
            (ih (separatedReading_one_iff.mp items) itemMeaning) closes
        · obtain ⟨argument, rfl⟩ := List.length_eq_one_iff.mp count
          rw [if_pos taker] at checked
          obtain ⟨argumentIndex, text, rfl, rfl⟩ := TypeExpr.ofNames_eq_ok.mp checked
          have single := separatedReading_one_iff.mp items
          cases depth with
          | zero => exact single.elim
          | succ depth =>
              obtain ⟨lexeme, tail, rfl, named, ⟨rfl, same⟩ | ⟨_, _, same⟩ | ⟨_, _, same⟩⟩ :=
                typeReading_succ_iff.mp single
              · obtain ⟨rfl, rfl⟩ := TypeSyntax.bare.inj same
                exact .named ⟨isName, known⟩ taker opens named closes
              · simp at same
              · simp at same

theorem parameterReading_of_proper {lexeme : Lexeme} {value : Int} (index : Nat)
    (proper : lexeme.Proper) (whole : readInteger? lexeme.text = some value) :
    parameterReading index [lexeme] ⟨index, lexeme.text⟩ := by
  have kind := proper.integer whole
  exact parameterReading_iff.mpr ⟨lexeme, rfl, by simp [isParameter, kind], rfl⟩

theorem exists_paren {name opening closing : Lexeme} {inner : List Lexeme} {depth index : Nat}
    {parameters : List Parameter} {expr : TypeExpr} (isName : name.isName = true)
    (opens : opening.kind = .lParen) (closes : closing.kind = .rParen)
    (read : separatedReading parameterReading (index + 1 + 1) inner parameters)
    (meaning : TypeExpr.ofSyntax (.paren index name.text parameters) = .ok expr) :
    ∃ parsed, typeReading (depth + 1) index (name :: opening :: (inner ++ [closing])) parsed ∧
      TypeExpr.ofSyntax parsed = .ok expr := by
  refine ⟨.paren index name.text parameters, typeReading_succ_iff.mpr ?_, meaning⟩
  refine ⟨name, _, rfl, isName, Or.inr (Or.inl ⟨parameters, ?_, rfl⟩)⟩
  exact bracketedReading_iff.mpr ⟨opening, inner, closing, rfl, opens, closes, read⟩

theorem exists_angle {name opening closing : Lexeme} {inner : List Lexeme} {depth index : Nat}
    {arguments : List TypeSyntax} {expr : TypeExpr} (isName : name.isName = true)
    (opens : opening.kind = .lAngle) (closes : closing.kind = .rAngle)
    (read : separatedReading (typeReading depth) (index + 1 + 1) inner arguments)
    (meaning : TypeExpr.ofSyntax (.angle index name.text arguments) = .ok expr) :
    ∃ parsed, typeReading (depth + 1) index (name :: opening :: (inner ++ [closing])) parsed ∧
      TypeExpr.ofSyntax parsed = .ok expr := by
  refine ⟨.angle index name.text arguments, typeReading_succ_iff.mpr ?_, meaning⟩
  refine ⟨name, _, rfl, isName, Or.inr (Or.inr ⟨arguments, ?_, rfl⟩)⟩
  exact bracketedReading_iff.mpr ⟨opening, inner, closing, rfl, opens, closes, read⟩

theorem exists_typeReading {used : List Lexeme} {expr : TypeExpr} (denotes : TypeDenotes used expr)
    (proper : ∀ lexeme ∈ used, lexeme.Proper) {depth : Nat} (deep : used.length ≤ depth)
    (index : Nat) :
    ∃ parsed, typeReading depth index used parsed ∧ TypeExpr.ofSyntax parsed = .ok expr := by
  induction denotes generalizing depth index with
  | @primitive name base names isPrimitive =>
      obtain ⟨depth, rfl⟩ := Nat.exists_eq_add_one.mpr deep
      refine ⟨.bare index name.text, ?_, ?_⟩
      · exact typeReading_succ_iff.mpr ⟨name, [], rfl, names.1, Or.inl ⟨rfl, rfl⟩⟩
      · exact TypeExpr.ofSyntax_bare_eq_ok.mpr ⟨base, names.2, isPrimitive, rfl⟩
  | @decimal name opening argument closing precision names opens value low high closes =>
      obtain ⟨depth, rfl⟩ := Nat.exists_eq_add_one.mpr (Nat.zero_lt_of_lt deep)
      have read := parameterReading_of_proper (index + 1 + 1) (proper argument (by simp)) value
      refine exists_paren names.1 opens closes (separatedReading_one_iff.mpr read) ?_
      refine TypeExpr.ofSyntax_paren_eq_ok.mpr ⟨_, 1, 2, names.2, rfl, ?_⟩
      exact TypeExpr.ofParameters_eq_ok_of_decimal.mpr
        (Or.inl ⟨_, precision, rfl, value, low, high, rfl⟩)
  | @scaled name opening argument comma second closing precision scale names opens value low high
      between secondValue above below closes =>
      obtain ⟨depth, rfl⟩ := Nat.exists_eq_add_one.mpr (Nat.zero_lt_of_lt deep)
      have first := parameterReading_of_proper (index + 1 + 1) (proper argument (by simp)) value
      have last := parameterReading_of_proper (index + 1 + 1 + 1 + 1) (proper second (by simp))
        secondValue
      have read := separatedReading_two_iff.mpr ⟨[argument], comma, [second], rfl, between, first,
        last⟩
      refine exists_paren names.1 opens closes read ?_
      refine TypeExpr.ofSyntax_paren_eq_ok.mpr ⟨_, 1, 2, names.2, rfl, ?_⟩
      exact TypeExpr.ofParameters_eq_ok_of_decimal.mpr
        (Or.inr ⟨_, _, precision, scale, rfl, value, low, high, secondValue, above, below, rfl⟩)
  | @sized name opening argument closing base length names sized opens value low closes =>
      obtain ⟨depth, rfl⟩ := Nat.exists_eq_add_one.mpr (Nat.zero_lt_of_lt deep)
      obtain ⟨arity, notDecimal⟩ := TypeName.parametricArity?_of_sized sized
      have read := parameterReading_of_proper (index + 1 + 1) (proper argument (by simp)) value
      refine exists_paren names.1 opens closes (separatedReading_one_iff.mpr read) ?_
      refine TypeExpr.ofSyntax_paren_eq_ok.mpr ⟨_, 1, 1, names.2, arity, ?_⟩
      exact (TypeExpr.ofParameters_eq_ok_of_sized notDecimal).mpr ⟨_, length, rfl, value, low, rfl⟩
  | @map name opening comma closing left right key value names opens _ between _ closes leftIh
      rightIh =>
      obtain ⟨depth, rfl⟩ := Nat.exists_eq_add_one.mpr (Nat.zero_lt_of_lt deep)
      simp only [List.length_cons, List.length_append, List.length_nil] at deep
      have leftDeep : left.length ≤ depth := by omega
      have rightDeep : right.length ≤ depth := by omega
      obtain ⟨keyParsed, keyRead, keyMeaning⟩ := leftIh (fun lexeme member =>
        proper lexeme (by simp [member])) leftDeep (index + 1 + 1)
      obtain ⟨valueParsed, valueRead, valueMeaning⟩ := rightIh (fun lexeme member =>
        proper lexeme (by simp [member])) rightDeep (index + 1 + 1 + left.length + 1)
      have read := separatedReading_two_iff.mpr ⟨left, comma, right, rfl, between, keyRead,
        valueRead⟩
      refine exists_angle names.1 opens closes read ?_
      refine TypeExpr.ofSyntax_angle_eq_ok.mpr ⟨_, [key, value], names.2, rfl, rfl, ?_, rfl⟩
      rw [if_neg (by decide)]
      exact TypeExpr.ofSyntaxes_eq_ok_two.mpr ⟨key, value, keyMeaning, valueMeaning, rfl⟩
  | @list name opening closing inner item names opens _ closes ih =>
      obtain ⟨depth, rfl⟩ := Nat.exists_eq_add_one.mpr (Nat.zero_lt_of_lt deep)
      simp only [List.length_cons, List.length_append, List.length_nil] at deep
      have innerDeep : inner.length ≤ depth := by omega
      obtain ⟨parsed, read, meaning⟩ := ih (fun lexeme member => proper lexeme (by simp [member]))
        innerDeep (index + 1 + 1)
      refine exists_angle names.1 opens closes (separatedReading_one_iff.mpr read) ?_
      refine TypeExpr.ofSyntax_angle_eq_ok.mpr ⟨_, [item], names.2, rfl, rfl, ?_, rfl⟩
      rw [if_neg (by decide)]
      exact TypeExpr.ofSyntaxes_eq_ok_one.mpr ⟨item, meaning, rfl⟩
  | @named name opening argument closing base names taker opens isName closes =>
      obtain ⟨depth, rfl⟩ := Nat.exists_eq_add_one.mpr (Nat.zero_lt_of_lt deep)
      simp only [List.length_cons, List.length_nil] at deep
      obtain ⟨inside, rfl⟩ := Nat.exists_eq_add_one.mpr (show 0 < depth by omega)
      obtain ⟨notParametric, arity⟩ := TypeName.arities_of_nameTaker taker
      have read : typeReading (inside + 1) (index + 1 + 1) [argument]
          (.bare (index + 1 + 1) argument.text) :=
        typeReading_succ_iff.mpr ⟨argument, [], rfl, isName, Or.inl ⟨rfl, rfl⟩⟩
      refine exists_angle names.1 opens closes (separatedReading_one_iff.mpr read) ?_
      refine TypeExpr.ofSyntax_angle_eq_ok.mpr ⟨_, _, names.2, notParametric, arity, ?_, rfl⟩
      rw [if_pos taker]
      exact TypeExpr.ofNames_eq_ok.mpr ⟨_, _, rfl, rfl⟩

end Expression.Grammar

end EntitySchema
