import EntitySchema.Text.Quoted
import EntitySchema.Token.Basic

/-!
Why an expression or a record is refused. A cause says what is wrong; its kind is the class that
callers test for, and its message is the text shown to people.
-/

namespace EntitySchema

def maxExpressionLength : Nat := 65536

def maxDecimalPrecision : Nat := 38

inductive ErrorKind where
  | emptyExpression
  | modifierPosition
  | unknownType
  | invalidParameters
  | invalidGeneric
  | invalidDefault
  | missingOperator
  | missingTarget
  | invalidRecord
  | malformed
  deriving DecidableEq, Repr

namespace ErrorKind

def message : ErrorKind → Text
  | .emptyExpression => utf8 "expected a non-empty string"
  | .modifierPosition => utf8 "modifier must follow the base type"
  | .unknownType => utf8 "unknown type"
  | .invalidParameters => utf8 "invalid type parameters"
  | .invalidGeneric => utf8 "invalid generic type arguments"
  | .invalidDefault => utf8 "unsupported default value"
  | .missingOperator => utf8 "expected a relation operator (->, ~>, <-, <~)"
  | .missingTarget => utf8 "expected a target type after the relation operator"
  | .invalidRecord => utf8 "invalid schema record"
  | .malformed => utf8 "syntax error"

end ErrorKind

inductive Cause where
  | emptyField
  | emptyRelation
  | tooLong
  | modifierFirst (found : Text)
  | typeNameExpected (found : Text)
  | unknownType (name : Text)
  | unexpectedToken (found : Text) (expected : Option Text)
  | unexpectedDefault (found : Text) (expected : Option Text)
  | repeatedArray
  | anglesOnParametric (name : Text)
  | parensOnGeneric (name : Text)
  | parensOnPrimitive (name : Text)
  | anglesOnPrimitive (name : Text)
  | tooFewParameters (name : Text) (least : Nat)
  | tooManyParameters (name : Text) (greatest : Nat)
  | parameterNotInteger (name parameter : Text)
  | lengthNotPositive (name : Text) (length : Int)
  | precisionOutOfRange (precision : Int)
  | scaleOutOfRange (precision scale : Int)
  | wrongArgumentCount (name : Text) (wanted got : Nat)
  | bareNameExpected (name : Text)
  | unknownDefaultWord (word : Text)
  | defaultNumberTooLarge (number : Text)
  | unterminatedString (string : Text)
  | missingOperator (found : Text)
  | missingTarget (found : Option Text)
  | nameNotString (typeName : Text)
  | expressionNotString (typeName : Text)
  | repeatedKey (line firstLine : Nat)
  | repeatedDeclaration
  deriving DecidableEq, Repr

namespace Cause

def kind : Cause → ErrorKind
  | .emptyField | .emptyRelation => .emptyExpression
  | .modifierFirst _ => .modifierPosition
  | .unknownType _ => .unknownType
  | .tooLong | .typeNameExpected _ | .unexpectedToken .. | .repeatedArray => .malformed
  | .anglesOnParametric _ | .parensOnPrimitive _ | .tooFewParameters .. | .tooManyParameters ..
  | .parameterNotInteger .. | .lengthNotPositive .. | .precisionOutOfRange _
  | .scaleOutOfRange .. => .invalidParameters
  | .parensOnGeneric _ | .anglesOnPrimitive _ | .wrongArgumentCount ..
  | .bareNameExpected _ => .invalidGeneric
  | .unexpectedDefault .. | .unknownDefaultWord _ | .defaultNumberTooLarge _
  | .unterminatedString _ => .invalidDefault
  | .missingOperator _ => .missingOperator
  | .missingTarget _ => .missingTarget
  | .nameNotString _ | .expressionNotString _ | .repeatedKey .. | .repeatedDeclaration =>
    .invalidRecord

def unexpected (found : Text) (expected : Option Text) : Text :=
  utf8 "unexpected token " ++ found.quoted ++
    match expected with
    | none => []
    | some wanted => utf8 " (expected " ++ wanted ++ utf8 ")"

def detail? : Cause → Option Text
  | .emptyField => some (utf8 "field type")
  | .emptyRelation => some (utf8 "relation")
  | .tooLong =>
    some (utf8 "expression longer than " ++ Text.ofNat maxExpressionLength ++ utf8 " bytes")
  | .modifierFirst found => some (utf8 "found " ++ found.quoted ++ utf8 " before the type")
  | .typeNameExpected found => some (utf8 "expected a type name, found " ++ found.quoted)
  | .unknownType name => some name.quoted
  | .unexpectedToken found expected => some (unexpected found expected)
  | .unexpectedDefault found expected => some (unexpected found expected)
  | .repeatedArray => some (utf8 "duplicate array suffix")
  | .anglesOnParametric name => some (name ++ utf8 " takes parenthesised arguments, not <...>")
  | .parensOnGeneric name => some (name ++ utf8 " takes <...> arguments, not (...)")
  | .parensOnPrimitive name => some (name ++ utf8 " does not take arguments")
  | .anglesOnPrimitive name => some (name ++ utf8 " does not take type arguments")
  | .tooFewParameters name least =>
    some (name ++ utf8 " requires " ++ Text.ofNat least ++ utf8 " argument(s)")
  | .tooManyParameters name greatest =>
    some (name ++ utf8 " takes at most " ++ Text.ofNat greatest ++ utf8 " argument(s)")
  | .parameterNotInteger name parameter =>
    some (name ++ utf8 " argument " ++ parameter.quoted ++ utf8 " is not an integer")
  | .lengthNotPositive name length =>
    some (name ++ utf8 " length must be positive, got " ++ Text.ofInt length)
  | .precisionOutOfRange precision =>
    some (utf8 "decimal precision must be between 1 and " ++ Text.ofNat maxDecimalPrecision ++
      utf8 ", got " ++ Text.ofInt precision)
  | .scaleOutOfRange precision scale =>
    some (utf8 "decimal scale must be between 0 and " ++ Text.ofInt precision ++ utf8 ", got " ++
      Text.ofInt scale)
  | .wrongArgumentCount name wanted got =>
    some (name ++ utf8 " requires " ++ Text.ofNat wanted ++ utf8 " type argument(s), got " ++
      Text.ofNat got)
  | .bareNameExpected name => some (name ++ utf8 " expects a bare name, got a type expression")
  | .unknownDefaultWord word => some word.quoted
  | .defaultNumberTooLarge number => some (utf8 "number " ++ number.quoted)
  | .unterminatedString string => some (utf8 "unterminated string " ++ string)
  | .missingOperator found => some (utf8 "found " ++ found.quoted)
  | .missingTarget none => none
  | .missingTarget (some found) => some (utf8 "found " ++ found.quoted)
  | .nameNotString typeName => some (utf8 "$type must be a string, got " ++ typeName)
  | .expressionNotString typeName => some (utf8 "expected an expression string, got " ++ typeName)
  | .repeatedKey line firstLine =>
    some (utf8 "duplicate key at line " ++ Text.ofNat line ++ utf8 " (first at line " ++
      Text.ofNat firstLine ++ utf8 ")")
  | .repeatedDeclaration => some (utf8 "duplicate declaration")

def message (cause : Cause) : Text :=
  cause.kind.message ++
    match cause.detail? with
    | none => []
    | some detail => utf8 ": " ++ detail

end Cause

structure Fault where
  index : Nat
  cause : Cause
  deriving DecidableEq, Repr

/-- A refused expression or record. The field is the key at fault, empty when there is none. -/
structure ParseError where
  cause : Cause
  position : Position := Position.unknown
  field : Text := []
  deriving DecidableEq, Repr

namespace ParseError

def kind (error : ParseError) : ErrorKind := error.cause.kind

def withField (error : ParseError) (field : Text) : ParseError := { error with field := field }

def describe (error : ParseError) : Text :=
  let located :=
    if 0 < error.position.line then
      Text.ofNat error.position.line ++ utf8 ":" ++ Text.ofNat error.position.column ++
        utf8 ": " ++ error.cause.message
    else error.cause.message
  if error.field.isEmpty then located else error.field.quoted ++ utf8 ": " ++ located

end ParseError

namespace Fault

def locate (fault : Fault) (tokens : List Token) : ParseError :=
  { cause := fault.cause
    position := ((tokens[fault.index]?).map Token.position).getD Position.unknown }

end Fault

end EntitySchema
