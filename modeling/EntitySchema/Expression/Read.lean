import EntitySchema.Expression.Error
import EntitySchema.Expression.Parser
import EntitySchema.Text.Space
import EntitySchema.Token.Lexer

/-!
From text to lexemes and back to places: an expression is split into tokens, read as a list of
lexemes, and a fault at the n-th lexeme is reported at the n-th token. The reading itself never
sees a position.
-/

namespace EntitySchema

namespace Lexeme

def describe : Option Lexeme → Text
  | none => utf8 "<EOF>"
  | some lexeme => lexeme.text

end Lexeme

namespace Expression

def Failure.fault (failure : Failure) (lexemes : List Lexeme) : Fault :=
  ⟨failure.index, .unexpectedToken (Lexeme.describe lexemes[failure.index]?) failure.expected⟩

def lexemesOf (tokens : List Token) : List Lexeme := tokens.dropLast.map Token.toLexeme

def read {α : Type} (blank : Cause) (readLexemes : List Lexeme → Except Fault α) (text : Text) :
    Except ParseError α :=
  if text.isBlank then .error { cause := blank }
  else if maxExpressionLength < text.length then .error { cause := .tooLong }
  else
    let tokens := tokenize text
    match readLexemes (lexemesOf tokens) with
    | .ok value => .ok value
    | .error fault => .error (fault.locate tokens)

end Expression

end EntitySchema
