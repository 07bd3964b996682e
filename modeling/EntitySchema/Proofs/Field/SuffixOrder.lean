import EntitySchema.Proofs.Field.Acceptance
import EntitySchema.Proofs.Field.DefaultBlame
import EntitySchema.Proofs.Field.TypeWritten
import EntitySchema.Proofs.Token.Joined

/-!
The order of the suffixes does not matter. Behind a type, the array mark and the modifiers may be
written in any order: the field differs in the spelling of its modifiers alone, and a field that is
refused is refused for the same kind of reason.
-/

namespace EntitySchema

open Expression Expression.Grammar Expression.Reading

inductive SuffixMark where
  | array
  | required
  | optional
  | indexed
  deriving DecidableEq

namespace SuffixMark

def text : SuffixMark → Text
  | .array => utf8 "[]"
  | .required => utf8 "!"
  | .optional => utf8 "?"
  | .indexed => utf8 "#"

def lexemes : SuffixMark → List Lexeme
  | .array => [⟨.lBracket, utf8 "["⟩, ⟨.rBracket, utf8 "]"⟩]
  | .required => [⟨.modifier, utf8 "!"⟩]
  | .optional => [⟨.modifier, utf8 "?"⟩]
  | .indexed => [⟨.modifier, utf8 "#"⟩]

def suffix : SuffixMark → Suffix
  | .array => .array
  | .required => .modifier (utf8 "!")
  | .optional => .modifier (utf8 "?")
  | .indexed => .modifier (utf8 "#")

theorem denotes (marks : List SuffixMark) :
    SuffixesDenote (marks.flatMap lexemes) (marks.map suffix) := by
  induction marks with
  | nil => exact .nil
  | cons mark marks ih =>
      cases mark with
      | array => exact .array rfl rfl ih
      | required => exact .modifier rfl ih
      | optional => exact .modifier rfl ih
      | indexed => exact .modifier rfl ih

theorem proper (marks : List SuffixMark) : ∀ found ∈ marks.map suffix, found.Proper := by
  intro found member
  obtain ⟨mark, _, rfl⟩ := List.mem_map.mp member
  cases mark <;> simp [Suffix.Proper, suffix]

theorem lexemes_append (marks : List SuffixMark) (tail : Text) :
    Lexer.lexemes (Text.runes (marks.flatMap text ++ tail)) =
      marks.flatMap lexemes ++ Lexer.lexemes tail.runes := by
  induction marks with
  | nil => rfl
  | cons mark marks ih =>
      have first (behind : Text) : Lexer.lexemes (Text.runes (mark.text ++ behind)) =
          mark.lexemes ++ Lexer.lexemes behind.runes := by
        cases mark with
        | array => exact (Lexer.lexemes_mark rfl _).trans (congrArg _ (Lexer.lexemes_mark rfl _))
        | required => exact Lexer.lexemes_mark rfl _
        | optional => exact Lexer.lexemes_mark rfl _
        | indexed => exact Lexer.lexemes_mark rfl _
      rw [List.flatMap_cons, List.append_assoc, first, ih, List.flatMap_cons, List.append_assoc]

def firstBytes : List Byte := [0x5B, 0x21, 0x3F, 0x23, 0x3D]

theorem stops_of_mem {byte : Byte} (member : byte ∈ firstBytes) :
    byte < 0x80 ∧ Lexer.Stops (Rune.ofByte byte) := by
  have all : ∀ byte ∈ firstBytes, byte < 0x80 ∧ Lexer.isDigit (Rune.ofByte byte) = false ∧
      (Rune.ofByte byte).char ≠ '.' ∧ Lexer.continuesName (Rune.ofByte byte) = false ∧
      (Rune.ofByte byte).char ≠ '>' ∧ (Rune.ofByte byte).char ≠ '-' ∧
      (Rune.ofByte byte).char ≠ '~' := by
    decide +kernel
  obtain ⟨ascii, digit, point, name, notAngle, notMinus, notTilde⟩ := all byte member
  refine ⟨ascii, digit, point, name, fun first => ?_⟩
  simp [Lexer.isArrow, notAngle, notMinus, notTilde]

theorem text_eq_cons (mark : SuffixMark) :
    ∃ byte rest, mark.text = byte :: rest ∧ byte ∈ firstBytes := by
  cases mark with
  | array => exact ⟨0x5B, _, rfl, by decide⟩
  | required => exact ⟨0x21, _, rfl, by decide⟩
  | optional => exact ⟨0x3F, _, rfl, by decide⟩
  | indexed => exact ⟨0x23, _, rfl, by decide⟩

theorem head_mem_firstBytes (marks : List SuffixMark) {tail : Text}
    (assigned : ∀ byte ∈ tail.head?, byte = 0x3D) :
    ∀ byte ∈ (marks.flatMap text ++ tail).head?, byte ∈ firstBytes := by
  intro byte member
  cases marks with
  | nil => simp [firstBytes, assigned byte member]
  | cons mark marks =>
      obtain ⟨first, rest, shape, listed⟩ := mark.text_eq_cons
      rw [List.flatMap_cons, shape] at member
      obtain rfl : first = byte := Option.some.inj member
      exact listed

end SuffixMark

/-- Both are accepted and differ in the order of their modifiers, or both are refused alike. -/
inductive SameUpToModifiers {ε : Type} (kind : ε → ErrorKind) :
    Except ε Field → Except ε Field → Prop
  | accepted {first second : Field} : first.modifier.Perm second.modifier →
      second = { first with modifier := second.modifier } →
      SameUpToModifiers kind (.ok first) (.ok second)
  | refused {first second : ε} : kind first = kind second →
      SameUpToModifiers kind (.error first) (.error second)

namespace Field

def faultKind (fault : Fault) : ErrorKind := fault.cause.kind

theorem addSuffixes_error {field : Field} {suffixes : List (Nat × Suffix)} {fault : Fault}
    (failed : field.addSuffixes suffixes = .error fault) : fault.cause = .repeatedArray := by
  fun_induction addSuffixes field suffixes with
  | case1 => cases failed
  | case2 =>
      cases failed
      rfl
  | case3 field index suffixes isArray ih => exact ih failed
  | case4 field index text suffixes ih => exact ih failed

variable {first second : List (Nat × Suffix)}

theorem addSuffixes_perm (expr : TypeExpr)
    (firstProper : ∀ suffix ∈ first.map Prod.snd, suffix.Proper)
    (secondProper : ∀ suffix ∈ second.map Prod.snd, suffix.Proper)
    (same : (first.map Prod.snd).Perm (second.map Prod.snd)) :
    SameUpToModifiers faultKind
      ({ ofType expr with modifier := modifiersOf first }.addSuffixes first)
      ({ ofType expr with modifier := modifiersOf second }.addSuffixes second) := by
  have spelled (suffixes : List (Nat × Suffix)) : modifiersOf suffixes =
      (suffixes.map Prod.snd).flatMap Suffix.modifierText := by
    simp [modifiersOf, List.flatMap_map]
  have modifiers : (modifiersOf first).Perm (modifiersOf second) := by
    rw [spelled, spelled]
    exact same.flatMap_right _
  have few : (first.map Prod.snd).count .array = (second.map Prod.snd).count .array :=
    same.count_eq _
  have array : (first.map Prod.snd).contains .array = (second.map Prod.snd).contains .array :=
    same.contains_eq
  cases left : { ofType expr with modifier := modifiersOf first }.addSuffixes first with
  | ok field =>
      obtain ⟨once, marked⟩ := (addSuffixes_eq_ok_iff firstProper).mp left
      have right : { ofType expr with modifier := modifiersOf second }.addSuffixes second =
          .ok ({ ofType expr with modifier := modifiersOf second }.mark
            ((second.map Prod.snd).flatMap Suffix.modifierText)
            ((second.map Prod.snd).contains .array)) :=
        (addSuffixes_eq_ok_iff secondProper).mpr ⟨few ▸ once, rfl⟩
      rw [right, marked, ← spelled, ← spelled, array]
      refine .accepted modifiers ?_
      simp only [mark, modifiers.contains_eq]
  | error fault =>
      cases right : { ofType expr with modifier := modifiersOf second }.addSuffixes second with
      | ok field =>
          obtain ⟨once, _⟩ := (addSuffixes_eq_ok_iff secondProper).mp right
          rw [(addSuffixes_eq_ok_iff firstProper).mpr ⟨few ▸ once, rfl⟩] at left
          cases left
      | error other =>
          refine .refused ?_
          rw [faultKind, faultKind, addSuffixes_error left, addSuffixes_error right]

theorem ofSyntax_perm (base : TypeSyntax) (default : Option (Nat × DefaultSyntax))
    (firstProper : ∀ suffix ∈ first.map Prod.snd, suffix.Proper)
    (secondProper : ∀ suffix ∈ second.map Prod.snd, suffix.Proper)
    (same : (first.map Prod.snd).Perm (second.map Prod.snd)) :
    SameUpToModifiers faultKind (ofSyntax ⟨base, first, default⟩)
      (ofSyntax ⟨base, second, default⟩) := by
  simp only [ofSyntax, bind, Except.bind]
  cases TypeExpr.ofSyntax base with
  | error fault => exact .refused rfl
  | ok expr =>
      have marked := addSuffixes_perm expr firstProper secondProper same
      dsimp only
      generalize { ofType expr with modifier := modifiersOf first }.addSuffixes first = left
        at marked ⊢
      generalize { ofType expr with modifier := modifiersOf second }.addSuffixes second = right
        at marked ⊢
      cases marked with
      | refused kind => exact .refused kind
      | @accepted firstField secondField modifiers equal =>
          cases default with
          | none => exact .accepted modifiers equal
          | some found =>
              dsimp only
              cases DefaultValue.ofSyntax found.1 found.2 with
              | error fault => exact .refused rfl
              | ok value =>
                  refine .accepted modifiers ?_
                  rw [equal]

theorem append_equals_inj {before other behind last : List Lexeme} {sign : Lexeme}
    (plain : ∀ lexeme ∈ before, isEquals lexeme = false)
    (otherPlain : ∀ lexeme ∈ other, isEquals lexeme = false) (equals : isEquals sign = true)
    (lastEquals : ∀ lexeme ∈ last.head?, isEquals lexeme = true)
    (whole : before ++ sign :: behind = other ++ last) :
    before = other ∧ sign :: behind = last := by
  obtain ⟨middle, rfl, rest⟩ | ⟨middle, rfl, rfl⟩ := List.append_eq_append_iff.mp whole
  · cases middle with
    | nil => exact ⟨(List.append_nil _).symm, rest⟩
    | cons lexeme middle =>
        obtain ⟨rfl, _⟩ := List.cons.inj rest
        have free := otherPlain sign (by simp)
        rw [equals] at free
        contradiction
  · cases middle with
    | nil => exact ⟨List.append_nil _, rfl⟩
    | cons lexeme middle =>
        have free := plain lexeme (by simp)
        rw [lastEquals lexeme rfl] at free
        contradiction

section Grammar

variable {base marks tail : List Lexeme} {parsed : TypeSyntax} {found : List (Nat × Suffix)}

theorem typeReading_deep (typeRead : typeReading base.length 0 base parsed) :
    typeReading ((base ++ marks ++ tail).length + 1) 0 base parsed := by
  refine typeReading_of_length typeRead ?_
  simp only [List.length_append]
  omega

theorem parseAll_of_readable {default : Option (Nat × DefaultSyntax)}
    (typeRead : typeReading base.length 0 base parsed)
    (suffixRead : repeated suffixReading base.length marks found)
    (defaultRead : maybe assignedReading (base.length + marks.length) tail default) :
    field.parseAll (base ++ marks ++ tail) = .ok ⟨parsed, found, default⟩ := by
  rw [field_parseAll_iff]
  refine ⟨(parsed, found, default), ⟨base, marks ++ tail, List.append_assoc _ _ _,
    typeReading_deep typeRead, marks, tail, rfl, ?_, ?_⟩, rfl⟩
  · rwa [Nat.zero_add]
  · rwa [Nat.zero_add]

theorem exists_default_of_parseAll {head behind : List Lexeme} {sign : Lexeme} {read : FieldSyntax}
    (plain : ∀ lexeme ∈ head, isEquals lexeme = false) (equals : isEquals sign = true)
    (outcome : field.parseAll (head ++ sign :: behind) = .ok read) :
    ∃ default, maybe assignedReading head.length (sign :: behind) default := by
  rw [field_parseAll_iff] at outcome
  obtain ⟨⟨otherBase, suffixes, default⟩, ⟨front, _, whole, otherRead, middle, last, rfl,
    suffixesRead, defaultRead⟩, rfl⟩ := outcome
  have otherHead : headReading _ 0 (front ++ middle) (otherBase, suffixes) :=
    ⟨front, middle, rfl, otherRead, suffixesRead⟩
  have lastEquals : ∀ lexeme ∈ last.head?, isEquals lexeme = true := by
    cases default with
    | none =>
        obtain rfl : last = [] := defaultRead
        simp
    | some default =>
        obtain ⟨_, ⟨_, _, rfl, ⟨rfl, kind⟩, _⟩, _⟩ := defaultRead
        simpa [isEquals] using kind
  rw [← List.append_assoc] at whole
  obtain ⟨rfl, rfl⟩ :=
    append_equals_inj plain (no_equals_of_head otherHead) equals lastEquals whole
  rw [Nat.zero_add] at defaultRead
  exact ⟨default, by rwa [List.length_append]⟩

theorem parseAll_of_unreadable (typeRead : typeReading base.length 0 base parsed)
    (suffixRead : repeated suffixReading base.length marks found)
    (assigned : ∀ lexeme ∈ tail.head?, lexeme.kind = .equals)
    (unreadable : ∀ default,
      ¬maybe assignedReading (base.length + marks.length) tail default) :
    ∃ failure, field.parseAll (base ++ marks ++ tail) = .error failure ∧
      (faultOf failure (base ++ marks ++ tail)).cause.kind = .invalidDefault := by
  have head : headReading ((base ++ marks ++ tail).length + 1) 0 (base ++ marks) (parsed, found) :=
    ⟨base, marks, rfl, typeReading_deep typeRead, by rwa [Nat.zero_add]⟩
  have plain := no_equals_of_head head
  obtain ⟨sign, behind, rfl⟩ : ∃ sign behind, tail = sign :: behind := by
    cases tail with
    | nil => exact absurd rfl (unreadable none)
    | cons sign behind => exact ⟨sign, behind, rfl⟩
  have equals : isEquals sign = true := by simpa [isEquals] using assigned sign rfl
  cases outcome : field.parseAll (base ++ marks ++ sign :: behind) with
  | ok read =>
      obtain ⟨default, defaultRead⟩ := exists_default_of_parseAll plain equals outcome
      rw [List.length_append] at defaultRead
      exact absurd defaultRead (unreadable default)
  | error failure =>
      refine ⟨failure, rfl, ?_⟩
      rw [Parser.parseAll, field_start, ← Parser.parseAll] at outcome
      have beyond := (exists_head_iff plain equals outcome).mp ⟨_, head⟩
      rw [faultOf, findIdx?_sign plain equals]
      dsimp only
      rw [if_pos (Nat.le_of_lt beyond)]
      rfl

end Grammar

theorem ofLexemes_of_name {lexemes rest : List Lexeme} {name : Lexeme}
    (shape : lexemes = name :: rest) (isName : name.isName = true) :
    ofLexemes lexemes =
      if (TypeName.canonical? name.text).isNone then .error ⟨0, .unknownType name.text⟩
      else
        match field.parseAll lexemes with
        | .ok parsed => ofSyntax parsed
        | .error failure => .error (faultOf failure lexemes) := by
  have kinds : name.kind ≠ .modifier ∧ name.kind ≠ .relationOp := by
    constructor <;> intro kind <;> simp [Lexeme.isName, kind] at isName
  subst shape
  rw [ofLexemes, if_neg kinds.1, if_neg kinds.2]
  exact if_neg (by simp [isName])

theorem ofLexemes_perm {base tail : List Lexeme} {left right : List SuffixMark}
    (written : TypeWritten base) (assigned : ∀ lexeme ∈ tail.head?, lexeme.kind = .equals)
    (same : left.Perm right) :
    SameUpToModifiers faultKind (ofLexemes (base ++ left.flatMap SuffixMark.lexemes ++ tail))
      (ofLexemes (base ++ right.flatMap SuffixMark.lexemes ++ tail)) := by
  obtain ⟨parsed, typeRead⟩ := written.exists_reading (Nat.le_refl _) 0
  obtain ⟨first, firstRead, firstShape⟩ :=
    exists_repeated_suffixReading (SuffixMark.denotes left) base.length
  obtain ⟨second, secondRead, secondShape⟩ :=
    exists_repeated_suffixReading (SuffixMark.denotes right) base.length
  -- Both lists of suffixes have as many lexemes, so the default stands at the same place.
  have length : (left.flatMap SuffixMark.lexemes).length =
      (right.flatMap SuffixMark.lexemes).length :=
    (same.flatMap_right SuffixMark.lexemes).length_eq
  obtain ⟨name, rest, shape, isName⟩ := written.head
  have begins (marks : List SuffixMark) : base ++ marks.flatMap SuffixMark.lexemes ++ tail =
      name :: (rest ++ marks.flatMap SuffixMark.lexemes ++ tail) := by
    rw [shape]
    rfl
  rw [ofLexemes_of_name (begins left) isName, ofLexemes_of_name (begins right) isName]
  split
  next => exact .refused rfl
  next known =>
    by_cases readable : ∃ default, maybe assignedReading
        (base.length + (left.flatMap SuffixMark.lexemes).length) tail default
    · obtain ⟨default, defaultRead⟩ := readable
      rw [parseAll_of_readable typeRead firstRead defaultRead,
        parseAll_of_readable typeRead secondRead (length ▸ defaultRead)]
      refine ofSyntax_perm parsed default ?_ ?_ ?_
      · rw [firstShape]
        exact SuffixMark.proper left
      · rw [secondShape]
        exact SuffixMark.proper right
      · rw [firstShape, secondShape]
        exact same.map _
    · obtain ⟨failure, failed, kind⟩ :=
        parseAll_of_unreadable typeRead firstRead assigned (not_exists.mp readable)
      obtain ⟨other, otherFailed, otherKind⟩ :=
        parseAll_of_unreadable typeRead secondRead assigned
          (not_exists.mp (length ▸ readable))
      rw [failed, otherFailed]
      exact .refused (kind.trans otherKind.symm)

end Field

theorem Text.isBlank_iff_lexemes (text : Text) :
    text.isBlank = true ↔ ∀ lexeme ∈ lexemesOf (tokenize text), lexeme.text.isBlank = true := by
  obtain ⟨inner, last, whole, _, empty, _⟩ := (tokenize_isSegmentation text).ends
  have nothing : last.text.isBlank = true := by
    rw [empty]
    rfl
  rw [Text.isBlank_iff_tokens, lexemesOf, whole, List.dropLast_concat, List.forall_mem_append,
    List.forall_mem_map]
  simp [nothing]

theorem Expression.read_perm {left right : Text} {blank : Cause}
    {readLexemes : List Lexeme → Except Fault Field} (length : left.length = right.length)
    (tokens : (lexemesOf (tokenize left)).Perm (lexemesOf (tokenize right)))
    (alike : SameUpToModifiers Field.faultKind (readLexemes (lexemesOf (tokenize left)))
      (readLexemes (lexemesOf (tokenize right)))) :
    SameUpToModifiers ParseError.kind (read blank readLexemes left)
      (read blank readLexemes right) := by
  have blanks : left.isBlank = right.isBlank := by
    rw [Bool.eq_iff_iff, Text.isBlank_iff_lexemes, Text.isBlank_iff_lexemes]
    simp only [tokens.mem_iff]
  unfold read
  rw [blanks, length]
  split
  next => exact .refused rfl
  next =>
    split
    next => exact .refused rfl
    next =>
      dsimp only
      generalize readLexemes (lexemesOf (tokenize left)) = first at alike ⊢
      generalize readLexemes (lexemesOf (tokenize right)) = second at alike ⊢
      cases alike with
      | accepted modifiers equal => exact .accepted modifiers equal
      | refused kind => exact .refused kind

namespace Field

theorem lexemes_suffixed {base default : Text} (marks : List SuffixMark)
    (written : TypeWritten (lexemesOf (tokenize base)))
    (assigned : ∀ byte ∈ default.head?, byte = 0x3D) :
    lexemesOf (tokenize (base ++ marks.flatMap SuffixMark.text ++ default)) =
      lexemesOf (tokenize base) ++ marks.flatMap SuffixMark.lexemes ++
        lexemesOf (tokenize default) := by
  have bytes := SuffixMark.head_mem_firstBytes marks assigned
  have behind := SuffixMark.lexemes_append marks default
  rw [lexemesOf_tokenize, lexemesOf_tokenize, lexemesOf_tokenize, List.append_assoc,
    List.append_assoc, ← behind]
  cases shape : marks.flatMap SuffixMark.text ++ default with
  | nil => simp [Lexer.lexemes_nil]
  | cons byte tail =>
      obtain ⟨ascii, stops⟩ := SuffixMark.stops_of_mem (bytes byte (by rw [shape]; rfl))
      exact Lexer.lexemes_runes_append ascii stops written.last_ne_string

/--
Suffixes behind a complete type may be permuted, whatever default follows: the field is accepted
either way and differs in the order of its modifiers alone, or refused either way for a reason of
the same kind.
-/
theorem parse_suffixes_perm {base default : Text} {left right : List SuffixMark}
    (written : TypeWritten (lexemesOf (tokenize base)))
    (assigned : ∀ byte ∈ default.head?, byte = 0x3D) (same : left.Perm right) :
    SameUpToModifiers ParseError.kind (parse (base ++ left.flatMap SuffixMark.text ++ default))
      (parse (base ++ right.flatMap SuffixMark.text ++ default)) := by
  have equals : ∀ lexeme ∈ (lexemesOf (tokenize default)).head?, lexeme.kind = .equals := by
    cases default with
    | nil => simp [lexemesOf_tokenize, Lexer.lexemes_nil]
    | cons byte rest =>
        obtain rfl : byte = 0x3D := assigned byte rfl
        rw [lexemesOf_tokenize, Lexer.lexemes_mark rfl]
        simp
  refine Expression.read_perm ?_ ?_ ?_
  · have length := (same.flatMap_right SuffixMark.text).length_eq
    simp only [List.length_append, length]
  · rw [lexemes_suffixed left written assigned, lexemes_suffixed right written assigned]
    exact ((same.flatMap_right _).append_left _).append_right _
  · rw [lexemes_suffixed left written assigned, lexemes_suffixed right written assigned]
    exact ofLexemes_perm written equals same

def scaledDecimal : Text := utf8 "decimal(10,2)"

theorem typeWritten_scaledDecimal : TypeWritten (lexemesOf (tokenize scaledDecimal)) := by
  have tokens : lexemesOf (tokenize scaledDecimal) =
      [⟨.typeName, utf8 "decimal"⟩, ⟨.lParen, utf8 "("⟩, ⟨.number, utf8 "10"⟩,
        ⟨.comma, utf8 ","⟩, ⟨.number, utf8 "2"⟩, ⟨.rParen, utf8 ")"⟩] := by
    decide +kernel
  have parameters : ∀ parameter ∈ [[⟨.number, utf8 "10"⟩], [⟨.number, utf8 "2"⟩]],
      ∃ lexeme, parameter = [lexeme] ∧ isParameter lexeme = true := by
    simp [isParameter]
  rw [tokens]
  exact .paren rfl rfl parameters (.some (.cons rfl .nil)) rfl

theorem parse_suffixes_perm_decimal :
    [SuffixMark.required, .array, .indexed].Perm [.indexed, .required, .array] ∧
      SameUpToModifiers ParseError.kind (parse (utf8 "decimal(10,2)![]#= 0"))
        (parse (utf8 "decimal(10,2)#![]= 0")) := by
  have same : [SuffixMark.required, .array, .indexed].Perm [.indexed, .required, .array] := by
    decide
  have equals : ∀ byte ∈ (utf8 "= 0").head?, byte = 0x3D :=
    fun byte member => (Option.some.inj member).symm
  have alike := parse_suffixes_perm typeWritten_scaledDecimal equals same
  have leftText : scaledDecimal ++
      [SuffixMark.required, .array, .indexed].flatMap SuffixMark.text ++ utf8 "= 0" =
        utf8 "decimal(10,2)![]#= 0" := by
    decide
  have rightText : scaledDecimal ++
      [SuffixMark.indexed, .required, .array].flatMap SuffixMark.text ++ utf8 "= 0" =
        utf8 "decimal(10,2)#![]= 0" := by
    decide
  rw [leftText, rightText] at alike
  exact ⟨same, alike⟩

end Field

end EntitySchema
