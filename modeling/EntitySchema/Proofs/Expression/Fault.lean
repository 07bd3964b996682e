import EntitySchema.Field.Parse
import EntitySchema.Proofs.Expression.Failure
import EntitySchema.Proofs.Expression.Read
import EntitySchema.Proofs.Token.Segmentation
import Mathlib.Tactic.SplitIfs

/-!
What a refused expression is blamed on, and where. Each fault carries the number of a lexeme that
was read, or the number behind the last one, so it is reported at a token of the text.
-/

namespace EntitySchema

open Expression

namespace Expression

namespace Reading

variable {α : Type}

theorem repeated_forall {reading : Reading α} (property : α → Prop) (bound : Nat)
    (each : ∀ {index used value}, reading index used value → index + used.length ≤ bound →
      property value) {index : Nat} {used : List Lexeme} {values : List α}
    (read : reading.repeated index used values) (fits : index + used.length ≤ bound) :
    ∀ value ∈ values, property value := by
  induction read with
  | nil => simp
  | cons first others ih =>
      simp only [List.length_append] at fits
      intro value member
      rcases List.mem_cons.mp member with rfl | later
      · exact each first (by omega)
      · exact ih (by omega) value later

end Reading

inductive TypeSyntax.Inside (bound : Nat) : TypeSyntax → Prop
  | bare {index name} : index ≤ bound → Inside bound (.bare index name)
  | paren {index name parameters} : index ≤ bound →
      (∀ parameter ∈ parameters, parameter.index ≤ bound) →
      Inside bound (.paren index name parameters)
  | angle {index name arguments} : index ≤ bound →
      (∀ argument ∈ arguments, Inside bound argument) →
      Inside bound (.angle index name arguments)

structure FieldSyntax.Inside (bound : Nat) (parsed : FieldSyntax) : Prop where
  base : parsed.base.Inside bound
  suffixes : ∀ suffix ∈ parsed.suffixes, suffix.1 ≤ bound
  default : ∀ written ∈ parsed.default, written.1 ≤ bound

namespace Grammar

open Reading

variable {α : Type} {bound index : Nat} {used : List Lexeme}

theorem bracketedReading_forall {opening closing : TokenKind} {item : Reading α}
    (property : α → Prop) (bound : Nat)
    (each : ∀ {index used value}, item index used value → index + used.length ≤ bound →
      property value) {values : List α}
    (read : bracketedReading opening item closing index used values)
    (fits : index + used.length ≤ bound) : ∀ value ∈ values, property value := by
  obtain ⟨_, ⟨before, behind, rfl, _, inner, last, rfl, ⟨found, read, shape⟩, _⟩, rfl⟩ := read
  simp only [List.length_append] at fits
  dsimp only at shape ⊢
  rw [← shape]
  obtain _ | ⟨first, others⟩ := found
  · simp
  · obtain ⟨left, right, rfl, firstRead, othersRead⟩ := read
    simp only [List.length_append] at fits
    intro value member
    rcases List.mem_cons.mp member with rfl | later
    · exact each firstRead (by omega)
    · refine repeated_forall property bound ?_ othersRead (by omega) value later
      rintro index used _ ⟨_, ⟨comma, written, rfl, _, written_read⟩, rfl⟩ inside
      simp only [List.length_append] at inside
      exact each written_read (by omega)

theorem typeReading_inside {depth : Nat} {parsed : TypeSyntax}
    (read : typeReading depth index used parsed) (fits : index + used.length ≤ bound) :
    parsed.Inside bound := by
  induction depth generalizing index used parsed with
  | zero => exact read.elim
  | succ depth ih =>
      obtain ⟨⟨_, name, arguments⟩, ⟨rfl, left, right, rfl, _, argumentsRead⟩, rfl⟩ := read
      simp only [List.length_append] at fits
      obtain _ | list | list := arguments
      · exact .bare (by omega)
      · refine .paren (by omega) ?_
        obtain ⟨_, bracketed, same⟩ | ⟨_, _, same⟩ := argumentsRead
        · cases same
          refine bracketedReading_forall (Parameter.index · ≤ bound) bound ?_ bracketed (by omega)
          rintro index used _ ⟨_, ⟨rfl, _⟩, rfl⟩ inside
          dsimp only
          omega
        · cases same
      · refine .angle (by omega) ?_
        obtain ⟨_, _, same⟩ | ⟨_, bracketed, same⟩ := argumentsRead
        · cases same
        · cases same
          exact bracketedReading_forall (TypeSyntax.Inside bound) bound ih bracketed (by omega)

theorem fieldReading_inside {depth : Nat} {parsed : FieldSyntax}
    (read : fieldReading depth index used parsed) (fits : index + used.length ≤ bound) :
    parsed.Inside bound := by
  obtain ⟨⟨base, suffixes, default⟩, ⟨front, back, rfl, baseRead, middle, last, rfl, suffixesRead,
    defaultRead⟩, rfl⟩ := read
  simp only [List.length_append] at fits
  constructor
  · refine typeReading_inside baseRead ?_
    omega
  · refine repeated_forall (·.1 ≤ bound) bound ?_ suffixesRead (by omega)
    rintro index used ⟨_, suffix⟩ ⟨rfl, _⟩ inside
    omega
  · rintro ⟨place, written⟩ member
    obtain rfl : default = some (place, written) := member
    obtain ⟨⟨sign, _⟩, ⟨left, right, rfl, ⟨rfl, _⟩, place_eq, _⟩, rfl⟩ := defaultRead
    simp only [List.length_append] at fits
    dsimp only at place_eq ⊢
    omega

end Grammar

end Expression

/-- If the reading fails, its fault is of one of the kinds and stands at most at the bound. -/
def FaultsIn {α : Type} (kinds : List ErrorKind) (bound : Nat) (result : Except Fault α) : Prop :=
  ∀ fault, result = .error fault → fault.cause.kind ∈ kinds ∧ fault.index ≤ bound

namespace FaultsIn

variable {α β : Type} {kinds more : List ErrorKind} {bound : Nat}

theorem ok (value : α) : FaultsIn kinds bound (.ok value) := nofun

theorem error {fault : Fault} (kind : fault.cause.kind ∈ kinds) (inside : fault.index ≤ bound) :
    FaultsIn kinds bound (.error fault : Except Fault α) := by
  rintro _ ⟨⟩
  exact ⟨kind, inside⟩

theorem mono {result : Except Fault α} (faults : FaultsIn kinds bound result)
    (included : kinds ⊆ more) : FaultsIn more bound result :=
  fun fault failed => ⟨included (faults fault failed).1, (faults fault failed).2⟩

theorem rethrown {result : Except Fault α} {fault : Fault} (faults : FaultsIn kinds bound result)
    (failed : result = .error fault) : FaultsIn kinds bound (.error fault : Except Fault β) := by
  obtain ⟨kind, inside⟩ := faults fault failed
  exact error kind inside

theorem map {result : Except Fault α} (transform : α → β) (faults : FaultsIn kinds bound result) :
    FaultsIn kinds bound (result.map transform) := by
  cases result with
  | ok value => exact ok _
  | error fault => exact faults.rethrown rfl

theorem bind {result : Except Fault α} {next : α → Except Fault β}
    (faults : FaultsIn kinds bound result) (later : ∀ value, FaultsIn kinds bound (next value)) :
    FaultsIn kinds bound (result >>= next) := by
  cases result with
  | ok value => exact later value
  | error fault => exact faults.rethrown rfl

end FaultsIn

open FaultsIn

namespace TypeExpr

def faultKinds : List ErrorKind := [.unknownType, .invalidParameters, .invalidGeneric]

variable {bound : Nat} {name : Text}

theorem readParameters_faults {parameters : List Parameter}
    (inside : ∀ parameter ∈ parameters, parameter.index ≤ bound) :
    FaultsIn faultKinds bound (readParameters name parameters) := by
  induction parameters with
  | nil => exact ok _
  | cons parameter parameters ih =>
      rw [List.forall_mem_cons] at inside
      unfold readParameters
      split
      · exact error (by simp [Cause.kind, faultKinds]) inside.1
      · exact (ih inside.2).map _

theorem ofLength_faults {index : Nat} (inside : index ≤ bound) (length : Int) :
    FaultsIn faultKinds bound (ofLength name index length) := by
  unfold ofLength
  split_ifs
  · exact error (by simp [Cause.kind, faultKinds]) inside
  · exact ok _

theorem ofPrecision_faults {index : Nat} (inside : index ≤ bound) (precision : Int)
    {scale : Option (Nat × Int)} (scaleInside : ∀ placed ∈ scale, placed.1 ≤ bound) :
    FaultsIn faultKinds bound (ofPrecision name index precision scale) := by
  unfold ofPrecision
  split_ifs
  · exact error (by simp [Cause.kind, faultKinds]) inside
  · cases scale with
    | none => exact ok _
    | some placed =>
        dsimp only
        split_ifs
        · exact error (by simp [Cause.kind, faultKinds]) (scaleInside placed rfl)
        · exact ok _

theorem ofParameters_faults {index : Nat} (inside : index ≤ bound) (least greatest : Nat)
    {parameters : List Parameter} (all : ∀ parameter ∈ parameters, parameter.index ≤ bound) :
    FaultsIn faultKinds bound (ofParameters name index least greatest parameters) := by
  unfold ofParameters
  split
  · exact error (by simp [Cause.kind, faultKinds]) inside
  · split
    next extra found =>
      exact error (by simp [Cause.kind, faultKinds]) (all extra (List.mem_of_getElem? found))
    next =>
      split
      next fault failed =>
        exact (readParameters_faults all).rethrown failed
      next =>
        split
        next first others value values =>
          rw [List.forall_mem_cons] at all
          split
          · refine ofPrecision_faults all.1 _ ?_
            rintro ⟨place, scale⟩ member
            simp only [Option.mem_def, Option.bind_eq_some_iff, Option.map_eq_some_iff,
              Prod.mk.injEq] at member
            obtain ⟨_, ⟨second, found, rfl⟩, _, _, rfl, _⟩ := member
            exact all.2 second (List.mem_of_head? found)
          · exact ofLength_faults all.1 _
        next => exact error (by simp [Cause.kind, faultKinds]) inside

theorem ofName_faults {argument : TypeSyntax} (inside : argument.Inside bound) :
    FaultsIn faultKinds bound (ofName name argument) := by
  cases inside with
  | bare => exact ok _
  | paren place => exact error (by simp [Cause.kind, faultKinds]) place
  | angle place => exact error (by simp [Cause.kind, faultKinds]) place

theorem ofNames_faults {arguments : List TypeSyntax}
    (inside : ∀ argument ∈ arguments, argument.Inside bound) :
    FaultsIn faultKinds bound (ofNames name arguments) := by
  induction arguments with
  | nil => exact ok _
  | cons argument arguments ih =>
      rw [List.forall_mem_cons] at inside
      unfold ofNames
      split
      next fault failed =>
        exact (ofName_faults inside.1).rethrown failed
      next => exact (ih inside.2).map _

theorem ofSyntaxes_faults {arguments : List TypeSyntax}
    (each : ∀ argument ∈ arguments, FaultsIn faultKinds bound (ofSyntax argument)) :
    FaultsIn faultKinds bound (ofSyntaxes arguments) := by
  induction arguments with
  | nil =>
      unfold ofSyntaxes
      exact ok _
  | cons argument arguments ih =>
      rw [List.forall_mem_cons] at each
      unfold ofSyntaxes
      split
      next fault failed =>
        exact each.1.rethrown failed
      next => exact (ih each.2).map _

theorem ofSyntax_faults {written : TypeSyntax} (inside : written.Inside bound) :
    FaultsIn faultKinds bound (ofSyntax written) := by
  induction inside with
  | bare place =>
      unfold ofSyntax
      split
      · exact error (by simp [Cause.kind, faultKinds]) place
      · split
        · exact error (by simp [Cause.kind, faultKinds]) place
        · exact error (by simp [Cause.kind, faultKinds]) place
        · exact ok _
  | paren place parameters =>
      unfold ofSyntax
      split
      · exact error (by simp [Cause.kind, faultKinds]) place
      · split
        · exact ofParameters_faults place _ _ parameters
        · exact error (by simp [Cause.kind, faultKinds]) place
        · exact error (by simp [Cause.kind, faultKinds]) place
  | angle place arguments ih =>
      unfold ofSyntax
      split
      · exact error (by simp [Cause.kind, faultKinds]) place
      · split
        · exact error (by simp [Cause.kind, faultKinds]) place
        · exact error (by simp [Cause.kind, faultKinds]) place
        · split_ifs
          · exact error (by simp [Cause.kind, faultKinds]) place
          · exact (ofNames_faults arguments).map _
          · exact (ofSyntaxes_faults ih).map _

end TypeExpr

theorem DefaultValue.ofSyntax_error {index : Nat} {written : DefaultSyntax} {fault : Fault}
    (failed : ofSyntax index written = .error fault) :
    fault.cause.kind = .invalidDefault ∧ fault.index = index := by
  unfold ofSyntax at failed
  split at failed
  · split at failed
    · cases failed
    · cases failed
      exact ⟨rfl, rfl⟩
  · cases failed
  · split at failed
    · cases failed
    · cases failed
      exact ⟨rfl, rfl⟩
  · split at failed
    · cases failed
    · cases failed
      exact ⟨rfl, rfl⟩
  · cases failed
  · cases failed

namespace Relation

def faultKinds : List ErrorKind := [.missingOperator, .missingTarget, .malformed]

theorem ofLexemes_faults_of_arrow {first : Lexeme} (arrow : first.kind = .relationOp)
    (rest : List Lexeme) :
    FaultsIn [.missingTarget, .malformed] (first :: rest).length (ofLexemes (first :: rest)) := by
  unfold ofLexemes
  dsimp only
  rw [if_neg (not_not_intro arrow)]
  cases rest with
  | nil => exact error (by simp [Cause.kind]) (Nat.le_refl _)
  | cons target rest =>
      dsimp only
      split_ifs
      · split
        next => exact ok _
        next failure failed =>
          have inside := (Grammar.relation_keeps fun _ _ => rfl).parseAll_error_le failed
          exact error (by simp [Failure.fault, Cause.kind]) (Nat.le_trans inside (heldFor_le _ _))
      · exact error (by simp [Cause.kind]) (by simp)

theorem ofLexemes_faults (lexemes : List Lexeme) :
    FaultsIn faultKinds lexemes.length (ofLexemes lexemes) := by
  cases lexemes with
  | nil => exact error (by simp [Cause.kind, faultKinds]) (Nat.le_refl _)
  | cons first rest =>
      by_cases arrow : first.kind = .relationOp
      · exact (ofLexemes_faults_of_arrow arrow rest).mono (by simp [faultKinds])
      · unfold ofLexemes
        dsimp only
        rw [if_pos arrow]
        exact error (by simp [Cause.kind, faultKinds]) (Nat.zero_le _)

end Relation

namespace Field

def faultKinds : List ErrorKind :=
  [.modifierPosition, .unknownType, .invalidParameters, .invalidGeneric, .invalidDefault,
    .missingTarget, .malformed]

theorem addSuffixes_faults {bound : Nat} (field : Field) {suffixes : List (Nat × Suffix)}
    (inside : ∀ suffix ∈ suffixes, suffix.1 ≤ bound) :
    FaultsIn [.malformed] bound (field.addSuffixes suffixes) := by
  fun_induction addSuffixes field suffixes with
  | case1 => exact ok _
  | case2 field index suffixes isArray =>
      rw [List.forall_mem_cons] at inside
      exact error (by simp [Cause.kind]) inside.1
  | case3 field index suffixes isArray ih =>
      rw [List.forall_mem_cons] at inside
      exact ih inside.2
  | case4 field index text suffixes ih =>
      rw [List.forall_mem_cons] at inside
      exact ih inside.2

theorem ofSyntax_faults {bound : Nat} {parsed : FieldSyntax} (inside : parsed.Inside bound) :
    FaultsIn faultKinds bound (ofSyntax parsed) := by
  have base := TypeExpr.ofSyntax_faults inside.base
  refine (base.mono (by simp [TypeExpr.faultKinds, faultKinds])).bind fun expr => ?_
  refine ((addSuffixes_faults _ inside.suffixes).mono (by simp [faultKinds])).bind fun field => ?_
  split
  next => exact ok _
  next index written found =>
    refine FaultsIn.bind ?_ fun value => ok _
    intro fault failed
    obtain ⟨kind, place⟩ := DefaultValue.ofSyntax_error failed
    rw [kind, place]
    exact ⟨by simp [faultKinds], inside.default _ found⟩

theorem faultOf_kind (failure : Failure) (lexemes : List Lexeme) :
    (faultOf failure lexemes).cause.kind ∈ faultKinds ∧
      (faultOf failure lexemes).index = failure.index := by
  unfold faultOf
  dsimp only
  split
  · exact ⟨by simp [Failure.fault, Cause.kind, faultKinds], rfl⟩
  · split_ifs
    · exact ⟨by simp [Cause.kind, faultKinds], rfl⟩
    · exact ⟨by simp [Failure.fault, Cause.kind, faultKinds], rfl⟩

theorem ofLexemes_faults (lexemes : List Lexeme) :
    FaultsIn faultKinds lexemes.length (ofLexemes lexemes) := by
  unfold ofLexemes
  split
  next => exact error (by simp [Cause.kind, faultKinds]) (Nat.zero_le _)
  next first rest =>
    split_ifs with modifier arrow noName unknown
    · exact error (by simp [Cause.kind, faultKinds]) (Nat.zero_le _)
    · exact ((Relation.ofLexemes_faults_of_arrow arrow rest).mono (by simp [faultKinds])).map _
    · exact error (by simp [Cause.kind, faultKinds]) (Nat.zero_le _)
    · exact error (by simp [Cause.kind, faultKinds]) (Nat.zero_le _)
    · split
      next parsed read =>
        rw [Grammar.field_parseAll_iff] at read
        exact ofSyntax_faults (Grammar.fieldReading_inside read (by simp))
      next failure failed =>
        obtain ⟨kind, place⟩ := faultOf_kind failure (first :: rest)
        refine error kind ?_
        rw [place]
        exact Grammar.field_error_le failed

end Field

/-- The complaint names no key, is of one of the kinds, and has a place where a text has tokens. -/
structure ParseError.PointsInto (kinds : List ErrorKind) (text : Text) (error : ParseError) :
    Prop where
  kind : error.kind ∈ kinds
  field : error.field = []
  /-- The place is unknown for a text of white space and for one beyond the limit, only. -/
  unplaced : error.position = Position.unknown ↔
    text.trim = [] ∨ maxExpressionLength < text.length
  blank : error.kind = .emptyExpression ↔ text.trim = []
  long : text.trim ≠ [] → maxExpressionLength < text.length → error.kind = .malformed
  placed : text.trim ≠ [] → text.length ≤ maxExpressionLength →
    ∃ token ∈ tokenize text, error.position = token.position

theorem Expression.read_error_pointsInto {α : Type} {blank : Cause}
    {readLexemes : List Lexeme → Except Fault α} {kinds : List ErrorKind}
    (empty : blank.kind = .emptyExpression) (other : .emptyExpression ∉ kinds)
    (syntaxKind : .malformed ∈ kinds)
    (faults : ∀ lexemes, FaultsIn kinds lexemes.length (readLexemes lexemes)) {text : Text}
    {error : ParseError} (failed : Expression.read blank readLexemes text = .error error) :
    error.PointsInto (.emptyExpression :: kinds) text := by
  unfold Expression.read at failed
  split_ifs at failed with white long
  · rw [← Text.trim_eq_nil_iff] at white
    cases failed
    constructor <;> simp [ParseError.kind, empty, white]
  · rw [← Text.trim_eq_nil_iff] at white
    cases failed
    exact ⟨by simp [ParseError.kind, Cause.kind, syntaxKind], rfl, by simp [long],
      by simp [ParseError.kind, Cause.kind, white], fun _ _ => rfl,
      fun _ fits => absurd fits (Nat.not_le.mpr long)⟩
  · rw [← Text.trim_eq_nil_iff] at white
    dsimp only at failed
    split at failed
    next => cases failed
    next fault found =>
      cases failed
      obtain ⟨kind, place⟩ := faults _ fault found
      have segmented := tokenize_isSegmentation text
      have inside : fault.index < (tokenize text).length := by
        obtain ⟨inner, last, whole, _⟩ := segmented.ends
        rw [lexemesOf, whole, List.dropLast_concat, List.length_map] at place
        rw [whole, List.length_append, List.length_singleton]
        omega
      have member := List.getElem_mem inside
      have located : (fault.locate (tokenize text)).position =
          (tokenize text)[fault.index].position := by
        simp [Fault.locate, inside]
      have known : (fault.locate (tokenize text)).position ≠ Position.unknown := by
        rw [located]
        intro unknown
        have counted := (segmented.counted _ member).1
        simp [unknown, Position.unknown] at counted
      have nonempty : (fault.locate (tokenize text)).kind ≠ .emptyExpression := by
        intro same
        exact other (same ▸ kind)
      exact ⟨List.mem_cons_of_mem _ kind, rfl, by simp [known, white, long], by
        simp [nonempty, white], fun _ beyond => absurd beyond long,
        fun _ _ => ⟨_, member, located⟩⟩

def Field.errorKinds : List ErrorKind := .emptyExpression :: Field.faultKinds

def Relation.errorKinds : List ErrorKind := .emptyExpression :: Relation.faultKinds

/--
Whatever the bytes are, a refused field or relation is blamed on one of its tokens, the end
included; only a text that is not read at all, because it is blank or too long, has no place.
-/
theorem parse_error_pointsInto {text : Text} {error : ParseError} :
    (Field.parse text = .error error → error.PointsInto Field.errorKinds text) ∧
      (Relation.parse text = .error error → error.PointsInto Relation.errorKinds text) := by
  constructor
  · exact Expression.read_error_pointsInto rfl (by decide) (by decide) Field.ofLexemes_faults
  · exact Expression.read_error_pointsInto rfl (by decide) (by decide) Relation.ofLexemes_faults

def misspeltArgument : Text := utf8 "map<int,\n strang>"

theorem tokenize_misspeltArgument : tokenize misspeltArgument =
    [⟨⟨.typeName, utf8 "map"⟩, ⟨1, 1, 0⟩⟩, ⟨⟨.lAngle, utf8 "<"⟩, ⟨1, 4, 3⟩⟩,
      ⟨⟨.typeName, utf8 "int"⟩, ⟨1, 5, 4⟩⟩, ⟨⟨.comma, utf8 ","⟩, ⟨1, 8, 7⟩⟩,
      ⟨⟨.ident, utf8 "strang"⟩, ⟨2, 2, 10⟩⟩, ⟨⟨.rAngle, utf8 ">"⟩, ⟨2, 8, 16⟩⟩,
      ⟨⟨.eof, []⟩, ⟨2, 9, 17⟩⟩] := by
  decide +kernel

theorem parse_error_pointsInto_misspelt :
    (∃ error, Field.parse misspeltArgument = .error error ∧
      error.PointsInto Field.errorKinds misspeltArgument ∧ error.kind = .unknownType ∧
      error.position = ⟨2, 2, 10⟩) ∧
    ∃ error, Relation.parse misspeltArgument = .error error ∧
      error.PointsInto Relation.errorKinds misspeltArgument ∧ error.kind = .missingOperator ∧
      error.position = Position.start := by
  have visible : misspeltArgument.isBlank = false :=
    Text.isBlank_of_ascii (by decide) (by decide) _
  have field : Field.parse misspeltArgument =
      .error { cause := .unknownType (utf8 "strang"), position := ⟨2, 2, 10⟩ } := by
    rw [Field.parse, Expression.read, visible, tokenize_misspeltArgument]
    rfl
  have relation : Relation.parse misspeltArgument =
      .error { cause := .missingOperator (utf8 "map"), position := Position.start } := by
    rw [Relation.parse, Expression.read, visible, tokenize_misspeltArgument]
    rfl
  exact ⟨⟨_, field, parse_error_pointsInto.1 field, rfl, rfl⟩, _, relation,
    parse_error_pointsInto.2 relation, rfl, rfl⟩

end EntitySchema
