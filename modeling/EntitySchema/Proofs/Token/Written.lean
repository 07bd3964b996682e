import EntitySchema.Proofs.Token.Segmentation
import EntitySchema.Proofs.Token.Spelling
import EntitySchema.Relation
import Mathlib.Data.List.TakeWhile

/-!
What written tokens are read as. Each lemma takes one token, or one blank, off the front of a
text; what may follow the token is part of its hypotheses.
-/

namespace EntitySchema.Lexer

open Text

theorem lexemes_nil : lexemes [] = [] := lexemes_of_blank rfl

theorem lexemes_cons {first : Rune} {rest : List Rune} {kind : TokenKind} {size : Nat}
    (visible : isBlank first = false) (measured : measure first rest = (kind, size)) :
    lexemes (first :: rest) =
      ⟨kind, Rune.spell (first :: rest.take size)⟩ :: lexemes (rest.drop size) := by
  have shape : (first :: rest).dropWhile isBlank = first :: rest := by
    simp [visible]
  rw [lexemes_of_token shape, measured]

theorem lexemes_of_blank_cons {byte : Byte} (blank : byte ∈ blankBytes) (tail : Text) :
    lexemes (runes (byte :: tail)) = lexemes (runes tail) := by
  obtain ⟨ascii, isBlank⟩ := isBlank_of_mem_blankBytes blank
  rw [runes_cons_ascii tail ascii]
  exact lexemes_blanks_append (List.forall_mem_singleton.mpr isBlank) tail.runes

theorem lexemes_of_blanks_append {blanks : Text} (blank : ∀ byte ∈ blanks, byte ∈ blankBytes)
    (tail : Text) : lexemes (runes (blanks ++ tail)) = lexemes (runes tail) := by
  induction blanks with
  | nil => rfl
  | cons byte blanks ih =>
      rw [List.forall_mem_cons] at blank
      rw [List.cons_append, lexemes_of_blank_cons blank.1, ih blank.2]

structure Single (byte : Byte) (kind : TokenKind) : Prop where
  ascii : byte < 0x80
  visible : isBlank (Rune.ofByte byte) = false
  notQuote : (Rune.ofByte byte).char ≠ '"' ∧ (Rune.ofByte byte).char ≠ '\''
  notDigit : isDigit (Rune.ofByte byte) = false
  notMinus : (Rune.ofByte byte).char ≠ '-'
  notDollar : (Rune.ofByte byte).char ≠ '$'
  notName : startsName (Rune.ofByte byte) = false
  kind : charKind (Rune.ofByte byte).char = kind

theorem lexemes_single {byte : Byte} {kind : TokenKind} (single : Single byte kind) {tail : Text}
    (noArrow : nextIs (fun second => isArrow (Rune.ofByte byte).char second.char) (runes tail) =
      false) :
    lexemes (runes (byte :: tail)) = ⟨kind, [byte]⟩ :: lexemes (runes tail) := by
  have measured : measure (Rune.ofByte byte) (runes tail) = (kind, 0) := by
    simp [measure, single.notQuote, single.notDigit, single.notMinus, single.notDollar,
      single.notName, noArrow, single.kind]
  rw [runes_cons_ascii tail single.ascii, lexemes_cons single.visible measured]
  simp [Rune.ofByte]

def marks : List (Byte × TokenKind) :=
  [(0x21, .modifier), (0x3F, .modifier), (0x23, .modifier), (0x5B, .lBracket), (0x5D, .rBracket),
    (0x7B, .lBrace), (0x7D, .rBrace), (0x28, .lParen), (0x29, .rParen), (0x3E, .rAngle),
    (0x2C, .comma), (0x3D, .equals), (0x2E, .dot)]

theorem lexemes_mark {byte : Byte} {kind : TokenKind} (found : marks.lookup byte = some kind)
    (tail : Text) : lexemes (runes (byte :: tail)) = ⟨kind, [byte]⟩ :: lexemes (runes tail) := by
  have mark : (byte, kind) ∈ marks := by
    obtain ⟨before, behind, shape, _⟩ := List.lookup_eq_some_iff.mp found
    simp [shape]
  have single : Single byte kind := by
    have all : ∀ mark ∈ marks, Single mark.1 mark.2 := by
      intro mark member
      simp only [marks, List.mem_cons, List.not_mem_nil, or_false] at member
      rcases member with rfl | rfl | rfl | rfl | rfl | rfl | rfl | rfl | rfl | rfl | rfl | rfl |
        rfl <;> constructor <;> decide
    exact all _ mark
  have noArrow : nextIs (fun second => isArrow (Rune.ofByte byte).char second.char)
      (runes tail) = false := by
    have other : (Rune.ofByte byte).char ≠ '-' ∧ (Rune.ofByte byte).char ≠ '~' ∧
        (Rune.ofByte byte).char ≠ '<' := by
      have all : ∀ mark ∈ marks, (Rune.ofByte mark.1).char ≠ '-' ∧
          (Rune.ofByte mark.1).char ≠ '~' ∧ (Rune.ofByte mark.1).char ≠ '<' := by decide
      exact all _ mark
    cases runes tail with
    | nil => rfl
    | cons second rest => simp [nextIs, isArrow, other]
  exact lexemes_single single noArrow

theorem lexemes_lAngle {tail : Text} (named : nextIs startsName (runes tail) = true) :
    lexemes (runes (0x3C :: tail)) = ⟨.lAngle, [0x3C]⟩ :: lexemes (runes tail) := by
  have single : Single 0x3C .lAngle := by constructor <;> decide
  apply lexemes_single single
  cases shape : runes tail with
  | nil => rfl
  | cons second rest =>
      rw [shape] at named
      have notHead : second.char ≠ '-' ∧ second.char ≠ '~' := by
        constructor <;> intro same <;> simp [nextIs, startsName, same, Text.isLetter] at named
      have angle : (Rune.ofByte 0x3C).char = '<' := by decide
      simp [nextIs, isArrow, notHead, angle]

theorem lexemes_arrow {arrow : Text} (member : arrow ∈ Operator.all) (tail : Text) :
    lexemes (runes (arrow ++ tail)) = ⟨.relationOp, arrow⟩ :: lexemes (runes tail) := by
  have two {first second : Byte} (firstAscii : first < 0x80) (secondAscii : second < 0x80)
      (visible : isBlank (Rune.ofByte first) = false)
      (measured : ∀ rest, measure (Rune.ofByte first) (Rune.ofByte second :: rest) =
        (.relationOp, 1)) :
      lexemes (runes (first :: second :: tail)) =
        ⟨.relationOp, [first, second]⟩ :: lexemes (runes tail) := by
    rw [runes_cons_ascii _ firstAscii, runes_cons_ascii _ secondAscii,
      lexemes_cons visible (measured _)]
    simp [Rune.ofByte]
  simp only [Operator.all, List.mem_cons, List.not_mem_nil, or_false] at member
  rcases member with rfl | rfl | rfl | rfl
  · exact two (by decide) (by decide) (by decide) fun _ => rfl
  · exact two (by decide) (by decide) (by decide) fun _ => rfl
  · exact two (by decide) (by decide) (by decide) fun _ => rfl
  · exact two (by decide) (by decide) (by decide) fun _ => rfl

def EndsName (tail : Text) : Prop :=
  ∀ byte ∈ tail.head?, byte < 0x80 ∧ continuesName (Rune.ofByte byte) = false

theorem endsName_nil : EndsName [] := by
  simp [EndsName]

theorem endsName_cons {byte : Byte} (ends : byte < 0x80 ∧ continuesName (Rune.ofByte byte) = false)
    (tail : Text) : EndsName (byte :: tail) := by
  simpa [EndsName] using ends

theorem startsName_cases {rune : Rune} (starts : startsName rune = true) :
    isBlank rune = false ∧ rune.char ≠ '"' ∧ rune.char ≠ '\'' ∧ isDigit rune = false ∧
      rune.char ≠ '-' ∧ rune.char ≠ '$' := by
  have other {char : Char} (same : rune.char = char) :
      (char = '_' || Text.isLetter char) = true := by
    simpa [startsName, same] using starts
  refine ⟨?_, ?_, ?_, ?_, ?_, ?_⟩
  · simp only [isBlank, Bool.or_eq_false_iff, decide_eq_false_iff_not]
    refine ⟨⟨⟨?_, ?_⟩, ?_⟩, ?_⟩ <;> intro same <;> exact absurd (other same) (by decide)
  · exact fun same => absurd (other same) (by decide)
  · exact fun same => absurd (other same) (by decide)
  · rw [← Bool.not_eq_true]
    intro digit
    simp only [isDigit, Char.isDigit, Bool.and_eq_true, decide_eq_true_eq, ge_iff_le,
      UInt32.le_iff_toNat_le] at digit
    have small : rune.char.toNat < 0x80 := Nat.lt_of_le_of_lt digit.2 (by decide)
    simp only [startsName, Text.isLetter, small, if_true] at starts
    delta Char.isAlpha Char.isUpper Char.isLower at starts
    simp only [Bool.or_eq_true, Bool.and_eq_true, decide_eq_true_eq, ge_iff_le,
      UInt32.le_iff_toNat_le] at starts
    rcases starts with same | ⟨lower, _⟩ | ⟨lower, _⟩
    · rw [same] at digit
      exact absurd digit (by decide)
    · exact absurd (Nat.le_trans lower digit.2) (by decide)
    · exact absurd (Nat.le_trans lower digit.2) (by decide)
  · exact fun same => absurd (other same) (by decide)
  · exact fun same => absurd (other same) (by decide)

theorem measure_of_startsName {first : Rune} {rest : List Rune}
    (starts : startsName first = true) :
    measure first rest = (nameKind (first :: rest.takeWhile continuesName),
      (rest.takeWhile continuesName).length) := by
  obtain ⟨_, notDouble, notSingle, notDigit, notMinus, notDollar⟩ := startsName_cases starts
  simp [measure, notDouble, notSingle, notDigit, notMinus, notDollar, starts]

end EntitySchema.Lexer

namespace EntitySchema

open Lexer

theorem Rune.spell_eq_nil {runes : List Rune} (reads : ∀ rune ∈ runes, rune.IsRead)
    (empty : spell runes = []) : runes = [] := by
  cases runes with
  | nil => rfl
  | cons rune runes =>
      simp [(reads rune (by simp)).bytes_ne_nil] at empty

/-- A text that is one name of its own. -/
def IsName (text : Text) : Prop :=
  ∃ kind, (kind = .ident ∨ kind = .typeName) ∧
    Expression.lexemesOf (tokenize text) = [⟨kind, text⟩]

namespace IsName

theorem runes_shape {text : Text} (isName : IsName text) :
    ∃ first rest, text.runes = first :: rest ∧ startsName first = true ∧
      ∀ rune ∈ rest, continuesName rune = true := by
  obtain ⟨kind, isKind, single⟩ := isName
  rw [lexemesOf_tokenize] at single
  cases shape : text.runes.dropWhile isBlank with
  | nil => simp [lexemes_of_blank shape] at single
  | cons first rest =>
      rw [lexemes_of_token shape, List.cons.injEq, Lexeme.mk.injEq] at single
      obtain ⟨⟨sameKind, sameText⟩, _⟩ := single
      have whole := List.takeWhile_append_dropWhile (p := isBlank) (l := text.runes)
      rw [shape] at whole
      have reads : ∀ rune ∈ text.runes, rune.IsRead := fun rune => Text.isRead_of_mem_runes
      have size := congrArg List.length (congrArg Rune.spell whole)
      rw [Text.spell_runes, ← List.take_append_drop (measure first rest).2 rest,
        ← List.cons_append] at size
      nth_rewrite 2 [← sameText] at size
      simp only [Rune.spell_append, List.length_append] at size
      have noBlanks : text.runes.takeWhile isBlank = [] := by
        apply Rune.spell_eq_nil
        · exact fun rune member => reads rune ((List.takeWhile_prefix _).mem member)
        · exact List.eq_nil_of_length_eq_zero (by omega)
      rw [noBlanks, List.nil_append] at whole
      have noRest : rest.drop (measure first rest).2 = [] := by
        apply Rune.spell_eq_nil
        · intro rune member
          exact reads rune (by simp [← whole, List.mem_of_mem_drop member])
        · exact List.eq_nil_of_length_eq_zero (by omega)
      obtain ⟨_, same⟩ | ⟨_, same⟩ | ⟨_, same⟩ | ⟨starts, same⟩ | ⟨_, same⟩ | ⟨_, _, same⟩ :=
        measure_cases first rest
      · simp [same, ← sameKind] at isKind
      · simp [same, ← sameKind] at isKind
      · simp [same, ← sameKind] at isKind
      · refine ⟨first, rest, whole.symm, starts, ?_⟩
        rw [same, List.drop_eq_nil_iff] at noRest
        exact List.takeWhile_eq_self_iff.mp
          ((List.takeWhile_prefix continuesName).eq_of_length_le noRest)
      · simp [same, ← sameKind] at isKind
      · rw [← sameKind, same] at isKind
        rcases isKind with isKind | isKind
        · exact absurd isKind (charKind_ne_name _).1
        · exact absurd isKind (charKind_ne_name _).2

def lexeme (text : Text) : Lexeme := ⟨nameKind text.runes, text⟩

theorem isName_lexeme (text : Text) : (lexeme text).isName = true := by
  rcases nameKind_cases text.runes with kind | kind <;> simp [lexeme, Lexeme.isName, kind]

theorem runes_append {text tail : Text} (ends : EndsName tail) :
    Text.runes (text ++ tail) = text.runes ++ tail.runes := by
  apply Text.runes_append
  intro byte member
  have ascii := (ends byte member).1
  simp [Rune.isContinuation, UInt8.not_le.mpr ascii]

theorem nextIs_startsName {text tail : Text} (isName : IsName text) (ends : EndsName tail) :
    nextIs startsName (Text.runes (text ++ tail)) = true := by
  obtain ⟨first, rest, shape, starts, _⟩ := isName.runes_shape
  rw [runes_append ends, shape]
  exact starts

theorem lexemes_append {text tail : Text} (isName : IsName text) (ends : EndsName tail) :
    lexemes (Text.runes (text ++ tail)) = lexeme text :: lexemes tail.runes := by
  obtain ⟨first, rest, shape, starts, continued⟩ := isName.runes_shape
  have stops : tail.runes.takeWhile continuesName = [] := by
    cases tail with
    | nil => simp
    | cons byte tail =>
        obtain ⟨ascii, stops⟩ := ends byte (by simp)
        simp [Text.runes_cons_ascii tail ascii, stops]
  have taken : (rest ++ tail.runes).takeWhile continuesName = rest := by
    rw [List.takeWhile_append_of_pos continued, stops, List.append_nil]
  have measured : Lexer.measure first (rest ++ tail.runes) =
      (nameKind text.runes, rest.length) := by
    rw [measure_of_startsName starts, taken, shape]
  rw [runes_append ends, shape, List.cons_append,
    lexemes_cons (startsName_cases starts).1 measured, List.take_left, List.drop_left, ← shape,
    Text.spell_runes]
  rfl

def isPlain : Text → Bool
  | [] => false
  | first :: rest => (first :: rest).all (fun byte => decide (byte < 0x80)) &&
      startsName (Rune.ofByte first) && rest.all fun byte => continuesName (Rune.ofByte byte)

theorem of_runes {text : Text} {first : Rune} {rest : List Rune}
    (shape : text.runes = first :: rest) (starts : startsName first = true)
    (continued : ∀ rune ∈ rest, continuesName rune = true) : IsName text := by
  have measured : Lexer.measure first rest = (nameKind text.runes, rest.length) := by
    rw [measure_of_startsName starts, List.takeWhile_eq_self_iff.mpr continued, shape]
  refine ⟨nameKind text.runes, (nameKind_cases _).symm, ?_⟩
  rw [lexemesOf_tokenize, shape, lexemes_cons (startsName_cases starts).1 measured,
    List.take_length, List.drop_length, lexemes_nil, ← shape, Text.spell_runes]

theorem of_isPlain {text : Text} (plain : isPlain text = true) : IsName text := by
  cases text with
  | nil => simp [isPlain] at plain
  | cons first rest =>
      simp only [isPlain, Bool.and_eq_true, List.all_eq_true, decide_eq_true_eq] at plain
      obtain ⟨⟨ascii, starts⟩, continued⟩ := plain
      have shape : Text.runes (first :: rest) = Rune.ofByte first :: rest.map Rune.ofByte := by
        have runes := Text.runes_ascii_append ascii []
        simpa using runes
      refine of_runes shape starts ?_
      intro rune member
      obtain ⟨byte, inside, rfl⟩ := List.mem_map.mp member
      exact continued byte inside

theorem of_mem_lexemes {text : Text} {lexeme : Lexeme} (member : lexeme ∈ lexemes text.runes)
    (named : lexeme.isName = true) : IsName lexeme.text := by
  obtain ⟨front, first, rest, whole, _, rfl⟩ := exists_measure_of_mem member
  simp only [Lexeme.isName, Bool.or_eq_true, decide_eq_true_eq] at named
  obtain ⟨_, same⟩ | ⟨_, same⟩ | ⟨_, same⟩ | ⟨starts, same⟩ | ⟨_, same⟩ | ⟨_, _, same⟩ :=
    measure_cases first rest
  · simp [same] at named
  · simp [same] at named
  · simp [same] at named
  · have taken : rest.take (Lexer.measure first rest).2 = rest.takeWhile continuesName := by
      rw [same]
      exact (List.prefix_iff_eq_take.mp (List.takeWhile_prefix _)).symm
    have split : text.runes = front ++ (first :: rest.takeWhile continuesName ++
        rest.dropWhile continuesName) := by
      rw [whole, List.cons_append, List.takeWhile_append_dropWhile]
    have shape := (Text.runes_spell_of_append (Text.runes_spell_of_append split).2).1
    simp only [taken]
    exact of_runes shape starts fun rune inside => List.mem_takeWhile_imp inside
  · simp [same] at named
  · rw [same] at named
    rcases named with kind | kind
    · exact absurd kind (charKind_ne_name _).1
    · exact absurd kind (charKind_ne_name _).2

theorem ne_nil {text : Text} (isName : IsName text) : text ≠ [] := by
  rintro rfl
  obtain ⟨first, rest, shape, _⟩ := isName.runes_shape
  simp at shape

end IsName

end EntitySchema
