import EntitySchema.Proofs.Field.DefaultBlame
import EntitySchema.Proofs.Field.TypeMeaning

/-!
Complete types, valid or not: a name, alone or with arguments between parentheses or angle
brackets. They are what the grammar reads as one type.
-/

namespace EntitySchema

open Expression Expression.Grammar Expression.Reading

inductive Continued : List (List Lexeme) → List Lexeme → Prop
  | nil : Continued [] []
  | cons {comma : Lexeme} {item rest : List Lexeme} {items : List (List Lexeme)} :
      comma.kind = .comma → Continued items rest →
      Continued (item :: items) (comma :: item ++ rest)

inductive Separated : List (List Lexeme) → List Lexeme → Prop
  | none : Separated [] []
  | some {first rest : List Lexeme} {others : List (List Lexeme)} : Continued others rest →
      Separated (first :: others) (first ++ rest)

/-- A complete type, which need not be one that exists: a name and perhaps arguments. -/
inductive TypeWritten : List Lexeme → Prop
  | bare {name : Lexeme} : name.isName = true → TypeWritten [name]
  | paren {name opening closing : Lexeme} {parameters : List (List Lexeme)}
      {inner : List Lexeme} : name.isName = true → opening.kind = .lParen →
      (∀ parameter ∈ parameters, ∃ lexeme, parameter = [lexeme] ∧ isParameter lexeme = true) →
      Separated parameters inner → closing.kind = .rParen →
      TypeWritten (name :: opening :: (inner ++ [closing]))
  | angle {name opening closing : Lexeme} {arguments : List (List Lexeme)} {inner : List Lexeme} :
      name.isName = true → opening.kind = .lAngle →
      (∀ argument ∈ arguments, TypeWritten argument) → Separated arguments inner →
      closing.kind = .rAngle → TypeWritten (name :: opening :: (inner ++ [closing]))

section TypeWritten

variable {α : Type} {item : Reading α} {items : List (List Lexeme)} {used : List Lexeme}

theorem Continued.exists_repeated (continued : Continued items used)
    (each : ∀ piece ∈ items, ∀ index, ∃ value, item index piece value) (index : Nat) :
    ∃ values, repeated (mapped Prod.snd (pair (kindReading .comma) item)) index used values := by
  induction continued generalizing index with
  | nil => exact ⟨[], .nil⟩
  | @cons comma piece rest items kind _ ih =>
      rw [List.forall_mem_cons] at each
      obtain ⟨value, read⟩ := each.1 (index + 1)
      obtain ⟨values, others⟩ := ih each.2 (index + (comma :: piece).length)
      have first : mapped Prod.snd (pair (kindReading .comma) item) index (comma :: piece) value :=
        ⟨(comma, value), ⟨[comma], piece, rfl, ⟨rfl, by simpa using kind⟩, read⟩, rfl⟩
      exact ⟨value :: values, .cons first others⟩

theorem Separated.exists_reading (separated : Separated items used)
    (each : ∀ piece ∈ items, ∀ index, ∃ value, item index piece value) (index : Nat) :
    ∃ values, separatedReading item index used values := by
  cases separated with
  | none => exact ⟨[], Option.none, rfl, rfl⟩
  | @some first rest others continued =>
      rw [List.forall_mem_cons] at each
      obtain ⟨value, read⟩ := each.1 index
      obtain ⟨values, others⟩ := continued.exists_repeated each.2 (index + first.length)
      exact ⟨value :: values, separatedReading_cons_iff.mpr ⟨first, rest, rfl, read, others⟩⟩

theorem Continued.length_le (continued : Continued items used) :
    ∀ piece ∈ items, piece.length ≤ used.length := by
  induction continued with
  | nil => simp
  | cons kind _ ih =>
      rw [List.forall_mem_cons]
      refine ⟨by simp only [List.length_append, List.length_cons]; omega, fun piece member => ?_⟩
      have shorter := ih piece member
      simp only [List.length_append]
      omega

theorem Separated.length_le (separated : Separated items used) :
    ∀ piece ∈ items, piece.length ≤ used.length := by
  cases separated with
  | none => simp
  | some continued =>
      rw [List.forall_mem_cons]
      refine ⟨by simp, fun piece member => ?_⟩
      have shorter := continued.length_le piece member
      rw [List.length_append]
      omega

theorem TypeWritten.exists_reading (written : TypeWritten used) {depth : Nat}
    (deep : used.length ≤ depth) (index : Nat) : ∃ parsed, typeReading depth index used parsed := by
  induction written generalizing depth index with
  | @bare name isName =>
      obtain ⟨depth, rfl⟩ : ∃ smaller, depth = smaller + 1 :=
        ⟨depth - 1, by rw [List.length_singleton] at deep; omega⟩
      exact ⟨.bare index name.text,
        typeReading_succ_iff.mpr ⟨name, [], rfl, isName, Or.inl ⟨rfl, rfl⟩⟩⟩
  | @paren name opening closing parameters inner isName opens each separated closes =>
      simp only [List.length_cons, List.length_append] at deep
      obtain ⟨depth, rfl⟩ : ∃ smaller, depth = smaller + 1 := ⟨depth - 1, by omega⟩
      have pieces : ∀ parameter ∈ parameters, ∀ index,
          ∃ value, parameterReading index parameter value := by
        intro parameter member index
        obtain ⟨lexeme, rfl, passed⟩ := each parameter member
        exact ⟨⟨index, lexeme.text⟩, parameterReading_iff.mpr ⟨lexeme, rfl, passed, rfl⟩⟩
      obtain ⟨values, read⟩ := separated.exists_reading pieces (index + 1 + 1)
      exact ⟨.paren index name.text values, typeReading_succ_iff.mpr
        ⟨name, _, rfl, isName, Or.inr (Or.inl ⟨values,
          bracketedReading_iff.mpr ⟨opening, inner, closing, rfl, opens, closes, read⟩, rfl⟩)⟩⟩
  | @angle name opening closing arguments inner isName opens _ separated closes ih =>
      simp only [List.length_cons, List.length_append] at deep
      obtain ⟨depth, rfl⟩ : ∃ smaller, depth = smaller + 1 := ⟨depth - 1, by omega⟩
      have pieces : ∀ argument ∈ arguments, ∀ index,
          ∃ value, typeReading depth index argument value := by
        intro argument member index
        have shorter := separated.length_le argument member
        exact ih argument member (by omega) index
      obtain ⟨values, read⟩ := separated.exists_reading pieces (index + 1 + 1)
      exact ⟨.angle index name.text values, typeReading_succ_iff.mpr
        ⟨name, _, rfl, isName, Or.inr (Or.inr ⟨values,
          bracketedReading_iff.mpr ⟨opening, inner, closing, rfl, opens, closes, read⟩, rfl⟩)⟩⟩

theorem Continued.of_repeated {property : List Lexeme → Prop} {index : Nat} {values : List α}
    (read : repeated (mapped Prod.snd (pair (kindReading .comma) item)) index used values)
    (each : ∀ {index piece value}, item index piece value → property piece) :
    ∃ items, Continued items used ∧ ∀ piece ∈ items, property piece := by
  induction read with
  | nil => exact ⟨[], .nil, by simp⟩
  | cons first _ ih =>
      obtain ⟨items, continued, others⟩ := ih
      obtain ⟨⟨comma, _⟩, ⟨_, piece, rfl, ⟨rfl, kind⟩, read⟩, rfl⟩ := first
      exact ⟨piece :: items, .cons (by simpa using kind) continued,
        List.forall_mem_cons.mpr ⟨each read, others⟩⟩

theorem Separated.of_reading {property : List Lexeme → Prop} {index : Nat} {values : List α}
    (read : separatedReading item index used values)
    (each : ∀ {index piece value}, item index piece value → property piece) :
    ∃ items, Separated items used ∧ ∀ piece ∈ items, property piece := by
  cases values with
  | nil =>
      obtain ⟨found, read, same⟩ := read
      cases found with
      | none =>
          obtain rfl : used = [] := read
          exact ⟨[], .none, by simp⟩
      | some found => cases same
  | cons value values =>
      obtain ⟨first, rest, rfl, firstRead, others⟩ := separatedReading_cons_iff.mp read
      obtain ⟨items, continued, othersWritten⟩ := Continued.of_repeated others each
      exact ⟨first :: items, .some continued,
        List.forall_mem_cons.mpr ⟨each firstRead, othersWritten⟩⟩

theorem TypeWritten.of_reading {depth index : Nat} {parsed : TypeSyntax}
    (read : typeReading depth index used parsed) : TypeWritten used := by
  induction depth generalizing index used parsed with
  | zero => exact read.elim
  | succ depth ih =>
      obtain ⟨name, rest, rfl, isName, ⟨rfl, _⟩ | ⟨_, bracketed, _⟩ | ⟨_, bracketed, _⟩⟩ :=
        typeReading_succ_iff.mp read
      · exact .bare isName
      · obtain ⟨opening, inner, closing, rfl, opens, closes, read⟩ :=
          bracketedReading_iff.mp bracketed
        have single {index : Nat} {piece : List Lexeme} {value : Parameter}
            (found : parameterReading index piece value) :
            ∃ lexeme, piece = [lexeme] ∧ isParameter lexeme = true := by
          obtain ⟨lexeme, same, passed, _⟩ := parameterReading_iff.mp found
          exact ⟨lexeme, same, passed⟩
        obtain ⟨parameters, separated, each⟩ := Separated.of_reading read single
        exact .paren isName opens each separated closes
      · obtain ⟨opening, inner, closing, rfl, opens, closes, read⟩ :=
          bracketedReading_iff.mp bracketed
        obtain ⟨arguments, separated, written⟩ := Separated.of_reading read ih
        exact .angle isName opens written separated closes

/-- The lexemes that the grammar reads as one type are those of a complete type. -/
theorem typeWritten_iff (lexemes : List Lexeme) :
    TypeWritten lexemes ↔ ∃ parsed, Grammar.type.parseAll lexemes = .ok parsed := by
  have alone : (typeUpTo (lexemes.length + 1)).Complete (typeReading (lexemes.length + 1))
      fun rest => rest = [] :=
    (typeUpTo_complete _).mono fun {rest} (empty : rest = []) => by simp [empty]
  have same : Grammar.type.parseAll lexemes =
      (typeUpTo (lexemes.length + 1)).parseAll lexemes := by
    rw [Parser.parseAll, Parser.parseAll, Grammar.type, Cursor.start]
  simp only [same, Parser.parseAll_eq_ok_iff (typeUpTo_sound _) alone]
  constructor
  · intro written
    exact written.exists_reading (Nat.le_succ _) 0
  · rintro ⟨parsed, read⟩
    exact .of_reading read

theorem TypeWritten.head (written : TypeWritten used) :
    ∃ name rest, used = name :: rest ∧ name.isName = true := by
  cases written with
  | bare isName => exact ⟨_, [], rfl, isName⟩
  | paren isName => exact ⟨_, _, rfl, isName⟩
  | angle isName => exact ⟨_, _, rfl, isName⟩

theorem TypeWritten.last_ne_string (written : TypeWritten used) :
    ∀ last ∈ used.getLast?, last.kind ≠ .string := by
  have closed (front : List Lexeme) {closing : Lexeme} (other : closing.kind ≠ .string) :
      ∀ last ∈ (front ++ [closing]).getLast?, last.kind ≠ .string := by
    simpa using other
  cases written with
  | @bare name isName =>
      refine closed [] fun string => ?_
      simp [Lexeme.isName, string] at isName
  | @paren name opening closing _ inner _ _ _ _ closes =>
      exact closed (name :: opening :: inner) (by simp [closes])
  | @angle name opening closing _ inner _ _ _ _ closes =>
      exact closed (name :: opening :: inner) (by simp [closes])

end TypeWritten

end EntitySchema
