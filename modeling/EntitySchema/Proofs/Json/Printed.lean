import EntitySchema.Proofs.Json.Quoted

/-!
Printed JSON. A document that is written in lines is read back, member by member, and without the
blanks outside its strings it is what is written on one line, whatever the indentation.
-/

namespace EntitySchema

namespace Json

open Text

/-- Documents that have a written form, nested in each other up to a depth. -/
inductive Printable : Nat → Json → Prop
  | null {depth : Nat} : Printable depth .null
  | boolean {depth : Nat} (value : Bool) : Printable depth (.boolean value)
  | number {depth : Nat} {text : Text} : IsNumber text → Printable depth (.number text)
  | string {depth : Nat} {text : Text} : text.IsUtf8 → Printable depth (.string text)
  | array {depth : Nat} {items : List Json} : (∀ item ∈ items, Printable depth item) →
      Printable (depth + 1) (.array items)
  | object {depth : Nat} {members : List (Text × Json)} :
      (∀ member ∈ members, member.1.IsUtf8) → (∀ member ∈ members, Printable depth member.2) →
      Printable (depth + 1) (.object members)

theorem renderItems_eq (items : List Json) : renderItems items = items.map render := by
  induction items with
  | nil => rfl
  | cons item items ih => rw [renderItems, ih, List.map_cons]

theorem renderMembers_eq (members : List (Text × Json)) :
    renderMembers members =
      members.map fun member => quote member.1 ++ utf8 ":" ++ member.2.render := by
  induction members with
  | nil => rfl
  | cons member members ih => rw [renderMembers, ih, List.map_cons]

theorem renderIndentedItems_eq (indent level : Nat) (items : List Json) :
    renderIndentedItems indent level items = items.map (renderIndented indent level) := by
  induction items with
  | nil => rfl
  | cons item items ih => rw [renderIndentedItems, ih, List.map_cons]

theorem renderIndentedMembers_eq (indent level : Nat) (members : List (Text × Json)) :
    renderIndentedMembers indent level members = members.map fun member =>
      quote member.1 ++ utf8 ": " ++ member.2.renderIndented indent level := by
  induction members with
  | nil => rfl
  | cons member members ih => rw [renderIndentedMembers, ih, List.map_cons]

def IsGap (text : Text) : Prop := ∀ byte ∈ text, isBlank byte = true

theorem isGap_newLine (indent level : Nat) : IsGap (newLine indent level) := by
  intro byte member
  rcases List.mem_cons.mp member with rfl | inside
  · rfl
  · rw [List.eq_of_mem_replicate inside]
    rfl

theorem skipBlanks_gap {gap : Text} (isGap : IsGap gap) (rest : Text) :
    skipBlanks (gap ++ rest) = skipBlanks rest := List.dropWhile_append_of_pos isGap

theorem skipBlanks_visible {byte : Byte} (visible : isBlank byte = false) (rest : Text) :
    skipBlanks (byte :: rest) = byte :: rest := by
  simp [skipBlanks, visible]

theorem readValue?_gap {gap : Text} (isGap : IsGap gap) (fuel depth : Nat) (rest : Text) :
    readValue? fuel depth (gap ++ rest) = readValue? fuel depth rest := by
  cases fuel with
  | zero => simp [readValue?]
  | succ fuel => rw [readValue?, readValue?, skipBlanks_gap isGap]

theorem squeezeFrom_gap {gap : Text} (isGap : IsGap gap) (rest : Text) :
    squeezeFrom .outside (gap ++ rest) = squeezeFrom .outside rest := by
  induction gap with
  | nil => rfl
  | cons byte gap ih =>
      rw [IsGap, List.forall_mem_cons] at isGap
      rw [List.cons_append, squeezeFrom, if_pos isGap.1, ih isGap.2]

def IsMark (byte : Byte) : Prop := isBlank byte = false ∧ byte ≠ 0x22

instance : DecidablePred IsMark := fun _ => inferInstanceAs (Decidable (_ ∧ _))

theorem squeezeFrom_marks {piece : Text} (marks : ∀ byte ∈ piece, IsMark byte) (rest : Text) :
    squeezeFrom .outside (piece ++ rest) = piece ++ squeezeFrom .outside rest := by
  induction piece with
  | nil => rfl
  | cons byte piece ih =>
      rw [List.forall_mem_cons] at marks
      obtain ⟨⟨visible, notQuote⟩, others⟩ := marks
      simp [squeezeFrom, visible, notQuote, ih others]

def EndsNumber (rest : Text) : Prop := ∀ byte ∈ rest.head?, ¬IsNumberSign byte

theorem IsNumberSign.ne {byte : Byte} (sign : IsNumberSign byte) (other : Byte)
    (noSign : ¬IsNumberSign other) : byte ≠ other := by
  rintro rfl
  exact noSign sign

theorem IsNumberSign.isMark {byte : Byte} (sign : IsNumberSign byte) : IsMark byte := by
  refine ⟨?_, sign.ne 0x22 (by decide)⟩
  simp [isBlank, sign.ne 0x20 (by decide), sign.ne 0x09 (by decide), sign.ne 0x0A (by decide),
    sign.ne 0x0D (by decide)]

section Number

variable {rest : Text}

theorem EndsNumber.no_digit (ends : EndsNumber rest) :
    ∀ byte ∈ rest.head?, isAsciiDigit byte = false := by
  intro byte first
  rw [← Bool.not_eq_true]
  exact fun digit => ends byte first (Or.inl digit)

theorem readDigits?_append {digits : Text} (isDigits : digits.IsDigits)
    (stops : ∀ byte ∈ rest.head?, isAsciiDigit byte = false) :
    readDigits? (digits ++ rest) = some (digits, rest) := by
  obtain ⟨taken, dropped⟩ := Decimal.takeWhile_digits isDigits stops
  simp [readDigits?, taken, dropped, isDigits.1]

theorem readWhole?_append {whole : Text} (isWhole : IsWhole whole)
    (stops : ∀ byte ∈ rest.head?, isAsciiDigit byte = false) :
    readWhole? (whole ++ rest) = some (whole, rest) := by
  cases isWhole with
  | zero => rfl
  | digits isDigits noZero =>
      obtain ⟨first, others, rfl⟩ := List.exists_cons_of_ne_nil isDigits.1
      have noZero : first ≠ 0x30 := by simpa using noZero
      rw [List.cons_append, readWhole?, ← List.cons_append]
      · exact readDigits?_append isDigits stops
      · rintro rest ⟨⟩
        exact noZero rfl

theorem readExponent?_append {exponent : Text} (isExponent : IsExponent exponent)
    (ends : EndsNumber rest) :
    readExponent? (exponent ++ rest) = some (exponent, rest) := by
  cases isExponent with
  | none =>
      cases rest with
      | nil => rfl
      | cons byte rest =>
          have notSign := ends byte rfl
          have notMark : byte ≠ 0x65 ∧ byte ≠ 0x45 := by
            constructor <;> rintro rfl <;> exact notSign (Or.inr (by decide))
          simp [readExponent?, notMark]
  | digits isMark isSign isDigits =>
      rename_i mark sign digits
      have isMark : mark = 0x65 ∨ mark = 0x45 := by simpa using isMark
      have read := readDigits?_append isDigits ends.no_digit
      obtain ⟨noMinus, noPlus⟩ := isDigits.no_sign
      obtain ⟨first, others, rfl⟩ := List.exists_cons_of_ne_nil isDigits.1
      simp only [List.head?_cons, ne_eq, Option.some.injEq] at noMinus noPlus
      simp only [List.mem_cons, List.not_mem_nil, or_false] at isSign
      rcases isSign with rfl | rfl | rfl
      · simp only [List.cons_append] at read
        simp [readExponent?, isMark, noMinus, noPlus, read]
      · simp only [List.cons_append] at read
        simp [readExponent?, isMark, read]
      · simp only [List.cons_append] at read
        simp [readExponent?, isMark, read]

theorem readFraction?_append {fraction : Text} (isFraction : IsFraction fraction)
    (stops : ∀ byte ∈ rest.head?, isAsciiDigit byte = false ∧ byte ≠ 0x2E) :
    readFraction? (fraction ++ rest) = some (fraction, rest) := by
  cases isFraction with
  | none =>
      rw [List.nil_append, readFraction?]
      rintro others rfl
      exact (stops _ rfl).2 rfl
  | digits isDigits =>
      have read := readDigits?_append isDigits fun byte first => (stops byte first).1
      simp [readFraction?, read]

theorem stops_exponent {exponent : Text} (isExponent : IsExponent exponent)
    (ends : EndsNumber rest) :
    ∀ byte ∈ (exponent ++ rest).head?, isAsciiDigit byte = false ∧ byte ≠ 0x2E := by
  cases isExponent with
  | none =>
      intro byte first
      refine ⟨ends.no_digit byte first, ?_⟩
      rintro rfl
      exact ends _ first (Or.inr (by decide))
  | digits isMark =>
      have marks : ∀ mark ∈ ([0x65, 0x45] : Text), isAsciiDigit mark = false ∧ mark ≠ 0x2E :=
        forall_mem_of_all (by decide)
      rintro byte ⟨⟩
      exact marks _ isMark

theorem stops_fraction {fraction exponent : Text} (isFraction : IsFraction fraction)
    (isExponent : IsExponent exponent) (ends : EndsNumber rest) :
    ∀ byte ∈ (fraction ++ (exponent ++ rest)).head?, isAsciiDigit byte = false := by
  cases isFraction with
  | none => exact fun byte first => (stops_exponent isExponent ends byte first).1
  | digits isDigits =>
      rintro byte ⟨⟩
      rfl

theorem readNumber?_append {text : Text} (isNumber : IsNumber text) (ends : EndsNumber rest) :
    readNumber? (text ++ rest) = some (text, rest) := by
  obtain @⟨sign, whole, fraction, exponent, isSign, isWhole, isFraction, isExponent⟩ := isNumber
  have wholeRead := readWhole?_append isWhole (stops_fraction isFraction isExponent ends)
  have fractionRead := readFraction?_append isFraction (stops_exponent isExponent ends)
  have exponentRead := readExponent?_append isExponent ends
  simp only [List.append_assoc]
  rcases sign_cases isSign with rfl | rfl
  · obtain ⟨noMinus, _⟩ := isWhole.isDigits.no_sign
    obtain ⟨first, others, rfl⟩ := List.exists_cons_of_ne_nil isWhole.isDigits.1
    simp only [List.head?_cons, ne_eq, Option.some.injEq] at noMinus
    simp only [List.cons_append] at wholeRead
    simp [readNumber?, noMinus, wholeRead, fractionRead, exponentRead]
  · simp [readNumber?, wholeRead, fractionRead, exponentRead]

theorem dropPrefix?_number {text : Text} (isNumber : IsNumber text) (letter : Byte)
    (isLetter : ¬IsNumberSign letter) (word : Text) :
    dropPrefix? (letter :: word) (text ++ rest) = none := by
  have signs := isNumber.isNumberSign
  obtain ⟨sign, digit, others, rfl, isSign, _⟩ := isNumber.exists_digit
  rcases sign_cases isSign with rfl | rfl
  · have different : letter ≠ digit := by
      rintro rfl
      exact isLetter (signs _ (by simp))
    simp [dropPrefix?, different]
  · have different : letter ≠ 0x2D := by
      rintro rfl
      exact isLetter (signs _ (by simp))
    simp [dropPrefix?, different]

theorem readValue?_number {text : Text} (isNumber : IsNumber text) (ends : EndsNumber rest)
    (fuel depth : Nat) :
    readValue? (fuel + 1) depth (text ++ rest) = some (.number text, rest) := by
  have signs := isNumber.isNumberSign
  have noWord : dropPrefix? (utf8 "null") (text ++ rest) = none ∧
      dropPrefix? (utf8 "true") (text ++ rest) = none ∧
      dropPrefix? (utf8 "false") (text ++ rest) = none :=
    ⟨dropPrefix?_number isNumber 0x6E (by decide) _,
      dropPrefix?_number isNumber 0x74 (by decide) _,
      dropPrefix?_number isNumber 0x66 (by decide) _⟩
  have read := readNumber?_append isNumber ends
  obtain ⟨first, others, rfl⟩ : ∃ first others, text = first :: others := by
    obtain ⟨sign, digit, others, rfl, isSign, _⟩ := isNumber.exists_digit
    rcases sign_cases isSign with rfl | rfl
    · exact ⟨_, _, rfl⟩
    · exact ⟨_, _, rfl⟩
  have sign := signs first (by simp)
  obtain ⟨visible, notQuote⟩ := sign.isMark
  have notBracket := sign.ne 0x5B (by decide)
  have notBrace := sign.ne 0x7B (by decide)
  obtain ⟨noNull, noTrue, noFalse⟩ := noWord
  simp only [List.cons_append] at noNull noTrue noFalse read ⊢
  rw [readValue?, skipBlanks_visible visible]
  split
  next empty => simp at empty
  next same => exact absurd (List.cons.inj same).1 notQuote
  next same => exact absurd (List.cons.inj same).1 notBracket
  next same => exact absurd (List.cons.inj same).1 notBrace
  next => simp [noNull, noTrue, noFalse, read]

end Number

def Starts (text : Text) : Prop :=
  ∃ first others, text = first :: others ∧ isBlank first = false ∧ first ≠ 0x5D ∧ first ≠ 0x7D

theorem Starts.append {text : Text} (starts : Starts text) (rest : Text) :
    Starts (text ++ rest) := by
  obtain ⟨first, others, rfl, plain⟩ := starts
  exact ⟨first, others ++ rest, rfl, plain⟩

theorem Starts.join {entry : Text} (starts : Starts entry) (separator : Text)
    (entries : List Text) : Starts (Text.join separator (entry :: entries)) := by
  cases entries with
  | nil => exact starts
  | cons next entries => exact (starts.append separator).append _

/-- The piece is read as a value, and squeezed it is the value on one line. -/
structure Prints (piece : Text) (depth : Nat) (value : Json) : Prop where
  starts : Starts piece
  read : ∀ fuel rest, 2 * piece.length ≤ fuel → EndsNumber rest →
    readValue? fuel depth (piece ++ rest) = some (value, rest)
  squeezed : ∀ rest, squeezeFrom .outside (piece ++ rest) =
    value.render ++ squeezeFrom .outside rest

theorem prints_word {word : Text} {value : Json} (depth : Nat)
    (starts : Starts word)
    (marks : ∀ byte ∈ word, IsMark byte) (rendered : value.render = word)
    (read : ∀ fuel rest, readValue? (fuel + 1) depth (word ++ rest) = some (value, rest)) :
    Prints word depth value where
  starts := starts
  read := by
    intro fuel rest enough _
    obtain ⟨first, others, rfl, _⟩ := starts
    rw [List.length_cons] at enough
    obtain ⟨fuel, rfl⟩ := Nat.exists_eq_add_one_of_ne_zero (by omega : fuel ≠ 0)
    exact read fuel rest
  squeezed := fun rest => by rw [rendered, squeezeFrom_marks marks]

theorem prints_null (depth : Nat) : Prints (utf8 "null") depth .null :=
  prints_word depth ⟨_, _, rfl, by decide⟩ (forall_mem_of_all (by decide)) rfl
    fun fuel rest => rfl

theorem prints_boolean (depth : Nat) (value : Bool) :
    Prints (ofBool value) depth (.boolean value) := by
  cases value with
  | true =>
      exact prints_word depth ⟨_, _, rfl, by decide⟩ (forall_mem_of_all (by decide)) rfl
        fun fuel rest => rfl
  | false =>
      exact prints_word depth ⟨_, _, rfl, by decide⟩ (forall_mem_of_all (by decide)) rfl
        fun fuel rest => rfl

theorem prints_number {text : Text} (isNumber : IsNumber text) (depth : Nat) :
    Prints text depth (.number text) where
  starts := by
    have signs := isNumber.isNumberSign
    obtain ⟨sign, digit, others, rfl, isSign, _⟩ := isNumber.exists_digit
    rcases sign_cases isSign with rfl | rfl
    · have sign := signs digit (by simp)
      exact ⟨_, _, rfl, sign.isMark.1, sign.ne 0x5D (by decide), sign.ne 0x7D (by decide)⟩
    · exact ⟨_, _, rfl, by decide⟩
  read := by
    intro fuel rest enough ends
    obtain ⟨sign, digit, others, shape, _⟩ := isNumber.exists_digit
    have size := congrArg List.length shape
    simp only [List.length_append, List.length_cons] at size
    obtain ⟨fuel, rfl⟩ := Nat.exists_eq_add_one_of_ne_zero (by omega : fuel ≠ 0)
    exact readValue?_number isNumber ends fuel depth
  squeezed := squeezeFrom_marks fun byte member => (isNumber.isNumberSign byte member).isMark

theorem prints_string {text : Text} (isUtf8 : text.IsUtf8) (depth : Nat) :
    Prints (quote text) depth (.string text) where
  starts := ⟨_, _, quote_eq text, by decide⟩
  read := by
    intro fuel rest enough _
    rw [quote_eq, List.length_cons] at enough
    obtain ⟨fuel, rfl⟩ := Nat.exists_eq_add_one_of_ne_zero (by omega : fuel ≠ 0)
    have read := readString?_quote isUtf8 rest
    rw [quote_eq, List.cons_append, List.append_assoc, List.singleton_append, readValue?,
      skipBlanks_visible rfl]
    simp only [read, Option.map_some]
  squeezed := squeezeFrom_quote isUtf8

section Block

variable {α : Type} {items : List α} {piece : α → Text} {gap : Text}

theorem squeezeFrom_join {compact : α → Text} (isGap : IsGap gap)
    (squeezed : ∀ item ∈ items, ∀ rest, squeezeFrom .outside (piece item ++ rest) =
      compact item ++ squeezeFrom .outside rest) (rest : Text) :
    squeezeFrom .outside (join (utf8 "," ++ gap) (items.map piece) ++ rest) =
      join (utf8 ",") (items.map compact) ++ squeezeFrom .outside rest := by
  have comma : ∀ byte ∈ utf8 ",", IsMark byte := forall_mem_of_all (by decide)
  induction items with
  | nil => rfl
  | cons item items ih =>
      rw [List.forall_mem_cons] at squeezed
      cases items with
      | nil => exact squeezed.1 rest
      | cons next items =>
          have others := ih squeezed.2
          simp only [List.map_cons, join, List.append_assoc] at others ⊢
          rw [squeezed.1, squeezeFrom_marks comma, squeezeFrom_gap isGap, others]

theorem squeezeFrom_block {compact : α → Text} (indent level : Nat) {opening closing : Text}
    (opens : ∀ byte ∈ opening, IsMark byte) (closes : ∀ byte ∈ closing, IsMark byte)
    (squeezed : ∀ item ∈ items, ∀ rest, squeezeFrom .outside (piece item ++ rest) =
      compact item ++ squeezeFrom .outside rest) (rest : Text) :
    squeezeFrom .outside (block indent level opening closing (items.map piece) ++ rest) =
      opening ++ join (utf8 ",") (items.map compact) ++ closing ++ squeezeFrom .outside rest := by
  cases items with
  | nil => simp [block, join, squeezeFrom_marks opens, squeezeFrom_marks closes]
  | cons item items =>
      rw [block, if_neg (by simp)]
      simp only [List.append_assoc]
      rw [squeezeFrom_marks opens, squeezeFrom_gap (isGap_newLine _ _),
        squeezeFrom_join (isGap_newLine _ _) squeezed, squeezeFrom_gap (isGap_newLine _ _),
        squeezeFrom_marks closes]

theorem block_append (indent level : Nat) (opening closing : Byte) {entries : List Text}
    (nonempty : entries ≠ []) (rest : Text) :
    block indent level [opening] [closing] entries ++ rest =
      opening :: (newLine indent (level + 1) ++
        (join (utf8 "," ++ newLine indent (level + 1)) entries ++
          (newLine indent level ++ closing :: rest))) := by
  rw [block, if_neg (by simpa using nonempty)]
  simp

theorem length_block (indent level : Nat) (opening closing : Byte) {entries : List Text}
    (nonempty : entries ≠ []) :
    (join (utf8 "," ++ newLine indent (level + 1)) entries).length + 2 ≤
      (block indent level [opening] [closing] entries).length := by
  have shape := congrArg List.length (block_append indent level opening closing nonempty [])
  simp only [List.append_nil, List.length_cons, List.length_append] at shape
  omega

/-- A collection is printed as a block when it is read at once without entries, and else up to the
closing bracket behind its entries. -/
theorem Prints.block {depth : Nat} {value : Json} {opening closing : Byte} {entries : List Text}
    (indent level : Nat) (opens : isBlank opening = false ∧ opening ≠ 0x5D ∧ opening ≠ 0x7D)
    (empty : entries = [] → ∀ fuel rest,
      readValue? (fuel + 1) depth (opening :: closing :: rest) = some (value, rest))
    (filled : entries ≠ [] → ∀ fuel rest,
      2 * (join (utf8 "," ++ newLine indent (level + 1)) entries).length + 1 ≤ fuel →
        readValue? (fuel + 1) depth (opening :: (newLine indent (level + 1) ++
          (join (utf8 "," ++ newLine indent (level + 1)) entries ++
            (newLine indent level ++ closing :: rest)))) = some (value, rest))
    (squeezed : ∀ rest, squeezeFrom .outside
      (Json.block indent level [opening] [closing] entries ++ rest) =
        value.render ++ squeezeFrom .outside rest) :
    Prints (Json.block indent level [opening] [closing] entries) depth value where
  starts := by
    rw [Json.block]
    split
    · exact ⟨_, _, rfl, opens⟩
    · exact ⟨_, _, rfl, opens⟩
  read := by
    intro fuel rest enough _
    rcases eq_or_ne entries [] with none | nonempty
    · subst none
      -- Two brackets pay for the one reading of an empty collection.
      obtain ⟨fuel, rfl⟩ := Nat.exists_eq_add_one_of_ne_zero (by
        simp only [Json.block, List.isEmpty_nil, if_true, List.length_append,
          List.length_singleton] at enough
        omega : fuel ≠ 0)
      exact empty rfl fuel rest
    · have size := length_block indent level opening closing nonempty
      obtain ⟨fuel, rfl⟩ := Nat.exists_eq_add_one_of_ne_zero (by omega : fuel ≠ 0)
      rw [block_append _ _ _ _ nonempty]
      exact filled nonempty fuel rest (by omega)
  squeezed := squeezed

end Block

theorem endsNumber_gap {gap rest : Text} (isGap : IsGap gap) (ends : EndsNumber rest) :
    EndsNumber (gap ++ rest) := by
  cases gap with
  | nil => exact ends
  | cons byte gap =>
      rintro byte ⟨⟩ sign
      exact absurd (isGap byte (by simp)) (by simp [sign.isMark.1])

section Items

variable {depth : Nat} {piece : Json → Text} {gap last : Text}

theorem readItems?_join {items : List Json} (nonempty : items ≠ [])
    (isGap : IsGap gap) (isLast : IsGap last)
    (prints : ∀ item ∈ items, Prints (piece item) depth item)
    (fuel : Nat) (enough : 2 * (join (utf8 "," ++ gap) (items.map piece)).length + 1 ≤ fuel)
    (before : Text) (isBefore : IsGap before) (done : List Json) (rest : Text) :
    readItems? fuel depth done
      (before ++ (join (utf8 "," ++ gap) (items.map piece) ++ (last ++ 0x5D :: rest))) =
        some (done.reverse ++ items, rest) := by
  induction items generalizing fuel before done with
  | nil => exact absurd rfl nonempty
  | cons item items ih =>
      rw [List.forall_mem_cons] at prints
      obtain ⟨fuel, rfl⟩ := Nat.exists_eq_add_one_of_ne_zero (by omega : fuel ≠ 0)
      rw [readItems?, readValue?_gap isBefore]
      -- The fuel that an item leaves is enough for the next one: the comma pays for its round.
      cases items with
      | nil =>
          simp only [List.map_cons, List.map_nil, join] at enough ⊢
          have closes : EndsNumber (0x5D :: rest) := by
            rintro byte ⟨⟩
            decide
          rw [prints.1.read fuel _ (by omega) (endsNumber_gap isLast closes)]
          simp only [skipBlanks_gap isLast, skipBlanks_visible (show isBlank 0x5D = false from rfl)]
          simp
      | cons next items =>
          have others := ih (by simp) prints.2 fuel
          simp only [List.map_cons, join, List.append_assoc, List.length_append] at enough others ⊢
          rw [show utf8 "," = [0x2C] from rfl] at enough others ⊢
          simp only [List.length_cons, List.singleton_append] at enough others ⊢
          have comma : EndsNumber (0x2C :: (gap ++ (join (0x2C :: gap)
              (piece next :: items.map piece) ++ (last ++ 0x5D :: rest)))) := by
            rintro byte ⟨⟩
            decide
          rw [prints.1.read fuel _ (by omega) comma]
          simp only [skipBlanks_visible (show isBlank 0x2C = false from rfl)]
          rw [others (by omega) gap isGap]
          simp

theorem readValue?_array {fuel : Nat} {before rest behind : Text} {items : List Json}
    (isBefore : IsGap before) (starts : Starts rest)
    (read : readItems? fuel depth [] rest = some (items, behind)) :
    readValue? (fuel + 1) (depth + 1) (0x5B :: (before ++ rest)) = some (.array items, behind) := by
  obtain ⟨first, others, rfl, visible, notEnd, _⟩ := starts
  rw [readValue?, skipBlanks_visible rfl]
  simp only [skipBlanks_gap isBefore, skipBlanks_visible visible]
  simp [notEnd, read]

theorem prints_array (indent level : Nat) {items : List Json}
    (prints : ∀ item ∈ items, Prints (piece item) depth item) :
    Prints (block indent level (utf8 "[") (utf8 "]") (items.map piece)) (depth + 1)
      (.array items) := by
  rw [show utf8 "[" = [0x5B] from rfl, show utf8 "]" = [0x5D] from rfl]
  refine Prints.block indent level (by decide) (fun none fuel rest => ?_)
    (fun nonempty fuel rest enough => ?_) fun rest => ?_
  · obtain rfl := List.map_eq_nil_iff.mp none
    rfl
  · have read := readItems?_join (by simpa using nonempty) (isGap_newLine indent (level + 1))
      (isGap_newLine indent level) prints fuel enough [] (by simp [IsGap]) [] rest
    obtain ⟨item, others, rfl⟩ := List.exists_cons_of_ne_nil (by simpa using nonempty)
    exact readValue?_array (isGap_newLine _ _) (((prints item (by simp)).starts.join _ _).append _)
      read
  · rw [squeezeFrom_block indent level (forall_mem_of_all (by decide))
      (forall_mem_of_all (by decide)) fun item member => (prints item member).squeezed, render,
      renderItems_eq]
    rfl

end Items

section Members

variable {depth : Nat} {piece : Json → Text} {gap last : Text}

def memberPiece (piece : Json → Text) (member : Text × Json) : Text :=
  quote member.1 ++ utf8 ": " ++ piece member.2

theorem starts_memberPiece (member : Text × Json) : Starts (memberPiece piece member) := by
  have starts : Starts (quote member.1) := ⟨_, _, quote_eq member.1, by decide⟩
  exact (starts.append _).append _

theorem squeezeFrom_memberPiece {member : Text × Json} (isUtf8 : member.1.IsUtf8)
    (prints : Prints (piece member.2) depth member.2) (rest : Text) :
    squeezeFrom .outside (memberPiece piece member ++ rest) =
      quote member.1 ++ utf8 ":" ++ member.2.render ++ squeezeFrom .outside rest := by
  have colon : ∀ byte ∈ utf8 ":", IsMark byte := forall_mem_of_all (by decide)
  have space : IsGap [0x20] := by simp [IsGap, isBlank]
  rw [memberPiece, show utf8 ": " = utf8 ":" ++ [0x20] from rfl]
  simp only [List.append_assoc]
  rw [squeezeFrom_quote isUtf8, squeezeFrom_marks colon, squeezeFrom_gap space, prints.squeezed]

theorem readMembers?_member {member : Text × Json} (isUtf8 : member.1.IsUtf8)
    (prints : Prints (piece member.2) depth member.2) {fuel : Nat}
    (enough : 2 * (memberPiece piece member).length ≤ fuel) {before : Text}
    (isBefore : IsGap before) (done : List (Text × Json)) {rest : Text} (ends : EndsNumber rest) :
    readMembers? (fuel + 1) depth done (before ++ (memberPiece piece member ++ rest)) =
      match skipBlanks rest with
      | 0x2C :: rest => readMembers? fuel depth (member :: done) rest
      | 0x7D :: rest => some ((member :: done).reverse, rest)
      | _ => none := by
  have space : IsGap [0x20] := by simp [IsGap, isBlank]
  have size : (piece member.2).length ≤ (memberPiece piece member).length := by
    rw [memberPiece, List.length_append]
    omega
  have value := prints.read fuel rest (by omega) ends
  have key := readString?_quote isUtf8 (0x3A :: ([0x20] ++ (piece member.2 ++ rest)))
  rw [readMembers?, skipBlanks_gap isBefore, memberPiece, quote_eq,
    show utf8 ": " = [0x3A, 0x20] from rfl]
  simp only [List.cons_append, List.append_assoc, List.nil_append] at key ⊢
  rw [skipBlanks_visible rfl]
  simp only [key, skipBlanks_visible (show isBlank 0x3A = false from rfl)]
  rw [show (0x20 :: (piece member.2 ++ rest) : Text) = [0x20] ++ (piece member.2 ++ rest) from rfl,
    readValue?_gap space]
  generalize readValue? fuel depth (piece member.2 ++ rest) = found at value ⊢
  subst value
  rfl

theorem readMembers?_join {members : List (Text × Json)} (nonempty : members ≠ [])
    (isGap : IsGap gap) (isLast : IsGap last) (keys : ∀ member ∈ members, member.1.IsUtf8)
    (prints : ∀ member ∈ members, Prints (piece member.2) depth member.2) (fuel : Nat)
    (enough : 2 * (join (utf8 "," ++ gap) (members.map (memberPiece piece))).length + 1 ≤ fuel)
    (before : Text) (isBefore : IsGap before) (done : List (Text × Json)) (rest : Text) :
    readMembers? fuel depth done (before ++
      (join (utf8 "," ++ gap) (members.map (memberPiece piece)) ++ (last ++ 0x7D :: rest))) =
        some (done.reverse ++ members, rest) := by
  induction members generalizing fuel before done with
  | nil => exact absurd rfl nonempty
  | cons member members ih =>
      rw [List.forall_mem_cons] at prints keys
      obtain ⟨fuel, rfl⟩ := Nat.exists_eq_add_one_of_ne_zero (by omega : fuel ≠ 0)
      cases members with
      | nil =>
          simp only [List.map_cons, List.map_nil, join] at enough ⊢
          have closes : EndsNumber (0x7D :: rest) := by
            rintro byte ⟨⟩
            decide
          rw [readMembers?_member keys.1 prints.1 (by omega) isBefore done
            (endsNumber_gap isLast closes), skipBlanks_gap isLast, skipBlanks_visible rfl]
          simp
      | cons next members =>
          have others := ih (by simp) keys.2 prints.2 fuel
          simp only [List.map_cons, join, List.append_assoc, List.length_append] at enough others ⊢
          rw [show utf8 "," = [0x2C] from rfl] at enough others ⊢
          simp only [List.length_cons, List.singleton_append] at enough others ⊢
          have comma : EndsNumber (0x2C :: (gap ++ (join (0x2C :: gap)
              (memberPiece piece next :: members.map (memberPiece piece)) ++
                (last ++ 0x7D :: rest)))) := by
            rintro byte ⟨⟩
            decide
          rw [readMembers?_member keys.1 prints.1 (by omega) isBefore done comma,
            skipBlanks_visible rfl]
          simp only [others (by omega) gap isGap (member :: done)]
          simp

theorem readValue?_object {fuel : Nat} {before rest behind : Text} {members : List (Text × Json)}
    (isBefore : IsGap before) (starts : Starts rest)
    (read : readMembers? fuel depth [] rest = some (members, behind)) :
    readValue? (fuel + 1) (depth + 1) (0x7B :: (before ++ rest)) =
      some (.object members, behind) := by
  obtain ⟨first, others, rfl, visible, _, notEnd⟩ := starts
  rw [readValue?, skipBlanks_visible rfl]
  simp only [skipBlanks_gap isBefore, skipBlanks_visible visible]
  simp [notEnd, read]

theorem prints_object (indent level : Nat) {members : List (Text × Json)}
    (keys : ∀ member ∈ members, member.1.IsUtf8)
    (prints : ∀ member ∈ members, Prints (piece member.2) depth member.2) :
    Prints (block indent level (utf8 "\x7b") (utf8 "\x7d") (members.map (memberPiece piece)))
      (depth + 1) (.object members) := by
  rw [show utf8 "\x7b" = [0x7B] from rfl, show utf8 "\x7d" = [0x7D] from rfl]
  refine Prints.block indent level (by decide) (fun none fuel rest => ?_)
    (fun nonempty fuel rest enough => ?_) fun rest => ?_
  · obtain rfl := List.map_eq_nil_iff.mp none
    rfl
  · have read := readMembers?_join (by simpa using nonempty) (isGap_newLine indent (level + 1))
      (isGap_newLine indent level) keys prints fuel enough [] (by simp [IsGap]) [] rest
    obtain ⟨member, others, rfl⟩ := List.exists_cons_of_ne_nil (by simpa using nonempty)
    exact readValue?_object (isGap_newLine _ _) (((starts_memberPiece member).join _ _).append _)
      read
  · rw [squeezeFrom_block indent level (forall_mem_of_all (by decide))
      (forall_mem_of_all (by decide)) fun member inside =>
        squeezeFrom_memberPiece (keys member inside) (prints member inside), render,
      renderMembers_eq]
    rfl

end Members

theorem Printable.prints {depth : Nat} {value : Json} (printable : Printable depth value)
    (indent level : Nat) : Prints (value.renderIndented indent level) depth value := by
  induction printable generalizing level with
  | null => exact prints_null _
  | boolean value => exact prints_boolean _ value
  | number isNumber => exact prints_number isNumber _
  | string isUtf8 => exact prints_string isUtf8 _
  | array _ ih =>
      rw [renderIndented, renderIndentedItems_eq]
      exact prints_array indent level fun item member => ih item member (level + 1)
  | object keys _ ih =>
      rw [renderIndented, renderIndentedMembers_eq]
      exact prints_object indent level keys fun member inside => ih member inside (level + 1)

/-- What is printed is read back, and it is the same document with every indentation. -/
theorem Printable.read?_printed {value : Json} (printable : Printable greatestDepth value)
    (indent : Nat) : read? (value.renderIndented indent 0 ++ utf8 "\n") = some value ∧
      squeeze (value.renderIndented indent 0 ++ utf8 "\n") = value.render := by
  have prints := printable.prints indent 0
  have ends : EndsNumber (utf8 "\n") := by
    rintro byte ⟨⟩
    decide
  constructor
  · rw [read?, prints.read _ _ (by rw [List.length_append]; omega) ends]
    rfl
  · rw [squeeze, prints.squeezed]
    exact List.append_nil _

end Json

end EntitySchema
