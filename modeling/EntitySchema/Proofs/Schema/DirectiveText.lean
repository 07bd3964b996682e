import EntitySchema.Proofs.Schema.Fingerprint
import EntitySchema.Proofs.Schema.IndexText

/-!
What the directive lines of a canonical text tell. The list of a line ends where the line does,
and the byte behind the dollar sign of a line tells which directive it is, so directives whose
names cannot be taken for anything else are written differently when they are different.
-/

namespace EntitySchema

namespace Directives

theorem colon_append (rest : Text) : utf8 ": " ++ rest = 0x3A :: 0x20 :: rest := rfl

/-- No start of the field reads as a whole vector with another one behind it. -/
def Unbroken (field : Text) : Prop := ∀ (key : Text) (dimensions : Int) (back : Text),
  field ≠ key ++ utf8 ": " ++ Text.ofInt dimensions ++ separator ++ back

/-- The contents of directives whose text has one meaning. -/
structure Legible (directives : Directives) : Prop where
  partitionBy : ∀ name ∈ directives.partitionBy, Plain name
  fullText : ∀ name ∈ directives.fullText, Plain name
  indexes : ∀ index ∈ directives.indexes, (∀ name ∈ index.fields, Plain name) ∧
    Clear (closing index) index.fields ∧ index.fields ≠ [[]]
  vectors : ∀ vector ∈ directives.vectors, Unbroken vector.field

theorem notMem_ofInt {byte : Byte} (noSign : byte ≠ 0x2D)
    (noDigit : Text.isAsciiDigit byte = false) (number : Int) : byte ∉ Text.ofInt number := by
  have digits := (Text.isDigits_ofNat number.natAbs).2 byte
  rw [noDigit] at digits
  unfold Text.ofInt
  split
  · intro member
    rcases List.mem_cons.mp member with same | member
    · exact noSign same
    · exact absurd (digits member) nofun
  · exact fun member => absurd (digits member) nofun

theorem field_of_separator {front back field : Text} {dimensions : Int}
    (same : front ++ (separator ++ back) = field ++ (utf8 ": " ++ Text.ofInt dimensions)) :
    ∃ more, field = front ++ (separator ++ more) := by
  rw [separator_append, colon_append] at same
  obtain ⟨more, rfl, rest⟩ | ⟨more, rfl, rest⟩ := List.append_eq_append_iff.mp same
  · rcases more with _ | ⟨first, _ | ⟨second, more⟩⟩
    · cases rest
    · cases rest
    · simp only [List.cons_append, List.cons.injEq] at rest
      obtain ⟨rfl, rfl, _⟩ := rest
      exact ⟨more, rfl⟩
  · have comma : (0x2C : Byte) ∈ 0x3A :: 0x20 :: Text.ofInt dimensions := by
      rw [rest]
      simp
    have noComma := notMem_ofInt (show (0x2C : Byte) ≠ 0x2D by decide) (by decide) dimensions
    simp [noComma] at comma

theorem vectorText_injective : Function.Injective vectorText := by
  intro left right same
  have noBlank (number : Int) :=
    notMem_ofInt (show (0x20 : Byte) ≠ 0x2D by decide) (by decide) number
  have nothing {more digits : Text} {number : Int}
      (rest : utf8 ": " ++ Text.ofInt number = more ++ (utf8 ": " ++ digits)) : more = [] := by
    rcases more with _ | ⟨first, _ | ⟨second, more⟩⟩
    · rfl
    · cases rest
    · obtain ⟨_, rest⟩ := List.cons.inj rest
      obtain ⟨_, rest⟩ := List.cons.inj rest
      have blank : (0x20 : Byte) ∈ Text.ofInt number := by
        rw [show Text.ofInt number = more ++ (utf8 ": " ++ digits) from rest]
        simp [show utf8 ": " = [0x3A, 0x20] from rfl]
      exact absurd blank (noBlank number)
  obtain ⟨leftField, leftNumber⟩ := left
  obtain ⟨rightField, rightNumber⟩ := right
  simp only [vectorText, List.append_assoc] at same
  obtain ⟨more, rfl, rest⟩ | ⟨more, rfl, rest⟩ := List.append_eq_append_iff.mp same
  · obtain rfl := nothing rest
    rw [List.nil_append, List.append_cancel_left_eq] at rest
    rw [List.append_nil, Text.ofInt_injective rest]
  · obtain rfl := nothing rest
    rw [List.nil_append, List.append_cancel_left_eq] at rest
    rw [List.append_nil, Text.ofInt_injective rest]

def ContinuesList (rest : Text) : Prop := rest = [] ∨ ∃ more, rest = separator ++ more

theorem vectorText_append_inj {left right : Embedding} {leftRest rightRest : Text}
    (leftUnbroken : Unbroken left.field) (rightUnbroken : Unbroken right.field)
    (leftContinues : ContinuesList leftRest) (rightContinues : ContinuesList rightRest)
    (same : vectorText left ++ leftRest = vectorText right ++ rightRest) :
    left = right ∧ leftRest = rightRest := by
  have nothing {short long : Embedding} {more rest : Text} (unbroken : Unbroken long.field)
      (whole : vectorText long = vectorText short ++ more) (continues : ContinuesList rest)
      (continuesMore : ContinuesList (more ++ rest)) : more = [] := by
    obtain empty | ⟨tail, shape⟩ := continuesMore
    · exact (List.append_eq_nil_iff.mp empty).1
    · rw [separator_append] at shape
      rcases more with _ | ⟨first, _ | ⟨second, more⟩⟩
      · rfl
      · obtain ⟨_, rfl⟩ := List.cons.inj shape
        obtain empty | ⟨_, other⟩ := continues
        · cases empty
        · cases other
      · simp only [List.cons_append, List.cons.injEq] at shape
        obtain ⟨rfl, rfl, _⟩ := shape
        rw [← separator_append, vectorText, List.append_assoc] at whole
        obtain ⟨back, field⟩ := field_of_separator whole.symm
        refine absurd ?_ (unbroken short.field short.dimensions back)
        rw [field, vectorText, List.append_assoc _ separator]
  obtain ⟨more, whole, rest⟩ | ⟨more, whole, rest⟩ := List.append_eq_append_iff.mp same
  · obtain rfl := nothing rightUnbroken whole rightContinues (rest ▸ leftContinues)
    rw [List.append_nil] at whole
    exact ⟨vectorText_injective whole.symm, rest⟩
  · obtain rfl := nothing leftUnbroken whole leftContinues (rest ▸ rightContinues)
    rw [List.append_nil] at whole
    exact ⟨vectorText_injective whole, rest.symm⟩

theorem join_vectors_cons (vector : Embedding) (vectors : List Embedding) :
    ∃ rest, ContinuesList rest ∧ (rest = [] ↔ vectors = []) ∧
      (∀ more, rest = separator ++ more →
        more = Text.join separator (vectors.map vectorText)) ∧
      Text.join separator ((vector :: vectors).map vectorText) = vectorText vector ++ rest := by
  cases vectors with
  | nil =>
      refine ⟨[], Or.inl rfl, by simp, ?_, by simp [Text.join]⟩
      intro more shape
      cases shape
  | cons other vectors =>
      refine ⟨separator ++ Text.join separator ((other :: vectors).map vectorText),
        Or.inr ⟨_, rfl⟩, ?_, ?_, ?_⟩
      · simp [separator_append]
      · intro more shape
        exact (List.append_cancel_left shape).symm
      · simp [Text.join]

theorem vectors_of_join {left right : List Embedding}
    (leftUnbroken : ∀ vector ∈ left, Unbroken vector.field)
    (rightUnbroken : ∀ vector ∈ right, Unbroken vector.field) (leftSome : left ≠ [])
    (rightSome : right ≠ []) (same : Text.join separator (left.map vectorText) =
      Text.join separator (right.map vectorText)) : left = right := by
  induction left generalizing right with
  | nil => exact absurd rfl leftSome
  | cons vector vectors ih =>
      obtain ⟨other, others, rfl⟩ := List.exists_cons_of_ne_nil rightSome
      rw [List.forall_mem_cons] at leftUnbroken rightUnbroken
      obtain ⟨rest, continues, last, more, shape⟩ := join_vectors_cons vector vectors
      obtain ⟨otherRest, otherContinues, otherLast, otherMore, otherShape⟩ :=
        join_vectors_cons other others
      rw [shape, otherShape] at same
      obtain ⟨rfl, rfl⟩ := vectorText_append_inj leftUnbroken.1 rightUnbroken.1 continues
        otherContinues same
      obtain rfl | ⟨tail, rfl⟩ := continues
      · rw [last.mp rfl, otherLast.mp rfl]
      · have some : vectors ≠ [] := fun none =>
          absurd (last.mpr none) (by simp [separator_append])
        have otherSome : others ≠ [] := fun none =>
          absurd (otherLast.mpr none) (by simp [separator_append])
        rw [ih leftUnbroken.2 rightUnbroken.2 some otherSome
          ((more tail rfl).symm.trans (otherMore tail rfl))]

def StartsOther (second : Byte) (rest : Text) : Prop :=
  rest = [] ∨ ∃ byte tail, rest = 0x24 :: byte :: tail ∧ byte ≠ second

theorem StartsOther.startsLine {second : Byte} {rest : Text} (starts : StartsOther second rest) :
    StartsLine rest := by
  obtain rfl | ⟨byte, tail, rfl, _⟩ := starts <;> simp [StartsLine]

def listPart (key : Text) (names : List Text) : Text :=
  if names.isEmpty then [] else Schema.renderLine (key, nameList names)

def vectorPart (vectors : List Embedding) : Text :=
  if vectors.isEmpty then []
  else Schema.renderLine (Key.vector,
    utf8 "\x7b" ++ Text.join (utf8 ", ") (vectors.map vectorText) ++ utf8 "\x7d")

theorem lines_text (directives : Directives) :
    directives.lines.flatMap Schema.renderLine =
      listPart Key.partitionBy directives.partitionBy ++
        (listPart Key.index (directives.indexes.flatMap pieces) ++
          (listPart Key.fullText directives.fullText ++ vectorPart directives.vectors)) := by
  have indexes : listPart Key.index (directives.indexes.map indexText) =
      listPart Key.index (directives.indexes.flatMap pieces) := by
    cases shape : directives.indexes with
    | nil => rfl
    | cons index indexes =>
        have some : ((index :: indexes).flatMap pieces).isEmpty = false := by
          simp [pieces_ne_nil]
        have same := join_indexText (index :: indexes)
        rw [separator] at same
        rw [listPart, listPart, some, nameList, same]
        rfl
  rw [← indexes]
  simp only [lines, List.flatMap_append, List.append_assoc, listPart, vectorPart,
    List.isEmpty_map]
  split <;> split <;> split <;> split <;> simp

theorem listPart_cons (key : Text) {names : List Text} (some : names ≠ []) (rest : Text) :
    listPart key names ++ rest =
      key ++ (utf8 ": [" ++ (Text.join separator names ++ 0x5D :: 0x0A :: rest)) := by
  have full : names.isEmpty = false := by simpa using some
  rw [listPart, full]
  simp only [Bool.false_eq_true, if_false, Schema.renderLine, nameList, List.append_assoc]
  rfl

theorem startsOther_listPart {key rest : Text} {first second : Byte} {tail : Text}
    (shape : key = 0x24 :: first :: tail) (other : first ≠ second) (names : List Text)
    (starts : StartsOther second rest) : StartsOther second (listPart key names ++ rest) := by
  by_cases none : names = []
  · rw [none]
    exact starts
  · rw [listPart_cons key none, shape]
    exact Or.inr ⟨first, _, rfl, other⟩

theorem startsOther_vectorPart {second : Byte} (other : 0x76 ≠ second)
    (vectors : List Embedding) : StartsOther second (vectorPart vectors) := by
  unfold vectorPart
  split
  · exact Or.inl rfl
  · exact Or.inr ⟨0x76, _, rfl, other⟩

theorem listPart_inj {key leftRest rightRest : Text} {second : Byte} {tail : Text}
    (shape : key = 0x24 :: second :: tail) {left right : List Text}
    (leftPlain : ∀ name ∈ left, Plain name) (rightPlain : ∀ name ∈ right, Plain name)
    (leftStarts : StartsOther second leftRest) (rightStarts : StartsOther second rightRest)
    (same : listPart key left ++ leftRest = listPart key right ++ rightRest) :
    left = right ∧ leftRest = rightRest := by
  have apart {names : List Text} {rest other : Text} (some : names ≠ [])
      (starts : StartsOther second other) : listPart key names ++ rest ≠ other := by
    rw [listPart_cons key some, shape]
    obtain rfl | ⟨byte, tail, rfl, different⟩ := starts
    · exact nofun
    · intro equal
      simp only [List.cons_append, List.cons.injEq] at equal
      exact different equal.2.1.symm
  by_cases none : left = []
  · by_cases otherNone : right = []
    · subst none otherNone
      exact ⟨rfl, same⟩
    · rw [none] at same
      exact absurd same.symm (apart otherNone leftStarts)
  · by_cases otherNone : right = []
    · rw [otherNone] at same
      exact absurd same (apart none rightStarts)
    · rw [listPart_cons key none, listPart_cons key otherNone] at same
      exact names_of_join leftPlain rightPlain none otherNone leftStarts.startsLine
        rightStarts.startsLine (List.append_cancel_left (List.append_cancel_left same))

theorem vectorPart_inj {left right : List Embedding}
    (leftUnbroken : ∀ vector ∈ left, Unbroken vector.field)
    (rightUnbroken : ∀ vector ∈ right, Unbroken vector.field)
    (same : vectorPart left = vectorPart right) : left = right := by
  by_cases none : left = []
  · by_cases otherNone : right = []
    · rw [none, otherNone]
    · have full : right.isEmpty = false := by simpa using otherNone
      rw [none, vectorPart, vectorPart, full] at same
      cases same
  · have full : left.isEmpty = false := by simpa using none
    by_cases otherNone : right = []
    · rw [otherNone, vectorPart, vectorPart, full] at same
      cases same
    · have otherFull : right.isEmpty = false := by simpa using otherNone
      simp only [vectorPart, full, otherFull, Bool.false_eq_true, if_false, Schema.renderLine,
        List.append_assoc, List.append_cancel_left_eq] at same
      have lists := List.append_cancel_right same
      exact vectors_of_join leftUnbroken rightUnbroken none otherNone lists

theorem eq_of_text {left right : Directives} (leftLegible : left.Legible)
    (rightLegible : right.Legible)
    (same : left.lines.flatMap Schema.renderLine = right.lines.flatMap Schema.renderLine) :
    left = right := by
  have plainPieces {directives : Directives} (legible : directives.Legible) :
      ∀ piece ∈ directives.indexes.flatMap pieces, Plain piece := by
    intro piece member
    obtain ⟨index, inside, found⟩ := List.mem_flatMap.mp member
    exact plain_of_mem_pieces (legible.indexes index inside).1 piece found
  rw [lines_text, lines_text] at same
  have fullTextTail (directives : Directives) : StartsOther 0x66 (vectorPart directives.vectors) :=
    startsOther_vectorPart (by decide) _
  have indexTail (directives : Directives) : StartsOther 0x69
      (listPart Key.fullText directives.fullText ++ vectorPart directives.vectors) :=
    startsOther_listPart rfl (by decide) _ (startsOther_vectorPart (by decide) _)
  have partitionTail (directives : Directives) : StartsOther 0x70
      (listPart Key.index (directives.indexes.flatMap pieces) ++
        (listPart Key.fullText directives.fullText ++ vectorPart directives.vectors)) :=
    startsOther_listPart rfl (by decide) _ (startsOther_listPart rfl (by decide) _
      (startsOther_vectorPart (by decide) _))
  obtain ⟨partitionBy, same⟩ := listPart_inj rfl leftLegible.partitionBy rightLegible.partitionBy
    (partitionTail left) (partitionTail right) same
  obtain ⟨parts, same⟩ := listPart_inj rfl (plainPieces leftLegible) (plainPieces rightLegible)
    (indexTail left) (indexTail right) same
  obtain ⟨fullText, same⟩ := listPart_inj rfl leftLegible.fullText rightLegible.fullText
    (fullTextTail left) (fullTextTail right) same
  have vectors := vectorPart_inj leftLegible.vectors rightLegible.vectors same
  have indexes := indexes_of_pieces
    (fun index inside => (leftLegible.indexes index inside).2)
    (fun index inside => (rightLegible.indexes index inside).2) parts
  cases left
  cases right
  simp_all

def mentioned (directives : Directives) : List Text :=
  directives.partitionBy ++ directives.indexes.flatMap Index.fields ++ directives.fullText ++
    directives.vectors.map Embedding.field

/-- Names without commas and closing brackets, such as the names of fields, are legible. -/
theorem legible_of_names {directives : Directives} (names : ∀ name ∈ directives.mentioned,
    name ≠ [] ∧ 0x2C ∉ name ∧ 0x5D ∉ name) : directives.Legible := by
  have plain {name : Text} (member : name ∈ directives.mentioned) : Plain name := by
    obtain ⟨_, noComma, noBracket⟩ := names name member
    constructor
    · exact fun inside => noComma (inside.subset (by decide))
    · exact fun inside => noBracket (inside.subset (by decide))
  constructor
  · intro name member
    exact plain (by simp [mentioned, member])
  · intro name member
    exact plain (by simp [mentioned, member])
  · intro index member
    have mention {name : Text} (inside : name ∈ index.fields) : name ∈ directives.mentioned := by
      have field : name ∈ directives.indexes.flatMap Index.fields :=
        List.mem_flatMap.mpr ⟨index, member, inside⟩
      simp [mentioned, field]
    refine ⟨fun name inside => plain (mention inside), ?_, ?_⟩
    · intro front name first back shape
      have bracket := (names (name ++ utf8 "]") (mention (by simp [shape]))).2.2
      exact absurd (List.mem_append_right name (by decide)) bracket
    · intro empty
      exact (names [] (mention (by simp [empty]))).1 rfl
  · intro vector member key dimensions back shape
    have noComma := (names vector.field (by
      rw [mentioned]
      exact List.mem_append_right _ (List.mem_map_of_mem member))).2.1
    apply noComma
    rw [shape]
    simp [separator, show utf8 ", " = [0x2C, 0x20] from rfl]

end Directives

namespace Schema

/--
Legible directives are told by the lines they are written in, and by the text behind the
fingerprints of two schemas that agree in everything else.
-/
theorem directives_of_text {left right : Schema} (leftLegible : left.directives.Legible)
    (rightLegible : right.directives.Legible) :
    (left.directives.lines.flatMap renderLine = right.directives.lines.flatMap renderLine →
      left.directives = right.directives) ∧
    (left.name = right.name → left.version = right.version →
      left.fields.toList = right.fields.toList →
      left.relations.toList = right.relations.toList →
      left.fingerprintText = right.fingerprintText → left.directives = right.directives) := by
  have told := Directives.eq_of_text leftLegible rightLegible
  refine ⟨told, ?_⟩
  intro name version fields relations same
  apply told
  simp only [fingerprintText, render, lines, name, version, fields, relations,
    List.flatMap_append, List.append_cancel_left_eq] at same
  exact same

def tagged (tags : List Text) : Schema :=
  { name := utf8 "Note"
    directives :=
      { partitionBy := [utf8 "id"]
        indexes := [⟨tags, true⟩, ⟨[utf8 "title"], false⟩]
        vectors := [⟨utf8 "title: 3", 8⟩] } }

theorem directives_of_text_tagged :
    (tagged [utf8 "a", utf8 "b"]).directives.Legible ∧
      (tagged [utf8 "a b"]).directives.Legible ∧
      (tagged [utf8 "a", utf8 "b"]).fingerprintText ≠ (tagged [utf8 "a b"]).fingerprintText := by
  have left : (tagged [utf8 "a", utf8 "b"]).directives.Legible :=
    Directives.legible_of_names (by decide)
  have right : (tagged [utf8 "a b"]).directives.Legible := Directives.legible_of_names (by decide)
  refine ⟨left, right, fun same => ?_⟩
  have equal := (directives_of_text left right).2 rfl rfl rfl rfl same
  exact absurd equal (by decide)

def Ambiguous (left right : Record) : Prop :=
  Directives.ofRecord left ≠ Directives.ofRecord right ∧
    (Directives.ofRecord left).lines.flatMap renderLine =
      (Directives.ofRecord right).lines.flatMap renderLine

instance (left right : Record) : Decidable (Ambiguous left right) :=
  inferInstanceAs (Decidable (_ ∧ _))

def listed (key : Text) (names : List Text) : Record := OrderedMap.ofList [(key, .strings names)]

def indexed (lists : List (List Text)) : Record :=
  OrderedMap.ofList [(Key.index, .stringLists lists)]

def uniquelyIndexed (lists : List (List Text)) : Record :=
  OrderedMap.ofList [(Key.index, .list (lists.map fun names => .record (OrderedMap.ofList
    [(utf8 "fields", .strings names), (utf8 "unique", .boolean true)])))]

def embedded (vectors : List (Text × Int)) : Record :=
  OrderedMap.ofList [(Key.vector, .record (OrderedMap.ofList (vectors.map fun vector =>
    (vector.1, .integer .int vector.2))))]

/--
A separator in a name, the end of a line in a name, the end of an index among its names, an index
of one empty name, and a vector within the name of another.
-/
theorem directives_of_text_ambiguous :
    Ambiguous (listed Key.partitionBy [utf8 "a, b"]) (listed Key.partitionBy [utf8 "a", utf8 "b"]) ∧
      Ambiguous (listed Key.partitionBy [utf8 "a]\n$fts: [b"])
        (OrderedMap.ofList [(Key.partitionBy, .strings [utf8 "a"]),
          (Key.fullText, .strings [utf8 "b"])]) ∧
      Ambiguous (indexed [[utf8 "a]", utf8 "[b"]]) (indexed [[utf8 "a"], [utf8 "b"]]) ∧
      Ambiguous (uniquelyIndexed [[utf8 "a]", utf8 "unique: true\x7d", utf8 "\x7bfields: [b"]])
        (uniquelyIndexed [[utf8 "a"], [utf8 "b"]]) ∧
      Ambiguous (indexed [[]]) (indexed [[[]]]) ∧
      Ambiguous (embedded [(utf8 "a: 1, b", 2)]) (embedded [(utf8 "a", 1), (utf8 "b", 2)]) := by
  decide +kernel

end Schema

end EntitySchema
