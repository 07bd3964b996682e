import EntitySchema.Proofs.Schema.Assembled

/-!
Why a record is refused. The values of all entries are looked at before any expression is read: the
first entry without the string it needs is blamed, whatever its neighbours say. If all entries have
theirs, it is the first one whose expression is refused, with the error of its parser.
-/

namespace EntitySchema

def IsFirst {α : Type} (property : α → Prop) (list : List α) (item : α) : Prop :=
  ∃ front rest, list = front ++ item :: rest ∧ property item ∧ ∀ other ∈ front, ¬property other

namespace IsFirst

variable {α : Type} {property : α → Prop} {list : List α} {item other : α}

theorem head (holds : property item) : IsFirst property (item :: list) item :=
  ⟨[], list, rfl, holds, by simp⟩

theorem cons (before : ¬property other) (first : IsFirst property list item) :
    IsFirst property (other :: list) item := by
  obtain ⟨front, rest, rfl, holds, none⟩ := first
  exact ⟨other :: front, rest, rfl, holds, List.forall_mem_cons.mpr ⟨before, none⟩⟩

theorem mem (first : IsFirst property list item) : item ∈ list := by
  obtain ⟨front, rest, rfl, _⟩ := first
  simp

theorem holds (first : IsFirst property list item) : property item := by
  obtain ⟨_, _, _, holds, _⟩ := first
  exact holds

theorem unique (left : IsFirst property list item) (right : IsFirst property list other) :
    item = other := by
  obtain ⟨front, rest, rfl, holds, none⟩ := left
  obtain ⟨front', rest', same, holds', none'⟩ := right
  rcases List.append_eq_append_iff.mp same with ⟨between, rfl, tail⟩ | ⟨between, rfl, tail⟩
  · cases between with
    | nil => exact (List.cons.inj tail).1
    | cons next between =>
        obtain rfl := (List.cons.inj tail).1
        exact absurd holds (none' item (by simp))
  · cases between with
    | nil => exact (List.cons.inj tail).1.symm
    | cons next between =>
        obtain rfl := (List.cons.inj tail).1
        exact absurd holds' (none other (by simp))

end IsFirst

namespace Declaration

def NeedsString (key : Text) : Prop := key = Key.type ∨ Key.isDirective key = false

def IsMistyped (entry : Text × Value) : Prop :=
  NeedsString entry.1 ∧ ∀ text, entry.2 ≠ .string text

def mistypedCause (key : Text) (value : Value) : Cause :=
  if key = Key.type then .nameNotString value.typeName else .expressionNotString value.typeName

inductive Refuses : Text × Value → ParseError → Prop
  | relation {key text : Text} {error : ParseError} : Key.isDirective key = false →
      Relation.isRelationText text = true → Relation.parse text = .error error →
      Refuses (key, .string text) error
  | field {key text : Text} {error : ParseError} : Key.isDirective key = false →
      Relation.isRelationText text = false → Field.parse text = .error error →
      Refuses (key, .string text) error

def IsRefused (entry : Text × Value) : Prop := ∃ error, Refuses entry error

/-- The error that a record with the given entries is refused with, and the entry it names. -/
inductive Blames (entries : List (Text × Value)) (error : ParseError) : Prop
  | mistyped {key : Text} {value : Value} : IsFirst IsMistyped entries (key, value) →
      error.cause = mistypedCause key value → error.kind = .invalidRecord →
      error.position = Position.unknown → error.field = key → Blames entries error
  | refused {key : Text} {value : Value} {refusal : ParseError} :
      (∀ entry ∈ entries, ¬IsMistyped entry) → IsFirst IsRefused entries (key, value) →
      Refuses (key, value) refusal → error = refusal.withField key → Blames entries error

variable {entries : List (Text × Value)} {key text : Text} {value : Value}

theorem isDirective_type : Key.isDirective Key.type = true := by decide

theorem not_isMistyped_string : ¬IsMistyped (key, .string text) :=
  fun mistyped => mistyped.2 text rfl

theorem not_isMistyped_directive (notType : key ≠ Key.type)
    (isDirective : Key.isDirective key = true) : ¬IsMistyped (key, value) := by
  rintro ⟨same | noDirective, _⟩
  · exact notType same
  · rw [isDirective] at noDirective
    contradiction

theorem not_isRefused_directive (isDirective : Key.isDirective key = true) :
    ¬IsRefused (key, value) := by
  rintro ⟨error, refuses⟩
  cases refuses with
  | relation noDirective => simp [isDirective] at noDirective
  | field noDirective => simp [isDirective] at noDirective

theorem not_isRefused_relation {relation : Relation}
    (isRelation : Relation.isRelationText text = true)
    (parsed : Relation.parse text = .ok relation) : ¬IsRefused (key, .string text) := by
  rintro ⟨error, refuses⟩
  cases refuses with
  | relation _ _ failed => simp [parsed] at failed
  | field _ isField => simp [isRelation] at isField

theorem not_isRefused_field {field : Field} (isField : Relation.isRelationText text = false)
    (parsed : Field.parse text = .ok field) : ¬IsRefused (key, .string text) := by
  rintro ⟨error, refuses⟩
  cases refuses with
  | relation _ isRelation => simp [isField] at isRelation
  | field _ _ failed => simp [parsed] at failed

theorem Refuses.unique {entry : Text × Value} {left right : ParseError}
    (refuses : Refuses entry left) (refuses' : Refuses entry right) : left = right := by
  cases refuses with
  | relation _ isRelation failed =>
      cases refuses' with
      | relation _ _ failed' => exact Except.error.inj (failed.symm.trans failed')
      | field _ isField => simp [isRelation] at isField
  | field _ isField failed =>
      cases refuses' with
      | relation _ isRelation => simp [isField] at isRelation
      | field _ _ failed' => exact Except.error.inj (failed.symm.trans failed')

theorem Blames.unique {left right : ParseError} (blames : Blames entries left)
    (blames' : Blames entries right) : left = right := by
  cases blames with
  | mistyped first cause _ position field =>
      cases blames' with
      | mistyped first' cause' _ position' field' =>
          obtain ⟨rfl, rfl⟩ := Prod.mk.inj (first.unique first')
          cases left
          cases right
          simp_all
      | refused none => exact absurd first.holds (none _ first.mem)
  | refused none first refuses same =>
      cases blames' with
      | mistyped first' => exact absurd first'.holds (none _ first'.mem)
      | refused _ first' refuses' same' =>
          obtain ⟨rfl, rfl⟩ := Prod.mk.inj (first.unique first')
          rw [same, same', refuses.unique refuses']

theorem Declares.not_isMistyped {declarations : List Declaration}
    (declares : Declares entries declarations) : ∀ entry ∈ entries, ¬IsMistyped entry := by
  induction declares with
  | nil => simp
  | name _ ih => exact List.forall_mem_cons.mpr ⟨not_isMistyped_string, ih⟩
  | directive notType isDirective _ ih =>
      exact List.forall_mem_cons.mpr ⟨not_isMistyped_directive notType isDirective, ih⟩
  | expression _ _ ih => exact List.forall_mem_cons.mpr ⟨not_isMistyped_string, ih⟩

theorem classifyFrom_eq_error {schemaName : Text} {done : List Declaration} {error : ParseError}
    (failed : classifyFrom schemaName done entries = .error error) :
    ∃ key value, IsFirst IsMistyped entries (key, value) ∧
      error = { cause := mistypedCause key value, field := key } := by
  fun_induction classifyFrom schemaName done entries with
  | case1 => simp at failed
  | case2 schemaName done entries text ih =>
      obtain ⟨key, value, first, same⟩ := ih failed
      exact ⟨key, value, first.cons not_isMistyped_string, same⟩
  | case3 schemaName done value entries notString =>
      refine ⟨_, value, .head ⟨Or.inl rfl, notString⟩, ?_⟩
      simp_all [mistypedCause]
  | case4 schemaName done key value entries notType error found =>
      unfold ofEntry at found
      split at found
      · simp at found
      next noDirective =>
        split at found
        · simp at found
        next notString =>
          refine ⟨key, value, .head ⟨Or.inr (by simpa using noDirective), notString⟩, ?_⟩
          simp_all [mistypedCause]
  | case5 schemaName done key value entries notType declaration found ih =>
      obtain ⟨other, otherValue, first, same⟩ := ih failed
      refine ⟨other, otherValue, first.cons ?_, same⟩
      unfold ofEntry at found
      split at found
      next isDirective => exact not_isMistyped_directive notType isDirective
      next =>
        split at found
        · exact not_isMistyped_string
        · simp at found

end Declaration

namespace Schema

open Declaration

namespace Assembly

theorem addAll_of_add {assembly next : Assembly} {declaration : Declaration}
    (added : assembly.add declaration = .ok next) (declarations : List Declaration) :
    assembly.addAll (declaration :: declarations) = next.addAll declarations := by
  rw [addAll, added]

theorem add_expression {assembly : Assembly} {key : Text} (covered : assembly.Covered)
    (fresh : key ∉ assembly.seen) (noDirective : Key.isDirective key = false) (text : Text) :
    (∃ refusal, Refuses (key, .string text) refusal ∧
      assembly.add (ofExpression key text) = .error (refusal.withField key)) ∨
    (¬IsRefused (key, .string text) ∧ ∃ next, assembly.add (ofExpression key text) = .ok next ∧
      next.seen = key :: assembly.seen ∧ next.Covered) := by
  have adds := addsExpression covered fresh text
  generalize added : assembly.add (ofExpression key text) = result at adds ⊢
  cases adds with
  | relation isRelation parsed seen stored =>
      exact Or.inr ⟨not_isRefused_relation isRelation parsed, _, rfl, seen,
        covered.of_extends stored seen (by simp)⟩
  | field isField parsed seen stored =>
      exact Or.inr ⟨not_isRefused_field isField parsed, _, rfl, seen,
        covered.of_extends stored seen (by simp)⟩
  | noRelation isRelation parsed =>
      exact Or.inl ⟨_, .relation noDirective isRelation parsed, rfl⟩
  | noField isField parsed =>
      exact Or.inl ⟨_, .field noDirective isField parsed, rfl⟩

/-- A run over fresh declarations stops at the first expression that is refused. -/
theorem addAll_eq_error {entries : List (Text × Value)} {declarations : List Declaration}
    (declares : Declares entries declarations) {assembly : Assembly} (covered : assembly.Covered)
    (distinct : (entries.map Prod.fst).Nodup)
    (fresh : ∀ key ∈ entries.map Prod.fst, key ∉ assembly.seen) {error : ParseError}
    (failed : assembly.addAll declarations = .error error) :
    ∃ key value refusal, IsFirst IsRefused entries (key, value) ∧ Refuses (key, value) refusal ∧
      error = refusal.withField key := by
  induction declares generalizing assembly with
  | nil => simp [addAll] at failed
  | name declares ih =>
      rw [List.map_cons, List.nodup_cons] at distinct
      obtain ⟨key, value, refusal, first, found⟩ :=
        ih covered distinct.2 (fun key member => fresh key (by simp [member])) failed
      exact ⟨key, value, refusal, first.cons (not_isRefused_directive isDirective_type), found⟩
  | @directive key value entries declarations notType isDirective declares ih =>
      rw [List.map_cons, List.nodup_cons] at distinct
      obtain ⟨next, added, seen, stored⟩ := add_directive covered (fresh key (by simp)) value
      rw [addAll_of_add added] at failed
      obtain ⟨key, value, refusal, first, found⟩ :=
        ih (covered.of_extends stored seen (by simp)) distinct.2
          (fresh_next distinct.1 seen fresh) failed
      exact ⟨key, value, refusal, first.cons (not_isRefused_directive isDirective), found⟩
  | @expression key text entries declarations noDirective declares ih =>
      rw [List.map_cons, List.nodup_cons] at distinct
      rcases add_expression covered (fresh key (by simp)) noDirective text with
        ⟨refusal, refuses, refused⟩ | ⟨accepted, next, added, seen, covered⟩
      · rw [addAll, refused] at failed
        exact ⟨key, .string text, refusal, .head ⟨refusal, refuses⟩, refuses,
          (Except.error.inj failed).symm⟩
      · rw [addAll_of_add added] at failed
        obtain ⟨other, value, refusal, first, found⟩ :=
          ih covered distinct.2 (fresh_next distinct.1 seen fresh) failed
        exact ⟨other, value, refusal, first.cons accepted, found⟩

end Assembly

theorem Splits.accepts {entries : List (Text × Value)} {fields : List (Text × Field)}
    {relations : List (Text × Relation)} {directives : List (Text × Value)}
    (splits : Splits entries fields relations directives) :
    ∀ entry ∈ entries, ¬IsMistyped entry ∧ ¬IsRefused entry := by
  induction splits with
  | nil => simp
  | name _ ih =>
      exact List.forall_mem_cons.mpr
        ⟨⟨not_isMistyped_string, not_isRefused_directive isDirective_type⟩, ih⟩
  | directive notType isDirective _ ih =>
      exact List.forall_mem_cons.mpr ⟨⟨not_isMistyped_directive notType isDirective,
        not_isRefused_directive isDirective⟩, ih⟩
  | relation _ isRelation parsed _ ih =>
      exact List.forall_mem_cons.mpr
        ⟨⟨not_isMistyped_string, not_isRefused_relation isRelation parsed⟩, ih⟩
  | field _ isField parsed _ ih =>
      exact List.forall_mem_cons.mpr
        ⟨⟨not_isMistyped_string, not_isRefused_field isField parsed⟩, ih⟩

variable {now : Timestamp} {record : Record}

theorem accepts_of_ofRecord {schema : Schema} (accepted : ofRecord now record = .ok schema) :
    ∀ entry ∈ record.toList, ¬IsMistyped entry ∧ ¬IsRefused entry := by
  obtain ⟨_, splits⟩ := (assembled_of_ofRecord accepted).splits
  exact splits.accepts

theorem blames_of_ofRecord (distinct : record.keys.Nodup) {error : ParseError}
    (failed : ofRecord now record = .error error) : Blames record.toList error := by
  rw [OrderedMap.keys_eq] at distinct
  unfold ofRecord at failed
  cases classified : classify record with
  | error cause =>
      obtain ⟨key, value, first, rfl⟩ := classifyFrom_eq_error classified
      obtain rfl : _ = error := by simpa [classified] using failed
      refine .mistyped first rfl ?_ rfl rfl
      unfold ParseError.kind mistypedCause
      split <;> rfl
  | ok found =>
      obtain ⟨name, declarations⟩ := found
      obtain ⟨added, same, declares⟩ := classifyFrom_eq_ok classified
      obtain rfl : declarations = added := by simpa using same
      simp only [classified, ofDeclarations] at failed
      cases run : Assembly.addAll {} declarations with
      | error refusal =>
          obtain rfl : refusal = error := by simpa [run] using failed
          obtain ⟨key, value, refusal, first, refuses, same⟩ :=
            Assembly.addAll_eq_error declares (by simp [Assembly.Covered, OrderedMap.keys])
              distinct (by simp) run
          exact .refused declares.not_isMistyped first refuses same
      | ok assembly => simp [run] at failed

/--
The error of a record is settled by its entries alone, and it names the entry at fault. A record is
refused for nothing else, so its directives may hold what they like.
-/
theorem ofRecord_error_iff_blames (now : Timestamp) (record : Record)
    (distinct : record.keys.Nodup) :
    (∀ error, ofRecord now record = .error error ↔ Blames record.toList error) ∧
      ((∃ schema, ofRecord now record = .ok schema) ↔
        ∀ entry ∈ record.toList, ¬IsMistyped entry ∧ ¬IsRefused entry) := by
  constructor
  · intro error
    refine ⟨blames_of_ofRecord distinct, fun blames => ?_⟩
    cases found : ofRecord now record with
    | error other => rw [(blames_of_ofRecord distinct found).unique blames]
    | ok schema =>
        have accepts := accepts_of_ofRecord found
        cases blames with
        | mistyped first => exact absurd first.holds (accepts _ first.mem).1
        | refused _ first => exact absurd first.holds (accepts _ first.mem).2
  · refine ⟨fun ⟨schema, accepted⟩ => accepts_of_ofRecord accepted, fun accepts => ?_⟩
    cases found : ofRecord now record with
    | ok schema => exact ⟨schema, rfl⟩
    | error error =>
        cases blames_of_ofRecord distinct found with
        | mistyped first => exact absurd first.holds (accepts _ first.mem).1
        | refused _ first => exact absurd first.holds (accepts _ first.mem).2

def brokenEntries : List (Text × Value) :=
  [(Key.index, .boolean true), (utf8 "title", .string (utf8 "strang!")),
    (utf8 "author", .string (utf8 "->")), (utf8 "size", .integer .int 3)]

theorem ofRecord_error_iff_blames_broken :
    (OrderedMap.ofList brokenEntries).keys.Nodup ∧
      ∃ error, ofRecord Timestamp.zero (.ofList brokenEntries) = .error error ∧
        Blames (OrderedMap.ofList brokenEntries).toList error ∧ error.field = utf8 "size" := by
  have distinct : (OrderedMap.ofList brokenEntries).keys.Nodup := by decide
  have failed : ofRecord Timestamp.zero (.ofList brokenEntries) =
      .error { cause := .expressionNotString (utf8 "int"), field := utf8 "size" } := rfl
  have blames := (ofRecord_error_iff_blames Timestamp.zero (.ofList brokenEntries) distinct).1
  exact ⟨distinct, _, failed, (blames _).mp failed, rfl⟩

end Schema

end EntitySchema
