import EntitySchema.Emit.View
import EntitySchema.Proofs.Json.Double
import EntitySchema.Proofs.Json.Printed
import Mathlib.Data.List.Forall2

/-!
Documents as JSON. A document of valid texts, doubles and moments that can be written has a JSON
form of its own depth, whose arrays and objects hold what the lists and maps hold, in their order.
-/

namespace EntitySchema

theorem forall₂_of_mem {α β : Type} {known wanted : α → β → Prop} {items : List α}
    {shapes : List β} (alike : List.Forall₂ known items shapes)
    (each : ∀ item ∈ items, ∀ shape, known item shape → wanted item shape) :
    List.Forall₂ wanted items shapes := by
  induction alike with
  | nil => exact .nil
  | cons same _ ih =>
      rw [List.forall_mem_cons] at each
      exact .cons (each.1 _ same) (ih each.2)

theorem Text.isUtf8_literal (literal : String) : (utf8 literal).IsUtf8 := by
  refine ⟨literal.toList, ?_⟩
  rw [utf8, ← String.utf8Encode_toList, List.utf8Encode]
  simp [Text.ofChars]

theorem Text.isUtf8_ascii {text : Text} (ascii : ∀ byte ∈ text, byte < 0x80) : text.IsUtf8 :=
  ⟨_, (Json.ofChars_asciiChars ascii).symm⟩

theorem Json.isNumber_ofInt (number : Int) : IsNumber (Text.ofInt number) := by
  have isDigits := Text.isDigits_ofNat number.natAbs
  have isWhole : IsWhole (Text.ofNat number.natAbs) :=
    isWhole_of_head isDigits ((Decimal.head_ofNat_cases number.natAbs).imp_left And.left)
  rw [Text.ofInt]
  split
  · simpa using IsNumber.parts (show [0x2D] ∈ ([[], [0x2D]] : List Text) by decide) isWhole
      .none .none
  · simpa using IsNumber.parts (show [] ∈ ([[], [0x2D]] : List Text) by decide) isWhole .none .none

namespace Timestamp

theorem pad_ascii (width number : Nat) : ∀ byte ∈ pad width number, byte < 0x80 := by
  have isDigits : (pad width number).IsDigits :=
    Decimal.isDigits_padLeft (Text.isDigits_ofNat number) width
  exact fun byte member => Lexer.digit_ascii (isDigits.2 byte member)

theorem fractionText_ascii (nanosecond : Nat) : ∀ byte ∈ fractionText nanosecond, byte < 0x80 := by
  rw [fractionText]
  split
  · simp
  · rw [List.forall_mem_append]
    refine ⟨forall_mem_of_all (by decide), fun byte member => pad_ascii 9 nanosecond byte ?_⟩
    rw [dropTrailingZeros, List.mem_reverse] at member
    exact List.mem_reverse.mp ((List.dropWhile_sublist _).subset member)

theorem offsetText_ascii (offset : Int) : ∀ byte ∈ offsetText offset, byte < 0x80 := by
  rw [offsetText]
  split
  · exact forall_mem_of_all (by decide)
  · simp only [List.forall_mem_append]
    refine ⟨⟨⟨?_, pad_ascii _ _⟩, forall_mem_of_all (by decide)⟩, pad_ascii _ _⟩
    split <;> exact forall_mem_of_all (by decide)

theorem yearText_ascii (year : Int) : ∀ byte ∈ yearText year, byte < 0x80 := by
  rw [yearText, List.forall_mem_append]
  refine ⟨?_, pad_ascii _ _⟩
  split <;> exact forall_mem_of_all (by decide)

theorem render_ascii (time : Timestamp) : ∀ byte ∈ time.render, byte < 0x80 := by
  have mark {text : Text} (ascii : (text.all fun byte => decide (byte < 0x80)) = true) :
      ∀ byte ∈ text, byte < 0x80 := forall_mem_of_all ascii
  simp only [render, List.forall_mem_append]
  exact ⟨⟨⟨⟨⟨⟨⟨⟨⟨⟨⟨⟨yearText_ascii _, mark (by decide)⟩, pad_ascii _ _⟩, mark (by decide)⟩,
    pad_ascii _ _⟩, mark (by decide)⟩, pad_ascii _ _⟩, mark (by decide)⟩, pad_ascii _ _⟩,
    mark (by decide)⟩, pad_ascii _ _⟩, fractionText_ascii _⟩, offsetText_ascii _⟩

end Timestamp

namespace Document

/-- Documents that can be written as JSON, nested in each other up to a depth. -/
inductive Fits : Nat → Document → Prop
  | null {depth : Nat} : Fits depth .null
  | boolean {depth : Nat} (value : Bool) : Fits depth (.boolean value)
  | integer {depth : Nat} (value : Int) : Fits depth (.integer value)
  | number {depth : Nat} {value : Binary} : value.IsDouble → Fits depth (.number value)
  | string {depth : Nat} {text : Text} : text.IsUtf8 → Fits depth (.string text)
  | timestamp {depth : Nat} {time : Timestamp} : time.fault? = none → Fits depth (.timestamp time)
  | list {depth : Nat} {items : List Document} : (∀ item ∈ items, Fits depth item) →
      Fits (depth + 1) (.list items)
  | map {depth : Nat} {members : List (Text × Document)} :
      (∀ member ∈ members, member.1.IsUtf8) → (∀ member ∈ members, Fits depth member.2) →
      Fits (depth + 1) (.map members)
  | table {depth : Nat} {entries : List (Text × Document)} :
      (∀ entry ∈ entries, entry.1.IsUtf8) → (∀ entry ∈ entries, Fits depth entry.2) →
      Fits (depth + 1) (.table entries)

section Fits

variable {depth : Nat}

theorem exists_items {items : List Document}
    (all : ∀ item ∈ items, ∃ json, item.toJson = .ok json ∧ Json.Printable depth json) :
    ∃ jsons, itemsToJson items = .ok jsons ∧ ∀ json ∈ jsons, Json.Printable depth json := by
  induction items with
  | nil => exact ⟨[], rfl, by simp⟩
  | cons item items ih =>
      rw [List.forall_mem_cons] at all
      obtain ⟨⟨json, written, printable⟩, others⟩ := all
      obtain ⟨jsons, same, printables⟩ := ih others
      exact ⟨json :: jsons, by simp [itemsToJson, written, same, Except.map],
        List.forall_mem_cons.mpr ⟨printable, printables⟩⟩

theorem exists_members {members : List (Text × Document)}
    (keys : ∀ member ∈ members, member.1.IsUtf8)
    (all : ∀ member ∈ members, ∃ json, member.2.toJson = .ok json ∧ Json.Printable depth json) :
    ∃ pairs, membersToJson members = .ok pairs ∧ (∀ pair ∈ pairs, pair.1.IsUtf8) ∧
      ∀ pair ∈ pairs, Json.Printable depth pair.2 := by
  induction members with
  | nil => exact ⟨[], rfl, by simp, by simp⟩
  | cons member members ih =>
      rw [List.forall_mem_cons] at keys all
      obtain ⟨⟨json, written, printable⟩, others⟩ := all
      obtain ⟨pairs, same, pairKeys, printables⟩ := ih keys.2 others
      exact ⟨(member.1, json) :: pairs, by simp [membersToJson, written, same, Except.map],
        List.forall_mem_cons.mpr ⟨keys.1, pairKeys⟩,
        List.forall_mem_cons.mpr ⟨printable, printables⟩⟩

theorem Fits.exists_json {document : Document} (fits : document.Fits depth) :
    ∃ json, document.toJson = .ok json ∧ Json.Printable depth json := by
  induction fits with
  | null => exact ⟨_, rfl, .null⟩
  | boolean value => exact ⟨_, rfl, .boolean value⟩
  | integer value => exact ⟨_, rfl, .number (Json.isNumber_ofInt value)⟩
  | @number _ value isDouble =>
      have finite : value.isFinite = true := by
        cases value with
        | finite => rfl
        | infinite => exact isDouble.elim
        | nan => exact isDouble.elim
      exact ⟨_, by rw [toJson, if_pos finite], .number (Binary.readDouble?_render_json isDouble).1⟩
  | string isUtf8 => exact ⟨_, rfl, .string isUtf8⟩
  | @timestamp _ time writable =>
      refine ⟨.string time.render, by rw [toJson, writable], ?_⟩
      exact .string (Text.isUtf8_ascii time.render_ascii)
  | list _ ih =>
      obtain ⟨jsons, written, printable⟩ := exists_items ih
      exact ⟨.array jsons, by rw [toJson, written]; rfl, .array printable⟩
  | map keys _ ih =>
      obtain ⟨pairs, written, pairKeys, printable⟩ := exists_members keys ih
      exact ⟨.object pairs, by rw [toJson, written]; rfl, .object pairKeys printable⟩
  | table keys _ ih =>
      obtain ⟨pairs, written, pairKeys, printable⟩ := exists_members keys ih
      exact ⟨.object pairs, by rw [toJson, written]; rfl, .object pairKeys printable⟩

end Fits

theorem itemsToJson_eq_ok {items : List Document} {jsons : List Json}
    (written : itemsToJson items = .ok jsons) :
    List.Forall₂ (fun item json => item.toJson = .ok json) items jsons := by
  induction items generalizing jsons with
  | nil =>
      obtain rfl := Except.ok.inj written
      exact .nil
  | cons item items ih =>
      rw [itemsToJson] at written
      cases first : item.toJson with
      | error => simp [first] at written
      | ok json =>
          cases others : itemsToJson items with
          | error => simp [first, others, Except.map] at written
          | ok rest =>
              simp only [first, others, Except.map, Except.ok.injEq] at written
              subst written
              exact .cons first (ih others)

theorem membersToJson_eq_ok {members : List (Text × Document)} {pairs : List (Text × Json)}
    (written : membersToJson members = .ok pairs) :
    List.Forall₂ (fun member pair => member.1 = pair.1 ∧ member.2.toJson = .ok pair.2)
      members pairs := by
  induction members generalizing pairs with
  | nil =>
      obtain rfl := Except.ok.inj written
      exact .nil
  | cons member members ih =>
      rw [membersToJson] at written
      cases first : member.2.toJson with
      | error => simp [first] at written
      | ok json =>
          cases others : membersToJson members with
          | error => simp [first, others, Except.map] at written
          | ok rest =>
              simp only [first, others, Except.map, Except.ok.injEq] at written
              subst written
              exact .cons ⟨rfl, first⟩ (ih others)

theorem list_toJson {items : List Document} {json : Json}
    (written : (Document.list items).toJson = .ok json) :
    ∃ jsons, json = .array jsons ∧
      List.Forall₂ (fun item json => item.toJson = .ok json) items jsons := by
  rw [toJson] at written
  cases found : itemsToJson items with
  | error => simp [found, Except.map] at written
  | ok jsons =>
      simp only [found, Except.map, Except.ok.injEq] at written
      exact ⟨jsons, written.symm, itemsToJson_eq_ok found⟩

theorem list_map_toJson {α : Type} {write : α → Document} {shape : α → Json}
    (all : ∀ item, (write item).toJson = .ok (shape item)) (items : List α) :
    (Document.list (items.map write)).toJson = .ok (.array (items.map shape)) := by
  have written : itemsToJson (items.map write) = .ok (items.map shape) := by
    induction items with
    | nil => rfl
    | cons item items ih => simp [itemsToJson, all, ih, Except.map]
  rw [toJson, written]
  rfl

theorem timestamp_toJson {time : Timestamp} {json : Json}
    (written : (Document.timestamp time).toJson = .ok json) : json = .string time.render := by
  rw [toJson] at written
  split at written
  next => exact (Except.ok.inj written).symm
  next => simp at written

theorem members_toJson {members : List (Text × Document)} {json : Json}
    (written : (membersToJson members).map Json.object = .ok json) :
    ∃ pairs, json = .object pairs ∧
      List.Forall₂ (fun member pair => member.1 = pair.1 ∧ member.2.toJson = .ok pair.2)
        members pairs := by
  cases found : membersToJson members with
  | error => simp [found, Except.map] at written
  | ok pairs =>
      simp only [found, Except.map, Except.ok.injEq] at written
      exact ⟨pairs, written.symm, membersToJson_eq_ok found⟩

section Map

variable {members : List (Text × Document)} {json : Json}

theorem member?_toJson (written : (Document.map members).toJson = .ok json) (key : Text) :
    (members.lookup key).map toJson = (json.member? key).map .ok := by
  rw [toJson] at written
  obtain ⟨pairs, rfl, alike⟩ := members_toJson written
  rw [Json.member?]
  clear written
  induction alike with
  | nil => rfl
  | @cons member pair _ _ same _ ih =>
      obtain ⟨key', value⟩ := member
      obtain ⟨_, json⟩ := pair
      obtain ⟨rfl, valueWritten⟩ := same
      rw [List.lookup_cons, List.lookup_cons]
      cases key == key' with
      | true => simp [valueWritten]
      | false => exact ih

theorem member?_eq (written : (Document.map members).toJson = .ok json) (key : Text)
    {expected : Option Json} (found : (members.lookup key).map toJson = expected.map .ok) :
    json.member? key = expected :=
  Option.map_injective (fun _ _ => Except.ok.inj) ((member?_toJson written key).symm.trans found)

theorem exists_member (written : (Document.map members).toJson = .ok json) (key : Text)
    {value : Document} (found : members.lookup key = some value) :
    ∃ shape, value.toJson = .ok shape ∧ json.member? key = some shape := by
  have same := member?_toJson written key
  rw [found, Option.map_some, eq_comm, Option.map_eq_some_iff] at same
  obtain ⟨shape, member, ok⟩ := same
  exact ⟨shape, ok.symm, member⟩

theorem member?_rel {α : Type} {shows : α → Json → Prop}
    (written : (Document.map members).toJson = .ok json) {key : Text} {value : Option α}
    (write : α → Document) (found : members.lookup key = value.map write)
    (shown : ∀ item ∈ value, ∀ json, (write item).toJson = .ok json → shows item json) :
    Option.Rel shows value (json.member? key) := by
  cases value with
  | none =>
      rw [member?_eq written key (show _ = Option.map Except.ok none by rw [found]; rfl)]
      exact .none
  | some item =>
      obtain ⟨shape, ok, member⟩ := exists_member written key found
      rw [member]
      exact .some (shown item rfl shape ok)

theorem member?_moment (written : (Document.map members).toJson = .ok json) {key : Text}
    {omits : Bool} {time : Timestamp}
    (found : members.lookup key = if omits then none else some (.timestamp time)) :
    json.member? key = if omits then none else some (.string time.render) := by
  cases omits with
  | true => exact member?_eq written key (by simp [found])
  | false =>
      obtain ⟨shape, stamped, member⟩ := exists_member written key found
      rw [member, timestamp_toJson stamped]
      rfl

theorem keys_toJson (written : (Document.map members).toJson = .ok json) :
    ∃ pairs, json = .object pairs ∧ pairs.map Prod.fst = members.map Prod.fst := by
  rw [toJson] at written
  obtain ⟨pairs, rfl, alike⟩ := members_toJson written
  refine ⟨pairs, rfl, ?_⟩
  clear written
  induction alike with
  | nil => rfl
  | cons same _ ih => rw [List.map_cons, List.map_cons, ih, same.1]

end Map

end Document

end EntitySchema
