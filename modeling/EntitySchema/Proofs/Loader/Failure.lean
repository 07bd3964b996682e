import EntitySchema.Proofs.Loader.Transparency
import EntitySchema.Proofs.Schema.Refusal
import EntitySchema.Proofs.Yaml.Decoded

/-!
What a load says when it fails. It tells of the first record that has no schema, and of the line on
which the key at fault stands; a content that gives no records is blamed as a whole.
-/

namespace EntitySchema

theorem Schema.field_mem_keys {now : Timestamp} {record : Record} {error : ParseError}
    (distinct : record.keys.Nodup) (refused : Schema.ofRecord now record = .error error) :
    error.field ∈ record.keys := by
  have known {key : Text} {value : Value} (member : (key, value) ∈ record.toList) :
      key ∈ record.keys := by
    rw [OrderedMap.keys_eq]
    exact List.mem_map_of_mem member
  cases Schema.blames_of_ofRecord distinct refused with
  | mistyped first _ _ _ own => exact own ▸ known first.mem
  | refused _ first _ same => exact same ▸ known first.mem

/-- What a failure says of records that were read from a path: which of them is refused, and why. -/
structure LoadError.Blames (failure : LoadError) (now : Timestamp) (path : Text)
    (records : List Record) (index : Nat) (record : Record) (error : ParseError) : Prop where
  stands : records[index]? = some record
  refused : Schema.ofRecord now record = .error error
  earlier : ∀ before < index, ∀ other, records[before]? = some other →
    ∃ schema, Schema.ofRecord now other = .ok schema
  given : failure.path = path
  number : failure.record = some index
  cause : failure.cause = .invalid error
  named : error.field ≠ [] →
    error.field ∈ record.keys ∧ failure.line = record.lineOf error.field ∧ 1 ≤ failure.line
  unnamed : error.field = [] → failure.line = 0

theorem LoadError.blames_atRecord {now : Timestamp} {path : Text} {front rest : List Record}
    {record : Record} {error : ParseError} (placed : record.Placed)
    (accepted : ∀ other ∈ front, ∃ schema, Schema.ofRecord now other = .ok schema)
    (refused : Schema.ofRecord now record = .error error) :
    (LoadError.atRecord path front.length record error).Blames now path
      (front ++ record :: rest) front.length record error where
  stands := by simp
  refused := refused
  earlier := by
    intro before inside other found
    rw [List.getElem?_append_left inside] at found
    exact accepted other (List.mem_of_getElem? found)
  given := rfl
  number := rfl
  cause := rfl
  named := by
    intro named
    have line : (LoadError.atRecord path front.length record error).line =
        record.lineOf error.field := by
      rw [LoadError.atRecord, if_neg (by simpa using named)]
    have known := Schema.field_mem_keys placed.distinct refused
    exact ⟨known, line, line ▸ placed.lineOf known⟩
  unnamed := by
    intro unnamed
    rw [LoadError.atRecord, if_pos (by simpa using unnamed)]

namespace FileContent

theorem schemasOf_eq_error {now : Timestamp} {records : List Record} {record : Record}
    {error : ParseError} (member : record ∈ records)
    (refused : Schema.ofRecord now record = .error error) (path : Text) (index : Nat) :
    ∃ front first rest refusal, records = front ++ first :: rest ∧
      (∀ other ∈ front, ∃ schema, Schema.ofRecord now other = .ok schema) ∧
      Schema.ofRecord now first = .error refusal ∧
      schemasOf now path index records =
        .error (.atRecord path (index + front.length) first refusal) := by
  induction records generalizing index with
  | nil => exact nomatch member
  | cons head records ih =>
      rw [schemasOf]
      cases own : Schema.ofRecord now head with
      | error refusal => exact ⟨[], head, records, refusal, rfl, by simp, own, rfl⟩
      | ok schema =>
          have behind : record ∈ records := by
            rcases List.mem_cons.mp member with rfl | behind
            · rw [own] at refused
              contradiction
            · exact behind
          obtain ⟨front, first, rest, refusal, split, accepted, refused, failed⟩ :=
            ih behind (index + 1)
          refine ⟨head :: front, first, rest, refusal, by rw [split, List.cons_append], ?_,
            refused, ?_⟩
          · exact List.forall_mem_cons.mpr ⟨⟨schema, own⟩, accepted⟩
          · rw [failed, List.length_cons, Nat.add_assoc, Nat.add_comm 1]

end FileContent

namespace Loader

variable {now : Timestamp} {files : FileSystem} {loader : Loader} {path text : Text}

theorem load_of_refused {error : LoadError} (read : textAt files path = .ok text)
    (missing : loader.lookup? (absolutePath files path) (Hash.hash text) = none)
    (refused : FileContent.ofText now path (absolutePath files path) text = .error error) :
    loader.load now files path = (loader, .error error) := by
  have outcome := loads_load now files loader path
  generalize loader.load now files path = result at outcome
  cases outcome with
  | unreadable failed => simp [read] at failed
  | kept readAgain found =>
      obtain rfl := Except.ok.inj (read.symm.trans readAgain)
      simp [missing] at found
  | refused readAgain _ refusedAgain =>
      obtain rfl := Except.ok.inj (read.symm.trans readAgain)
      rw [Except.error.inj (refused.symm.trans refusedAgain)]
  | made readAgain _ made =>
      obtain rfl := Except.ok.inj (read.symm.trans readAgain)
      simp [refused] at made

/--
A load of a content that is not kept yet fails if one of its records is refused, or if it gives no
records at all, and then leaves what is kept as it was.
-/
theorem load_locates_failure {format : FileFormat} (read : textAt files path = .ok text)
    (missing : loader.lookup? (absolutePath files path) (Hash.hash text) = none)
    (known : FileFormat.ofPath (absolutePath files path) = .ok format) :
    (∀ records, Record.decode format text = .ok records →
      (∃ record ∈ records, ∃ error, Schema.ofRecord now record = .error error) →
      ∃ failure index record error, loader.load now files path = (loader, .error failure) ∧
        failure.Blames now path records index record error) ∧
    ∀ cause, Record.decode format text = .error cause →
      loader.load now files path = (loader,
        .error { path := path, record := none, line := 0, cause := .undecodable cause }) := by
  constructor
  · rintro records decoded ⟨record, member, error, refused⟩
    obtain ⟨front, first, rest, refusal, rfl, accepted, refused, failed⟩ :=
      FileContent.schemasOf_eq_error member refused path 0
    rw [Nat.zero_add] at failed
    have made : FileContent.ofText now path (absolutePath files path) text =
        .error (.atRecord path front.length first refusal) := by
      simp only [FileContent.ofText, known, decoded, failed]
    have placed : first.Placed := Record.placed_of_decode decoded first (by simp)
    exact ⟨_, _, _, _, load_of_refused read missing made,
      LoadError.blames_atRecord placed accepted refused⟩
  · intro cause rejected
    apply load_of_refused read missing
    simp only [FileContent.ofText, known, rejected]

open LoaderSession (noteFiles)

def mixedNote : Text := utf8 "$type: A\n---\n- $type: B\n- $type: C\n  size: 5\n"

def noteLoader : Loader :=
  (load Timestamp.zero (noteFiles (utf8 "$type: A\n")) {} (utf8 "a.yaml")).1

theorem load_locates_failure_note :
    noteLoader.cachedPaths = [utf8 "/notes/a.yaml"] ∧
      ∃ records failure index record error, Record.decode .yaml mixedNote = .ok records ∧
        noteLoader.load Timestamp.zero (noteFiles mixedNote) (utf8 "./a.yaml") =
          (noteLoader, .error failure) ∧
        failure.Blames Timestamp.zero (utf8 "./a.yaml") records index record error ∧
        failure.record = some 2 ∧ failure.line = 5 := by
  have refused : ((Record.decode .yaml mixedNote).map fun records =>
      records.any fun record => !(Schema.ofRecord Timestamp.zero record).isOk).toOption =
        some true := by decide +kernel
  have told : ((noteLoader.load Timestamp.zero (noteFiles mixedNote) (utf8 "./a.yaml")).2.mapError
      fun failure => (failure.record, failure.line)).map (fun _ => ()) =
        .error (some 2, 5) := by decide +kernel
  refine ⟨by decide +kernel, ?_⟩
  cases decoded : Record.decode .yaml mixedNote with
  | error cause => simp [decoded, Except.map, Except.toOption] at refused
  | ok records =>
      rw [decoded] at refused
      obtain ⟨record, member, failed⟩ := List.any_eq_true.mp (Option.some.inj refused)
      cases outcome : Schema.ofRecord Timestamp.zero record with
      | ok schema => simp [outcome, Except.isOk, Except.toBool] at failed
      | error error =>
          have read : textAt (noteFiles mixedNote) (utf8 "./a.yaml") = .ok mixedNote := by
            decide +kernel
          have missing : noteLoader.lookup? (absolutePath (noteFiles mixedNote) (utf8 "./a.yaml"))
              (Hash.hash mixedNote) = none := by decide +kernel
          obtain ⟨failure, index, first, refusal, loaded, blames⟩ :=
            (load_locates_failure read missing (by decide +kernel)).1 records decoded
              ⟨record, member, error, outcome⟩
          rw [loaded] at told
          obtain ⟨number, line⟩ := Prod.mk.inj (Except.error.inj told)
          exact ⟨records, failure, index, first, refusal, rfl, loaded, blames, number, line⟩

end Loader

end EntitySchema
