import EntitySchema.Proofs.Checked.Access
import EntitySchema.Proofs.Token.Quoted

/-!
Quoted strings read byte by byte: the quotes at both ends, the backslashes in front of the last one
counted backwards, and the escapes resolved from the front.
-/

namespace EntitySchema.Checked

open DefaultValue

variable {ε : Type}

def backslashesBefore (body : Text) : (index : Nat) → Checked ε Nat
  | 0 => .ok 0
  | index + 1 => do
    let byte ← item body index
    if byte = 0x5C then
      let others ← backslashesBefore body index
      .ok (others + 1)
    else .ok 0

def escaped (next : Byte) : Text :=
  if next = 0x27 || next = 0x22 || next = 0x5C then [next]
  else if next = 0x6E then [0x0A]
  else if next = 0x74 then [0x09]
  else [0x5C, next]

def resolveFrom (body : Text) (index : Nat) : Checked ε Text :=
  if index < body.length then do
    let byte ← item body index
    if byte ≠ 0x5C ∨ index + 1 = body.length then
      let rest ← resolveFrom body (index + 1)
      .ok (byte :: rest)
    else
      let next ← item body (index + 1)
      let rest ← resolveFrom body (index + 2)
      .ok (escaped next ++ rest)
  else .ok []
termination_by body.length - index

def unquote (text : Text) : Checked ε (Option Text) :=
  if text.length < 2 then .ok none
  else do
    let last ← item text (text.length - 1)
    let quote ← item text 0
    if last ≠ quote then .ok none
    else
      let body ← slice text 1 (text.length - 1)
      let backslashes ← backslashesBefore body body.length
      if backslashes % 2 = 1 then .ok none
      else
        let resolved ← resolveFrom body 0
        .ok (some resolved)

theorem backslashesBefore_eq {body : Text} {index : Nat} (bound : index ≤ body.length) :
    (backslashesBefore body index : Checked ε Nat) =
      .ok ((body.take index).reverse.takeWhile fun byte => byte = 0x5C).length := by
  induction index with
  | zero => rfl
  | succ index ih =>
      have inside : index < body.length := bound
      rw [backslashesBefore, item_of_lt inside, ok_bind, List.take_succ_eq_append_getElem inside,
        List.reverse_append, List.reverse_singleton, List.singleton_append]
      by_cases backslash : body[index] = 0x5C
      · rw [if_pos backslash, ih (by omega), ok_bind,
          List.takeWhile_cons_of_pos (by simpa using backslash), List.length_cons]
      · rw [if_neg backslash, List.takeWhile_cons_of_neg (by simpa using backslash)]
        rfl

theorem resolveEscapes_backslash (next : Byte) (rest : Text) :
    resolveEscapes (0x5C :: next :: rest) = escaped next ++ resolveEscapes rest := by
  rw [resolveEscapes, escaped]
  split_ifs <;> rfl

theorem resolveFrom_eq (body : Text) (index : Nat) :
    (resolveFrom body index : Checked ε Text) = .ok (resolveEscapes (body.drop index)) := by
  induction left : body.length - index using Nat.strongRecOn generalizing index with
  | ind size ih =>
      rw [resolveFrom]
      by_cases inside : index < body.length
      · have shape := List.drop_eq_getElem_cons inside
        rw [if_pos inside, item_of_lt inside, ok_bind, shape]
        by_cases plain : body[index] ≠ 0x5C
        · rw [if_pos (Or.inl plain), ih _ (by omega) (index + 1) rfl, ok_bind,
            resolveEscapes_cons plain]
        · rw [not_not] at plain
          by_cases last : index + 1 = body.length
          · rw [if_pos (Or.inr last), ih _ (by omega) (index + 1) rfl, ok_bind, last,
              List.drop_length]
            rfl
          · have further : index + 1 < body.length := by omega
            rw [if_neg (by simp [plain, last]), item_of_lt further, ok_bind,
              ih _ (by omega) (index + 2) rfl, ok_bind, List.drop_eq_getElem_cons further, plain,
              resolveEscapes_backslash]
      · rw [if_neg inside, List.drop_eq_nil_of_le (by omega)]
        rfl

theorem unquote_eq (text : Text) :
    (unquote text : Checked ε (Option Text)) = .ok (unquote? text) := by
  match text with
  | [] => rfl
  | [_] => rfl
  | quote :: second :: others =>
      generalize shape : second :: others = rest
      have inside : rest ≠ [] := by
        rw [← shape]
        exact List.cons_ne_nil _ _
      obtain ⟨last, atEnd⟩ : ∃ last, rest.getLast? = some last :=
        ⟨_, List.getLast?_eq_some_getLast inside⟩
      have long : 2 ≤ (quote :: rest).length := by
        rw [← shape]
        simp
      have found : (quote :: rest)[(quote :: rest).length - 1]? = some last := by
        rw [← List.getLast?_eq_getElem?, List.getLast?_cons_of_ne_nil inside, atEnd]
      have body : ((quote :: rest).take ((quote :: rest).length - 1)).drop 1 = rest.dropLast := by
        rw [← List.dropLast_eq_take, List.dropLast_cons_of_ne_nil inside]
        rfl
      have first : (quote :: rest)[0]? = some quote := rfl
      rw [unquote, if_neg (by omega), item_of_getElem? found, ok_bind, item_of_getElem? first,
        ok_bind, unquote?_cons inside, atEnd]
      by_cases same : last = quote
      · have within : 1 ≤ (quote :: rest).length - 1 ∧
            (quote :: rest).length - 1 ≤ (quote :: rest).length := by omega
        rw [if_neg (not_not_intro same), slice, if_pos within, body, ok_bind,
          backslashesBefore_eq (Nat.le_refl _), List.take_length, ok_bind]
        by_cases odd : (rest.dropLast.reverse.takeWhile fun byte => byte = 0x5C).length % 2 = 1
        · rw [if_pos odd, if_neg (by omega)]
        · rw [if_neg odd, if_pos ⟨congrArg some same, by omega⟩, resolveFrom_eq, ok_bind,
            List.drop_zero]
      · have closed : ¬(some last = some quote ∧
            (rest.dropLast.reverse.takeWhile fun byte => byte = 0x5C).length % 2 = 0) :=
          fun closing => same (Option.some.inj closing.1)
        rw [if_pos same, if_neg closed]

end EntitySchema.Checked
