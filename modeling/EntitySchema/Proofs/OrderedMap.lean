import EntitySchema.OrderedMap
import EntitySchema.Proofs.Text.Order
import Mathlib.Data.List.Basic

/-!
Ordered maps as lists of pairs with distinct keys. A new key goes behind all others, and every map
that is built entry by entry keeps its keys distinct.
-/

namespace EntitySchema.OrderedMap

variable {α : Type} {map : OrderedMap α} {key : Text} {value : α}

theorem keys_eq (map : OrderedMap α) : map.keys = map.toList.map Prod.fst := by
  simp [keys, toList]

theorem contains_iff : map.contains key = true ↔ key ∈ map.keys := by
  simp [contains, find?, keys]

theorem notMem_keys_of_find?_eq_none (absent : map.find? key = none) : key ∉ map.keys := by
  rw [← contains_iff, contains, absent, Option.isSome_none]
  exact Bool.false_ne_true

theorem mem_of_find?_eq_some {entry : Entry α} (found : map.find? key = some entry) :
    entry ∈ map.entries ∧ entry.key = key := by
  rw [find?] at found
  exact ⟨List.mem_of_find?_eq_some found, by simpa using List.find?_some found⟩

theorem mem_toList_of_get?_eq_some (found : map.get? key = some value) :
    (key, value) ∈ map.toList := by
  obtain ⟨entry, same, rfl⟩ := Option.map_eq_some_iff.mp found
  obtain ⟨member, rfl⟩ := mem_of_find?_eq_some same
  exact List.mem_map.mpr ⟨entry, member, rfl⟩

theorem nodup_keys_concat {entries : List (Entry α)} {line : Nat}
    (distinct : (entries.map Entry.key).Nodup) (fresh : key ∉ entries.map Entry.key) :
    ((entries ++ [Entry.mk key value line]).map Entry.key).Nodup := by
  rw [List.map_append, List.nodup_append]
  refine ⟨distinct, by simp, ?_⟩
  intro known member other last same
  rw [List.map_singleton, List.mem_singleton] at last
  rw [same, last] at member
  exact fresh member

theorem keys_replace (key : Text) (value : α) (entries : List (Entry α)) :
    (replace key value entries).map Entry.key = entries.map Entry.key := by
  induction entries with
  | nil => rfl
  | cons entry entries ih =>
      unfold replace
      split <;> simp [ih]

theorem toList_set_of_notMem (fresh : key ∉ map.keys) :
    (map.set key value).toList = map.toList ++ [(key, value)] := by
  have absent : map.contains key = false := by
    rw [← Bool.not_eq_true, contains_iff]
    exact fresh
  simp [set, absent, toList]

theorem keys_set_of_notMem (fresh : key ∉ map.keys) :
    (map.set key value).keys = map.keys ++ [key] := by
  simp [keys_eq, toList_set_of_notMem fresh]

theorem keys_set_of_mem (known : key ∈ map.keys) : (map.set key value).keys = map.keys := by
  simp [set, contains_iff.mpr known, keys, keys_replace]

theorem nodup_keys_set (distinct : map.keys.Nodup) : (map.set key value).keys.Nodup := by
  by_cases known : key ∈ map.keys
  · rwa [keys_set_of_mem known]
  · rw [set, if_neg (by rwa [contains_iff])]
    exact nodup_keys_concat distinct known

theorem nodup_keys_ofList (pairs : List (Text × α)) : (ofList pairs).keys.Nodup := by
  have run : ∀ (pairs : List (Text × α)) (map : OrderedMap α), map.keys.Nodup →
      (pairs.foldl (fun map pair => map.set pair.1 pair.2) map).keys.Nodup := by
    intro pairs
    induction pairs with
    | nil => exact fun map distinct => distinct
    | cons pair pairs ih => exact fun map distinct => ih _ (nodup_keys_set distinct)
  exact run pairs empty (by simp [empty, keys])

theorem toList_ofList {pairs : List (Text × α)} (distinct : (pairs.map Prod.fst).Nodup) :
    (ofList pairs).toList = pairs := by
  have run : ∀ (pairs : List (Text × α)) (map : OrderedMap α),
      (map.keys ++ pairs.map Prod.fst).Nodup →
        (pairs.foldl (fun map pair => map.set pair.1 pair.2) map).toList = map.toList ++ pairs := by
    intro pairs
    induction pairs with
    | nil => simp
    | cons pair pairs ih =>
        intro map distinct
        have fresh : pair.1 ∉ map.keys := fun known =>
          (List.nodup_append.mp distinct).2.2 _ known _ (by simp) rfl
        rw [List.foldl_cons, ih, toList_set_of_notMem fresh, List.append_assoc,
          List.singleton_append]
        rwa [keys_set_of_notMem fresh, List.append_assoc, List.singleton_append]
  exact run pairs empty (by simpa [empty, keys] using distinct)

theorem find?_of_mem {entry : Entry α} (distinct : map.keys.Nodup) (member : entry ∈ map.entries) :
    map.find? entry.key = some entry := by
  obtain ⟨entries⟩ := map
  simp only [keys] at distinct
  simp only [find?]
  induction entries with
  | nil => simp at member
  | cons first entries ih =>
      rw [List.map_cons, List.nodup_cons] at distinct
      rcases List.mem_cons.mp member with rfl | later
      · simp
      · have different : first.key ≠ entry.key := by
          intro same
          exact distinct.1 (same ▸ List.mem_map_of_mem later)
        simp [different, ih distinct.2 later]

theorem get?_eq_some_of_mem (distinct : map.keys.Nodup) (member : (key, value) ∈ map.toList) :
    map.get? key = some value := by
  simp only [toList, List.mem_map, Prod.mk.injEq] at member
  obtain ⟨entry, inside, rfl, rfl⟩ := member
  rw [get?, find?_of_mem distinct inside, Option.map_some]

theorem find?_eq_none_of_notMem (absent : key ∉ map.keys) : map.find? key = none := by
  simpa [find?, keys] using absent

theorem get?_eq_none_of_notMem (absent : key ∉ map.keys) : map.get? key = none := by
  rw [get?, find?_eq_none_of_notMem absent, Option.map_none]

theorem get?_replace {entries : List (Entry α)} (known : key ∈ entries.map Entry.key)
    (other : Text) :
    (OrderedMap.mk (replace key value entries)).get? other =
      if other = key then some value else (OrderedMap.mk entries).get? other := by
  simp only [get?, find?]
  induction entries with
  | nil => simp at known
  | cons entry entries ih =>
      rw [replace]
      by_cases same : entry.key = key
      · by_cases found : other = key
        · simp [same, found]
        · simp [same, found, Ne.symm found]
      · have later : key ∈ entries.map Entry.key := by
          simpa [Ne.symm same] using known
        rw [if_neg same]
        by_cases first : entry.key = other
        · simp [first, first ▸ same]
        · simpa [first] using ih later

theorem get?_set (map : OrderedMap α) (key : Text) (value : α) (other : Text) :
    (map.set key value).get? other = if other = key then some value else map.get? other := by
  by_cases known : key ∈ map.keys
  · rw [set, if_pos (contains_iff.mpr known)]
    exact get?_replace known other
  · rw [set, if_neg (by simpa [contains_iff] using known)]
    by_cases same : other = key
    · have absent := get?_eq_none_of_notMem known
      simp only [get?, find?, Option.map_eq_none_iff] at absent
      simp [get?, find?, same, absent]
    · simp [get?, find?, same, Ne.symm same]

theorem get?_isSome_iff : (map.get? key).isSome = true ↔ key ∈ map.keys := by
  rw [← contains_iff, get?, Option.isSome_map, contains]

theorem get?_eq_lookup (map : OrderedMap α) (key : Text) :
    map.get? key = map.toList.lookup key := by
  obtain ⟨entries⟩ := map
  simp only [get?, find?, toList]
  induction entries with
  | nil => rfl
  | cons entry entries ih =>
      by_cases same : entry.key = key
      · simp [same]
      · simpa [same, List.lookup_cons, beq_false_of_ne (Ne.symm same)] using ih

theorem get?_of_perm {left right : OrderedMap α} (distinct : right.keys.Nodup)
    (permuted : left.toList.Perm right.toList) (key : Text) : left.get? key = right.get? key := by
  have sameKeys : left.keys.Perm right.keys := by
    rw [keys_eq, keys_eq]
    exact permuted.map Prod.fst
  by_cases known : key ∈ right.keys
  · have listed := known
    rw [keys_eq] at listed
    obtain ⟨⟨_, value⟩, member, rfl⟩ := List.mem_map.mp listed
    rw [get?_eq_some_of_mem distinct member]
    exact get?_eq_some_of_mem (sameKeys.nodup_iff.mpr distinct) (permuted.mem_iff.mpr member)
  · rw [get?_eq_none_of_notMem known,
      get?_eq_none_of_notMem fun member => known (sameKeys.mem_iff.mp member)]

theorem toList_sorted (map : OrderedMap α) : map.sorted.toList.Perm map.toList :=
  (List.mergeSort_perm map.entries _).map _

theorem increasing_keys_sorted (distinct : map.keys.Nodup) :
    map.sorted.keys.Pairwise (· < ·) := by
  have ordered : map.sorted.keys.Pairwise (· ≤ ·) := by
    rw [keys, sorted, List.pairwise_map]
    have inOrder := List.pairwise_mergeSort
      (fun first second third : Entry α => Text.le_trans first.key second.key third.key)
      (fun left right => Text.le_total left.key right.key) map.entries
    exact inOrder.imp Text.le_iff.mp
  have apart : map.sorted.keys.Nodup := by
    rw [keys_eq] at distinct ⊢
    exact (map.toList_sorted.map Prod.fst).nodup_iff.mpr distinct
  refine (ordered.and apart).imp ?_
  intro left right both
  by_contra notBelow
  exact both.2 (List.le_antisymm both.1 (List.not_lt.mp notBelow))

theorem toList_sorted_eq {β : Type} {entries : List (Text × β)} (change : α → β)
    (increasing : (entries.map Prod.fst).Pairwise (· < ·))
    (permuted : entries.Perm (map.toList.map fun entry => (entry.1, change entry.2))) :
    (map.sorted.toList.map fun entry => (entry.1, change entry.2)) = entries := by
  have sameKeys : (entries.map Prod.fst).Perm map.keys := by
    rw [keys_eq]
    simpa [Function.comp_def] using permuted.map Prod.fst
  have distinct : map.keys.Nodup := by
    refine sameKeys.nodup_iff.mp (increasing.imp ?_)
    intro left right below same
    exact List.lt_irrefl right (same ▸ below)
  have ordered := increasing_keys_sorted distinct
  rw [keys_eq, List.pairwise_map] at ordered
  rw [List.pairwise_map] at increasing
  refine List.Perm.eq_of_pairwise ?_ (List.pairwise_map.mpr ordered) increasing
    ((map.toList_sorted.map _).trans permuted.symm)
  intro left right _ _ below above
  exact absurd above (List.lt_asymm below)

theorem find?_concat (entries : List (Entry α)) (entry : Entry α) (key : Text) :
    (OrderedMap.mk (entries ++ [entry])).find? key =
      ((OrderedMap.mk entries).find? key).or (if entry.key = key then some entry else none) := by
  by_cases same : entry.key = key <;> simp [find?, same]

theorem find?_replace_line {entries : List (Entry α)} (other : Text) :
    ((OrderedMap.mk (replace key value entries)).find? other).map Entry.line =
      ((OrderedMap.mk entries).find? other).map Entry.line := by
  simp only [find?]
  induction entries with
  | nil => rfl
  | cons entry entries ih =>
      rw [replace]
      split <;> simp only [List.find?_cons] <;> split <;> simp_all

theorem lineOf_set (map : OrderedMap α) (key : Text) (value : α) (other : Text) :
    (map.set key value).lineOf other = map.lineOf other := by
  by_cases known : key ∈ map.keys
  · rw [set, if_pos (contains_iff.mpr known), lineOf, find?_replace_line]
    rfl
  · rw [set, if_neg (by rwa [contains_iff]), lineOf, find?_concat, lineOf]
    cases (OrderedMap.mk map.entries).find? other with
    | some entry => rfl
    | none => by_cases same : key = other <;> simp [same]

end EntitySchema.OrderedMap
