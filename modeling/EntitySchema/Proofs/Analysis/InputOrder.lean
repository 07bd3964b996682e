import EntitySchema.Proofs.Analysis.Integrity
import EntitySchema.Proofs.Analysis.Order
import Mathlib.Data.List.Flatten
import Mathlib.Data.List.Perm.Basic

/-!
The order of the inputs. As long as no two inputs share a name, a rule knows the others by their
names only, so it finds the same at each of them wherever they stand. Inputs that share a name are
an error in every order.
-/

namespace EntitySchema

open Diagnostic AnalysisInput

namespace AnalysisInput

variable {inputs others : List AnalysisInput}

def Elsewhere (left right : AnalysisInput) : Prop := left.path ≠ right.path

instance : Std.Symm Elsewhere where
  symm _ _ different := Ne.symm different

instance : DecidableRel Elsewhere := fun _ _ => inferInstanceAs (Decidable (_ ≠ _))

instance : DecidableRel Apart := fun _ _ => inferInstanceAs (Decidable (_ → _))

theorem lookup?_of_perm (permuted : inputs.Perm others) (apart : inputs.Pairwise Apart) :
    lookup? inputs = lookup? others := by
  funext name
  have apart' : others.Pairwise Apart := permuted.pairwise apart symm
  cases found : lookup? inputs name with
  | some target =>
      obtain ⟨inside, rfl⟩ := lookup?_eq_some found
      have named : target.schema.name ≠ [] := by
        intro empty
        simp [lookup?, empty] at found
      exact (lookup?_of_mem apart' (permuted.mem_iff.mp inside) named).symm
  | none =>
      by_cases named : name = []
      · simp [lookup?, named]
      · rw [lookup?_eq_none named] at found
        symm
        rw [lookup?_eq_none named]
        intro input member
        exact found input (permuted.mem_iff.mpr member)

theorem flatMap_of_perm {found : AnalysisInput → List Diagnostic} (path : Text)
    (permuted : inputs.Perm others) (elsewhere : inputs.Pairwise Elsewhere)
    (silent : ∀ input, input.path ≠ path → found input = []) :
    inputs.flatMap found = others.flatMap found := by
  induction permuted with
  | nil => rfl
  | cons input _ ih =>
      rw [List.flatMap_cons, List.flatMap_cons, ih (List.pairwise_cons.mp elsewhere).2]
  | swap first second rest =>
      have different : second.path ≠ first.path :=
        (List.pairwise_cons.mp elsewhere).1 first List.mem_cons_self
      by_cases here : first.path = path
      · simp [silent second (here ▸ different)]
      · simp [silent first here]
  | trans permuted _ ih ih' =>
      exact (ih elsewhere).trans (ih' (permuted.pairwise elsewhere symm))

end AnalysisInput

namespace Rule

variable {inputs others : List AnalysisInput} {rule : Rule}

/-- What a rule finds at each input among others, which it knows by their names only. -/
structure FindsAt (rule : Rule) (check : List AnalysisInput → AnalysisInput → List Diagnostic) :
    Prop where
  run_eq : ∀ inputs, inputs.Pairwise Apart → rule.run inputs = inputs.flatMap (check inputs)
  check_eq : ∀ inputs others, lookup? inputs = lookup? others → check inputs = check others
  path_eq : ∀ inputs input, ∀ diagnostic ∈ check inputs input, diagnostic.path = input.path

theorem exists_findsAt (known : rule ∈ all) : ∃ check, rule.FindsAt check := by
  simp only [all, List.mem_cons, List.not_mem_nil, or_false] at known
  rcases known with rfl | rfl | rfl | rfl | rfl | rfl | rfl | rfl | rfl | rfl | rfl
  -- Shared names are looked for among all inputs at once, but there are none to be found here.
  · refine ⟨fun _ _ => [], fun inputs apart => ?_, fun _ _ _ => rfl, by simp⟩
    simp [duplicateSchema_run_eq_nil.mpr apart]
  all_goals
    refine ⟨_, fun inputs _ => rfl, fun inputs others same => ?_, fun inputs input => ?_⟩
    · simp only [same]
    · intro diagnostic found
      grind [report, Option.map_eq_some_iff]

theorem run_of_perm (known : rule ∈ all) (permuted : inputs.Perm others)
    (apart : inputs.Pairwise Apart) : (rule.run inputs).Perm (rule.run others) := by
  obtain ⟨check, findsAt⟩ := exists_findsAt known
  have same := findsAt.check_eq inputs others (lookup?_of_perm permuted apart)
  rw [findsAt.run_eq inputs apart, findsAt.run_eq others (permuted.pairwise apart symm), same]
  exact permuted.flatMap_right _

theorem filter_run_of_perm (known : rule ∈ all) (permuted : inputs.Perm others)
    (apart : inputs.Pairwise Apart) (elsewhere : inputs.Pairwise Elsewhere) (place : Diagnostic) :
    (rule.run inputs).filter (SamePlace place ·) =
      (rule.run others).filter (SamePlace place ·) := by
  obtain ⟨check, findsAt⟩ := exists_findsAt known
  have same := findsAt.check_eq inputs others (lookup?_of_perm permuted apart)
  rw [findsAt.run_eq inputs apart, findsAt.run_eq others (permuted.pairwise apart symm), same,
    List.filter_flatMap, List.filter_flatMap]
  refine flatMap_of_perm place.path permuted elsewhere fun input different => ?_
  rw [List.filter_eq_nil_iff]
  intro diagnostic found here
  rw [decide_eq_true_eq] at here
  exact different ((findsAt.path_eq others input diagnostic found).symm.trans here.1.symm)

end Rule

theorem hasErrors_of_not_apart {inputs : List AnalysisInput} (shared : ¬inputs.Pairwise Apart) :
    hasErrors (analyze inputs) = true := by
  rw [← Bool.not_eq_false, hasErrors_analyze_eq_false]
  intro silent
  have known : Rule.duplicateSchema ∈ Rule.all := List.mem_cons_self
  exact shared (Rule.duplicateSchema_run_eq_nil.mp (silent _ known rfl))

theorem analyze_perm {inputs others : List AnalysisInput} (permuted : inputs.Perm others)
    (apart : inputs.Pairwise Apart) : (analyze inputs).Perm (analyze others) := by
  have found : (Rule.all.flatMap fun rule => rule.run inputs).Perm
      (Rule.all.flatMap fun rule => rule.run others) :=
    List.Perm.flatMap_left _ fun rule known => Rule.run_of_perm known permuted apart
  exact ((List.mergeSort_perm _ _).trans found).trans (List.mergeSort_perm _ _).symm

theorem analyze_eq_of_perm {inputs others : List AnalysisInput} (permuted : inputs.Perm others)
    (apart : inputs.Pairwise Apart) (elsewhere : inputs.Pairwise Elsewhere) :
    analyze inputs = analyze others := by
  refine eq_of_sorted (sorted_mergeSort _) (sorted_mergeSort _) (analyze_perm permuted apart) ?_
  intro place
  simp only [analyze, analyzeWith, filter_mergeSort, List.filter_flatMap]
  exact List.flatMap_congr fun rule known =>
    Rule.filter_run_of_perm known permuted apart elsewhere place

/--
The order of the inputs does not change the outcome of an analysis: there are errors in every order
or in none. If no two inputs share a name, the same is found in every order, and the report is the
same if they are from different files.
-/
theorem analyze_of_perm {inputs others : List AnalysisInput} (permuted : inputs.Perm others) :
    hasErrors (analyze inputs) = hasErrors (analyze others) ∧
      (inputs.Pairwise Apart → (analyze inputs).Perm (analyze others) ∧
        (inputs.Pairwise Elsewhere → analyze inputs = analyze others)) := by
  refine ⟨?_, fun apart => ⟨analyze_perm permuted apart, analyze_eq_of_perm permuted apart⟩⟩
  by_cases apart : inputs.Pairwise Apart
  · exact (analyze_perm permuted apart).any_eq
  · have shared : ¬others.Pairwise Apart := fun apart' => apart (permuted.symm.pairwise apart' symm)
    rw [hasErrors_of_not_apart apart, hasErrors_of_not_apart shared]

def shopRecords : List (Text × Record) :=
  [(utf8 "order.yaml", .ofList [(Key.type, .string (utf8 "Order")),
      (utf8 "items", .string (utf8 "<- Item")), (utf8 "buyer", .string (utf8 "-> Buyer.orders"))]),
    (utf8 "item.yaml", .ofList [(Key.type, .string (utf8 "Item")),
      (utf8 "price", .string (utf8 "int!?")), (utf8 "order", .string (utf8 "~> Order.buyer"))])]

def shopInputs : List AnalysisInput :=
  shopRecords.filterMap fun (file, record) =>
    (Schema.ofRecord Timestamp.zero record).toOption.map fun schema =>
      { path := file, schema := schema, record := record }

theorem analyze_of_perm_shop :
    shopInputs.reverse.Perm shopInputs ∧ shopInputs.reverse.Pairwise Apart ∧
      shopInputs.reverse.Pairwise Elsewhere ∧
      ((Rule.all.flatMap fun rule => rule.run shopInputs).map Diagnostic.code =
        [utf8 "unknown-relation-target", utf8 "inverse-mismatch",
          utf8 "unmatched-backward-relation", utf8 "conflicting-modifiers"]) ∧
      analyze shopInputs.reverse = analyze shopInputs := by
  have permuted : shopInputs.reverse.Perm shopInputs := List.reverse_perm _
  have apart : shopInputs.reverse.Pairwise Apart := by decide +kernel
  have elsewhere : shopInputs.reverse.Pairwise Elsewhere := by decide +kernel
  exact ⟨permuted, apart, elsewhere, by decide +kernel,
    ((analyze_of_perm permuted).2 apart).2 elsewhere⟩

end EntitySchema
