import EntitySchema.Proofs.Analysis.Report
import EntitySchema.Proofs.Text.Order
import Mathlib.Data.List.Basic

/-!
The order of reports. Findings are sorted by file, line and code, and those that agree in all three
come from one rule, so the order in which the rules ran cannot be seen in a report.
-/

namespace EntitySchema

namespace Diagnostic

def Precedes (left right : Diagnostic) : Prop :=
  left.path < right.path ∨ left.path = right.path ∧
    (left.line < right.line ∨ left.line = right.line ∧ left.code ≤ right.code)

def SamePlace (left right : Diagnostic) : Prop :=
  left.path = right.path ∧ left.line = right.line ∧ left.code = right.code

instance (left right : Diagnostic) : Decidable (SamePlace left right) :=
  inferInstanceAs (Decidable (_ ∧ _))

variable {left right : Diagnostic}

theorem le_iff_precedes : le left right = true ↔ Precedes left right := by
  simp only [le, Diagnostic.compare, Text.compare_eq, Precedes, bne_iff_ne, ne_eq,
    Ordering.then_eq_gt, Std.compare_eq_gt, compareOfLessAndEq]
  grind

theorem samePlace_iff : SamePlace left right ↔ Precedes left right ∧ Precedes right left := by
  unfold Precedes SamePlace
  grind

theorem le_trans (first second third : Diagnostic) (lower : le first second = true)
    (upper : le second third = true) : le first third = true := by
  rw [le_iff_precedes, Precedes] at *
  grind

theorem le_total (left right : Diagnostic) : (le left right || le right left) = true := by
  rw [Bool.or_eq_true, le_iff_precedes, le_iff_precedes, Precedes, Precedes]
  grind

theorem sorted_mergeSort (found : List Diagnostic) :
    (found.mergeSort le).Pairwise Precedes :=
  (List.pairwise_mergeSort le_trans le_total found).imp le_iff_precedes.mp

theorem filter_mergeSort (place : Diagnostic) (found : List Diagnostic) :
    (found.mergeSort le).filter (SamePlace place ·) = found.filter (SamePlace place ·) := by
  let here := found.filter (SamePlace place ·)
  have together : here.Pairwise fun left right => le left right = true := by
    refine List.pairwise_of_forall_mem_list fun left inLeft right inRight => ?_
    simp only [here, List.mem_filter, decide_eq_true_eq] at inLeft inRight
    rw [le_iff_precedes]
    have same : SamePlace left right := by grind [SamePlace]
    exact (samePlace_iff.mp same).1
  have inside : here.Sublist (found.mergeSort le) :=
    List.sublist_mergeSort le_trans le_total together List.filter_sublist
  have kept := inside.filter (SamePlace place ·)
  rw [List.filter_filter] at kept
  simp only [Bool.and_self] at kept
  refine (kept.eq_of_length ?_).symm
  exact ((List.mergeSort_perm found le).filter _).length_eq.symm

theorem eq_of_sorted {left right : List Diagnostic} (sorted : left.Pairwise Precedes)
    (sorted' : right.Pairwise Precedes) (permuted : left.Perm right)
    (alike : ∀ place, left.filter (SamePlace place ·) = right.filter (SamePlace place ·)) :
    left = right := by
  induction left generalizing right with
  | nil => exact permuted.nil_eq
  | cons first left ih =>
      cases right with
      | nil => simpa using permuted.length_eq
      | cons other right =>
          rw [List.pairwise_cons] at sorted sorted'
          have before : Precedes first other := by
            rcases List.mem_cons.mp (permuted.mem_iff.mpr List.mem_cons_self) with rfl | later
            · exact le_iff_precedes.mp (by simpa using le_total other other)
            · exact sorted.1 other later
          have behind : Precedes other first := by
            rcases List.mem_cons.mp (permuted.mem_iff.mp List.mem_cons_self) with rfl | later
            · exact before
            · exact sorted'.1 first later
          -- Both stand at one place, where the two reports agree on what comes first.
          have place : SamePlace first other := samePlace_iff.mpr ⟨before, behind⟩
          have itself : SamePlace first first := ⟨rfl, rfl, rfl⟩
          have heads := alike first
          rw [List.filter_cons_of_pos (by simpa), List.filter_cons_of_pos (by simpa)] at heads
          obtain rfl := (List.cons.inj heads).1
          rw [ih sorted.2 sorted'.2 permuted.cons_inv]
          intro at'
          have all := alike at'
          by_cases here : SamePlace at' first
          · simpa [here] using all
          · simpa [here] using all

end Diagnostic

structure AnalyzedSet where
  inputs : List AnalysisInput
  diagnostics : List Diagnostic := []

def AnalyzedSet.apply (set : AnalyzedSet) (rule : Rule) : AnalyzedSet :=
  { set with diagnostics := set.diagnostics ++ rule.run set.inputs }

theorem AnalyzedSet.foldl_apply (rules : List Rule) (set : AnalyzedSet) :
    rules.foldl apply set =
      { set with
        diagnostics := set.diagnostics ++ rules.flatMap fun rule => rule.run set.inputs } := by
  induction rules generalizing set with
  | nil => simp
  | cons rule rules ih => simp [ih, apply]

namespace Rule

variable {inputs : List AnalysisInput} {rules : List Rule} {rule : Rule} {place : Diagnostic}

theorem nodup_names : (all.map Rule.name).Nodup := by decide +kernel

theorem filter_run_of_other (known : rule ∈ all) (other : rule.name ≠ place.code) :
    (rule.run inputs).filter (Diagnostic.SamePlace place ·) = [] := by
  rw [List.filter_eq_nil_iff]
  intro diagnostic found here
  rw [decide_eq_true_eq] at here
  exact other ((code_of_mem known found).symm.trans here.2.2.symm)

theorem filter_flatMap_run (known : rules ⊆ all) (distinct : (rules.map Rule.name).Nodup)
    (member : rule ∈ rules) (named : place.code = rule.name) :
    (rules.flatMap fun rule => rule.run inputs).filter (Diagnostic.SamePlace place ·) =
      (rule.run inputs).filter (Diagnostic.SamePlace place ·) := by
  induction rules with
  | nil => simp at member
  | cons first rules ih =>
      rw [List.map_cons, List.nodup_cons] at distinct
      rw [List.cons_subset] at known
      rw [List.flatMap_cons, List.filter_append]
      rcases List.mem_cons.mp member with rfl | later
      · have silent : (rules.flatMap fun rule => rule.run inputs).filter
            (Diagnostic.SamePlace place ·) = [] := by
          rw [List.filter_flatMap, List.flatMap_eq_nil_iff]
          intro other inside
          apply filter_run_of_other (known.2 inside)
          exact fun same => distinct.1 (same.trans named ▸ List.mem_map_of_mem inside)
        rw [silent, List.append_nil]
      · have different : first.name ≠ place.code := fun same =>
          distinct.1 (same.trans named ▸ List.mem_map_of_mem later)
        rw [filter_run_of_other known.1 different, List.nil_append, ih known.2 distinct.2 later]

end Rule

/--
A report on inputs by the given rules: in order, with all that the rules find one by one, and at
each place in the order in which the rule of that place found it.
-/
structure IsReport (rules : List Rule) (inputs : List AnalysisInput) (report : List Diagnostic) :
    Prop where
  sorted : report.Pairwise Diagnostic.Precedes
  complete : report.Perm (rules.flatMap fun rule => rule.run inputs)
  stable : ∀ rule ∈ rules, ∀ place : Diagnostic, place.code = rule.name →
    report.filter (Diagnostic.SamePlace place ·) =
      (rule.run inputs).filter (Diagnostic.SamePlace place ·)

theorem isReport_analyzeWith {rules : List Rule} (permuted : rules.Perm Rule.all)
    (inputs : List AnalysisInput) : IsReport rules inputs (analyzeWith rules inputs) where
  sorted := Diagnostic.sorted_mergeSort _
  complete := List.mergeSort_perm _ _
  stable := by
    intro rule member place named
    rw [analyzeWith, Diagnostic.filter_mergeSort]
    have distinct := (permuted.map Rule.name).nodup_iff.mpr Rule.nodup_names
    exact Rule.filter_flatMap_run permuted.subset distinct member named

theorem IsReport.unique {rules others : List Rule} {inputs : List AnalysisInput}
    {left right : List Diagnostic} (known : rules ⊆ Rule.all) (permuted : rules.Perm others)
    (isReport : IsReport rules inputs left) (isReport' : IsReport others inputs right) :
    left = right := by
  have alike := (isReport.complete.trans (permuted.flatMap_right _)).trans isReport'.complete.symm
  refine Diagnostic.eq_of_sorted isReport.sorted isReport'.sorted alike fun place => ?_
  by_cases named : ∃ rule ∈ rules, place.code = rule.name
  · obtain ⟨rule, member, named⟩ := named
    rw [isReport.stable rule member place named,
      isReport'.stable rule (permuted.subset member) place named]
  · have nothing : left.filter (Diagnostic.SamePlace place ·) = [] := by
      rw [List.filter_eq_nil_iff]
      intro diagnostic found here
      rw [decide_eq_true_eq] at here
      obtain ⟨rule, member, found⟩ := List.mem_flatMap.mp (isReport.complete.subset found)
      exact named ⟨rule, member, here.2.2.trans (Rule.code_of_mem (known member) found)⟩
    rw [nothing]
    exact ((nothing ▸ alike.filter _).nil_eq)

theorem analyzeWith_eq_run (rules : List Rule) (inputs : List AnalysisInput) :
    analyzeWith rules inputs =
      (rules.foldl AnalyzedSet.apply { inputs }).diagnostics.mergeSort Diagnostic.le := by
  simp [analyzeWith, AnalyzedSet.foldl_apply]

/--
The order of the rules never matters: each adds what it would find on its own to what was reported
before, and what they find together is sorted into one and the same report.
-/
theorem analyzeWith_of_perm {rules : List Rule} (permuted : rules.Perm Rule.all)
    (inputs : List AnalysisInput) :
    analyzeWith rules inputs = analyze inputs ∧ IsReport Rule.all inputs (analyze inputs) ∧
      ∀ reported, (rules.foldl AnalyzedSet.apply ⟨inputs, reported⟩).diagnostics =
        reported ++ rules.flatMap fun rule => rule.run inputs := by
  have report := isReport_analyzeWith (List.Perm.refl Rule.all) inputs
  refine ⟨?_, report, fun reported => by rw [AnalyzedSet.foldl_apply]⟩
  exact (isReport_analyzeWith permuted inputs).unique permuted.subset permuted report

def draftRecord : Record :=
  .ofList [(Key.type, .string (utf8 "Draft")), (utf8 "title", .string (utf8 "int!?")),
    (utf8 "author", .string (utf8 "-> User")),
    (Key.fullText, .strings [utf8 "title", utf8 "body", utf8 "abstract"])]

def draftInputs : List AnalysisInput :=
  (Schema.ofRecord Timestamp.zero draftRecord).toOption.toList.map fun schema =>
    { path := utf8 "draft.yaml", schema := schema, record := draftRecord }

theorem analyzeWith_of_perm_draft :
    Rule.all.reverse.Perm Rule.all ∧
      ((Rule.all.reverse.flatMap fun rule => rule.run draftInputs).map Diagnostic.code =
        [utf8 "fts-field-type", utf8 "conflicting-modifiers", utf8 "unknown-directive-field",
          utf8 "unknown-directive-field", utf8 "unknown-relation-target"]) ∧
      analyzeWith Rule.all.reverse draftInputs = analyze draftInputs := by
  have permuted : Rule.all.reverse.Perm Rule.all := List.reverse_perm _
  exact ⟨permuted, by decide +kernel, (analyzeWith_of_perm permuted draftInputs).1⟩

end EntitySchema
