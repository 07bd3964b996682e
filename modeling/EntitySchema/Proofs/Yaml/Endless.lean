import EntitySchema.Proofs.Yaml.Exactness

/-!
Decodings that never end. Nothing but an alias to a node around it keeps a text from being decoded
to its end, be it to records or to an error.
-/

namespace EntitySchema

namespace Yaml.Node

def HoldsCycle (node : Node) : Prop :=
  ∃ name order line serial, node.HasPart (.enclosing name order line serial)

variable {node part : Node}

theorem HoldsCycle.mono (cycle : part.HoldsCycle)
    (inside : ∀ {inner}, part.HasPart inner → node.HasPart inner) : node.HoldsCycle := by
  obtain ⟨name, order, line, serial, has⟩ := cycle
  exact ⟨name, order, line, serial, inside has⟩

theorem Fails.holdsCycle (fails : node.Fails .endless) : node.HoldsCycle := by
  induction node with
  | scalar tag style text line => cases fails
  | sequence tag items line ih =>
      cases fails with
      | sequence _ fails => exact (ih _ (by simp) fails).mono (.item (by simp))
  | mapping tag pairs line ih =>
      cases fails with
      | @mapping _ done rest key value _ _ _ _ fails =>
          have member : (key, value) ∈ done ++ (key, value) :: rest := by simp
          -- keys are texts or refused, so it is the value that is never decoded
          cases fails with
          | value _ _ fails => exact ((ih _ member).2 fails).mono (.value member)
  | reference name target line serial ih =>
      cases fails with
      | reference fails => exact (ih fails).mono .reference
  | enclosing name order line serial => exact ⟨name, order, line, serial, .self⟩

end Yaml.Node

namespace Record

open Yaml (Node)

theorem holdsCycle_of_ofNode {node : Node} (endless : ofNode node = .error .endless) :
    node.HoldsCycle := by
  cases node with
  | mapping tag pairs line =>
      have filled := Node.fills_addPairs_empty pairs
      rw [ofNode, fill] at endless
      generalize Node.addPairs {} pairs = outcome at filled endless
      cases filled with
      | complete reads => contradiction
      | @stopped done rest key value record error reads fails =>
          obtain rfl := Except.error.inj endless
          have whole : (Node.mapping tag (done ++ (key, value) :: rest) line).Fails .endless :=
            .mapping reads fails
          exact whole.holdsCycle
  | _ => simp [ofNode, fill] at endless

theorem exists_holdsCycle_of_ofNodes {nodes : List Node}
    (endless : ofNodes nodes = .error .endless) : ∃ node ∈ nodes, node.HoldsCycle := by
  induction nodes with
  | nil => contradiction
  | cons node nodes ih =>
      rw [ofNodes] at endless
      split at endless
      next first =>
        obtain rfl := Except.error.inj endless
        exact ⟨node, List.mem_cons_self, holdsCycle_of_ofNode first⟩
      · split at endless
        next rest =>
          obtain rfl := Except.error.inj endless
          obtain ⟨inner, member, cycle⟩ := ih rest
          exact ⟨inner, List.mem_cons_of_mem node member, cycle⟩
        · contradiction

theorem holdsCycle_of_ofDocument {root : Node} (endless : ofDocument root = .error .endless) :
    root.HoldsCycle := by
  unfold ofDocument at endless
  split at endless
  · split at endless
    · contradiction
    next single =>
      obtain rfl := Except.error.inj endless
      exact holdsCycle_of_ofNode single
  · obtain ⟨item, member, cycle⟩ := exists_holdsCycle_of_ofNodes endless
    exact cycle.mono (.item member)
  · split at endless <;> simp at endless

theorem exists_holdsCycle_of_ofDocuments {format : FileFormat} {isFirst isReadable : Bool}
    {roots : List Node} (endless : ofDocuments format isFirst isReadable roots = .error .endless) :
    ∃ root ∈ roots, root.HoldsCycle := by
  induction roots generalizing isFirst with
  | nil =>
      rw [ofDocuments] at endless
      split at endless <;> simp at endless
  | cons root roots ih =>
      rw [ofDocuments] at endless
      split at endless
      · simp at endless
      · split at endless
        next first =>
          obtain rfl := Except.error.inj endless
          exact ⟨root, List.mem_cons_self, holdsCycle_of_ofDocument first⟩
        · split at endless
          next rest =>
            obtain rfl := Except.error.inj endless
            obtain ⟨other, member, cycle⟩ := ih rest
            exact ⟨other, List.mem_cons_of_mem root member, cycle⟩
          · contradiction

/-- A text is decoded to its end if no document of it has an alias to a node around it. -/
theorem exists_holdsCycle_of_decode {format : FileFormat} {text : Text}
    (endless : decode format text = .error .endless) :
    ∃ root ∈ (Yaml.documents text).1, root.HoldsCycle := by
  rw [decode] at endless
  generalize Yaml.documents text = outcome at endless
  exact exists_holdsCycle_of_ofDocuments endless

end Record

end EntitySchema
