import Reshape.Proofs.Fields
import Reshape.Proofs.Plan.Chains

/-!
Templates and plans up to the order of declaration. Where the keys of every mapping are distinct, the
plans of two templates that differ in the order of entries differ in it alone, and they have the
same chains.
-/

namespace Reshape

/-! ### Templates -/

mutual

/-- The entries of mappings stand in another order, at any depth. The root of a list is a path or a
chain and has no entries. -/
inductive Template.Reorders : Template → Template → Prop
  | same (template : Template) : Reorders template template
  | mapping {entries entries' : List (String × Template)} :
      Fields.Reorders Template.Reorders entries entries' →
        Reorders (.mapping entries) (.mapping entries')
  | list (root : Template) {template template' : Template} :
      Reorders template template' → Reorders (.list root template) (.list root template')
  | sequence {items items' : List Template} :
      Template.ItemsReorder items items' → Reorders (.sequence items) (.sequence items')

inductive Template.ItemsReorder : List Template → List Template → Prop
  | nil : ItemsReorder [] []
  | cons {template template' : Template} {rest rest' : List Template} :
      Template.Reorders template template' → ItemsReorder rest rest' →
        ItemsReorder (template :: rest) (template' :: rest')

end

mutual

/-- The keys of every mapping are distinct. -/
def Template.DistinctKeys : Template → Prop
  | .expression _ | .chain _ | .constant _ => True
  | .mapping entries => (entries.map Prod.fst).Nodup ∧ entriesDistinct entries
  | .list root template => root.DistinctKeys ∧ template.DistinctKeys
  | .sequence items => itemsDistinct items

def Template.entriesDistinct : List (String × Template) → Prop
  | [] => True
  | (_, template) :: rest => template.DistinctKeys ∧ entriesDistinct rest

def Template.itemsDistinct : List Template → Prop
  | [] => True
  | template :: rest => template.DistinctKeys ∧ itemsDistinct rest

end

namespace Template

mutual

theorem Reorders.distinctKeys {template template' : Template} (h : template.Reorders template')
    (distinct : template.DistinctKeys) : template'.DistinctKeys := by
  match h with
  | .same _ => exact distinct
  | .mapping entries =>
    exact ⟨entries.keys.nodup_iff.mp distinct.1, entriesDistinct_of_reorders entries distinct.2⟩
  | .list _ inner => exact ⟨distinct.1, inner.distinctKeys distinct.2⟩
  | .sequence items => exact items.distinct distinct

theorem entriesDistinct_of_reorders {entries entries' : List (String × Template)}
    (h : Fields.Reorders Reorders entries entries') (distinct : entriesDistinct entries) :
    entriesDistinct entries' := by
  match h with
  | .nil => trivial
  | .cons _ first rest =>
    exact ⟨first.distinctKeys distinct.1, entriesDistinct_of_reorders rest distinct.2⟩
  | .swap (_, _) (_, _) rest => exact ⟨distinct.2.1, distinct.1, distinct.2.2⟩
  | .trans first later =>
    exact entriesDistinct_of_reorders later (entriesDistinct_of_reorders first distinct)

theorem ItemsReorder.distinct {items items' : List Template} (h : ItemsReorder items items')
    (distinct : itemsDistinct items) : itemsDistinct items' := by
  match h with
  | .nil => trivial
  | .cons first rest => exact ⟨first.distinctKeys distinct.1, rest.distinct distinct.2⟩

end

end Template

/-! ### Plans -/

mutual

/-- The entries of mappings with distinct keys stand in another order, at any depth. -/
inductive Node.Reorders : Node → Node → Prop
  | same (node : Node) : Reorders node node
  | nested {entries entries' : List (String × Node)} : (entries.map Prod.fst).Nodup →
      Fields.Reorders Node.Reorders entries entries' → Reorders (.nested entries) (.nested entries')
  | list (root : Chain) {entries entries' : List (String × Node)} :
      (entries.map Prod.fst).Nodup → Fields.Reorders Node.Reorders entries entries' →
        Reorders (.list root entries) (.list root entries')
  | sequence {items items' : List Node} :
      Node.ItemsReorder items items' → Reorders (.sequence items) (.sequence items')

inductive Node.ItemsReorder : List Node → List Node → Prop
  | nil : ItemsReorder [] []
  | cons {node node' : Node} {rest rest' : List Node} :
      Node.Reorders node node' → ItemsReorder rest rest' →
        ItemsReorder (node :: rest) (node' :: rest')

end

namespace Node

mutual

theorem Reorders.chains {node node' : Node} (h : node.Reorders node') :
    node.chains.Perm node'.chains := by
  match h with
  | .same _ => exact .refl _
  | .nested _ entries => exact entriesChains_of_reorders entries
  | .list root _ entries => exact (entriesChains_of_reorders entries).cons root
  | .sequence items => exact items.chains

theorem entriesChains_of_reorders {entries entries' : List (String × Node)}
    (h : Fields.Reorders Reorders entries entries') :
    (entriesChains entries).Perm (entriesChains entries') := by
  match h with
  | .nil => exact .refl _
  | .cons _ first rest => exact first.chains.append (entriesChains_of_reorders rest)
  | .swap (_, first) (_, second) rest =>
    simp only [entriesChains, ← List.append_assoc]
    exact List.perm_append_comm.append_right _
  | .trans first later =>
    exact (entriesChains_of_reorders first).trans (entriesChains_of_reorders later)

theorem ItemsReorder.chains {items items' : List Node} (h : ItemsReorder items items') :
    (itemsChains items).Perm (itemsChains items') := by
  match h with
  | .nil => exact .refl _
  | .cons first rest => exact first.chains.append rest.chains

end

end Node

/-! ### Compilation -/

namespace Plan

variable {o : Options}

theorem keys_compileEntries {path : TemplatePath} {entries : List (String × Template)}
    {nodes : List (String × Node)} (h : compileEntries o path entries = .ok nodes) :
    nodes.map Prod.fst = entries.map Prod.fst := by
  induction entries generalizing nodes with
  | nil =>
    obtain rfl := Except.ok.inj h
    rfl
  | cons entry rest ih =>
    simp only [compileEntries, bind_eq_ok_iff, pure_eq_ok_iff] at h
    obtain ⟨node, -, nodes, remaining, rfl⟩ := h
    rw [List.map_cons, List.map_cons, ih remaining]

mutual

theorem compileNode_reorders {path : TemplatePath} {template template' : Template} {node : Node}
    (h : template.Reorders template') (distinct : template.DistinctKeys)
    (compiled : compileNode o path template = .ok node) :
    ∃ node', compileNode o path template' = .ok node' ∧ node.Reorders node' := by
  match h with
  | .same _ => exact ⟨node, compiled, .same node⟩
  | .mapping entries =>
    rw [compileNode] at compiled ⊢
    obtain ⟨nodes, inside, rfl⟩ := map_eq_ok_iff.mp compiled
    obtain ⟨nodes', inside', reorders⟩ := compileEntries_reorders entries distinct.2 inside
    have once : (nodes.map Prod.fst).Nodup := by
      rw [keys_compileEntries inside]
      exact distinct.1
    exact ⟨.nested nodes', map_eq_ok_iff.mpr ⟨nodes', inside', rfl⟩, .nested once reorders⟩
  | .list root inner =>
    rw [compileNode] at compiled ⊢
    obtain ⟨c, compiledRoot, compiled⟩ := bind_eq_ok_iff.mp compiled
    rw [compiledRoot]
    -- Only a mapping compiles as the template of a list.
    match inner with
    | .same _ => exact ⟨node, compiled, .same node⟩
    | .list _ _ | .sequence _ => cases compiled
    | .mapping entries =>
      obtain ⟨nodes, inside, rfl⟩ := map_eq_ok_iff.mp compiled
      obtain ⟨nodes', inside', reorders⟩ := compileEntries_reorders entries distinct.2.2 inside
      have once : (nodes.map Prod.fst).Nodup := by
        rw [keys_compileEntries inside]
        exact distinct.2.1
      exact ⟨.list c nodes', map_eq_ok_iff.mpr ⟨nodes', inside', rfl⟩, .list c once reorders⟩
  | .sequence items =>
    rw [compileNode] at compiled ⊢
    obtain ⟨nodes, inside, rfl⟩ := map_eq_ok_iff.mp compiled
    obtain ⟨nodes', inside', reorders⟩ := compileItems_reorders items distinct inside
    exact ⟨.sequence nodes', map_eq_ok_iff.mpr ⟨nodes', inside', rfl⟩, .sequence reorders⟩

theorem compileEntries_reorders {path : TemplatePath} {entries entries' : List (String × Template)}
    {nodes : List (String × Node)} (h : Fields.Reorders Template.Reorders entries entries')
    (distinct : Template.entriesDistinct entries)
    (compiled : compileEntries o path entries = .ok nodes) :
    ∃ nodes', compileEntries o path entries' = .ok nodes' ∧
      Fields.Reorders Node.Reorders nodes nodes' := by
  match h with
  | .nil =>
    obtain rfl := Except.ok.inj compiled
    exact ⟨[], rfl, .nil⟩
  | .cons key first rest =>
    simp only [compileEntries, bind_eq_ok_iff, pure_eq_ok_iff] at compiled ⊢
    obtain ⟨node, compiled, nodes, remaining, rfl⟩ := compiled
    obtain ⟨node', compiled', reorders⟩ := compileNode_reorders first distinct.1 compiled
    obtain ⟨nodes', remaining', later⟩ := compileEntries_reorders rest distinct.2 remaining
    exact ⟨(key, node') :: nodes', ⟨node', compiled', nodes', remaining', rfl⟩,
      .cons key reorders later⟩
  | .swap (key, _) (key', _) rest =>
    simp only [compileEntries, bind_eq_ok_iff, pure_eq_ok_iff] at compiled ⊢
    obtain ⟨node, compiled, _, ⟨node', compiled', nodes, remaining, rfl⟩, rfl⟩ := compiled
    exact ⟨(key', node') :: (key, node) :: nodes,
      ⟨node', compiled', _, ⟨node, compiled, nodes, remaining, rfl⟩, rfl⟩,
      .swap (key, node) (key', node') nodes⟩
  | .trans first later =>
    obtain ⟨nodes', compiled', reorders⟩ := compileEntries_reorders first distinct compiled
    obtain ⟨nodes'', compiled'', reorders'⟩ := compileEntries_reorders later
      (Template.entriesDistinct_of_reorders first distinct) compiled'
    exact ⟨nodes'', compiled'', reorders.trans reorders'⟩

theorem compileItems_reorders {path : TemplatePath} {index : Nat} {items items' : List Template}
    {nodes : List Node} (h : Template.ItemsReorder items items')
    (distinct : Template.itemsDistinct items)
    (compiled : compileItems o path index items = .ok nodes) :
    ∃ nodes', compileItems o path index items' = .ok nodes' ∧ Node.ItemsReorder nodes nodes' := by
  match h with
  | .nil =>
    obtain rfl := Except.ok.inj compiled
    exact ⟨[], rfl, .nil⟩
  | .cons first rest =>
    simp only [compileItems, bind_eq_ok_iff, pure_eq_ok_iff] at compiled ⊢
    obtain ⟨node, compiled, nodes, remaining, rfl⟩ := compiled
    obtain ⟨node', compiled', reorders⟩ := compileNode_reorders first distinct.1 compiled
    obtain ⟨nodes', remaining', later⟩ := compileItems_reorders rest distinct.2 remaining
    exact ⟨node' :: nodes', ⟨node', compiled', nodes', remaining', rfl⟩, .cons reorders later⟩

end

/-- The plans of two templates that differ in the order of entries differ in it alone. -/
theorem ofTemplate_reorders {template template' : Template} {p : Plan}
    (h : template.Reorders template') (distinct : template.DistinctKeys)
    (compiled : ofTemplate o template = .ok p) :
    ∃ p', ofTemplate o template' = .ok p' ∧ (p.map Prod.fst).Nodup ∧
      Fields.Reorders Node.Reorders p p' := by
  cases template with
  | mapping entries =>
    have once : (p.map Prod.fst).Nodup := by
      rw [keys_compileEntries compiled]
      exact distinct.1
    cases h with
    | same => exact ⟨p, compiled, once, .refl .same p⟩
    | mapping reorders =>
      obtain ⟨p', compiled', reorders⟩ := compileEntries_reorders reorders distinct.2 compiled
      exact ⟨p', compiled', once, reorders⟩
  | _ => cases compiled

end Plan

end Reshape
