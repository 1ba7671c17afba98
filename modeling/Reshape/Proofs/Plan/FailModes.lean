import Reshape.Proofs.Plan.Sites

/-!
Plans under other fail modes: without chains that were compiled before, a template gives the same
plan under every fail mode and default, but for these themselves.
-/

namespace Reshape

/-- The chain with another fail mode and default. -/
def Chain.underMode (failMode : FailMode) (fallback : Option Json) (c : Chain) : Chain :=
  { c with failMode, fallback }

def Plan.underMode (failMode : FailMode) (fallback : Option Json) (p : Plan) : Plan :=
  p.mapChains fun _ => Chain.underMode failMode fallback

namespace Plan

theorem chains_underMode (p : Plan) (failMode : FailMode) (fallback : Option Json) :
    (p.underMode failMode fallback).chains = p.chains.map (Chain.underMode failMode fallback) := by
  rw [Plan.chains, Plan.chains, Plan.underMode, mapChains, ← Node.map_snd_entriesSites 0,
    Node.entriesSites_mapEntries, ← Node.map_snd_entriesSites 0, List.map_map, List.map_map]
  rfl

variable (o : Options) (failMode : FailMode) (fallback : Option Json)

theorem compile_underMode (source : String) :
    Chain.compile source { o with failMode, fallback } =
      (Chain.compile source o).map (Chain.underMode failMode fallback) := by
  simp only [Chain.compile]
  cases Path.read source with
  | error e => rfl
  | ok path =>
    simp only [bind, Except.bind]
    cases path.mapM (Chain.compileStep o.registry) <;> rfl

theorem compileChain_underMode {template : Template} (inherited : template.chains = [])
    (path : TemplatePath) :
    compileChain { o with failMode, fallback } path template =
      (compileChain o path template).map (Chain.underMode failMode fallback) := by
  cases template with
  | expression source => exact compile_underMode o failMode fallback source
  | chain c => cases inherited
  | _ => rfl

mutual

theorem compileNode_underMode {template : Template} (inherited : template.chains = [])
    (path : TemplatePath) :
    compileNode { o with failMode, fallback } path template =
      (compileNode o path template).map
        (Node.mapChains fun _ => Chain.underMode failMode fallback) := by
  match template with
  | .constant v => rfl
  | .expression source =>
    have same := compileChain_underMode o failMode fallback inherited path
    cases compiled : compileChain o path (.expression source) <;>
      simp [compileNode, Except.map, Functor.map, same, compiled, Node.mapChains]
  | .chain c => cases inherited
  | .mapping entries =>
    rw [compileNode, compileNode, compileEntries_underMode (n := 0) inherited]
    cases compileEntries o path entries <;> rfl
  | .list root template =>
    rw [Template.chains, List.append_eq_nil_iff] at inherited
    rw [compileNode, compileNode, compileChain_underMode o failMode fallback inherited.1]
    cases compileChain o (path ++ [.listRoot]) root with
    | error e => rfl
    | ok c =>
      cases template with
      | mapping entries =>
        have same := compileEntries_underMode (n := 0) inherited.2 (path ++ [.listTemplate])
        cases compiled : compileEntries o (path ++ [.listTemplate]) entries <;>
          simp [bind, Except.bind, Except.map, Functor.map, same, compiled, Node.mapChains]
      | _ => rfl
  | .sequence items =>
    rw [compileNode, compileNode, compileItems_underMode (n := 0) inherited]
    cases compileItems o path 0 items <;> rfl

theorem compileEntries_underMode {entries : List (String × Template)} {n : Nat}
    (inherited : Template.entriesChains entries = []) (path : TemplatePath) :
    compileEntries { o with failMode, fallback } path entries =
      (compileEntries o path entries).map
        (Node.mapEntries (fun _ => Chain.underMode failMode fallback) n) := by
  match entries with
  | [] => rfl
  | (key, template) :: rest =>
    rw [Template.entriesChains, List.append_eq_nil_iff] at inherited
    rw [compileEntries, compileEntries, compileNode_underMode inherited.1,
      compileEntries_underMode (n := n + 1) inherited.2]
    cases compileNode o (path ++ [.entry key]) template with
    | error e => rfl
    | ok node => cases compileEntries o path rest <;> rfl

theorem compileItems_underMode {items : List Template} {n : Nat}
    (inherited : Template.itemsChains items = []) (path : TemplatePath) (index : Nat) :
    compileItems { o with failMode, fallback } path index items =
      (compileItems o path index items).map
        (Node.mapItems (fun _ => Chain.underMode failMode fallback) n) := by
  match items with
  | [] => rfl
  | template :: rest =>
    rw [Template.itemsChains, List.append_eq_nil_iff] at inherited
    rw [compileItems, compileItems, compileNode_underMode inherited.1,
      compileItems_underMode (n := n + 1) inherited.2]
    cases compileNode o (path ++ [.element index]) template with
    | error e => rfl
    | ok node => cases compileItems o path (index + 1) rest <;> rfl

end

theorem ofTemplate_underMode {template : Template} (inherited : template.chains = []) :
    ofTemplate { o with failMode, fallback } template =
      (ofTemplate o template).map (underMode failMode fallback) := by
  cases template with
  | mapping entries => exact compileEntries_underMode o failMode fallback inherited []
  | _ => rfl

end Plan

end Reshape
