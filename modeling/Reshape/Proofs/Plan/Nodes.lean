import Reshape.Proofs.Except
import Reshape.Proofs.Plan.Sites

/-!
Nodes at their sites. The node at a site of a plan is compiled from the template at that site, and
sharing prefixes in a plan shares them in the node at every site.
-/

namespace Reshape

/-! ### Going down -/

/-- The node that a turn leads to. A root is a chain and no node. -/
def Node.child? (node : Node) (turn : Turn) : Option Node :=
  match turn, node with
  | .entry n, .nested entries | .entry n, .list _ entries => entries[n]?.map Prod.snd
  | .item n, .sequence items => items[n]?
  | _, _ => none

def Node.at? (node : Node) (site : Site) : Option Node := site.foldlM Node.child? node

/-- The node at a site; at none of the turns stands the top-level mapping itself. -/
def Plan.at? (p : Plan) (site : Site) : Option Node := (Node.nested p).at? site

def Template.child? (template : Template) (turn : Turn) : Option Template :=
  match turn, template with
  | .entry n, .mapping entries | .entry n, .list _ (.mapping entries) => entries[n]?.map Prod.snd
  | .item n, .sequence items => items[n]?
  | _, _ => none

def Template.at? (template : Template) (site : Site) : Option Template :=
  site.foldlM Template.child? template

/-- What holds between two things, and after each step also between what it leads to, holds between
what they lead to in the end. -/
theorem exists_foldlM_of_step {α β σ : Type} {f : α → σ → Option α} {g : β → σ → Option β}
    {R : α → β → Prop}
    (step : ∀ a b, R a b → ∀ x a', f a x = some a' → ∃ b', g b x = some b' ∧ R a' b')
    {a : α} {b : β} (related : R a b) {xs : List σ} {a' : α} (h : xs.foldlM f a = some a') :
    ∃ b', xs.foldlM g b = some b' ∧ R a' b' := by
  induction xs generalizing a b with
  | nil =>
    obtain rfl := Option.some.inj h
    exact ⟨b, rfl, related⟩
  | cons x xs ih =>
    rw [List.foldlM_cons] at h
    obtain ⟨next, first, rest⟩ := Option.bind_eq_some_iff.mp h
    obtain ⟨next', first', related'⟩ := step a b related x next first
    obtain ⟨b', rest', holds⟩ := ih related' rest
    refine ⟨b', ?_, holds⟩
    rw [List.foldlM_cons, first']
    exact rest'

namespace Node

theorem at?_cons (node : Node) (turn : Turn) (site : Site) :
    node.at? (turn :: site) = (node.child? turn).bind fun child => child.at? site := by
  rw [at?, List.foldlM_cons]
  rfl

theorem mem_entriesChains_of_mem {entries : List (String × Node)} {entry : String × Node}
    (among : entry ∈ entries) {c : Chain} (member : c ∈ entry.2.chains) :
    c ∈ entriesChains entries := by
  induction entries with
  | nil => cases among
  | cons first rest ih =>
    rw [entriesChains]
    rcases List.mem_cons.mp among with rfl | among
    · exact List.mem_append_left _ member
    · exact List.mem_append_right _ (ih among)

theorem mem_itemsChains_of_mem {items : List Node} {node : Node} (among : node ∈ items) {c : Chain}
    (member : c ∈ node.chains) : c ∈ itemsChains items := by
  induction items with
  | nil => cases among
  | cons first rest ih =>
    rw [itemsChains]
    rcases List.mem_cons.mp among with rfl | among
    · exact List.mem_append_left _ member
    · exact List.mem_append_right _ (ih among)

theorem mem_chains_of_child? {node child : Node} {turn : Turn}
    (found : node.child? turn = some child) {c : Chain} (member : c ∈ child.chains) :
    c ∈ node.chains := by
  unfold child? at found
  split at found
  · obtain ⟨entry, among, rfl⟩ := Option.map_eq_some_iff.mp found
    exact mem_entriesChains_of_mem (List.mem_of_getElem? among) member
  · obtain ⟨entry, among, rfl⟩ := Option.map_eq_some_iff.mp found
    have inner := mem_entriesChains_of_mem (List.mem_of_getElem? among) member
    exact List.mem_cons_of_mem _ inner
  · exact mem_itemsChains_of_mem (List.mem_of_getElem? found) member
  · cases found

theorem mem_chains_of_at? {node inner : Node} {site : Site} (found : node.at? site = some inner)
    {c : Chain} (member : c ∈ inner.chains) : c ∈ node.chains := by
  induction site generalizing node with
  | nil =>
    obtain rfl := Option.some.inj found
    exact member
  | cons turn site ih =>
    rw [at?_cons] at found
    obtain ⟨child, first, rest⟩ := Option.bind_eq_some_iff.mp found
    exact mem_chains_of_child? first (ih rest)

end Node

namespace Plan

/-! ### Compilation -/

variable {o : Options}

theorem compileChain_anywhere {path : TemplatePath} {template : Template} {c : Chain}
    (h : compileChain o path template = .ok c) (path' : TemplatePath) :
    compileChain o path' template = .ok c := by
  cases template with
  | expression source => exact h
  | chain d =>
    rw [compileChain] at h ⊢
    split at h
    · cases h
    · rename_i noMemo
      rw [if_neg noMemo, h]
  | _ => cases h

mutual

/-- The place of a template matters to errors only. -/
theorem compileNode_anywhere {path : TemplatePath} {template : Template} {node : Node}
    (h : compileNode o path template = .ok node) (path' : TemplatePath) :
    compileNode o path' template = .ok node := by
  match template with
  | .constant v => exact h
  | .expression source | .chain c =>
    obtain ⟨c, compiled, rfl⟩ := map_eq_ok_iff.mp h
    exact map_eq_ok_iff.mpr ⟨c, compileChain_anywhere compiled path', rfl⟩
  | .mapping entries =>
    rw [compileNode] at h ⊢
    obtain ⟨nodes, compiled, rfl⟩ := map_eq_ok_iff.mp h
    exact map_eq_ok_iff.mpr ⟨nodes, compileEntries_anywhere compiled path', rfl⟩
  | .list root template =>
    rw [compileNode] at h ⊢
    obtain ⟨c, compiledRoot, h⟩ := bind_eq_ok_iff.mp h
    refine bind_eq_ok_iff.mpr ⟨c, compileChain_anywhere compiledRoot _, ?_⟩
    cases template with
    | mapping entries =>
      obtain ⟨nodes, compiled, rfl⟩ := map_eq_ok_iff.mp h
      exact map_eq_ok_iff.mpr ⟨nodes, compileEntries_anywhere compiled _, rfl⟩
    | _ => cases h
  | .sequence items =>
    rw [compileNode] at h ⊢
    obtain ⟨nodes, compiled, rfl⟩ := map_eq_ok_iff.mp h
    exact map_eq_ok_iff.mpr ⟨nodes, compileItems_anywhere compiled path' 0, rfl⟩

theorem compileEntries_anywhere {path : TemplatePath} {entries : List (String × Template)}
    {nodes : List (String × Node)} (h : compileEntries o path entries = .ok nodes)
    (path' : TemplatePath) : compileEntries o path' entries = .ok nodes := by
  match entries with
  | [] => exact h
  | (key, template) :: rest =>
    simp only [compileEntries, bind_eq_ok_iff, pure_eq_ok_iff] at h ⊢
    obtain ⟨node, compiled, nodes, remaining, rfl⟩ := h
    exact ⟨node, compileNode_anywhere compiled _, nodes, compileEntries_anywhere remaining _, rfl⟩

theorem compileItems_anywhere {path : TemplatePath} {index : Nat} {items : List Template}
    {nodes : List Node} (h : compileItems o path index items = .ok nodes) (path' : TemplatePath)
    (index' : Nat) : compileItems o path' index' items = .ok nodes := by
  match items with
  | [] => exact h
  | template :: rest =>
    simp only [compileItems, bind_eq_ok_iff, pure_eq_ok_iff] at h ⊢
    obtain ⟨node, compiled, nodes, remaining, rfl⟩ := h
    exact ⟨node, compileNode_anywhere compiled _, nodes, compileItems_anywhere remaining _ _, rfl⟩

end

theorem exists_of_getElem?_compileEntries {path : TemplatePath}
    {entries : List (String × Template)} {nodes : List (String × Node)}
    (h : compileEntries o path entries = .ok nodes) {n : Nat} {key : String} {node : Node}
    (found : nodes[n]? = some (key, node)) :
    ∃ template path', entries[n]? = some (key, template) ∧
      compileNode o path' template = .ok node := by
  induction entries generalizing nodes n with
  | nil =>
    obtain rfl := Except.ok.inj h
    cases found
  | cons entry rest ih =>
    obtain ⟨first, template⟩ := entry
    simp only [compileEntries, bind_eq_ok_iff, pure_eq_ok_iff] at h
    obtain ⟨node', compiled, nodes, remaining, rfl⟩ := h
    cases n with
    | zero =>
      obtain ⟨rfl, rfl⟩ := Prod.mk.inj (Option.some.inj found)
      exact ⟨template, _, rfl, compiled⟩
    | succ n => exact ih remaining found

theorem exists_of_getElem?_compileItems {path : TemplatePath} {index : Nat}
    {items : List Template} {nodes : List Node} (h : compileItems o path index items = .ok nodes)
    {n : Nat} {node : Node} (found : nodes[n]? = some node) :
    ∃ template path', items[n]? = some template ∧ compileNode o path' template = .ok node := by
  induction items generalizing index nodes n with
  | nil =>
    obtain rfl := Except.ok.inj h
    cases found
  | cons template rest ih =>
    simp only [compileItems, bind_eq_ok_iff, pure_eq_ok_iff] at h
    obtain ⟨node', compiled, nodes, remaining, rfl⟩ := h
    cases n with
    | zero =>
      obtain rfl := Option.some.inj found
      exact ⟨template, _, rfl, compiled⟩
    | succ n => exact ih remaining found

theorem compileNode_list_eq_ok {path : TemplatePath} {root template : Template} {node : Node}
    (h : compileNode o path (.list root template) = .ok node) :
    ∃ c entries nodes path', template = .mapping entries ∧ node = .list c nodes ∧
      compileEntries o path' entries = .ok nodes := by
  rw [compileNode] at h
  obtain ⟨c, -, h⟩ := bind_eq_ok_iff.mp h
  cases template with
  | mapping entries =>
    obtain ⟨nodes, compiled, rfl⟩ := map_eq_ok_iff.mp h
    exact ⟨c, entries, nodes, _, rfl, rfl, compiled⟩
  | _ => cases h

/-- A list comes from a list, and its entries are compiled from those of its template. -/
theorem exists_of_compileNode_eq_list {path : TemplatePath} {template : Template} {c : Chain}
    {nodes : List (String × Node)} (h : compileNode o path template = .ok (.list c nodes)) :
    ∃ root entries path', template = .list root (.mapping entries) ∧
      compileEntries o path' entries = .ok nodes := by
  cases template with
  | list root template =>
    obtain ⟨_, entries, _, path', rfl, same, compiled⟩ := compileNode_list_eq_ok h
    obtain ⟨-, rfl⟩ := Node.list.inj same
    exact ⟨root, entries, path', rfl, compiled⟩
  | constant v => cases h
  | mapping entries | sequence items =>
    rw [compileNode] at h
    obtain ⟨_, -, same⟩ := map_eq_ok_iff.mp h
    cases same
  | expression source | chain c =>
    obtain ⟨_, -, same⟩ := map_eq_ok_iff.mp h
    cases same

theorem exists_child?_of_compileNode {path : TemplatePath} {template : Template} {node : Node}
    (h : compileNode o path template = .ok node) {turn : Turn} {child : Node}
    (found : node.child? turn = some child) :
    ∃ template' path', template.child? turn = some template' ∧
      compileNode o path' template' = .ok child := by
  cases template with
  | constant v =>
    obtain rfl := Except.ok.inj h
    cases turn <;> cases found
  | expression source | chain c =>
    obtain ⟨_, -, rfl⟩ := map_eq_ok_iff.mp h
    cases turn <;> cases found
  | mapping entries =>
    rw [compileNode] at h
    obtain ⟨nodes, compiled, rfl⟩ := map_eq_ok_iff.mp h
    cases turn with
    | entry n =>
      obtain ⟨⟨key, child⟩, among, rfl⟩ := Option.map_eq_some_iff.mp found
      obtain ⟨template', path', there, compiled⟩ := exists_of_getElem?_compileEntries compiled among
      exact ⟨template', path', Option.map_eq_some_iff.mpr ⟨_, there, rfl⟩, compiled⟩
    | _ => cases found
  | list root template =>
    obtain ⟨_, entries, nodes, _, rfl, rfl, compiled⟩ := compileNode_list_eq_ok h
    cases turn with
    | entry n =>
      obtain ⟨⟨key, child⟩, among, rfl⟩ := Option.map_eq_some_iff.mp found
      obtain ⟨template', path', there, compiled⟩ := exists_of_getElem?_compileEntries compiled among
      exact ⟨template', path', Option.map_eq_some_iff.mpr ⟨_, there, rfl⟩, compiled⟩
    | _ => cases found
  | sequence items =>
    rw [compileNode] at h
    obtain ⟨nodes, compiled, rfl⟩ := map_eq_ok_iff.mp h
    cases turn with
    | item n => exact exists_of_getElem?_compileItems compiled found
    | _ => cases found

/-- The template at the site of a list is that of a list, and its entries alone give those of the
list. -/
theorem exists_at?_of_ofTemplate {template : Template} {p : Plan}
    (h : ofTemplate o template = .ok p) {site : Site} {c : Chain} {nodes : List (String × Node)}
    (found : p.at? site = some (.list c nodes)) :
    ∃ root entries, template.at? site = some (.list root (.mapping entries)) ∧
      ofTemplate o (.mapping entries) = .ok nodes := by
  have compiled : ∃ path, compileNode o path template = .ok (.nested p) := by
    cases template with
    | mapping entries =>
      refine ⟨[], ?_⟩
      rw [compileNode]
      exact map_eq_ok_iff.mpr ⟨p, h, rfl⟩
    | _ => cases h
  -- On the way down each node is compiled from the template beside it, at whatever place.
  obtain ⟨inner, there, _, whole⟩ := exists_foldlM_of_step
    (R := fun node template => ∃ path, compileNode o path template = .ok node)
    (fun _ _ ⟨_, compiled⟩ _ _ found =>
      have ⟨template', path', there, compiled⟩ := exists_child?_of_compileNode compiled found
      ⟨template', there, path', compiled⟩) compiled found
  obtain ⟨root, entries, _, rfl, compiled⟩ := exists_of_compileNode_eq_list whole
  exact ⟨root, entries, there, compileEntries_anywhere compiled []⟩

/-! ### Sharing -/

namespace Sharing

theorem shareChain_congr {s s' : Sharing} (same : s.seen = s'.seen) (c : Chain) :
    (s.shareChain c).1 = (s'.shareChain c).1 ∧
      (s.shareChain c).2.seen = (s'.shareChain c).2.seen := by
  rw [shareChain, shareChain, same]
  split <;> exact ⟨rfl, rfl⟩

mutual

/-- Only the known prefixes matter to what becomes of a node. -/
theorem shareNode_congr (s s' : Sharing) (same : s.seen = s'.seen) (node : Node) :
    (s.shareNode node).1 = (s'.shareNode node).1 ∧
      (s.shareNode node).2.seen = (s'.shareNode node).2.seen := by
  match node with
  | .constant v => exact ⟨rfl, same⟩
  | .expression c =>
    obtain ⟨chain, seen⟩ := shareChain_congr same c
    exact ⟨congrArg Node.expression chain, seen⟩
  | .nested entries =>
    have inner := shareEntries_congr s.enterScope s'.enterScope rfl entries
    exact ⟨congrArg Node.nested inner.1, same⟩
  | .list root entries =>
    obtain ⟨chain, seen⟩ := shareChain_congr same root
    have inner := shareEntries_congr (s.shareChain root).2.enterScope
      (s'.shareChain root).2.enterScope rfl entries
    exact ⟨congrArg₂ Node.list chain inner.1, seen⟩
  | .sequence items => exact ⟨congrArg Node.sequence (shareItems_congr s s' same items).1, same⟩

theorem shareEntries_congr (s s' : Sharing) (same : s.seen = s'.seen)
    (entries : List (String × Node)) :
    (s.shareEntries entries).1 = (s'.shareEntries entries).1 ∧
      (s.shareEntries entries).2.seen = (s'.shareEntries entries).2.seen := by
  match entries with
  | [] => exact ⟨rfl, same⟩
  | (key, node) :: rest =>
    obtain ⟨first, seen⟩ := shareNode_congr s s' same node
    obtain ⟨later, seen⟩ := shareEntries_congr _ _ seen rest
    exact ⟨congrArg₂ (fun node rest => (key, node) :: rest) first later, seen⟩

theorem shareItems_congr (s s' : Sharing) (same : s.seen = s'.seen) (items : List Node) :
    (s.shareItems items).1 = (s'.shareItems items).1 ∧
      (s.shareItems items).2.seen = (s'.shareItems items).2.seen := by
  match items with
  | [] => exact ⟨rfl, same⟩
  | node :: rest =>
    obtain ⟨first, seen⟩ := shareNode_congr s s' same node
    obtain ⟨later, seen⟩ := shareItems_congr _ _ seen rest
    exact ⟨congrArg₂ List.cons first later, seen⟩

end

theorem exists_of_getElem?_shareEntries (s : Sharing) {entries : List (String × Node)} {n : Nat}
    {key : String} {node' : Node} (found : (s.shareEntries entries).1[n]? = some (key, node')) :
    ∃ node s', entries[n]? = some (key, node) ∧ node' = (shareNode s' node).1 := by
  induction entries generalizing s n with
  | nil => cases found
  | cons entry rest ih =>
    cases n with
    | zero =>
      obtain ⟨rfl, rfl⟩ := Prod.mk.inj (Option.some.inj found)
      exact ⟨entry.2, s, rfl, rfl⟩
    | succ n => exact ih _ found

theorem exists_of_getElem?_shareItems (s : Sharing) {items : List Node} {n : Nat} {node' : Node}
    (found : (s.shareItems items).1[n]? = some node') :
    ∃ node s', items[n]? = some node ∧ node' = (shareNode s' node).1 := by
  induction items generalizing s n with
  | nil => cases found
  | cons node rest ih =>
    cases n with
    | zero =>
      obtain rfl := Option.some.inj found
      exact ⟨node, s, rfl, rfl⟩
    | succ n => exact ih _ found

theorem exists_child?_of_shareNode (s : Sharing) {node : Node} {turn : Turn} {child' : Node}
    (found : (s.shareNode node).1.child? turn = some child') :
    ∃ child s', node.child? turn = some child ∧ child' = (shareNode s' child).1 := by
  cases node with
  | constant v => cases turn <;> cases found
  | expression c => cases turn <;> cases found
  | nested entries | list root entries =>
    cases turn with
    | entry n =>
      obtain ⟨⟨key, child'⟩, among, rfl⟩ := Option.map_eq_some_iff.mp found
      obtain ⟨child, s', there, same⟩ := exists_of_getElem?_shareEntries _ among
      exact ⟨child, s', Option.map_eq_some_iff.mpr ⟨_, there, rfl⟩, same⟩
    | _ => cases found
  | sequence items =>
    cases turn with
    | item n => exact exists_of_getElem?_shareItems _ found
    | _ => cases found

end Sharing

/-- The entries of a list of a shared plan are those that sharing alone gives. -/
theorem exists_at?_of_share {p : Plan} {site : Site} {root' : Chain}
    {entries' : List (String × Node)} (found : p.share.1.at? site = some (.list root' entries')) :
    ∃ root entries, p.at? site = some (.list root entries) ∧ entries' = (share entries).1 := by
  obtain ⟨node, there, s, same⟩ := exists_foldlM_of_step
    (R := fun node' node => ∃ s : Sharing, node' = (s.shareNode node).1)
    (fun _ _ ⟨s, same⟩ _ _ found =>
      have ⟨child, s', there, same⟩ := s.exists_child?_of_shareNode (same ▸ found)
      ⟨child, there, s', same⟩) (b := .nested p) ⟨{}, rfl⟩ found
  cases node with
  | list root entries =>
    obtain ⟨-, rfl⟩ := Node.list.inj same
    have alone := Sharing.shareEntries_congr (s.shareChain root).2.enterScope
      (Sharing.enterScope {}) rfl entries
    exact ⟨root, entries, there, alone.1⟩
  | _ => cases same

end Plan

end Reshape
