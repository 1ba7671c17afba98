import Reshape.Plan.Sharing
import Reshape.Proofs.Chain.Compilation

/-!
The chains of templates and plans. Every chain of a plan was compiled with the inherited options or
stands in the template; whether prefixes are to be shared makes no difference to the plan.
-/

namespace Reshape

mutual

/-- The chains that are compiled already. -/
def Template.chains : Template → List Chain
  | .expression _ | .constant _ => []
  | .chain c => [c]
  | .mapping entries => entriesChains entries
  | .list root template => root.chains ++ template.chains
  | .sequence items => itemsChains items

def Template.entriesChains : List (String × Template) → List Chain
  | [] => []
  | (_, template) :: rest => template.chains ++ entriesChains rest

def Template.itemsChains : List Template → List Chain
  | [] => []
  | template :: rest => template.chains ++ itemsChains rest

end

mutual

/-- All chains, those of list templates included. -/
def Node.chains : Node → List Chain
  | .constant _ => []
  | .expression c => [c]
  | .nested entries => entriesChains entries
  | .list root entries => root :: entriesChains entries
  | .sequence items => itemsChains items

def Node.entriesChains : List (String × Node) → List Chain
  | [] => []
  | (_, node) :: rest => node.chains ++ entriesChains rest

def Node.itemsChains : List Node → List Chain
  | [] => []
  | node :: rest => node.chains ++ itemsChains rest

end

namespace Plan

def chains (p : Plan) : List Chain := Node.entriesChains p

/-! ### Where the chains of a plan come from -/

/-- The chain was compiled with these options, or was compiled before. -/
def Supplied (o : Options) (given : List Chain) (c : Chain) : Prop :=
  (∃ source, Chain.compile source o = .ok c) ∨ c ∈ given ∧ c.hasMemo = false

theorem Supplied.mono {o : Options} {given given' : List Chain} {c : Chain}
    (more : ∀ c ∈ given, c ∈ given') (supplied : Supplied o given c) : Supplied o given' c :=
  supplied.imp_right fun both => ⟨more c both.1, both.2⟩

theorem supplied_of_compileChain {o : Options} {path : TemplatePath} {template : Template}
    {c : Chain} (h : compileChain o path template = .ok c) : Supplied o template.chains c := by
  cases template with
  | expression source => exact .inl ⟨source, h⟩
  | chain d =>
    rw [compileChain] at h
    split at h
    · cases h
    · rename_i noMemo
      obtain rfl := Except.ok.inj h
      exact .inr ⟨by simp [Template.chains], by simpa using noMemo⟩
  | _ => cases h

mutual

theorem supplied_of_compileNode {o : Options} {path : TemplatePath} {template : Template}
    {node : Node} (h : compileNode o path template = .ok node) {c : Chain}
    (member : c ∈ node.chains) : Supplied o template.chains c := by
  match template with
  | .constant v =>
    obtain rfl := Except.ok.inj h
    simp [Node.chains] at member
  | .expression source | .chain d =>
    obtain ⟨d, compiled, rfl⟩ := map_eq_ok_iff.mp h
    obtain rfl : c = d := by simpa [Node.chains] using member
    exact supplied_of_compileChain compiled
  | .mapping entries =>
    rw [compileNode] at h
    obtain ⟨nodes, compiled, rfl⟩ := map_eq_ok_iff.mp h
    exact supplied_of_compileEntries compiled member
  | .list root template =>
    rw [compileNode] at h
    obtain ⟨rootChain, compiledRoot, h⟩ := bind_eq_ok_iff.mp h
    split at h
    · rename_i entries
      obtain ⟨nodes, compiled, rfl⟩ := map_eq_ok_iff.mp h
      rw [Template.chains]
      rcases List.mem_cons.mp member with rfl | member
      · exact (supplied_of_compileChain compiledRoot).mono fun _ => List.mem_append_left _
      · exact (supplied_of_compileEntries compiled member).mono fun _ => List.mem_append_right _
    · cases h
  | .sequence items =>
    rw [compileNode] at h
    obtain ⟨nodes, compiled, rfl⟩ := map_eq_ok_iff.mp h
    exact supplied_of_compileItems compiled member

theorem supplied_of_compileEntries {o : Options} {path : TemplatePath}
    {entries : List (String × Template)} {nodes : List (String × Node)}
    (h : compileEntries o path entries = .ok nodes) {c : Chain}
    (member : c ∈ Node.entriesChains nodes) : Supplied o (Template.entriesChains entries) c := by
  match entries with
  | [] =>
    obtain rfl := Except.ok.inj h
    simp [Node.entriesChains] at member
  | (key, template) :: rest =>
    simp only [compileEntries, bind_eq_ok_iff, pure_eq_ok_iff] at h
    obtain ⟨node, compiled, nodes, remaining, rfl⟩ := h
    rw [Template.entriesChains]
    rw [Node.entriesChains] at member
    rcases List.mem_append.mp member with member | member
    · exact (supplied_of_compileNode compiled member).mono fun _ => List.mem_append_left _
    · exact (supplied_of_compileEntries remaining member).mono fun _ => List.mem_append_right _

theorem supplied_of_compileItems {o : Options} {path : TemplatePath} {index : Nat}
    {items : List Template} {nodes : List Node} (h : compileItems o path index items = .ok nodes)
    {c : Chain} (member : c ∈ Node.itemsChains nodes) :
    Supplied o (Template.itemsChains items) c := by
  match items with
  | [] =>
    obtain rfl := Except.ok.inj h
    simp [Node.itemsChains] at member
  | template :: rest =>
    simp only [compileItems, bind_eq_ok_iff, pure_eq_ok_iff] at h
    obtain ⟨node, compiled, nodes, remaining, rfl⟩ := h
    rw [Template.itemsChains]
    rw [Node.itemsChains] at member
    rcases List.mem_append.mp member with member | member
    · exact (supplied_of_compileNode compiled member).mono fun _ => List.mem_append_left _
    · exact (supplied_of_compileItems remaining member).mono fun _ => List.mem_append_right _

end

theorem supplied_of_ofTemplate {o : Options} {template : Template} {p : Plan}
    (h : ofTemplate o template = .ok p) {c : Chain} (member : c ∈ p.chains) :
    Supplied o template.chains c := by
  cases template with
  | mapping entries => exact supplied_of_compileEntries h member
  | _ => cases h

/-- The paths of a template without chains are all compiled with the inherited registry. -/
theorem compiledWith_of_ofTemplate {o : Options} {template : Template} {p : Plan}
    (inherited : template.chains = []) (h : ofTemplate o template = .ok p) :
    ∀ c ∈ p.chains, c.CompiledWith o.registry := by
  intro c member
  rcases supplied_of_ofTemplate h member with ⟨source, compiled⟩ | ⟨given, -⟩
  · exact ⟨source, o, rfl, compiled⟩
  · rw [inherited] at given
    cases given

theorem Supplied.compiled {o : Options} {given : List Chain} {c : Chain}
    (constructed : ∀ c ∈ given, c.Constructed) (supplied : Supplied o given c) : c.Compiled := by
  rcases supplied with ⟨source, compiled⟩ | ⟨member, noMemo⟩
  · exact ⟨source, o, compiled⟩
  · exact (constructed c member).compiled_of_hasMemo noMemo

/-- What holds of all lookups that the registry makes and of those of the given chains holds of all
lookups of the plan. -/
theorem Supplied.lookups {o : Options} {given : List Chain} {c : Chain} {P : Lookup → Prop}
    (made : ∀ l, o.registry.Makes l → P l) (held : ∀ c ∈ given, ∀ step ∈ c.steps, P step.lookup)
    (supplied : Supplied o given c) : ∀ step ∈ c.steps, P step.lookup := by
  intro step among
  rcases supplied with ⟨source, compiled⟩ | ⟨member, -⟩
  · exact made _ (Chain.CompiledWith.makes ⟨source, o, rfl, compiled⟩ step among)
  · exact held c member step among

/-! ### The option to share prefixes -/

variable (o : Options) (optimize : Bool)

theorem compileChain_optimize (path : TemplatePath) (template : Template) :
    compileChain { o with optimize } path template = compileChain o path template := by
  cases template <;> rfl

mutual

theorem compileNode_optimize (path : TemplatePath) (template : Template) :
    compileNode { o with optimize } path template = compileNode o path template := by
  match template with
  | .constant v => rfl
  | .expression source => rfl
  | .chain c => rfl
  | .mapping entries => rw [compileNode, compileNode, compileEntries_optimize]
  | .list root template =>
    rw [compileNode, compileNode, compileChain_optimize]
    cases template with
    | mapping entries => simp only [compileEntries_optimize]
    | _ => rfl
  | .sequence items => rw [compileNode, compileNode, compileItems_optimize]

theorem compileEntries_optimize (path : TemplatePath) (entries : List (String × Template)) :
    compileEntries { o with optimize } path entries = compileEntries o path entries := by
  match entries with
  | [] => rfl
  | (key, template) :: rest =>
    rw [compileEntries, compileEntries, compileNode_optimize, compileEntries_optimize]

theorem compileItems_optimize (path : TemplatePath) (index : Nat) (items : List Template) :
    compileItems { o with optimize } path index items = compileItems o path index items := by
  match items with
  | [] => rfl
  | template :: rest =>
    rw [compileItems, compileItems, compileNode_optimize, compileItems_optimize]

end

theorem ofTemplate_optimize (template : Template) :
    ofTemplate { o with optimize } template = ofTemplate o template := by
  cases template with
  | mapping entries => exact compileEntries_optimize o optimize [] entries
  | _ => rfl

end Plan

end Reshape
