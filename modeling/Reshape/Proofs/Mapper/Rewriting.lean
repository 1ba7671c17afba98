import Reshape.Proofs.Mapper.Sharing
import Reshape.Proofs.Plan.Rewriting

/-!
Compiled mappers with and without shared prefixes, compared chain by chain and counter by counter.
-/

namespace Reshape

namespace Manifest

mutual

/-- A manifest counts the steps of chains and does not look at them. -/
theorem ofNode_mapChains {f : Site → Chain → Chain}
    (kept : ∀ site c, (f site c).steps.length = c.steps.length) (node : Node) :
    ofNode (node.mapChains f) = ofNode node := by
  match node with
  | .constant v => rfl
  | .expression c => rw [Node.mapChains, ofNode, ofNode, ofChain, ofChain, kept]
  | .nested entries => exact ofEntries_mapEntries kept 0 entries
  | .list root entries =>
    rw [Node.mapChains, ofNode, ofNode, ofChain, ofChain, kept, ofEntries_mapEntries kept]
  | .sequence items => exact ofItems_mapItems kept 0 items

theorem ofEntries_mapEntries {f : Site → Chain → Chain}
    (kept : ∀ site c, (f site c).steps.length = c.steps.length) (n : Nat)
    (entries : List (String × Node)) : ofEntries (Node.mapEntries f n entries) = ofEntries entries := by
  match entries with
  | [] => rfl
  | (key, node) :: rest =>
    rw [Node.mapEntries, ofEntries, ofEntries, ofNode_mapChains fun site => kept _,
      ofEntries_mapEntries kept]

theorem ofItems_mapItems {f : Site → Chain → Chain}
    (kept : ∀ site c, (f site c).steps.length = c.steps.length) (n : Nat) (items : List Node) :
    ofItems (Node.mapItems f n items) = ofItems items := by
  match items with
  | [] => rfl
  | node :: rest =>
    rw [Node.mapItems, ofItems, ofItems, ofNode_mapChains fun site => kept _, ofItems_mapItems kept]

end

end Manifest

section Rewriting

variable (P : Site → Chain → Prop) [∀ site c, Decidable (P site c)]

theorem length_rewriteWhere (site : Site) (c : Chain) :
    (rewriteWhere P site c).steps.length = c.steps.length := by
  rw [rewriteWhere]
  split
  · exact c.length_fromMemo
  · rfl

theorem texts_rewriteWhere (site : Site) (c : Chain) : (rewriteWhere P site c).texts = c.texts := by
  rw [rewriteWhere]
  split
  · exact c.texts_fromMemo
  · rfl

theorem prefixes_rewriteWhere (site : Site) (c : Chain) :
    (rewriteWhere P site c).prefixes = c.prefixes :=
  Chain.prefixesFrom_congr (texts_rewriteWhere P site c) ""

theorem rewriteWhere_of_split {c : Chain} {step : Step} {rest : List Step}
    (split : c.steps = step :: rest) (site : Site) :
    rewriteWhere P site c = { c with steps := (if P site c then .memo step.raw else step) :: rest } := by
  rw [rewriteWhere]
  split
  · exact Chain.fromMemo_of_split split
  · rw [← split]

end Rewriting

namespace Mapper

/-- Optimized or not, a mapper has the same plan but for the first steps of the chains that repeat
one in sight; its manifest counts these, and the mappings. -/
theorem compile_rewrites {o : Options} {template : Template} {plain : Mapper}
    (constructed : ∀ c ∈ template.chains, c.Constructed)
    (compiled : compile template { o with optimize := false } = .ok plain) :
    ∃ optimized, compile template { o with optimize := true } = .ok optimized ∧
      optimized.plan = plain.plan.mapChains (rewriteWhere plain.plan.Repeats) ∧
      optimized.plan.sites =
        plain.plan.sites.map (fun place =>
          (place.1, rewriteWhere plain.plan.Repeats place.1 place.2)) ∧
      (∀ site c, (site, c) ∈ plain.plan.sites →
        ∃ step rest, c.steps = step :: rest ∧
          rewriteWhere plain.plan.Repeats site c =
            { c with
              steps := (if plain.plan.Repeats site c then .memo step.raw else step) :: rest } ∧
          (rewriteWhere plain.plan.Repeats site c).texts = c.texts ∧
          (rewriteWhere plain.plan.Repeats site c).prefixes = c.prefixes) ∧
      optimized.manifest =
        { plain.manifest with
          scopes := plain.plan.mappings
          reuses := countWhere plain.plan.Repeats plain.plan.sites } ∧
      plain.manifest.scopes = 0 ∧ plain.manifest.reuses = 0 := by
  rw [compile_eq_map] at compiled
  cases planned : Plan.ofTemplate o template with
  | error e => simp [planned, Except.map] at compiled
  | ok p =>
    rw [planned] at compiled
    obtain rfl := Except.ok.inj compiled
    have wellSpelled : ∀ c ∈ p.chains, c.WellSpelled := fun c member =>
      ((Plan.supplied_of_ofTemplate planned member).compiled constructed).wellSpelled
    obtain ⟨plan, scopes, reuses⟩ := Plan.share_eq wellSpelled
    refine ⟨ofPlan true p, by rw [compile_eq_map, planned]; rfl, plan, ?_, ?_, ?_, rfl, rfl⟩
    · exact (congrArg Plan.sites plan).trans (Node.entriesSites_mapEntries _ 0 p)
    · intro site c member
      have among : c ∈ p.chains := by
        rw [Plan.chains, ← Node.map_snd_entriesSites 0]
        exact List.mem_map_of_mem member
      obtain ⟨step, rest, split, -⟩ := Chain.exists_first (wellSpelled c among)
      exact ⟨step, rest, split, rewriteWhere_of_split _ split site, texts_rewriteWhere _ site c,
        prefixes_rewriteWhere _ site c⟩
    · have same : Manifest.ofEntries p.share.1 = Manifest.ofEntries p := by
        rw [plan]
        exact Manifest.ofEntries_mapEntries (length_rewriteWhere _) 0 p
      simp only [ofPlan, if_true, Manifest.ofPlan, same, scopes, reuses]
      rfl

/-- The root of the list and one of its entries repeat a step, and so does the second item, but
neither the mapping nor what stands behind the sequence. -/
def scattered : Template :=
  .mapping [("first", .expression "a.b"),
    ("rows", .list (.expression "a.rows") (.mapping [("x", .expression "a.x"), ("y", .expression "a.y")])),
    ("pair", .sequence [.expression "b.x", .expression "b.y"]),
    ("inner", .mapping [("again", .expression "a.b")]),
    ("last", .chain ⟨"b.z", [⟨"b", .key "b"⟩, ⟨"z", .key "z"⟩], none, .skip, "pathmap.registry"⟩)]

theorem compile_rewrites_scattered :
    (∀ c ∈ scattered.chains, c.Constructed) ∧ scattered.chains.length = 1 ∧
      (compile scattered {}).toOption.map (·.manifest.reuses) = some 3 ∧
      (compile scattered {}).toOption.map (·.manifest.scopes) = some 3 ∧
      (compile scattered { optimize := false }).toOption.isSome ∧
      ∀ plain, compile scattered { optimize := false } = .ok plain →
        ∃ optimized, compile scattered {} = .ok optimized ∧
          optimized.plan = plain.plan.mapChains (rewriteWhere plain.plan.Repeats) ∧
          countWhere plain.plan.Repeats plain.plan.sites = 3 ∧ plain.plan.mappings = 3 := by
  have constructed : ∀ c ∈ scattered.chains, c.Constructed := fun c member =>
    List.mem_singleton.mp member ▸ .compiled ⟨"b.z", { failMode := .skip }, rfl⟩
  have reuses : (compile scattered {}).toOption.map (·.manifest.reuses) = some 3 := by decide +kernel
  have scopes : (compile scattered {}).toOption.map (·.manifest.scopes) = some 3 := by decide +kernel
  refine ⟨constructed, rfl, reuses, scopes, by decide +kernel, fun plain compiled => ?_⟩
  obtain ⟨optimized, shared, plan, -, -, manifest, -⟩ := compile_rewrites (o := {}) constructed compiled
  rw [shared] at reuses scopes
  have reused : optimized.manifest.reuses = 3 := Option.some.inj reuses
  have entered : optimized.manifest.scopes = 3 := Option.some.inj scopes
  rw [manifest] at reused entered
  exact ⟨optimized, shared, plan, reused, entered⟩

end Mapper

end Reshape
