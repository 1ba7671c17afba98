import Reshape.Proofs.Chain.Evaluation
import Reshape.Proofs.Plan.Visibility

/-!
What sharing does to a plan, said without the traversal: a chain takes its first step from the table
exactly if a chain that it can see starts with the same step. `share_eq` gives the shared plan and
both counters.
-/

namespace Reshape

/-- The chain with its first step replaced by one that takes the outcome from the table. -/
def Chain.fromMemo (c : Chain) : Chain :=
  match c.steps with
  | [] => c
  | step :: rest => { c with steps := .memo step.raw :: rest }

section Rewriting

variable (P : Site → Chain → Prop) [∀ site c, Decidable (P site c)]

/-- Lets the chains that are picked out start from the table. -/
def rewriteWhere (site : Site) (c : Chain) : Chain := if P site c then c.fromMemo else c

/-- How many chains are picked out. -/
def countWhere (places : List (Site × Chain)) : Nat := places.countP fun place => P place.1 place.2

variable {P} {Q : Site → Chain → Prop} [∀ site c, Decidable (Q site c)]

theorem rewriteWhere_congr {site site' : Site} {c : Chain} (same : P site c ↔ Q site' c) :
    rewriteWhere P site c = rewriteWhere Q site' c := if_congr same rfl rfl

theorem countWhere_congr {places : List (Site × Chain)}
    (same : ∀ place ∈ places, P place.1 place.2 ↔ Q place.1 place.2) :
    countWhere P places = countWhere Q places :=
  List.countP_congr fun place member => by simpa using same place member

end Rewriting

theorem countWhere_echoesIn {turn : Nat → Turn} (numbers : Turn.Numbers turn) {n : Nat}
    (before : List Chain) (node : Node) {later : List (Site × Chain)}
    (behind : StartsFrom turn (n + 1) later) :
    countWhere (EchoesIn before ((turn n).below node.sites ++ later))
        ((turn n).below node.sites ++ later) =
      countWhere (EchoesAt before node.sites) node.sites +
        countWhere (EchoesIn (before ++ node.starts) later) later := by
  have first : countWhere
      (fun site => EchoesIn before ((turn n).below node.sites ++ later) (turn n :: site)) node.sites =
      countWhere (EchoesAt before node.sites) node.sites :=
    countWhere_congr fun place _ => echoesIn_first numbers behind
  have rest : countWhere (EchoesIn before ((turn n).below node.sites ++ later)) later =
      countWhere (EchoesIn (before ++ node.starts) later) later :=
    countWhere_congr fun place member => echoesIn_of_mem_later numbers behind member
  rw [← rest, ← first, countWhere, List.countP_append, Turn.below, List.countP_map]
  rfl

/-! ### Chains that start alike -/

namespace Chain

theorem fromMemo_of_split {c : Chain} {step : Step} {rest : List Step} (split : c.steps = step :: rest) :
    c.fromMemo = { c with steps := .memo step.raw :: rest } := by
  rw [fromMemo, split]

theorem reuse_zero_eq_fromMemo {c : Chain} (wellSpelled : c.WellSpelled) : c.reuse 0 = c.fromMemo := by
  obtain ⟨step, rest, split, -⟩ := exists_first wellSpelled
  rw [reuse_zero split, fromMemo_of_split split]

theorem texts_fromMemo (c : Chain) : c.fromMemo.texts = c.texts := by
  cases split : c.steps with
  | nil => rw [fromMemo, split]
  | cons step rest =>
    rw [fromMemo_of_split split, texts, texts, split]
    rfl

theorem length_fromMemo (c : Chain) : c.fromMemo.steps.length = c.steps.length := by
  rw [← length_texts, texts_fromMemo, length_texts]

theorem prefixesFrom_congr {steps steps' : List Step} (same : steps.map Step.raw = steps'.map Step.raw)
    (path : String) : prefixesFrom path steps = prefixesFrom path steps' := by
  induction steps generalizing steps' path with
  | nil => rw [List.map_eq_nil_iff.mp same.symm]
  | cons step rest ih =>
    cases steps' with
    | nil => cases same
    | cons step' rest' =>
      obtain ⟨first, later⟩ := List.cons.inj same
      rw [prefixesFrom, prefixesFrom, first, ih later]

theorem upTo_one_eq_iff {c d : Chain} (first : c.WellSpelled) (second : d.WellSpelled) :
    c.upTo 1 = d.upTo 1 ↔ c.texts.head? = d.texts.head? := by
  obtain ⟨step, rest, split, front⟩ := exists_first first
  obtain ⟨step', rest', split', front'⟩ := exists_first second
  rw [← front, ← front', extendPrefix_empty, extendPrefix_empty, texts, texts, split, split']
  simp

/-- A prefix is known from other chains exactly if one of them starts with the same step. -/
theorem mem_known_iff {before : List Chain} {c : Chain} (spelled : ∀ d ∈ before, d.WellSpelled)
    (own : c.WellSpelled) {path : String} (among : path ∈ c.prefixes)
    (known : path ∈ before.flatMap Chain.prefixes) : c.StartsLike before := by
  obtain ⟨d, member, there⟩ := List.mem_flatMap.mp known
  obtain ⟨i, -, rfl⟩ := (mem_prefixes own).mp among
  obtain ⟨j, -, same⟩ := (mem_prefixes (spelled d member)).mp there
  exact ⟨d, member, (upTo_one_eq_iff (spelled d member) own).mp
    (upTo_one_eq (spelled d member) own same.symm)⟩

theorem upTo_one_mem_known {before : List Chain} {c : Chain} (spelled : ∀ d ∈ before, d.WellSpelled)
    (own : c.WellSpelled) (alike : c.StartsLike before) :
    c.upTo 1 ∈ before.flatMap Chain.prefixes := by
  obtain ⟨d, member, same⟩ := alike
  rw [← (upTo_one_eq_iff (spelled d member) own).mpr same]
  exact List.mem_flatMap.mpr ⟨d, member, upTo_one_mem (spelled d member)⟩

end Chain

namespace Plan

theorem Sharing.shareChain_eq {s : Sharing} {before : List Chain} {c : Chain}
    (known : s.seen = before.flatMap Chain.prefixes) (spelled : ∀ d ∈ before, d.WellSpelled)
    (own : c.WellSpelled) :
    s.shareChain c = (if c.StartsLike before then c.fromMemo else c,
      ⟨(before ++ [c]).flatMap Chain.prefixes, s.scopes,
        s.reuses + if c.StartsLike before then 1 else 0⟩) := by
  have seen : s.seen ++ c.prefixes = (before ++ [c]).flatMap Chain.prefixes := by
    rw [known, List.flatMap_append, List.flatMap_singleton]
  by_cases alike : c.StartsLike before
  · -- The shortest prefix is known, so the chain is cut there and nowhere further on.
    have first : c.prefixes.findIdx? (s.seen.contains ·) = some 0 := by
      have front := Chain.upTo_one_mem_known spelled own alike
      obtain ⟨step, rest, split, -⟩ := Chain.exists_first own
      rw [Chain.prefixes_eq own, split, List.length_cons, List.range_succ_eq_map, List.map_cons,
        List.findIdx?_cons, known, List.contains_iff_mem.mpr front]
      rfl
    simp only [shareChain, first, seen, if_pos alike, Chain.reuse_zero_eq_fromMemo own]
  · have unknown : c.prefixes.findIdx? (s.seen.contains ·) = none := by
      rw [List.findIdx?_eq_none_iff]
      intro path among
      refine Bool.eq_false_iff.mpr fun held => alike ?_
      rw [known, List.contains_iff_mem] at held
      exact Chain.mem_known_iff spelled own among held
    simp only [shareChain, unknown, seen, if_neg alike, Nat.add_zero]

end Plan

/-! ### Shared plans -/

mutual

/-- How many mappings there are, those of list templates included. -/
def Node.mappings : Node → Nat
  | .constant _ | .expression _ => 0
  | .nested entries => entriesMappings entries + 1
  | .list _ entries => entriesMappings entries + 1
  | .sequence items => itemsMappings items

def Node.entriesMappings : List (String × Node) → Nat
  | [] => 0
  | (_, node) :: rest => node.mappings + entriesMappings rest

def Node.itemsMappings : List Node → Nat
  | [] => 0
  | node :: rest => node.mappings + itemsMappings rest

end

def Plan.mappings (p : Plan) : Nat := Node.entriesMappings p + 1

namespace Plan.Sharing

open Node (mapEntries mapItems entriesSites itemsSites entriesMappings itemsMappings)

theorem spelled_append_starts {before : List Chain} {node : Node}
    (spelled : ∀ d ∈ before, d.WellSpelled) (own : ∀ c ∈ node.chains, c.WellSpelled) :
    ∀ d ∈ before ++ node.starts, d.WellSpelled :=
  List.forall_mem_append.mpr ⟨spelled, fun d member => own d (Node.mem_chains_of_mem_starts member)⟩

mutual

/-- What sharing makes of a node when just the prefixes of the chains `before` it are known. -/
theorem shareNode_eq {s : Sharing} {before : List Chain} {node : Node}
    (known : s.seen = before.flatMap Chain.prefixes) (spelled : ∀ d ∈ before, d.WellSpelled)
    (own : ∀ c ∈ node.chains, c.WellSpelled) :
    s.shareNode node = (node.mapChains (rewriteWhere (EchoesAt before node.sites)),
      ⟨(before ++ node.starts).flatMap Chain.prefixes, s.scopes + node.mappings,
        s.reuses + countWhere (EchoesAt before node.sites) node.sites⟩) := by
  match node with
  | .constant v =>
    rw [shareNode, Node.starts, List.append_nil, ← known]
    rfl
  | .expression c =>
    have alone : EchoesAt before [([], c)] [] c ↔ c.StartsLike before := by
      simp [EchoesAt, Echoes, Site.InScope, Site.Sees]
    rw [shareNode, shareChain_eq known spelled (own c (List.mem_singleton_self c))]
    simp only [Node.mapChains, Node.sites, Node.starts, Node.mappings, rewriteWhere, countWhere,
      List.countP_singleton, alone, decide_eq_true_eq, Nat.add_zero]
  | .nested entries =>
    -- Whatever stands before the mapping, its entries start with nothing known.
    have inner := shareEntries_eq (s := s.enterScope) [] 0 rfl nofun own
    have same : ∀ place ∈ entriesSites 0 entries,
        EchoesIn [] (entriesSites 0 entries) place.1 place.2 ↔
          EchoesAt before (entriesSites 0 entries) place.1 place.2 := fun place member => by
      obtain ⟨i, site, -, here⟩ := startsFrom_entriesSites 0 entries place member
      rw [here, echoesAt_entry]
    rw [shareNode, inner, Node.mapChains, Node.sites, Node.starts, Node.mappings,
      List.append_nil, ← known, ← countWhere_congr same,
      ← Node.mapEntries_congr fun place member => rewriteWhere_congr (same place member)]
    simp only [leave, enterScope, Nat.add_assoc, Nat.add_comm 1]
  | .list root entries =>
    have own' := List.forall_mem_cons.mp own
    have inner := shareEntries_eq (s := (s.shareChain root).2.enterScope) [] 0 rfl nofun own'.2
    have same : ∀ place ∈ entriesSites 0 entries,
        EchoesIn [] (entriesSites 0 entries) place.1 place.2 ↔
          EchoesAt before (([.root], root) :: entriesSites 0 entries) place.1 place.2 :=
      fun place member => by
        obtain ⟨i, site, -, here⟩ := startsFrom_entriesSites 0 entries place member
        rw [here, echoesAt_entry_of_list]
    have count : countWhere (EchoesAt before (([.root], root) :: entriesSites 0 entries))
        (([.root], root) :: entriesSites 0 entries) =
        (if root.StartsLike before then 1 else 0) +
          countWhere (EchoesIn [] (entriesSites 0 entries)) (entriesSites 0 entries) := by
      rw [countWhere_congr same, countWhere, countWhere, List.countP_cons, Nat.add_comm]
      simp only [echoesAt_root, decide_eq_true_eq]
    rw [shareNode]
    dsimp only
    rw [inner, shareChain_eq known spelled own'.1, Node.mapChains, Node.sites, Node.starts,
      Node.mappings, count,
      ← Node.mapEntries_congr fun place member => rewriteWhere_congr (same place member)]
    simp only [leave, enterScope, rewriteWhere, echoesAt_root, Nat.add_assoc, Nat.add_comm 1]
  | .sequence items =>
    -- The items know what stands before the sequence; what they add themselves ends with it.
    have inner := shareItems_eq before 0 known spelled own
    have same : ∀ place ∈ itemsSites 0 items,
        EchoesIn before (itemsSites 0 items) place.1 place.2 ↔
          EchoesAt before (itemsSites 0 items) place.1 place.2 := fun place member => by
      obtain ⟨i, site, -, here⟩ := startsFrom_itemsSites 0 items place member
      rw [here, echoesAt_item]
    rw [shareNode, inner, Node.mapChains, Node.sites, Node.starts, Node.mappings,
      List.append_nil, ← known, ← countWhere_congr same,
      ← Node.mapItems_congr fun place member => rewriteWhere_congr (same place member)]
    rfl

theorem shareEntries_eq {s : Sharing} (before : List Chain) (n : Nat)
    {entries : List (String × Node)} (known : s.seen = before.flatMap Chain.prefixes)
    (spelled : ∀ d ∈ before, d.WellSpelled)
    (own : ∀ c ∈ Node.entriesChains entries, c.WellSpelled) :
    s.shareEntries entries =
      (mapEntries (rewriteWhere (EchoesIn before (entriesSites n entries))) n entries,
        ⟨(before ++ entries.flatMap fun entry => entry.2.starts).flatMap Chain.prefixes,
          s.scopes + entriesMappings entries,
          s.reuses +
            countWhere (EchoesIn before (entriesSites n entries)) (entriesSites n entries)⟩) := by
  match entries with
  | [] =>
    rw [shareEntries, List.flatMap_nil, List.append_nil, ← known]
    rfl
  | (key, node) :: rest =>
    rw [Node.entriesChains, List.forall_mem_append] at own
    have behind := startsFrom_entriesSites (n + 1) rest
    have first : node.mapChains (fun site => rewriteWhere
        (EchoesIn before (entriesSites n ((key, node) :: rest))) (.entry n :: site)) =
        node.mapChains (rewriteWhere (EchoesAt before node.sites)) :=
      Node.mapChains_congr fun place _ =>
        rewriteWhere_congr (echoesIn_first Turn.numbers_entry behind)
    have later : mapEntries (rewriteWhere (EchoesIn before (entriesSites n ((key, node) :: rest))))
        (n + 1) rest = mapEntries (rewriteWhere (EchoesIn (before ++ node.starts)
          (entriesSites (n + 1) rest))) (n + 1) rest :=
      Node.mapEntries_congr fun place member =>
        rewriteWhere_congr (echoesIn_of_mem_later Turn.numbers_entry behind member)
    have count := countWhere_echoesIn Turn.numbers_entry before node behind
    rw [shareEntries, shareNode_eq known spelled own.1]
    dsimp only
    rw [shareEntries_eq _ (n + 1) rfl (spelled_append_starts spelled own.1) own.2, mapEntries,
      first, later, entriesSites, count, entriesMappings, List.flatMap_cons, List.append_assoc,
      Nat.add_assoc, Nat.add_assoc]

theorem shareItems_eq {s : Sharing} (before : List Chain) (n : Nat) {items : List Node}
    (known : s.seen = before.flatMap Chain.prefixes) (spelled : ∀ d ∈ before, d.WellSpelled)
    (own : ∀ c ∈ Node.itemsChains items, c.WellSpelled) :
    s.shareItems items =
      (mapItems (rewriteWhere (EchoesIn before (itemsSites n items))) n items,
        ⟨(before ++ items.flatMap Node.starts).flatMap Chain.prefixes,
          s.scopes + itemsMappings items,
          s.reuses + countWhere (EchoesIn before (itemsSites n items)) (itemsSites n items)⟩) := by
  match items with
  | [] =>
    rw [shareItems, List.flatMap_nil, List.append_nil, ← known]
    rfl
  | node :: rest =>
    rw [Node.itemsChains, List.forall_mem_append] at own
    have behind := startsFrom_itemsSites (n + 1) rest
    have first : node.mapChains (fun site => rewriteWhere
        (EchoesIn before (itemsSites n (node :: rest))) (.item n :: site)) =
        node.mapChains (rewriteWhere (EchoesAt before node.sites)) :=
      Node.mapChains_congr fun place _ =>
        rewriteWhere_congr (echoesIn_first Turn.numbers_item behind)
    have later : mapItems (rewriteWhere (EchoesIn before (itemsSites n (node :: rest)))) (n + 1) rest =
        mapItems (rewriteWhere (EchoesIn (before ++ node.starts) (itemsSites (n + 1) rest)))
          (n + 1) rest :=
      Node.mapItems_congr fun place member =>
        rewriteWhere_congr (echoesIn_of_mem_later Turn.numbers_item behind member)
    have count := countWhere_echoesIn Turn.numbers_item before node behind
    rw [shareItems, shareNode_eq known spelled own.1]
    dsimp only
    rw [shareItems_eq _ (n + 1) rfl (spelled_append_starts spelled own.1) own.2, mapItems,
      first, later, itemsSites, count, itemsMappings, List.flatMap_cons, List.append_assoc,
      Nat.add_assoc, Nat.add_assoc]

end

end Plan.Sharing

namespace Plan

/-- The shared plan is the plan with its repeating chains rewritten, and these are counted, as are
the mappings. -/
theorem share_eq {p : Plan} (own : ∀ c ∈ p.chains, c.WellSpelled) :
    p.share.1 = p.mapChains (rewriteWhere p.Repeats) ∧ p.share.2.scopes = p.mappings ∧
      p.share.2.reuses = countWhere p.Repeats p.sites := by
  have all := Sharing.shareEntries_eq (s := Sharing.enterScope {}) [] 0 rfl nofun own
  rw [share, all]
  refine ⟨?_, Nat.add_comm _ _, ?_⟩
  · exact Node.mapEntries_congr fun place _ => rewriteWhere_congr echoesIn_nil_iff
  · exact (Nat.zero_add _).trans (countWhere_congr fun place _ => echoesIn_nil_iff)

end Plan

end Reshape
