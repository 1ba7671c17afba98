import Reshape.Proofs.Plan.Chains

/-!
Sites: the places of chains and nodes in a plan. A site is the way down to its place, so repeated
keys and equal chains stay apart. A plan may be changed chain by chain, with regard to their sites.
-/

namespace Reshape

/-- One turn on the way down. -/
inductive Turn where
  /-- Into an entry of a mapping, or of the template of a list. -/
  | entry (n : Nat)
  /-- To the root of a list. -/
  | root
  /-- Into an item of a sequence. -/
  | item (n : Nat)
  deriving DecidableEq, Repr

abbrev Site := List Turn

/-- Places below a turn, with their sites from above it. -/
def Turn.below {α : Type} (turn : Turn) (places : List (Site × α)) : List (Site × α) :=
  places.map fun place => (turn :: place.1, place.2)

/-! ### Chains with their sites -/

mutual

/-- All chains, those of list templates included, in the order in which they stand. -/
def Node.sites : Node → List (Site × Chain)
  | .constant _ => []
  | .expression c => [([], c)]
  | .nested entries => entriesSites 0 entries
  | .list root entries => ([.root], root) :: entriesSites 0 entries
  | .sequence items => itemsSites 0 items

def Node.entriesSites (n : Nat) : List (String × Node) → List (Site × Chain)
  | [] => []
  | (_, node) :: rest => (Turn.entry n).below node.sites ++ entriesSites (n + 1) rest

def Node.itemsSites (n : Nat) : List Node → List (Site × Chain)
  | [] => []
  | node :: rest => (Turn.item n).below node.sites ++ itemsSites (n + 1) rest

end

def Plan.sites (p : Plan) : List (Site × Chain) := Node.entriesSites 0 p

mutual

/-- The node with another chain at every site, and all else as it was. -/
def Node.mapChains : (Site → Chain → Chain) → Node → Node
  | _, .constant v => .constant v
  | f, .expression c => .expression (f [] c)
  | f, .nested entries => .nested (mapEntries f 0 entries)
  | f, .list root entries => .list (f [.root] root) (mapEntries f 0 entries)
  | f, .sequence items => .sequence (mapItems f 0 items)

def Node.mapEntries : (Site → Chain → Chain) → Nat → List (String × Node) → List (String × Node)
  | _, _, [] => []
  | f, n, (key, node) :: rest =>
    (key, node.mapChains fun site => f (.entry n :: site)) :: mapEntries f (n + 1) rest

def Node.mapItems : (Site → Chain → Chain) → Nat → List Node → List Node
  | _, _, [] => []
  | f, n, node :: rest => node.mapChains (fun site => f (.item n :: site)) :: mapItems f (n + 1) rest

end

def Plan.mapChains (f : Site → Chain → Chain) (p : Plan) : Plan := Node.mapEntries f 0 p

namespace Node

mutual

theorem map_snd_sites (node : Node) : node.sites.map Prod.snd = node.chains := by
  match node with
  | .constant v => rfl
  | .expression c => rfl
  | .nested entries => exact map_snd_entriesSites 0 entries
  | .list root entries =>
    rw [sites, chains, List.map_cons, map_snd_entriesSites]
  | .sequence items => exact map_snd_itemsSites 0 items

theorem map_snd_entriesSites (n : Nat) (entries : List (String × Node)) :
    (entriesSites n entries).map Prod.snd = entriesChains entries := by
  match entries with
  | [] => rfl
  | (key, node) :: rest =>
    rw [entriesSites, entriesChains, List.map_append, Turn.below, List.map_map,
      map_snd_entriesSites, ← map_snd_sites]
    rfl

theorem map_snd_itemsSites (n : Nat) (items : List Node) :
    (itemsSites n items).map Prod.snd = itemsChains items := by
  match items with
  | [] => rfl
  | node :: rest =>
    rw [itemsSites, itemsChains, List.map_append, Turn.below, List.map_map, map_snd_itemsSites,
      ← map_snd_sites]
    rfl

end

mutual

theorem sites_mapChains (f : Site → Chain → Chain) (node : Node) :
    (node.mapChains f).sites = node.sites.map fun place => (place.1, f place.1 place.2) := by
  match node with
  | .constant v => rfl
  | .expression c => rfl
  | .nested entries => exact entriesSites_mapEntries f 0 entries
  | .list root entries => rw [mapChains, sites, sites, entriesSites_mapEntries, List.map_cons]
  | .sequence items => exact itemsSites_mapItems f 0 items

theorem entriesSites_mapEntries (f : Site → Chain → Chain) (n : Nat)
    (entries : List (String × Node)) :
    entriesSites n (mapEntries f n entries) =
      (entriesSites n entries).map fun place => (place.1, f place.1 place.2) := by
  match entries with
  | [] => rfl
  | (key, node) :: rest =>
    rw [mapEntries, entriesSites, entriesSites, sites_mapChains, entriesSites_mapEntries,
      List.map_append, Turn.below, Turn.below, List.map_map, List.map_map]
    rfl

theorem itemsSites_mapItems (f : Site → Chain → Chain) (n : Nat) (items : List Node) :
    itemsSites n (mapItems f n items) =
      (itemsSites n items).map fun place => (place.1, f place.1 place.2) := by
  match items with
  | [] => rfl
  | node :: rest =>
    rw [mapItems, itemsSites, itemsSites, sites_mapChains, itemsSites_mapItems,
      List.map_append, Turn.below, Turn.below, List.map_map, List.map_map]
    rfl

end

mutual

/-- Only what becomes of the chains at their own sites matters. -/
theorem mapChains_congr {f g : Site → Chain → Chain} {node : Node}
    (same : ∀ place ∈ node.sites, f place.1 place.2 = g place.1 place.2) :
    node.mapChains f = node.mapChains g := by
  match node with
  | .constant v => rfl
  | .expression c => rw [mapChains, mapChains, same ([], c) (List.mem_singleton_self _)]
  | .nested entries => rw [mapChains, mapChains, mapEntries_congr same]
  | .list root entries =>
    rw [sites, List.forall_mem_cons] at same
    rw [mapChains, mapChains, same.1, mapEntries_congr same.2]
  | .sequence items => rw [mapChains, mapChains, mapItems_congr same]

theorem mapEntries_congr {f g : Site → Chain → Chain} {n : Nat} {entries : List (String × Node)}
    (same : ∀ place ∈ entriesSites n entries, f place.1 place.2 = g place.1 place.2) :
    mapEntries f n entries = mapEntries g n entries := by
  match entries with
  | [] => rfl
  | (key, node) :: rest =>
    rw [entriesSites, List.forall_mem_append, Turn.below, List.forall_mem_map] at same
    have first : node.mapChains (fun site => f (.entry n :: site)) =
        node.mapChains fun site => g (.entry n :: site) := mapChains_congr same.1
    rw [mapEntries, mapEntries, first, mapEntries_congr same.2]

theorem mapItems_congr {f g : Site → Chain → Chain} {n : Nat} {items : List Node}
    (same : ∀ place ∈ itemsSites n items, f place.1 place.2 = g place.1 place.2) :
    mapItems f n items = mapItems g n items := by
  match items with
  | [] => rfl
  | node :: rest =>
    rw [itemsSites, List.forall_mem_append, Turn.below, List.forall_mem_map] at same
    have first : node.mapChains (fun site => f (.item n :: site)) =
        node.mapChains fun site => g (.item n :: site) := mapChains_congr same.1
    rw [mapItems, mapItems, first, mapItems_congr same.2]

end

end Node

/-! ### Rows of entries or items -/

/-- All sites start with a turn from number `n` on. -/
def StartsFrom (turn : Nat → Turn) (n : Nat) (places : List (Site × Chain)) : Prop :=
  ∀ place ∈ places, ∃ i site, n ≤ i ∧ place.1 = turn i :: site

theorem StartsFrom.below_append {turn : Nat → Turn} {n : Nat} {places later : List (Site × Chain)}
    (starts : StartsFrom turn (n + 1) later) : StartsFrom turn n ((turn n).below places ++ later) := by
  intro place member
  rcases List.mem_append.mp member with member | member
  · obtain ⟨inner, -, rfl⟩ := List.mem_map.mp member
    exact ⟨n, inner.1, le_rfl, rfl⟩
  · obtain ⟨i, site, bound, same⟩ := starts place member
    exact ⟨i, site, by omega, same⟩

theorem startsFrom_entriesSites (n : Nat) (entries : List (String × Node)) :
    StartsFrom .entry n (Node.entriesSites n entries) := by
  induction entries generalizing n with
  | nil => exact nofun
  | cons entry rest ih => exact (ih (n + 1)).below_append

theorem startsFrom_itemsSites (n : Nat) (items : List Node) :
    StartsFrom .item n (Node.itemsSites n items) := by
  induction items generalizing n with
  | nil => exact nofun
  | cons node rest ih => exact (ih (n + 1)).below_append

end Reshape
