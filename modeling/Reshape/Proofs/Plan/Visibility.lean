import Reshape.Proofs.Plan.Sites

/-!
Which chains of a plan can be seen from which: those before a chain in the scope of its mapping, less
what sequences keep to themselves. A chain that starts as one in sight does echoes it.
-/

namespace Reshape

/-! ### Which chains a chain can see -/

/-- An earlier entry of the same mapping, or an earlier item of the same sequence. -/
def Turn.Before : Turn → Turn → Prop
  | .entry j, .entry i | .item j, .item i => j < i
  | _, _ => False

instance : DecidableRel Turn.Before := fun a b => by
  cases a <;> cases b <;> unfold Turn.Before <;> infer_instance

def Turn.isEntry : Turn → Bool
  | .entry _ => true
  | _ => false

/-- No other mapping is entered on the way down. -/
def Site.InScope (site : Site) : Prop := ∀ turn ∈ site, turn.isEntry = false

instance (site : Site) : Decidable (Site.InScope site) :=
  inferInstanceAs (Decidable (∀ turn ∈ site, _))

/-- A chain stands here itself, or as the root of a list. -/
def Site.Direct (site : Site) : Prop := site = [] ∨ site = [.root]

instance (site : Site) : Decidable (Site.Direct site) := inferInstanceAs (Decidable (_ ∨ _))

/-- Where the ways to two chains part, the first chain sees the second if that stands before it as a
direct entry or item, and it is itself still in the scope of the mapping there. -/
def Site.Sees : Site → Site → Prop
  | turn :: site, turn' :: other =>
    turn = turn' ∧ Sees site other ∨ turn'.Before turn ∧ InScope site ∧ Direct other
  | _, _ => False

instance Site.decidableSees : (site other : Site) → Decidable (Sees site other)
  | turn :: site, turn' :: other =>
    have := decidableSees site other
    inferInstanceAs (Decidable (turn = turn' ∧ Sees site other ∨
      turn'.Before turn ∧ InScope site ∧ Direct other))
  | [], _ => .isFalse id
  | _ :: _, [] => .isFalse id

/-- One of the chains starts with the same step. -/
def Chain.StartsLike (c : Chain) (before : List Chain) : Prop :=
  ∃ d ∈ before, d.texts.head? = c.texts.head?

instance (c : Chain) (before : List Chain) : Decidable (c.StartsLike before) :=
  inferInstanceAs (Decidable (∃ d ∈ before, _))

/-- Of the chains at these places, one that can be seen from the site starts with the same step. -/
def Echoes (places : List (Site × Chain)) (site : Site) (c : Chain) : Prop :=
  ∃ place ∈ places, site.Sees place.1 ∧ place.2.texts.head? = c.texts.head?

instance (places : List (Site × Chain)) (site : Site) (c : Chain) :
    Decidable (Echoes places site c) :=
  inferInstanceAs (Decidable (∃ place ∈ places, _))

/-- A chain in sight starts with the same step. -/
abbrev Plan.Repeats (p : Plan) : Site → Chain → Prop := Echoes p.sites

/-! ### Chains in sight -/

/-- The chains that can be seen by what stands behind a node. -/
def Node.starts : Node → List Chain
  | .expression c => [c]
  | .list root _ => [root]
  | .constant _ | .nested _ | .sequence _ => []

theorem Node.mem_starts_iff {node : Node} {d : Chain} :
    d ∈ node.starts ↔ ∃ place ∈ node.sites, Site.Direct place.1 ∧ place.2 = d := by
  have indirect {turn : Nat → Turn} {places : List (Site × Chain)} (other : ∀ i, turn i ≠ .root)
      (starts : StartsFrom turn 0 places) :
      ¬ ∃ place ∈ places, Site.Direct place.1 ∧ place.2 = d := by
    rintro ⟨place, member, direct, -⟩
    obtain ⟨i, site, -, same⟩ := starts place member
    rw [same] at direct
    rcases direct with direct | direct
    · cases direct
    · exact other i (List.cons.inj direct).1
  cases node with
  | constant v => simp [starts, sites]
  | expression c => simp [starts, sites, Site.Direct, eq_comm]
  | nested entries =>
    simpa [starts, sites] using indirect (by simp) (startsFrom_entriesSites 0 entries)
  | list root entries =>
    have inner := indirect (by simp) (startsFrom_entriesSites 0 entries)
    simp only [starts, sites, List.mem_singleton, List.exists_mem_cons_iff, inner, or_false]
    simp [Site.Direct, eq_comm]
  | sequence items =>
    simpa [starts, sites] using indirect (by simp) (startsFrom_itemsSites 0 items)

theorem Node.mem_chains_of_mem_starts {node : Node} {d : Chain} (member : d ∈ node.starts) :
    d ∈ node.chains := by
  obtain ⟨place, among, -, rfl⟩ := Node.mem_starts_iff.mp member
  rw [← Node.map_snd_sites]
  exact List.mem_map_of_mem among

/-- As `Echoes`, when the chains `before` a node can be seen from the scope around it. -/
def EchoesAt (before : List Chain) (places : List (Site × Chain)) (site : Site) (c : Chain) : Prop :=
  site.InScope ∧ c.StartsLike before ∨ Echoes places site c

/-- As `EchoesAt`, for the sites in a row of entries or items. -/
def EchoesIn (before : List Chain) (places : List (Site × Chain)) (site : Site) (c : Chain) : Prop :=
  Site.InScope site.tail ∧ c.StartsLike before ∨ Echoes places site c

instance (before : List Chain) (places : List (Site × Chain)) (site : Site) (c : Chain) :
    Decidable (EchoesAt before places site c) := inferInstanceAs (Decidable (_ ∨ _))

instance (before : List Chain) (places : List (Site × Chain)) (site : Site) (c : Chain) :
    Decidable (EchoesIn before places site c) := inferInstanceAs (Decidable (_ ∨ _))

/-- The turns into the parts of a row. -/
structure Turn.Numbers (turn : Nat → Turn) : Prop where
  before_iff {i j : Nat} : (turn j).Before (turn i) ↔ j < i
  inj {i j : Nat} : turn i = turn j ↔ i = j

theorem Turn.numbers_entry : Turn.Numbers .entry := ⟨Iff.rfl, by simp⟩

theorem Turn.numbers_item : Turn.Numbers .item := ⟨Iff.rfl, by simp⟩

section Rows

variable {turn : Nat → Turn} (numbers : Turn.Numbers turn) {n i j : Nat} {before : List Chain}
  {node : Node} {later : List (Site × Chain)} {site other : Site} {c : Chain}

include numbers

theorem sees_turn_iff :
    Site.Sees (turn i :: site) (turn j :: other) ↔
      i = j ∧ Site.Sees site other ∨ j < i ∧ Site.InScope site ∧ Site.Direct other := by
  rw [Site.Sees, numbers.before_iff, numbers.inj]

/-- In the first part of a row nothing is to be seen of the later ones. -/
theorem echoesIn_first (behind : StartsFrom turn (n + 1) later) :
    EchoesIn before ((turn n).below node.sites ++ later) (turn n :: site) c ↔
      EchoesAt before node.sites site c := by
  refine or_congr_right ⟨?_, ?_⟩
  · rintro ⟨place, member, sees, same⟩
    rcases List.mem_append.mp member with member | member
    · obtain ⟨inner, among, rfl⟩ := List.mem_map.mp member
      rcases (sees_turn_iff numbers).mp sees with ⟨-, sees⟩ | ⟨impossible, -⟩
      · exact ⟨inner, among, sees, same⟩
      · exact absurd impossible (lt_irrefl n)
    · obtain ⟨j, other, bound, here⟩ := behind place member
      rw [here, sees_turn_iff numbers] at sees
      omega
  · rintro ⟨place, member, sees, same⟩
    refine ⟨_, List.mem_append_left _ (List.mem_map_of_mem member), ?_, same⟩
    exact (sees_turn_iff numbers).mpr (.inl ⟨rfl, sees⟩)

/-- In the later parts the chains that the first one starts are to be seen as those before it. -/
theorem echoesIn_later (bound : n < i) :
    EchoesIn before ((turn n).below node.sites ++ later) (turn i :: site) c ↔
      EchoesIn (before ++ node.starts) later (turn i :: site) c := by
  have first : Echoes ((turn n).below node.sites) (turn i :: site) c ↔
      Site.InScope site ∧ c.StartsLike node.starts := by
    constructor
    · rintro ⟨place, member, sees, same⟩
      obtain ⟨inner, among, rfl⟩ := List.mem_map.mp member
      rcases (sees_turn_iff numbers).mp sees with ⟨impossible, -⟩ | ⟨-, inScope, direct⟩
      · omega
      · exact ⟨inScope, inner.2, Node.mem_starts_iff.mpr ⟨inner, among, direct, rfl⟩, same⟩
    · rintro ⟨inScope, d, member, same⟩
      obtain ⟨inner, among, direct, rfl⟩ := Node.mem_starts_iff.mp member
      refine ⟨_, List.mem_map_of_mem among, ?_, same⟩
      exact (sees_turn_iff numbers).mpr (.inr ⟨bound, inScope, direct⟩)
  have split : Echoes ((turn n).below node.sites ++ later) (turn i :: site) c ↔
      (Site.InScope site ∧ c.StartsLike node.starts) ∨ Echoes later (turn i :: site) c := by
    rw [← first]
    simp only [Echoes, List.mem_append, or_and_right, exists_or]
  have together : c.StartsLike (before ++ node.starts) ↔
      c.StartsLike before ∨ c.StartsLike node.starts := by
    simp only [Chain.StartsLike, List.mem_append, or_and_right, exists_or]
  rw [EchoesIn, EchoesIn, split, together, List.tail_cons, and_or_left, or_assoc]

theorem echoesIn_of_mem_later (behind : StartsFrom turn (n + 1) later)
    {place : Site × Chain} (member : place ∈ later) :
    EchoesIn before ((turn n).below node.sites ++ later) place.1 place.2 ↔
      EchoesIn (before ++ node.starts) later place.1 place.2 := by
  obtain ⟨i, site, bound, here⟩ := behind place member
  rw [here]
  exact echoesIn_later numbers bound

end Rows

theorem echoesIn_nil_iff {places : List (Site × Chain)} {site : Site} {c : Chain} :
    EchoesIn [] places site c ↔ Echoes places site c := by
  have nothing : ¬ c.StartsLike [] := fun ⟨_, member, _⟩ => by cases member
  simp only [EchoesIn, nothing, and_false, false_or]

/-- An entry opens a scope of its own, from which nothing before the mapping can be seen. -/
theorem echoesAt_entry {before : List Chain} {places : List (Site × Chain)} {i : Nat} {site : Site}
    {c : Chain} : EchoesAt before places (.entry i :: site) c ↔ EchoesIn [] places (.entry i :: site) c := by
  have left : ¬ Site.InScope (.entry i :: site) := fun inScope => by
    cases inScope (.entry i) List.mem_cons_self
  rw [echoesIn_nil_iff]
  simp only [EchoesAt, left, false_and, false_or]

theorem echoesAt_entry_of_list {before : List Chain} {places : List (Site × Chain)} {i : Nat}
    {site : Site} {root c : Chain} :
    EchoesAt before (([.root], root) :: places) (.entry i :: site) c ↔
      EchoesIn [] places (.entry i :: site) c := by
  have unseen : ¬ Site.Sees (.entry i :: site) [.root] := by
    rintro (⟨same, -⟩ | ⟨earlier, -⟩)
    · cases same
    · exact earlier
  rw [echoesAt_entry]
  simp only [EchoesIn, Echoes, List.exists_mem_cons_iff, unseen, false_and, false_or]

theorem echoesAt_item {before : List Chain} {places : List (Site × Chain)} {i : Nat} {site : Site}
    {c : Chain} :
    EchoesAt before places (.item i :: site) c ↔ EchoesIn before places (.item i :: site) c := by
  have same : Site.InScope (.item i :: site) ↔ Site.InScope site := by
    simp [Site.InScope, Turn.isEntry]
  rw [EchoesAt, EchoesIn, same, List.tail_cons]

theorem echoesAt_root {before : List Chain} {places : List (Site × Chain)} {c : Chain} :
    EchoesAt before places [.root] c ↔ c.StartsLike before := by
  have blind : ¬ Echoes places [.root] c := by
    rintro ⟨⟨other, d⟩, -, sees, -⟩
    cases other with
    | nil => exact sees
    | cons turn other =>
      rcases sees with ⟨-, sees⟩ | ⟨earlier, -⟩
      · cases other <;> exact sees
      · cases turn <;> exact earlier
  have inScope : Site.InScope [.root] := by simp [Site.InScope, Turn.isEntry]
  simp only [EchoesAt, blind, inScope, true_and, or_false]

end Reshape
