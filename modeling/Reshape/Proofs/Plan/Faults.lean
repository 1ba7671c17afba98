import Reshape.Mapper
import Reshape.Proofs.Except

/-!
Faults of templates: which templates compile, and which fault is reported where several are. Every
place of a template is looked at in depth-first order, a list's root before its template, and the
first place that is at fault decides.
-/

namespace Reshape

/-! ### Paths of places -/

namespace TemplatePath

theorem text_nil : text [] = "$" := rfl

theorem text_concat (path : TemplatePath) (segment : Segment) :
    text (path ++ [segment]) = path.text ++ segment.text := by
  have joined (texts : List String) :
      ("".intercalate texts).toList = texts.flatMap String.toList := by
    rw [String.toList_intercalate, List.flatMap_def]
    generalize texts.map String.toList = pieces
    induction pieces with
    | nil => rfl
    | cons piece pieces ih =>
      cases pieces with
      | nil => simp
      | cons next pieces => simpa using ih
  apply String.toList_inj.mp
  simp [text, joined]

end TemplatePath

/-! ### Places and their faults -/

/-- What a template stands for at its place. -/
inductive Role where
  /-- All of it, at the top. -/
  | whole
  /-- An entry of a mapping or an element of a sequence. -/
  | node
  | listRoot
  | listTemplate
  deriving DecidableEq

/-- A part of a template where it stands. -/
structure Place where
  path : TemplatePath
  role : Role
  template : Template

namespace Template

mutual

/-- The places below a template in depth-first order of declaration. -/
def placesBelow (path : TemplatePath) : Template → List Place
  | .expression _ | .chain _ | .constant _ => []
  | .mapping entries => entryPlaces path entries
  | .list root template =>
    ⟨path ++ [.listRoot], .listRoot, root⟩ :: placesBelow (path ++ [.listRoot]) root ++
      ⟨path ++ [.listTemplate], .listTemplate, template⟩ ::
        placesBelow (path ++ [.listTemplate]) template
  | .sequence items => itemPlaces path 0 items

def entryPlaces (path : TemplatePath) : List (String × Template) → List Place
  | [] => []
  | (key, template) :: rest =>
    ⟨path ++ [.entry key], .node, template⟩ :: placesBelow (path ++ [.entry key]) template ++
      entryPlaces path rest

def itemPlaces (path : TemplatePath) (index : Nat) : List Template → List Place
  | [] => []
  | template :: rest =>
    ⟨path ++ [.element index], .node, template⟩ ::
        placesBelow (path ++ [.element index]) template ++
      itemPlaces path (index + 1) rest

end

/-- All places of a template, itself first. -/
def places (template : Template) : List Place := ⟨[], .whole, template⟩ :: placesBelow [] template

/-- What a template must be like to compile. -/
structure WellFormed (o : Options) (template : Template) : Prop where
  top : template.kind = .mapping
  listRoots : ∀ place ∈ template.places, place.role = .listRoot →
    place.template.kind = .expression ∨ place.template.kind = .chain
  listTemplates : ∀ place ∈ template.places, place.role = .listTemplate →
    place.template.kind = .mapping
  chains : ∀ place ∈ template.places, ∀ c, place.template = .chain c → c.hasMemo = false
  expressions : ∀ place ∈ template.places, ∀ source, place.template = .expression source →
    ∃ c, Chain.compile source o = .ok c

end Template

namespace Template

mutual

theorem role_ne_whole_of_mem_placesBelow {path : TemplatePath} {template : Template} {place : Place}
    (member : place ∈ placesBelow path template) : place.role ≠ .whole := by
  match template with
  | .expression _ | .chain _ | .constant _ => cases member
  | .mapping entries => exact role_ne_whole_of_mem_entryPlaces member
  | .list root template =>
    rw [placesBelow] at member
    rcases List.mem_append.mp member with member | member
    · rcases List.mem_cons.mp member with rfl | member
      · exact nofun
      · exact role_ne_whole_of_mem_placesBelow member
    · rcases List.mem_cons.mp member with rfl | member
      · exact nofun
      · exact role_ne_whole_of_mem_placesBelow member
  | .sequence items => exact role_ne_whole_of_mem_itemPlaces member

theorem role_ne_whole_of_mem_entryPlaces {path : TemplatePath} {entries : List (String × Template)}
    {place : Place} (member : place ∈ entryPlaces path entries) : place.role ≠ .whole := by
  match entries with
  | [] => cases member
  | (key, template) :: rest =>
    rw [entryPlaces] at member
    rcases List.mem_append.mp member with member | member
    · rcases List.mem_cons.mp member with rfl | member
      · exact nofun
      · exact role_ne_whole_of_mem_placesBelow member
    · exact role_ne_whole_of_mem_entryPlaces member

theorem role_ne_whole_of_mem_itemPlaces {path : TemplatePath} {index : Nat} {items : List Template}
    {place : Place} (member : place ∈ itemPlaces path index items) : place.role ≠ .whole := by
  match items with
  | [] => cases member
  | template :: rest =>
    rw [itemPlaces] at member
    rcases List.mem_append.mp member with member | member
    · rcases List.mem_cons.mp member with rfl | member
      · exact nofun
      · exact role_ne_whole_of_mem_placesBelow member
    · exact role_ne_whole_of_mem_itemPlaces member

end

end Template

namespace Place

/-- A fault in the structure of a template. -/
def fault? (place : Place) : Option TemplateFault :=
  match place.role, place.template with
  | .whole, template => if template.kind = .mapping then none else some .topNotAMapping
  | .listTemplate, template =>
    if template.kind = .mapping then none else some .listTemplateNotAMapping
  | _, .chain c => if c.hasMemo then some .memoizedChain else none
  | _, .expression _ => none
  | .listRoot, template => some (.notAnExpression template.kind)
  | .node, _ => none

/-- The error of a place: a fault in the structure, at the path of the place, or that of the
expression that stands there. -/
def error? (o : Options) (place : Place) : Option CompileError :=
  match place.fault?, place.template with
  | some fault, _ => some (.invalidTemplate place.path fault)
  | none, .expression source => failure? (Chain.compile source o)
  | none, _ => none

variable {o : Options} {place : Place}

theorem error?_eq_none_iff : place.error? o = none ↔
    (place.role = .whole → place.template.kind = .mapping) ∧
    (place.role = .listRoot →
      place.template.kind = .expression ∨ place.template.kind = .chain) ∧
    (place.role = .listTemplate → place.template.kind = .mapping) ∧
    (∀ c, place.template = .chain c → c.hasMemo = false) ∧
    ∀ source, place.template = .expression source → ∃ c, Chain.compile source o = .ok c := by
  obtain ⟨path, role, template⟩ := place
  cases role <;> cases template <;> simp [error?, fault?, Template.kind, failure?_eq_none_iff]
  case node.chain c | listRoot.chain c => cases c.hasMemo <;> simp

theorem error?_eq_some_iff {e : CompileError} : place.error? o = some e ↔
    (∃ fault, place.fault? = some fault ∧ e = .invalidTemplate place.path fault) ∨
    place.fault? = none ∧ ∃ source, place.template = .expression source ∧
      Chain.compile source o = .error e := by
  obtain ⟨path, role, template⟩ := place
  rw [error?]
  cases fault? ⟨path, role, template⟩ with
  | some fault => simp [eq_comm]
  | none => cases template <;> simp [failure?_eq_some_iff]

end Place

theorem Template.wellFormed_iff {o : Options} {template : Template} :
    template.WellFormed o ↔ ∀ place ∈ template.places, place.error? o = none := by
  constructor
  · intro wellFormed place member
    refine Place.error?_eq_none_iff.mpr ⟨fun whole => ?_, wellFormed.listRoots place member,
      wellFormed.listTemplates place member, wellFormed.chains place member,
      wellFormed.expressions place member⟩
    rcases List.mem_cons.mp member with rfl | below
    · exact wellFormed.top
    · exact absurd whole (role_ne_whole_of_mem_placesBelow below)
  · intro sound
    have each := fun place member => Place.error?_eq_none_iff.mp (sound place member)
    exact {
      top := (each _ List.mem_cons_self).1 rfl
      listRoots := fun place member => (each place member).2.1
      listTemplates := fun place member => (each place member).2.2.1
      chains := fun place member => (each place member).2.2.2.1
      expressions := fun place member => (each place member).2.2.2.2 }

namespace Plan

open Template (places placesBelow entryPlaces itemPlaces)

variable {o : Options}

theorem failure?_compileChain (path : TemplatePath) {template : Template} :
    failure? (compileChain o path template) = Place.error? o ⟨path, .listRoot, template⟩ := by
  cases template with
  | expression source => rfl
  | chain c =>
    cases memo : c.hasMemo <;> simp [compileChain, Place.error?, Place.fault?, memo, failure?]
  | constant | mapping | list | sequence => rfl

/-- Nothing below a list's root can be at fault before the root is. -/
theorem findSome?_root (path : TemplatePath) (root : Template) :
    (⟨path, .listRoot, root⟩ :: placesBelow path root).findSome? (Place.error? o) =
      Place.error? o ⟨path, .listRoot, root⟩ := by
  rw [List.findSome?_cons]
  cases root with
  | expression | chain =>
    rw [placesBelow, List.findSome?_nil]
    split <;> simp [*]
  | constant | mapping | list | sequence => rfl

mutual

theorem failure?_compileNode (path : TemplatePath) (template : Template) :
    failure? (compileNode o path template) =
      (⟨path, .node, template⟩ :: placesBelow path template).findSome? (Place.error? o) := by
  match template with
  | .constant v => rfl
  | .expression source | .chain c =>
    refine (failure?_map Node.expression (compileChain o path _)).trans ?_
    rw [failure?_compileChain, ← findSome?_root]
    rfl
  | .mapping entries =>
    rw [compileNode, failure?_map, failure?_compileEntries]
    rfl
  | .list root template =>
    rw [compileNode, placesBelow]
    show _ = List.findSome? _ (_ ++ _)
    rw [List.findSome?_append, findSome?_root, ← failure?_compileChain]
    refine failure?_bind fun c => ?_
    cases template with
    | mapping entries => exact (failure?_map _ _).trans (failure?_compileEntries _ entries)
    | expression | chain | constant | list | sequence => rfl
  | .sequence items =>
    rw [compileNode, failure?_map, failure?_compileItems]
    rfl

theorem failure?_compileEntries (path : TemplatePath) (entries : List (String × Template)) :
    failure? (compileEntries o path entries) =
      (entryPlaces path entries).findSome? (Place.error? o) := by
  match entries with
  | [] => rfl
  | (key, template) :: rest =>
    rw [compileEntries, entryPlaces, List.findSome?_append, ← failure?_compileNode,
      ← failure?_compileEntries]
    refine failure?_bind fun node => ?_
    exact failure?_map _ _

theorem failure?_compileItems (path : TemplatePath) (index : Nat) (items : List Template) :
    failure? (compileItems o path index items) =
      (itemPlaces path index items).findSome? (Place.error? o) := by
  match items with
  | [] => rfl
  | template :: rest =>
    rw [compileItems, itemPlaces, List.findSome?_append, ← failure?_compileNode,
      ← failure?_compileItems]
    refine failure?_bind fun node => ?_
    exact failure?_map _ _

end

theorem failure?_ofTemplate (template : Template) :
    failure? (ofTemplate o template) = template.places.findSome? (Place.error? o) := by
  cases template with
  | mapping entries =>
    rw [ofTemplate, failure?_compileEntries]
    rfl
  | expression | chain | constant | list | sequence => rfl

end Plan

namespace Mapper

variable {o : Options} {template : Template}

theorem failure?_compile :
    failure? (compile template o) = template.places.findSome? (Place.error? o) := by
  rw [← Plan.failure?_ofTemplate, compile]
  cases Plan.ofTemplate o template <;> rfl

/-- The templates that compile are the well-formed ones. Of others the first place at fault has its
error reported: a fault in the structure with the path of the place, or what is wrong with the
expression there. -/
theorem compile_reports_first_fault (template : Template) (o : Options) :
    ((∃ m, compile template o = .ok m) ↔ template.WellFormed o) ∧
    (∀ e, compile template o = .error e ↔
      ∃ before place after, template.places = before ++ place :: after ∧
        (∀ other ∈ before, other.error? o = none) ∧
        ((∃ fault, place.fault? = some fault ∧ e = .invalidTemplate place.path fault) ∨
          place.fault? = none ∧ ∃ source, place.template = .expression source ∧
            Chain.compile source o = .error e)) ∧
    TemplatePath.text [] = "$" ∧
    ∀ (path : TemplatePath) segment,
      TemplatePath.text (path ++ [segment]) = path.text ++ segment.text := by
  refine ⟨?_, fun e => ?_, TemplatePath.text_nil, TemplatePath.text_concat⟩
  · rw [← failure?_eq_none_iff, failure?_compile, List.findSome?_eq_none_iff,
      Template.wellFormed_iff]
  · rw [← failure?_eq_some_iff, failure?_compile, List.findSome?_eq_some_iff]
    simp only [Place.error?_eq_some_iff, and_comm]

/-- Four faults: the list's root comes before its template, and both before what follows. -/
def tangled : Template :=
  .mapping [("name", .constant .null),
    ("crew", .sequence [.mapping [], .list (.mapping [("x", .expression "")]) (.expression "")]),
    ("ship", .expression "")]

example : (failure? (compile tangled {})).map CompileError.message =
    some "invalid template at `$.crew[1].root`: expected an expression, found mapping" := by
  decide

end Mapper

end Reshape
