import Reshape.Proofs.Registry

/-!
Finding by conditions, from the text of the step on. The conditions are those that the text spells,
of a repeated key the last one; the first element that meets them all is found. The order of
conditions on different keys does not matter.
-/

namespace Reshape.Find

/-- The text of a condition among others. -/
def Condition.spelling (c : Condition) : List Char := c.1.toList ++ '=' :: c.2.toList

/-- The condition of a text. -/
def Condition.ofSpelling (piece : List Char) : Condition :=
  let (key, text) := Text.cut '=' piece
  (String.ofList key, String.ofList (text.getD []))

/-- The conditions as a list of arguments. -/
def write (conditions : List Condition) : String :=
  ",".intercalate (conditions.map fun c => c.1 ++ "=" ++ c.2)

/-- The conditions are what the list spells: a key reaches to the first equals sign, and a condition
to the next comma or to the end. -/
structure Spells (list : String) (conditions : List Condition) : Prop where
  nonempty : conditions ≠ []
  bounded : ∀ c ∈ conditions, '=' ∉ c.1.toList ∧ ',' ∉ c.1.toList ∧ ',' ∉ c.2.toList
  text : list = write conditions

/-- The conditions in another order: any if their keys are distinct, else one of neighbours with
different keys. -/
inductive Rearranges : List Condition → List Condition → Prop
  | distinct {conditions reordered : List Condition} : (conditions.map Prod.fst).Nodup →
    conditions.Perm reordered → Rearranges conditions reordered
  | swap {first second : Condition} (front back : List Condition) : first.1 ≠ second.1 →
    Rearranges (front ++ first :: second :: back) (front ++ second :: first :: back)

/-- How a scalar is written where it is compared: strings as they are, all others as in JSON. -/
def Shows (v : Json) (text : String) : Prop :=
  v = .string text ∨ (v.kind = .number ∨ v.kind = .bool ∨ v.kind = .null) ∧ v.text = text

/-- The value is a mapping and has, for every key, what the last condition on it asks. -/
def Qualifies (conditions : List Condition) (item : Json) : Prop :=
  ∃ fields, item = .object fields ∧ ∀ key text, Fields.Last conditions key text →
    ∃ v, fields.lookup key = some v ∧ Shows v text

variable {conditions found : List Condition} {list : String} {a : Arguments} {items : List Json}

/-! ### The text of the step -/

theorem ofSpelling_spelling {c : Condition} (clean : '=' ∉ c.1.toList) :
    Condition.ofSpelling c.spelling = c := by
  simp [Condition.ofSpelling, Condition.spelling, Text.cut_append clean]

theorem spelling_ofSpelling {piece : List Char} (named : '=' ∈ piece) :
    (Condition.ofSpelling piece).spelling = piece ∧
      '=' ∉ (Condition.ofSpelling piece).1.toList := by
  obtain ⟨key, text, rfl, clean⟩ := List.eq_append_cons_of_mem named
  simp [Condition.ofSpelling, Condition.spelling, Text.cut_append clean, clean]

theorem toList_write (conditions : List Condition) :
    (write conditions).toList = [','].intercalate (conditions.map Condition.spelling) := by
  rw [write, String.toList_intercalate, List.map_map]
  congr 2
  funext c
  simp [Condition.spelling]

theorem Spells.split_eq (spells : Spells list conditions) :
    Text.split ',' list.toList = conditions.map Condition.spelling := by
  refine Text.split_eq_iff.mpr ⟨by simpa using spells.nonempty, ?_, ?_⟩
  · intro piece member
    obtain ⟨c, among, rfl⟩ := List.mem_map.mp member
    obtain ⟨-, key, text⟩ := spells.bounded c among
    simp [Condition.spelling, key, text]
  · rw [spells.text, toList_write]

theorem Spells.unique {other : List Condition} (spells : Spells list conditions)
    (spells' : Spells list other) : other = conditions := by
  have read : ∀ {conditions : List Condition}, Spells list conditions →
      (Text.split ',' list.toList).map Condition.ofSpelling = conditions := by
    intro conditions spells
    rw [spells.split_eq, List.map_map]
    exact (List.map_congr_left fun c member => ofSpelling_spelling (spells.bounded c member).1).trans
      (List.map_id _)
  rw [← read spells, ← read spells']

/-- Arguments that all have names are conditions. -/
theorem exists_spells (spelled : a.Spelled (Text.split ',' list.toList))
    (named : a.positional = []) : ∃ conditions, Spells list conditions := by
  obtain ⟨nonempty, clean, whole⟩ := Text.split_eq_iff.mp (rfl : Text.split ',' list.toList = _)
  have signs : ∀ piece ∈ Text.split ',' list.toList, '=' ∈ piece := by
    rw [spelled.positional] at named
    simpa using named
  have back : ((Text.split ',' list.toList).map Condition.ofSpelling).map Condition.spelling =
      Text.split ',' list.toList := by
    rw [List.map_map]
    exact (List.map_congr_left fun piece member => (spelling_ofSpelling (signs piece member)).1).trans
      (List.map_id _)
  refine ⟨(Text.split ',' list.toList).map Condition.ofSpelling, ?_, ?_, ?_⟩
  · simpa using nonempty
  · intro c member
    obtain ⟨piece, among, rfl⟩ := List.mem_map.mp member
    obtain ⟨same, key⟩ := spelling_ofSpelling (signs piece among)
    have comma := clean piece among
    rw [← same, Condition.spelling, List.mem_append, not_or, List.mem_cons, not_or] at comma
    exact ⟨key, comma.1, comma.2.2⟩
  · rw [← String.toList_inj, toList_write, back]
    exact whole

theorem Spells.positional_eq_nil (spells : Spells list conditions)
    (spelled : a.Spelled (Text.split ',' list.toList)) : a.positional = [] := by
  have signs : ∀ piece ∈ conditions.map Condition.spelling, '=' ∈ piece := by
    intro piece member
    obtain ⟨c, -, rfl⟩ := List.mem_map.mp member
    simp [Condition.spelling]
  rw [spelled.positional, spells.split_eq]
  simpa using signs

/-- The named arguments are the last conditions on each key. -/
theorem Spells.mem_named_iff (spells : Spells list conditions)
    (spelled : a.Spelled (Text.split ',' list.toList)) (key text : String) :
    (key, text) ∈ a.named ↔ Fields.Last conditions key text := by
  rw [spelled.named, spells.split_eq]
  constructor
  · rintro ⟨earlier, later, whole, clean, last⟩
    obtain ⟨before, rest, rfl, rfl, tail⟩ := List.map_eq_append_iff.mp whole
    obtain ⟨c, after, rfl, written, rfl⟩ := List.map_eq_cons_iff.mp tail
    have bound := (spells.bounded c (by simp)).1
    obtain rfl : c = (key, text) := by
      rw [← ofSpelling_spelling bound, written]
      exact ofSpelling_spelling (c := (key, text)) clean
    refine ⟨before, after, rfl, fun again => ?_⟩
    obtain ⟨other, among, same⟩ := List.mem_map.mp again
    refine last other.2.toList ?_
    rw [← same]
    exact List.mem_map_of_mem among
  · rintro ⟨before, after, rfl, absent⟩
    have bound := (spells.bounded (key, text) (by simp)).1
    refine ⟨before.map Condition.spelling, after.map Condition.spelling, by simp [Condition.spelling],
      bound, fun other again => ?_⟩
    obtain ⟨c, among, written⟩ := List.mem_map.mp again
    have same := ((Text.append_cons_inj (spells.bounded c (by simp [among])).1 bound).mp written).1
    exact absent (List.mem_map.mpr ⟨c, among, String.toList_inj.mp same⟩)

theorem Rearranges.perm {reordered : List Condition} (rearranges : Rearranges conditions reordered) :
    conditions.Perm reordered := by
  cases rearranges with
  | distinct _ perm => exact perm
  | swap front back _ => exact .append_left front (.swap _ _ back)

theorem Rearranges.last_iff {reordered : List Condition} (rearranges : Rearranges conditions reordered)
    (key text : String) : Fields.Last reordered key text ↔ Fields.Last conditions key text := by
  cases rearranges with
  | distinct nodup perm =>
    rw [Fields.last_iff_mem nodup, Fields.last_iff_mem ((perm.map Prod.fst).nodup nodup), perm.mem_iff]
  | swap front back different => exact Fields.last_swap different

/-! ### The compiled step -/

theorem construct_find (name : String) (a : Arguments) :
    (Registry.builtins name).construct (some "find") a = .find <$> ofArguments a := by
  have held : Fields.Last Registry.builtinCalls (some "find") fun a => .find <$> ofArguments a :=
    ⟨Registry.builtinCalls.take 1, Registry.builtinCalls.drop 2, rfl, by decide⟩
  have resolved := Registry.resolve_eq_ok_iff.mpr ((Registry.holds_builtins name _ _).mpr held)
  exact Registry.construct_of_resolve resolved a

theorem ofArguments_eq_ok_iff : ofArguments a = .ok found ↔ a.positional = [] ∧ a.named = found := by
  rw [ofArguments]
  split <;> simp_all

theorem compileStep_eq_ok_iff {name raw : String} {s : Step} :
    Chain.compileStep (.builtins name) ⟨raw, .call "find" a⟩ = .ok s ↔
      a.positional = [] ∧ s = ⟨raw, .find a.named⟩ := by
  simp only [Chain.compileStep, construct_find, bind_eq_ok_iff, map_eq_ok_iff, ofArguments_eq_ok_iff,
    pure_eq_ok_iff]
  constructor
  · rintro ⟨_, ⟨_, ⟨named, rfl⟩, rfl⟩, rfl⟩
    exact ⟨named, rfl⟩
  · rintro ⟨named, rfl⟩
    exact ⟨_, ⟨_, ⟨named, rfl⟩, rfl⟩, rfl⟩

theorem wellFormed_find_iff {form : Path.Form} :
    Path.Step.WellFormed ⟨"<find:" ++ list ++ ">", form⟩ ↔
      '<' ∉ list.toList ∧ '>' ∉ list.toList ∧
        ∃ a : Arguments, a.Spelled (Text.split ',' list.toList) ∧ .call "find" a = form := by
  have text : "<find:" ++ list ++ ">" =
      String.ofList ('<' :: ("find".toList ++ ':' :: list.toList) ++ ['>']) := by
    rw [← String.toList_inj]
    simp
  rw [text, Path.wellFormed_bracketed_iff,
    Path.spelled_withArguments_iff (by decide) (by decide), String.ofList_toList]
  simp

/-- Rearranged conditions are read and compiled to the same lookup. -/
theorem exists_rearranged {name : String} {reordered : List Condition} (spells : Spells list conditions)
    (opening : '<' ∉ list.toList) (closing : '>' ∉ list.toList)
    (spelled : a.Spelled (Text.split ',' list.toList)) (rearranges : Rearranges conditions reordered) :
    ∃ step : Path.Step, step.WellFormed ∧ step.raw = "<find:" ++ write reordered ++ ">" ∧
      Chain.compileStep (.builtins name) step = .ok ⟨step.raw, .find a.named⟩ := by
  have perm := rearranges.perm
  have spells' : Spells (write reordered) reordered :=
    ⟨fun empty => spells.nonempty (perm.trans (.of_eq empty)).eq_nil,
      fun c member => spells.bounded c (perm.mem_iff.mpr member), rfl⟩
  -- Whether the text is read depends on its letters and on the front of each piece, not on the order.
  have letters : ∀ c, c ≠ ',' → (c ∈ (write reordered).toList ↔ c ∈ list.toList) := by
    intro c other
    rw [spells.text, toList_write, toList_write, Text.mem_intercalate_iff other,
      Text.mem_intercalate_iff other]
    simp only [(perm.map Condition.spelling).mem_iff]
  have haveNames : ∀ piece ∈ Text.split ',' (write reordered).toList, piece.head? ≠ some '=' := by
    rw [spells'.split_eq]
    intro piece member
    refine spelled.haveNames piece ?_
    rw [spells.split_eq]
    exact (perm.map Condition.spelling).mem_iff.mpr member
  obtain ⟨a', read⟩ := Path.exists_foldlM haveNames {}
  have spelled' := Path.foldlM_addArgument_eq_ok_iff.mp read
  -- The named arguments are kept in the order of their keys, so those that are last make the list.
  have named : a'.named = a.named := by
    refine spelled'.ascending.ext spelled.ascending fun field => ?_
    rw [spells'.mem_named_iff spelled', spells.mem_named_iff spelled, rearranges.last_iff]
  refine ⟨⟨_, .call "find" a'⟩, wellFormed_find_iff.mpr ⟨?_, ?_, a', spelled', rfl⟩, rfl, ?_⟩
  · rwa [letters _ (by decide)]
  · rwa [letters _ (by decide)]
  · exact compileStep_eq_ok_iff.mpr ⟨spells'.positional_eq_nil spelled', by rw [named]⟩

/-! ### What is found -/

theorem hasText_iff {v : Json} {text : String} : hasText text v = true ↔ Shows v text := by
  cases v with
  | bool b => cases b <;> simp [hasText, Shows, Json.kind, Json.text]
  | _ => simp [hasText, Shows, Json.kind, Json.text, eq_comm]

theorem holds_iff {c : Condition} {item : Json} :
    Condition.holds c item = true ↔
      ∃ fields, item = .object fields ∧ ∃ v, fields.lookup c.1 = some v ∧ Shows v c.2 := by
  cases item with
  | object fields => simp [Condition.holds, Json.field?, Option.any_eq_true, hasText_iff]
  | _ => simp [Condition.holds, Json.field?]

theorem all_holds_iff (nonempty : conditions ≠ [])
    (named : ∀ key text, (key, text) ∈ found ↔ Fields.Last conditions key text) (item : Json) :
    (found.all fun c => Condition.holds c item) = true ↔ Qualifies conditions item := by
  rw [List.all_eq_true]
  constructor
  · intro holds
    obtain ⟨c, rest, rfl⟩ := List.exists_cons_of_ne_nil nonempty
    obtain ⟨text, last⟩ := Fields.exists_last_iff.mpr (show c.1 ∈ (c :: rest).map Prod.fst by simp)
    obtain ⟨fields, rfl, -⟩ := holds_iff.mp (holds (c.1, text) ((named c.1 text).mpr last))
    refine ⟨fields, rfl, fun key text last => ?_⟩
    obtain ⟨_, same, v, field, shows⟩ := holds_iff.mp (holds (key, text) ((named key text).mpr last))
    obtain rfl := Json.object.inj same
    exact ⟨v, field, shows⟩
  · rintro ⟨fields, rfl, each⟩ c member
    exact holds_iff.mpr ⟨fields, rfl, each c.1 c.2 ((named c.1 c.2).mp member)⟩

theorem evaluate_eq_ok_iff {item : Json}
    (holds : ∀ item, (found.all fun c => Condition.holds c item) = true ↔ Qualifies conditions item) :
    evaluate found (.array items) = .ok item ↔
      ∃ i : Nat, items[i]? = some item ∧ Qualifies conditions item ∧
        ∀ j earlier, j < i → items[j]? = some earlier → ¬ Qualifies conditions earlier := by
  have first : evaluate found (.array items) = .ok item ↔
      (items.find? fun item => found.all fun c => Condition.holds c item) = some item := by
    simp only [evaluate]
    split <;> simp [*]
  rw [first, List.find?_eq_some_iff_getElem, holds]
  simp only [Bool.not_eq_true', ← Bool.not_eq_true, holds]
  constructor
  · rintro ⟨qualifies, i, bound, rfl, before⟩
    refine ⟨i, List.getElem?_eq_getElem bound, qualifies, fun j earlier below at_ => ?_⟩
    obtain ⟨_, rfl⟩ := List.getElem?_eq_some_iff.mp at_
    exact before j below
  · rintro ⟨i, at_, qualifies, before⟩
    obtain ⟨bound, rfl⟩ := List.getElem?_eq_some_iff.mp at_
    exact ⟨qualifies, i, bound, rfl, fun j below =>
      before j _ below (List.getElem?_eq_getElem (below.trans bound))⟩

theorem evaluate_eq_error_iff {e : LookupError}
    (holds : ∀ item, (found.all fun c => Condition.holds c item) = true ↔ Qualifies conditions item) :
    evaluate found (.array items) = .error e ↔
      e = .notFound ∧ ∀ item ∈ items, ¬ Qualifies conditions item := by
  have none : (items.find? fun item => found.all fun c => Condition.holds c item) = none ↔
      ∀ item ∈ items, ¬ Qualifies conditions item := by
    simp only [List.find?_eq_none, holds]
  rw [← none]
  simp only [evaluate]
  split
  · next h => simp [h]
  · next h => simp [h, eq_comm]

/-- A step that finds by conditions gives the first element that meets the conditions of its text, and
fails with `notFound` exactly if there is none. Rearranged conditions are compiled to the same lookup
in the same place. -/
theorem find_first_match {name source : String} {o : Options} {c : Chain} {before after : List Step}
    {s : Step} (builtins : o.registry = .builtins name) (compiled : Chain.compile source o = .ok c)
    (place : c.steps = before ++ s :: after) (written : s.raw = "<find:" ++ list ++ ">") :
    ∃ conditions, Spells list conditions ∧ (∀ other, Spells list other → other = conditions) ∧
      (∀ scope items t, ∃ result, s.lookup.evaluate scope (.array items) t = (result, t) ∧
        (∀ item, result = .ok item ↔
          ∃ i : Nat, items[i]? = some item ∧ Qualifies conditions item ∧
            ∀ j earlier, j < i → items[j]? = some earlier → ¬ Qualifies conditions earlier) ∧
        ∀ e, result = .error e ↔ e = .notFound ∧ ∀ item ∈ items, ¬ Qualifies conditions item) ∧
      ∀ reordered, Rearranges conditions reordered →
        ∃ c', c'.steps = before ++ ⟨"<find:" ++ write reordered ++ ">", s.lookup⟩ :: after ∧
          Chain.compile (".".intercalate (c'.steps.map Step.raw)) o = .ok c' := by
  obtain ⟨⟨raw, form⟩, wellFormed, made⟩ :=
    Chain.exists_of_mem_steps compiled (show s ∈ c.steps by simp [place])
  obtain rfl : raw = "<find:" ++ list ++ ">" := (Chain.compileStep_eq_ok made).1.symm.trans written
  obtain ⟨opening, closing, a, spelled, same⟩ := wellFormed_find_iff.mp wellFormed
  obtain ⟨named, rfl⟩ := compileStep_eq_ok_iff.mp (builtins ▸ same ▸ made)
  obtain ⟨conditions, spells⟩ := exists_spells spelled named
  have holds := all_holds_iff spells.nonempty (spells.mem_named_iff spelled)
  refine ⟨conditions, spells, fun other => spells.unique, ?_, ?_⟩
  · exact fun scope items t => ⟨_, rfl, fun item => evaluate_eq_ok_iff holds,
      fun e => evaluate_eq_error_iff holds⟩
  · intro reordered rearranges
    obtain ⟨step, fine, raw, made'⟩ := exists_rearranged spells opening closing spelled rearranges
    rw [← builtins, raw] at made'
    exact Chain.compile_replace compiled place fine made'

/-- A key that is given twice, a number and a string under it, and the same list from another
condition on. -/
theorem find_first_match_repeated :
    let conditions := [("id", "7"), ("ok", "true"), ("id", "8")]
    let lookup := Lookup.find [("id", "8"), ("ok", "true")]
    let field : Step := ⟨"xs", .key "xs"⟩
    let c : Chain := ⟨"xs.<find:id=7,ok=true,id=8>",
      [field, ⟨"<find:id=7,ok=true,id=8>", lookup⟩], none, .fail, "pathmap.registry"⟩
    let seven : Json := .object [("id", .string "7"), ("ok", .bool true)]
    let eight : Json := .object [("id", .number (.ofInt 8)), ("ok", .bool true)]
    Chain.compile "xs.<find:id=7,ok=true,id=8>" {} = .ok c ∧
      Spells "id=7,ok=true,id=8" conditions ∧
      (∀ scope t, lookup.evaluate scope (.array [seven, eight]) t = (.ok eight, t) ∧
        lookup.evaluate scope (.array [seven]) t = (.error .notFound, t)) ∧
      Qualifies conditions eight ∧ ¬ Qualifies conditions seven ∧
      ∃ c', c'.steps = [field, ⟨"<find:ok=true,id=7,id=8>", lookup⟩] ∧
        Chain.compile "xs.<find:ok=true,id=7,id=8>" {} = .ok c' := by
  intro conditions lookup field c seven eight
  have compiled : Chain.compile "xs.<find:id=7,ok=true,id=8>" {} = .ok c := by
    refine Chain.compile_eq_ok_iff.mpr ⟨[⟨"xs", .key "xs"⟩, ⟨"<find:id=7,ok=true,id=8>",
      .call "find" ⟨[], [("id", "8"), ("ok", "true")]⟩⟩], _, ?_, rfl, rfl⟩
    exact toOption_eq_some_iff.mp (by decide +kernel)
  have spells : Spells "id=7,ok=true,id=8" conditions := ⟨by simp [conditions], by decide, by decide⟩
  have written : "<find:id=7,ok=true,id=8>" = "<find:" ++ "id=7,ok=true,id=8" ++ ">" := by decide
  obtain ⟨found, -, unique, first, rearranged⟩ :=
    find_first_match rfl compiled (show c.steps = [field] ++ _ :: [] from rfl) written
  obtain rfl := unique conditions spells
  have runs : ∀ scope t, lookup.evaluate scope (.array [seven, eight]) t = (.ok eight, t) ∧
      lookup.evaluate scope (.array [seven]) t = (.error .notFound, t) :=
    fun scope t => ⟨rfl, rfl⟩
  refine ⟨compiled, spells, runs, ?_, ?_, ?_⟩
  · obtain ⟨result, run, ok, -⟩ := first ⟨.null, .null, .null⟩ [seven, eight] .empty
    obtain ⟨-, -, qualifies, -⟩ := (ok eight).mp (congrArg Prod.fst run).symm
    exact qualifies
  · obtain ⟨result, run, -, error⟩ := first ⟨.null, .null, .null⟩ [seven] .empty
    exact ((error .notFound).mp (congrArg Prod.fst run).symm).2 seven (by simp)
  · obtain ⟨c', steps, compiled'⟩ := rearranged _ (.swap [] [("id", "8")] (by decide))
    rw [steps] at compiled'
    exact ⟨c', steps, compiled'⟩

end Reshape.Find
