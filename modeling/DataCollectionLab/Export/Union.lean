import DataCollectionLab.Export.Plan

/-!
What the plan of several versions has a column of: one column for each field, part and source in a place, as the
oldest version that has such a column gives it.
-/

namespace DataCollectionLab.Export

open Form Lib

def columnParts (dataType : String) : List (Option String × ColumnSource) :=
  if dataType = "note" then []
  else
    match components dataType with
    | some parts => parts.map fun part => (some part, .field)
    | none => if dataType ∈ choiceTypes then [(none, .field), (none, .label)] else [(none, .field)]

def introduced (entries : List (FormVersion × CompiledField)) (key : ColumnKey) : Option String :=
  entries.findSome? fun entry =>
    if entry.2.repeatId = key.1 ∧ entry.2.fieldId = key.2.1 ∧ key.2.2 ∈ columnParts entry.2.node.dataType then
      some entry.2.node.dataType
    else none

def introducing (forms : List FormVersion) (key : ColumnKey) : Option String := introduced (planFields forms) key

section Contributions

def contributed (language : Option String) (entry : FormVersion × CompiledField) : List Column :=
  columnsFor entry.2.fieldId entry.2.node.dataType (labelOf entry.2.node.label entry.1.defaultLanguage language)
    entry.2.repeatId entry.1.version

theorem columnsFor_parts (fid dataType : String) (label : Option String) (place : Option String) (version : ℕ) :
    (columnsFor fid dataType label place version).map (fun c => (c.component, c.source)) = columnParts dataType := by
  unfold columnsFor columnParts
  dsimp only
  split
  · rfl
  · cases components dataType with
    | some parts =>
      dsimp only
      rw [List.map_map]
      rfl
    | none =>
      dsimp only
      split <;> rfl

theorem mem_columnsFor {fid dataType : String} {label place : Option String} {version : ℕ} {c : Column}
    (member : c ∈ columnsFor fid dataType label place version) :
    c.fieldId = some fid ∧ c.dataType = some dataType ∧ c.repeatId = place ∧ c.holdsValue = true ∧ c.position = none := by
  unfold columnsFor at member
  dsimp only at member
  split at member
  · cases member
  · split at member
    · obtain ⟨part, -, rfl⟩ := List.mem_map.mp member
      exact ⟨rfl, rfl, rfl, rfl, rfl⟩
    · split at member
      · rcases List.mem_cons.mp member with rfl | second
        · exact ⟨rfl, rfl, rfl, rfl, rfl⟩
        · obtain rfl := List.mem_singleton.mp second
          exact ⟨rfl, rfl, rfl, rfl, rfl⟩
      · obtain rfl := List.mem_singleton.mp member
        exact ⟨rfl, rfl, rfl, rfl, rfl⟩

def firstOf (columns : List Column) (key : ColumnKey) : Option Column := columns.find? fun c => c.key c.repeatId = key

theorem firstOf_contributed (language : Option String) (entry : FormVersion × CompiledField) (key : ColumnKey) :
    (firstOf (contributed language entry) key).bind (·.dataType) =
      if entry.2.repeatId = key.1 ∧ entry.2.fieldId = key.2.1 ∧ key.2.2 ∈ columnParts entry.2.node.dataType then
        some entry.2.node.dataType
      else none := by
  obtain ⟨place, fid, part, source⟩ := key
  have keyed {c : Column} (member : c ∈ contributed language entry) :
      c.key c.repeatId = (entry.2.repeatId, entry.2.fieldId, c.component, c.source) := by
    obtain ⟨field, -, at_, -, -⟩ := mem_columnsFor member
    rw [Column.key, field, at_]
    rfl
  have parts := columnsFor_parts entry.2.fieldId entry.2.node.dataType
    (labelOf entry.2.node.label entry.1.defaultLanguage language) entry.2.repeatId entry.1.version
  cases found : firstOf (contributed language entry) (place, fid, part, source) with
  | none =>
    rw [if_neg]
    · rfl
    · rintro ⟨same, named, listed⟩
      rw [← parts] at listed
      obtain ⟨c, member, pair⟩ := List.mem_map.mp listed
      have none := List.find?_eq_none.mp found c member
      rw [keyed member] at none
      simp only [Prod.mk.injEq] at pair
      exact none (by simp [same, named, pair])
  | some c =>
    have member := List.mem_of_find?_eq_some found
    have same : c.key c.repeatId = (place, fid, part, source) := by simpa using List.find?_some found
    rw [keyed member] at same
    simp only [Prod.mk.injEq] at same
    obtain ⟨rfl, rfl, rfl, rfl⟩ := same
    rw [if_pos]
    · exact (mem_columnsFor member).2.1
    · refine ⟨rfl, rfl, ?_⟩
      rw [← parts]
      exact List.mem_map_of_mem member

theorem introduced_eq (language : Option String) (entries : List (FormVersion × CompiledField)) (key : ColumnKey) :
    introduced entries key = (firstOf (entries.flatMap (contributed language)) key).bind (·.dataType) := by
  induction entries with
  | nil => rfl
  | cons entry rest ih =>
    have first := firstOf_contributed language entry key
    have split : firstOf (contributed language entry ++ rest.flatMap (contributed language)) key =
        (firstOf (contributed language entry) key).or (firstOf (rest.flatMap (contributed language)) key) :=
      List.find?_append
    rw [introduced, List.findSome?_cons, ← first, List.flatMap_cons, split]
    cases found : firstOf (contributed language entry) key with
    | none => exact ih
    | some c =>
      have typed := (mem_columnsFor (List.mem_of_find?_eq_some found)).2.1
      rw [Option.some_or, Option.bind_some, typed]

end Contributions

/-! ### The plan as it grows -/

namespace Planning

variable {plan : Planning}

theorem find?_amend (rid rid' : String) {change : RepeatColumns → RepeatColumns}
    (keeps : ∀ r, (change r).repeatId = r.repeatId) :
    (plan.amend rid change).repeats.find? (·.repeatId = rid') =
      (plan.repeats.find? (·.repeatId = rid')).map fun r => if rid' = rid then change r else r := by
  have same : ((fun r : RepeatColumns => decide (r.repeatId = rid')) ∘ fun r : RepeatColumns =>
      if r.repeatId = rid then change r else r) = fun r => decide (r.repeatId = rid') := by
    funext r
    simp only [Function.comp_apply]
    split
    · rw [keeps]
    · rfl
  rw [amend, List.find?_map, same]
  cases found : plan.repeats.find? fun r => decide (r.repeatId = rid') with
  | none => rfl
  | some r =>
    have named : r.repeatId = rid' := by simpa using List.find?_some found
    simp [named]

theorem repeatIds_amend (rid : String) {change : RepeatColumns → RepeatColumns}
    (keeps : ∀ r, (change r).repeatId = r.repeatId) :
    (plan.amend rid change).repeats.map (·.repeatId) = plan.repeats.map (·.repeatId) := by
  rw [amend, List.map_map]
  refine List.map_congr_left fun r _ => ?_
  simp only [Function.comp_apply]
  split
  · exact keeps r
  · rfl

theorem columnsAt_amend (rid : String) {change : RepeatColumns → RepeatColumns}
    (keeps : ∀ r, (change r).repeatId = r.repeatId ∧ (change r).columns = r.columns) (place : Option String) :
    (plan.amend rid change).columnsAt place = plan.columnsAt place := by
  cases place with
  | none => rfl
  | some rid' =>
    dsimp only [columnsAt]
    rw [find?_amend rid rid' fun r => (keeps r).1]
    cases plan.repeats.find? fun r => decide (r.repeatId = rid') with
    | none => rfl
    | some r =>
      simp only [Option.map_some, Option.getD_some]
      split
      · exact (keeps r).2
      · rfl

theorem columnsAt_take (place : Option String) (name : String) (other : Option String) :
    (plan.take place name).columnsAt other = plan.columnsAt other := by
  cases place with
  | none => cases other <;> rfl
  | some rid => exact columnsAt_amend rid (by intro r; exact ⟨rfl, rfl⟩) other

theorem repeatIds_take (place : Option String) (name : String) :
    (plan.take place name).repeats.map (·.repeatId) = plan.repeats.map (·.repeatId) := by
  cases place with
  | none => rfl
  | some rid => exact repeatIds_amend rid (by intro r; rfl)

theorem repeatIds_emit (column : Column) (place : Option String) :
    (plan.emit column place).repeats.map (·.repeatId) = plan.repeats.map (·.repeatId) := by
  unfold emit
  dsimp only
  split
  · rfl
  · cases place with
    | none => rfl
    | some rid => exact repeatIds_amend rid (by intro r; rfl)

theorem repeatIds_addColumn (place : Option String) (column : Column) :
    (plan.addColumn place column).repeats.map (·.repeatId) = plan.repeats.map (·.repeatId) := by
  unfold addColumn
  rw [repeatIds_emit, repeatIds_take]

theorem columnsAt_opened (rid : String) (names : List String) (place : Option String) :
    ({ plan with repeats := plan.repeats ++ [{ repeatId := rid, names := names }] } : Planning).columnsAt place =
      plan.columnsAt place := by
  cases place with
  | none => rfl
  | some rid' =>
    dsimp only [columnsAt]
    rw [List.find?_append]
    cases plan.repeats.find? fun r => decide (r.repeatId = rid') with
    | some r => rfl
    | none => by_cases here : rid = rid' <;> simp [here]

theorem columnsAt_emit {column : Column} {place : Option String} (new : plan.seen (column.key place) = false)
    (opened : ∀ rid, place = some rid → rid ∈ plan.repeats.map (·.repeatId)) (other : Option String) :
    (plan.emit column place).columnsAt other =
      if other = place then plan.columnsAt place ++ [column] else plan.columnsAt other := by
  unfold emit
  dsimp only
  rw [new]
  simp only [Bool.false_eq_true, if_false]
  cases place with
  | none => cases other <;> rfl
  | some rid =>
    cases other with
    | none => rfl
    | some rid' =>
      dsimp only [columnsAt]
      rw [find?_amend]
      · by_cases here : rid' = rid
        · subst here
          obtain ⟨r, member, id⟩ := List.mem_map.mp (opened rid' rfl)
          have isSome : (plan.repeats.find? fun r => decide (r.repeatId = rid')).isSome :=
            List.find?_isSome.mpr ⟨r, member, by simpa using id⟩
          obtain ⟨first, found⟩ := Option.isSome_iff_exists.mp isSome
          simp [found]
        · simp [here]
      · intro r
        rfl

theorem seen_emit (column : Column) (place : Option String) (key : ColumnKey) :
    (plan.emit column place).seen key = (plan.seen key || decide (column.key place = key)) := by
  unfold emit
  dsimp only
  split
  · rename_i already
    have kept : (plan.versions.map fun entry => if entry.1 = column.key place then
        (column.key place, entry.2 ++ column.versions) else entry).any (fun entry => entry.1 = key) =
          plan.versions.any (fun entry => entry.1 = key) := by
      rw [List.any_map]
      congr 1
      funext entry
      simp only [Function.comp_apply]
      split
      · rename_i same
        rw [same]
      · rfl
    refine kept.trans ?_
    by_cases same : column.key place = key
    · rw [← same]
      unfold seen at already ⊢
      rw [already]
      rfl
    · simp [same, seen]
  · cases place <;> exact List.any_append.trans (by simp [seen])

end Planning

structure Core where
  fieldId : Option String
  dataType : Option String
  component : Option String
  source : ColumnSource
  repeatId : Option String
  position : Option ℕ

def Column.core (column : Column) : Core :=
  ⟨column.fieldId, column.dataType, column.component, column.source, column.repeatId, column.position⟩

/-- The plan has a column for each key that came, as the first one of the key had it. -/
structure Tracks (plan : Planning) (columns : List Column) : Prop where
  distinct : (plan.repeats.map (·.repeatId)).Nodup
  seen : ∀ key, plan.seen key = (firstOf columns key).isSome
  held : ∀ place, ∀ c ∈ plan.columnsAt place, ∃ first, firstOf columns (c.key place) = some first ∧ c.core = first.core
  present : ∀ c ∈ columns, ∃ c' ∈ plan.columnsAt c.repeatId, c'.key c.repeatId = c.key c.repeatId

namespace Tracks

variable {plan : Planning} {columns : List Column}

theorem congr {plan' : Planning} (tracks : Tracks plan columns)
    (ids : plan'.repeats.map (·.repeatId) = plan.repeats.map (·.repeatId)) (seen : plan'.versions = plan.versions)
    (held : ∀ place, plan'.columnsAt place = plan.columnsAt place) : Tracks plan' columns where
  distinct := ids ▸ tracks.distinct
  seen key := by
    rw [Planning.seen, seen]
    exact tracks.seen key
  held place := by
    rw [held place]
    exact tracks.held place
  present c member := by
    rw [held c.repeatId]
    exact tracks.present c member

theorem firstOf_concat (columns : List Column) (column : Column) (key : ColumnKey) :
    firstOf (columns ++ [column]) key =
      (firstOf columns key).or (if column.key column.repeatId = key then some column else none) := by
  rw [firstOf, List.find?_append]
  congr 1
  by_cases same : column.key column.repeatId = key <;> simp [same]

theorem emit (tracks : Tracks plan columns) {column : Column}
    (opened : ∀ rid, column.repeatId = some rid → rid ∈ plan.repeats.map (·.repeatId)) :
    Tracks (plan.emit column column.repeatId) (columns ++ [column]) := by
  have known : ∀ key, (plan.emit column column.repeatId).seen key = (firstOf (columns ++ [column]) key).isSome := by
    intro key
    rw [Planning.seen_emit, tracks.seen key, firstOf_concat, Option.isSome_or]
    congr 1
    by_cases same : column.key column.repeatId = key <;> simp [same]
  have later {key : ColumnKey} {first : Column} (found : firstOf columns key = some first) :
      firstOf (columns ++ [column]) key = some first := by
    rw [firstOf_concat, found, Option.some_or]
  have distinct : ((plan.emit column column.repeatId).repeats.map (·.repeatId)).Nodup := by
    rw [Planning.repeatIds_emit]
    exact tracks.distinct
  cases already : plan.seen (column.key column.repeatId) with
  | true =>
    have same : ∀ place, (plan.emit column column.repeatId).columnsAt place = plan.columnsAt place := by
      intro place
      unfold Planning.emit
      rw [if_pos already]
      cases place <;> rfl
    refine ⟨distinct, known, fun place c member => ?_, fun c member => ?_⟩
    · rw [same place] at member
      obtain ⟨first, found, core⟩ := tracks.held place c member
      exact ⟨first, later found, core⟩
    · rw [same c.repeatId]
      rcases List.mem_append.mp member with old | new
      · exact tracks.present c old
      · obtain rfl := List.mem_singleton.mp new
        rw [tracks.seen] at already
        obtain ⟨first, found⟩ := Option.isSome_iff_exists.mp already
        have keyed : first.key first.repeatId = c.key c.repeatId := by simpa using List.find?_some found
        obtain ⟨c', present, named⟩ := tracks.present first (List.mem_of_find?_eq_some found)
        have place : first.repeatId = c.repeatId := congrArg Prod.fst keyed
        rw [place] at present named keyed
        exact ⟨c', present, named.trans keyed⟩
  | false =>
    have grown := Planning.columnsAt_emit already opened
    refine ⟨distinct, known, fun place c member => ?_, fun c member => ?_⟩
    · rw [grown place] at member
      split at member
      · rename_i here
        subst here
        rcases List.mem_append.mp member with old | new
        · obtain ⟨first, found, core⟩ := tracks.held _ c old
          exact ⟨first, later found, core⟩
        · obtain rfl := List.mem_singleton.mp new
          have none : firstOf columns (c.key c.repeatId) = none := by
            rw [tracks.seen] at already
            exact Option.isSome_eq_false_iff.mp already |> Option.isNone_iff_eq_none.mp
          exact ⟨c, by rw [firstOf_concat, none]; simp, rfl⟩
      · obtain ⟨first, found, core⟩ := tracks.held place c member
        exact ⟨first, later found, core⟩
    · rw [grown c.repeatId]
      rcases List.mem_append.mp member with old | new
      · obtain ⟨c', present, named⟩ := tracks.present c old
        refine ⟨c', ?_, named⟩
        split
        · rename_i here
          rw [here] at present
          exact List.mem_append_left _ present
        · exact present
      · obtain rfl := List.mem_singleton.mp new
        exact ⟨c, by rw [if_pos rfl]; simp, rfl⟩

theorem named {column : Column} (field : column.fieldId.isSome) (name : String) :
    Tracks plan (columns ++ [{ column with name := name }]) ↔ Tracks plan (columns ++ [column]) := by
  obtain ⟨fid, given⟩ := Option.isSome_iff_exists.mp field
  have key (place : Option String) : ({ column with name := name } : Column).key place = column.key place := by
    simp [Column.key, given]
  have first (k : ColumnKey) : (firstOf (columns ++ [{ column with name := name }]) k).map Column.core =
      (firstOf (columns ++ [column]) k).map Column.core := by
    rw [firstOf_concat, firstOf_concat]
    cases firstOf columns k with
    | some c => rfl
    | none =>
      simp only [Option.none_or, key]
      split <;> rfl
  have some (k : ColumnKey) : (firstOf (columns ++ [{ column with name := name }]) k).isSome =
      (firstOf (columns ++ [column]) k).isSome := by
    have same := congrArg Option.isSome (first k)
    rwa [Option.isSome_map, Option.isSome_map] at same
  have held (k : ColumnKey) (core : Core) :
      (∃ f, firstOf (columns ++ [{ column with name := name }]) k = .some f ∧ core = f.core) ↔
        ∃ f, firstOf (columns ++ [column]) k = .some f ∧ core = f.core := by
    have same := first k
    constructor
    · rintro ⟨f, found, rfl⟩
      rw [found, Option.map_some] at same
      obtain ⟨f', found', equal⟩ := Option.map_eq_some_iff.mp same.symm
      exact ⟨f', found', equal.symm⟩
    · rintro ⟨f, found, rfl⟩
      rw [found, Option.map_some] at same
      obtain ⟨f', found', equal⟩ := Option.map_eq_some_iff.mp same
      exact ⟨f', found', equal.symm⟩
  constructor
  · rintro ⟨distinct, seen, holds, present⟩
    refine ⟨distinct, fun k => (seen k).trans (some k), fun place c member => (held _ _).mp (holds place c member), ?_⟩
    intro c member
    rcases List.mem_append.mp member with old | new
    · exact present c (List.mem_append_left _ old)
    · obtain rfl := List.mem_singleton.mp new
      have := present { c with name := name } (by simp)
      rwa [key] at this
  · rintro ⟨distinct, seen, holds, present⟩
    refine ⟨distinct, fun k => (seen k).trans (some k).symm, fun place c member => (held _ _).mpr (holds place c member), ?_⟩
    intro c member
    rcases List.mem_append.mp member with old | new
    · exact present c (List.mem_append_left _ old)
    · obtain rfl := List.mem_singleton.mp new
      have := present column (by simp)
      rwa [← key] at this

theorem addColumn (tracks : Tracks plan columns) {column : Column} (field : column.fieldId.isSome)
    (opened : ∀ rid, column.repeatId = some rid → rid ∈ plan.repeats.map (·.repeatId)) :
    Tracks (plan.addColumn column.repeatId column) (columns ++ [column]) := by
  obtain ⟨name, given⟩ : ∃ name, plan.addColumn column.repeatId column =
      (plan.take column.repeatId name).emit { column with name := name } column.repeatId := ⟨_, rfl⟩
  rw [given]
  have taken : Tracks (plan.take column.repeatId name) columns := by
    refine tracks.congr (Planning.repeatIds_take _ _) ?_ fun place => Planning.columnsAt_take _ _ place
    cases column.repeatId <;> rfl
  refine (named field name).mp (@Tracks.emit _ _ taken { column with name := name } fun rid at_ => ?_)
  rw [Planning.repeatIds_take]
  exact opened rid at_

theorem openRepeat (tracks : Tracks plan columns) (reserved : List String) (rid : String) (version : ℕ) :
    Tracks (plan.openRepeat reserved rid version) columns ∧
      rid ∈ (plan.openRepeat reserved rid version).repeats.map (·.repeatId) := by
  have again (opened : Planning) (tracked : Tracks opened columns) (listed : rid ∈ opened.repeats.map (·.repeatId)) :
      Tracks (opened.amend rid fun r => { r with versions := r.versions ++ [version] }) columns ∧
        rid ∈ (opened.amend rid fun r => { r with versions := r.versions ++ [version] }).repeats.map (·.repeatId) := by
    have ids : (opened.amend rid fun r => { r with versions := r.versions ++ [version] }).repeats.map (·.repeatId) =
        opened.repeats.map (·.repeatId) := Planning.repeatIds_amend rid (by intro r; rfl)
    refine ⟨tracked.congr ids rfl fun place => Planning.columnsAt_amend rid (by intro r; exact ⟨rfl, rfl⟩) place, ?_⟩
    rwa [ids]
  unfold Planning.openRepeat
  dsimp only
  split
  · rename_i known
    refine again plan tracks ?_
    obtain ⟨r, member, id⟩ := List.any_eq_true.mp known
    exact List.mem_map.mpr ⟨r, member, by simpa using id⟩
  · rename_i unknown
    have new : rid ∉ plan.repeats.map (·.repeatId) := by
      intro listed
      obtain ⟨r, member, id⟩ := List.mem_map.mp listed
      exact unknown (List.any_eq_true.mpr ⟨r, member, by simpa using id⟩)
    have held := @Planning.columnsAt_opened plan rid reserved
    refine again _ ⟨?_, tracks.seen, fun place c member => ?_, fun c member => ?_⟩ (by simp)
    · rw [List.map_append]
      refine List.nodup_append.mpr ⟨tracks.distinct, List.nodup_singleton _, ?_⟩
      intro a listed b single same
      obtain rfl := List.mem_singleton.mp single
      exact new (same ▸ listed)
    · rw [held place] at member
      exact tracks.held place c member
    · rw [held c.repeatId]
      exact tracks.present c member

theorem addColumns {place : Option String} (added : List Column) (fields : ∀ c ∈ added, c.fieldId.isSome ∧ c.repeatId = place) :
    ∀ {plan : Planning} {columns : List Column}, Tracks plan columns →
      (∀ rid, place = some rid → rid ∈ plan.repeats.map (·.repeatId)) →
        Tracks (added.foldl (fun plan column => plan.addColumn place column) plan) (columns ++ added) := by
  induction added with
  | nil =>
    intro plan columns tracks _
    rwa [List.append_nil]
  | cons column rest ih =>
    intro plan columns tracks opened
    obtain ⟨field, rfl⟩ := fields column (List.mem_cons_self ..)
    have one := tracks.addColumn field opened
    have more := ih (fun c member => fields c (List.mem_cons_of_mem _ member)) one fun rid at_ => by
      rw [Planning.repeatIds_addColumn]
      exact opened rid at_
    rwa [List.append_assoc] at more

theorem addField (tracks : Tracks plan columns) (reserved : List String) (language : Option String)
    (entry : FormVersion × CompiledField) :
    Tracks (plan.addField reserved language entry) (columns ++ contributed language entry) := by
  obtain ⟨v, cf⟩ := entry
  have fields : ∀ c ∈ contributed language (v, cf), c.fieldId.isSome ∧ c.repeatId = cf.repeatId := by
    intro c member
    obtain ⟨field, -, at_, -, -⟩ := mem_columnsFor member
    exact ⟨by rw [field]; rfl, at_⟩
  have typed {plan : Planning} (tracks : Tracks plan columns) (datasets : List (String × String)) :
      Tracks { plan with datasetFields := datasets } columns :=
    tracks.congr rfl rfl fun place => by cases place <;> rfl
  obtain ⟨tracked, listed⟩ : Tracks (plan.opened reserved cf.repeatId v.version) columns ∧
      ∀ rid, cf.repeatId = some rid → rid ∈ (plan.opened reserved cf.repeatId v.version).repeats.map (·.repeatId) := by
    cases cf.repeatId with
    | none => exact ⟨tracks, by intro rid at_; cases at_⟩
    | some rid =>
      obtain ⟨tracked, listed⟩ := tracks.openRepeat reserved rid v.version
      exact ⟨tracked, fun rid' at_ => Option.some.inj at_ ▸ listed⟩
  unfold Planning.addField
  dsimp only
  cases cf.choiceQuery with
  | none => exact addColumns _ fields tracked listed
  | some query => exact addColumns _ fields (typed tracked _) listed

end Tracks

theorem planned_tracks (forms : List FormVersion) (language : Option String) :
    Tracks (planned forms language) ((planFields forms).flatMap (contributed language)) := by
  have grows (entries : List (FormVersion × CompiledField)) : ∀ {plan : Planning} {columns : List Column},
      Tracks plan columns → Tracks (entries.foldl (Planning.addField (reservedNames forms) language) plan)
        (columns ++ entries.flatMap (contributed language)) := by
    induction entries with
    | nil =>
      intro plan columns tracks
      rwa [List.flatMap_nil, List.append_nil]
    | cons entry rest ih =>
      intro plan columns tracks
      have more := ih (tracks.addField (reservedNames forms) language entry)
      rwa [List.append_assoc] at more
  refine @grows (planFields forms) { parentNames := reservedNames forms } [] ⟨List.nodup_nil, fun key => rfl, fun place c member => ?_, fun c member => nomatch member⟩
  cases place <;> cases member

namespace ColumnPlan

def columnsAt (plan : ColumnPlan) : Option String → List Column
  | none => plan.parent
  | some rid => (plan.repeats.lookup rid).getD []

structure Placed (plan : ColumnPlan) : Prop where
  distinct : (plan.repeats.map (·.1)).Nodup
  own : ∀ place, ∀ c ∈ plan.columnsAt place, c.fieldId.isSome ∧ c.repeatId = place ∧ c.position = none
  repeated : ∀ rid, ∀ c ∈ plan.columnsAt (some rid), c.source = .meta_ ∨ c.holdsValue = true

theorem Placed.columnsAt_repeated {plan : ColumnPlan} (placed : plan.Placed) {rid : String} {columns : List Column}
    (member : (rid, columns) ∈ plan.repeats) : plan.columnsAt (some rid) = columns := by
  have found := lookup_of_mem placed.distinct member
  rw [columnsAt, found, Option.getD_some]

theorem mem_repeats {plan : ColumnPlan} {rid : String} {c : Column} (member : c ∈ plan.columnsAt (some rid)) :
    (rid, plan.columnsAt (some rid)) ∈ plan.repeats := by
  rw [columnsAt] at member ⊢
  cases found : plan.repeats.lookup rid with
  | none =>
    rw [found] at member
    cases member
  | some columns => exact mem_of_lookup found

end ColumnPlan

theorem mem_claimMeta {place : Option String} {titles : List (String × String)} {taken : List String} {c : Column}
    (member : c ∈ claimMeta place taken titles) :
    c.source = .meta_ ∧ c.fieldId.isSome ∧ c.repeatId = place ∧ c.position = none := by
  induction titles generalizing taken with
  | nil => cases member
  | cons title rest ih =>
    obtain ⟨name, title⟩ := title
    rcases List.mem_cons.mp member with rfl | later
    · exact ⟨rfl, rfl, rfl, rfl⟩
    · exact ih later

theorem Planning.mem_finalise {plan : Planning} {columns : List Column} {c : Column} (member : c ∈ plan.finalise columns) :
    ∃ c' ∈ columns, c.core = c'.core := by
  obtain ⟨c', listed, rfl⟩ := List.mem_map.mp member
  exact ⟨c', listed, rfl⟩

theorem Planning.finalise_mem {plan : Planning} {columns : List Column} {c : Column} (member : c ∈ columns) :
    ∃ c' ∈ plan.finalise columns, c'.core = c.core := ⟨_, List.mem_map_of_mem member, rfl⟩

theorem foldl_addCount (repeats : List RepeatColumns) (plan : Planning) :
    (repeats.foldl Planning.addCount plan).repeats = plan.repeats ∧
      (∀ c ∈ plan.parent, c ∈ (repeats.foldl Planning.addCount plan).parent) ∧
        ∀ c ∈ (repeats.foldl Planning.addCount plan).parent, c ∈ plan.parent ∨
          (c.source = .count ∧ c.fieldId.isSome ∧ c.repeatId = none ∧ c.position = none) := by
  induction repeats generalizing plan with
  | nil => exact ⟨rfl, fun c member => member, fun c member => .inl member⟩
  | cons r rest ih =>
    obtain ⟨same, kept, only⟩ := ih (plan.addCount r)
    obtain ⟨name, counted, given⟩ : ∃ name, ∃ counted : Column, plan.addCount r = (plan.take none name).emit counted none ∧
        counted.source = .count ∧ counted.fieldId.isSome ∧ counted.repeatId = none ∧ counted.position = none :=
      ⟨_, _, rfl, rfl, rfl, rfl, rfl⟩
    have one : (plan.addCount r).repeats = plan.repeats ∧
        ((plan.addCount r).parent = plan.parent ∨ (plan.addCount r).parent = plan.parent ++ [counted]) := by
      rw [given.1]
      unfold Planning.emit
      dsimp only
      split
      · exact ⟨rfl, .inl rfl⟩
      · exact ⟨rfl, .inr rfl⟩
    refine ⟨same.trans one.1, fun c member => kept c ?_, fun c member => ?_⟩
    · rcases one.2 with parent | parent
      · rwa [parent]
      · rw [parent]
        exact List.mem_append_left _ member
    · rcases only c member with old | new
      · rcases one.2 with parent | parent
        · rw [parent] at old
          exact .inl old
        · rw [parent] at old
          rcases List.mem_append.mp old with old | last
          · exact .inl old
          · obtain rfl := List.mem_singleton.mp last
            exact .inr given.2
      · exact .inr new

section Finished

variable {forms : List FormVersion} {language : Option String} {place : Option String} {c : Column}

theorem columnsAt_buildPlan_some (rid : String) :
    (buildPlan forms language).columnsAt (some rid) =
      (((planned forms language).repeats.find? (·.repeatId = rid)).map fun r =>
        claimMeta (some r.repeatId) r.names repeatKeyColumns ++
          ((planned forms language).repeats.foldl Planning.addCount (planned forms language)).finalise r.columns).getD [] := by
  have same := (foldl_addCount (planned forms language).repeats (planned forms language)).1
  dsimp only [ColumnPlan.columnsAt, buildPlan]
  rw [same]
  generalize ((planned forms language).repeats.foldl Planning.addCount (planned forms language)).finalise = finalise
  congr 1
  induction (planned forms language).repeats with
  | nil => rfl
  | cons r rest ih =>
    rw [List.map_cons, List.lookup_cons, List.find?_cons]
    by_cases here : r.repeatId = rid
    · simp [here]
    · have other : (rid == r.repeatId) = false := beq_false_of_ne (Ne.symm here)
      simp only [other, here, decide_false]
      exact ih

theorem mem_columnsAt_buildPlan (member : c ∈ (buildPlan forms language).columnsAt place) :
    ((c.source = .meta_ ∨ c.source = .count ∧ place = none) ∧ c.fieldId.isSome ∧ c.repeatId = place ∧ c.position = none) ∨
      ∃ c' ∈ (planned forms language).columnsAt place, c.core = c'.core := by
  cases place with
  | none =>
    rcases List.mem_append.mp member with key | value
    · obtain ⟨source, rest⟩ := mem_claimMeta key
      exact .inl ⟨.inl source, rest⟩
    · obtain ⟨c', listed, core⟩ := Planning.mem_finalise value
      rcases (foldl_addCount _ _).2.2 c' listed with own | ⟨source, field, at_, position⟩
      · exact .inr ⟨c', own, core⟩
      · simp only [Column.core, Core.mk.injEq] at core
        obtain ⟨field', -, -, source', at', position'⟩ := core
        exact .inl ⟨.inr ⟨source'.trans source, rfl⟩, field' ▸ field, at'.trans at_, position'.trans position⟩
  | some rid =>
    rw [columnsAt_buildPlan_some] at member
    dsimp only [Planning.columnsAt]
    cases found : (planned forms language).repeats.find? fun r => decide (r.repeatId = rid) with
    | none =>
      rw [found] at member
      cases member
    | some r =>
      rw [found] at member
      have named : r.repeatId = rid := by simpa using List.find?_some found
      rcases List.mem_append.mp member with key | value
      · obtain ⟨source, field, at_, position⟩ := mem_claimMeta key
        exact .inl ⟨.inl source, field, named ▸ at_, position⟩
      · exact .inr (Planning.mem_finalise value)

theorem columnsAt_buildPlan_mem (member : c ∈ (planned forms language).columnsAt place) :
    ∃ c' ∈ (buildPlan forms language).columnsAt place, c'.core = c.core := by
  cases place with
  | none =>
    have kept := (foldl_addCount (planned forms language).repeats (planned forms language)).2.1 c member
    obtain ⟨c', listed, core⟩ := Planning.finalise_mem kept
    exact ⟨c', List.mem_append_right _ listed, core⟩
  | some rid =>
    rw [columnsAt_buildPlan_some]
    dsimp only [Planning.columnsAt] at member
    cases found : (planned forms language).repeats.find? fun r => decide (r.repeatId = rid) with
    | none =>
      rw [found] at member
      cases member
    | some r =>
      rw [found] at member
      obtain ⟨c', listed, core⟩ := Planning.finalise_mem member
      exact ⟨c', List.mem_append_right _ listed, core⟩

theorem planned_held (member : c ∈ (planned forms language).columnsAt place) :
    c.fieldId.isSome ∧ c.repeatId = place ∧ c.position = none ∧ c.holdsValue = true ∧
      introducing forms (c.key place) = c.dataType ∧ c.dataType.isSome := by
  obtain ⟨first, found, core⟩ := (planned_tracks forms language).held place c member
  simp only [Column.core, Core.mk.injEq] at core
  obtain ⟨field, type, -, source, at_, position⟩ := core
  obtain ⟨entry, -, listed⟩ := List.mem_flatMap.mp (List.mem_of_find?_eq_some found)
  obtain ⟨field', type', -, value, position'⟩ := mem_columnsFor listed
  have keyed : first.key first.repeatId = c.key place := by simpa using List.find?_some found
  refine ⟨?_, at_.trans (congrArg Prod.fst keyed), position.trans position', ?_, ?_, ?_⟩
  · rw [field, field']
    rfl
  · rw [Column.holdsValue, source]
    exact value
  · rw [introducing, introduced_eq language, found, type]
    rfl
  · rw [type, type']
    rfl

theorem buildPlan_held (member : c ∈ (buildPlan forms language).columnsAt place) (value : c.holdsValue = true) :
    introducing forms (c.key place) = c.dataType ∧ c.dataType.isSome := by
  rcases mem_columnsAt_buildPlan member with ⟨source, -⟩ | ⟨c', listed, core⟩
  · rcases source with source | ⟨source, -⟩ <;> rw [Column.holdsValue, source] at value <;> cases value
  · obtain ⟨field, -, -, -, typed, isSome⟩ := planned_held listed
    simp only [Column.core, Core.mk.injEq] at core
    obtain ⟨field', type', part, source, -, -⟩ := core
    obtain ⟨fid, given⟩ := Option.isSome_iff_exists.mp field
    have same : c.key place = c'.key place := by simp [Column.key, field', part, source, given]
    rw [same, type']
    exact ⟨typed, isSome⟩

theorem buildPlan_present {key : ColumnKey} (introduced : (introducing forms key).isSome) :
    ∃ c ∈ (buildPlan forms language).columnsAt key.1, c.key key.1 = key ∧ c.holdsValue = true := by
  rw [introducing, introduced_eq language] at introduced
  obtain ⟨type, typed⟩ := Option.isSome_iff_exists.mp introduced
  obtain ⟨first, found, -⟩ := Option.bind_eq_some_iff.mp typed
  have keyed : first.key first.repeatId = key := by simpa using List.find?_some found
  obtain ⟨c', present, same⟩ := (planned_tracks forms language).present first (List.mem_of_find?_eq_some found)
  have at_ : first.repeatId = key.1 := congrArg Prod.fst keyed
  rw [keyed] at same
  rw [at_] at present same
  obtain ⟨c, listed, core⟩ := columnsAt_buildPlan_mem present
  obtain ⟨field, -, -, value, -, -⟩ := planned_held present
  simp only [Column.core, Core.mk.injEq] at core
  obtain ⟨field', -, part, source, -, -⟩ := core
  obtain ⟨fid, given⟩ := Option.isSome_iff_exists.mp field
  refine ⟨c, listed, ?_, ?_⟩
  · rw [← same]
    simp [Column.key, field', part, source, given]
  · rw [Column.holdsValue, source]
    exact value

theorem buildPlan_placed (forms : List FormVersion) (language : Option String) : (buildPlan forms language).Placed where
  distinct := by
    have ids : (buildPlan forms language).repeats.map (·.1) = (planned forms language).repeats.map (·.repeatId) := by
      dsimp only [buildPlan]
      rw [List.map_map, (foldl_addCount _ _).1]
      rfl
    rw [ids]
    exact (planned_tracks forms language).distinct
  own place c member := by
    rcases mem_columnsAt_buildPlan member with ⟨-, rest⟩ | ⟨c', listed, core⟩
    · exact rest
    · obtain ⟨field, at_, position, -⟩ := planned_held listed
      simp only [Column.core, Core.mk.injEq] at core
      obtain ⟨field', -, -, -, at', position'⟩ := core
      exact ⟨field' ▸ field, at'.trans at_, position'.trans position⟩
  repeated rid c member := by
    rcases mem_columnsAt_buildPlan member with ⟨source | ⟨-, impossible⟩, -⟩ | ⟨c', listed, core⟩
    · exact .inl source
    · cases impossible
    · refine .inr ?_
      simp only [Column.core, Core.mk.injEq] at core
      rw [Column.holdsValue, core.2.2.2.1]
      exact (planned_held listed).2.2.2.1

end Finished

end DataCollectionLab.Export
