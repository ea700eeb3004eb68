import DataCollectionLab.Export.Writing

/-!
Versions exported together. Every record is written under the columns of the oldest version that has them, so it
loses nothing exactly where these write its values as its own version's would.
-/

namespace DataCollectionLab.Export

open Form Lib

/-! ### The cells of a record -/

def Table.cell (table : Table) (row : List Cell) (key : ColumnKey) (position : Option ℕ) : Option Cell :=
  ((table.columns.zip row).find? fun entry =>
    entry.1.key entry.1.repeatId = key ∧ entry.1.position = position).map (·.2)

/-- The cell of the `i`th record under a column of answers: of its own row, or of its `j`th instance of the repeat. -/
def spotCell (shape : Shape) (tables : List Table) (records : List SubmissionRecord) (i : ℕ) (key : ColumnKey) (j : ℕ) :
    Option Cell :=
  match key.1, shape with
  | none, _ => do
    let table ← tables.head?
    table.cell (← table.rows[i]?) key none
  | some _, .wide => do
    let table ← tables.head?
    table.cell (← table.rows[i]?) key (some (j + 1))
  | some rid, .long => do
    let table ← tables.find? (·.repeatId = some rid)
    table.cell (← table.rows[(instancesOf (records.take i) rid).length + j]?) key none

theorem Table.cell_of_forall₂ {table : Table} {row : List Cell} {R : Column → Cell → Prop}
    (related : List.Forall₂ R table.columns row) {key : ColumnKey} {position : Option ℕ}
    (listed : ∃ c ∈ table.columns, c.key c.repeatId = key ∧ c.position = position) :
    ∃ c ∈ table.columns, (c.key c.repeatId = key ∧ c.position = position) ∧
      ∃ cell, table.cell row key position = some cell ∧ R c cell := by
  obtain ⟨c, member, matching⟩ := listed
  obtain ⟨c, cell, found, inside, holds, here⟩ :=
    @forall₂_find?_zip _ _ _ _ _ related (fun c => decide (c.key c.repeatId = key ∧ c.position = position))
      ⟨c, member, decide_eq_true matching⟩
  refine ⟨c, inside, of_decide_eq_true holds, cell, ?_, here⟩
  rw [Table.cell, found]
  rfl

section Written

variable {py : Python} {plan : ColumnPlan} {record : SubmissionRecord} {records : List SubmissionRecord}

theorem cellOf_congr {c c' : Column} (field : c.fieldId = c'.fieldId) (type : c.dataType = c'.dataType)
    (part : c.component = c'.component) (source : c.source = c'.source) (spot : Spot) :
    cellOf py record c spot = cellOf py record c' spot := by
  rw [cellOf, cellOf, field, type, part, source]

def Writable (py : Python) (plan : ColumnPlan) (record : SubmissionRecord) : Prop :=
  ∀ place, ∀ c ∈ plan.columnsAt place, c.holdsValue = true → ∀ spot ∈ record.spots place,
    ∃ cell, cellOf py record c spot = .ok cell

theorem exists_parentRow_iff :
    (∃ row, parentRow py record plan.parent = .ok row) ↔
      ∀ c ∈ plan.columnsAt none, c.holdsValue = true → ∃ cell, cellOf py record c record.top = .ok cell := by
  rw [parentRow, exists_mapM_ok_iff]
  refine forall₂_congr fun c _ => ?_
  split
  · rename_i value
    exact ⟨fun ok _ => ok, fun ok => ok value⟩
  · rename_i other
    exact ⟨fun _ value => absurd value other, fun _ => ⟨_, rfl⟩⟩

theorem exists_repeatRow_iff (placed : plan.Placed) {rid : String} {columns : List Column}
    (member : (rid, columns) ∈ plan.repeats) (row : RepeatRow Json) :
    (∃ cells, repeatRow py record columns rid row = .ok cells) ↔
      ∀ c ∈ plan.columnsAt (some rid), c.holdsValue = true → ∃ cell, cellOf py record c (row.spot rid) = .ok cell := by
  rw [repeatRow, exists_mapM_ok_iff, placed.columnsAt_repeated member]
  refine forall₂_congr fun c listed => ?_
  split
  · rename_i key
    refine ⟨fun _ value => ?_, fun _ => ⟨_, rfl⟩⟩
    rw [Column.holdsValue, key] at value
    cases value
  · rename_i other
    rw [← placed.columnsAt_repeated member] at listed
    have value := (placed.repeated rid c listed).resolve_left other
    exact ⟨fun ok _ => ok, fun ok => ok value⟩

theorem mem_slots {rid : String} {slot : ℕ} {c : Column} :
    (rid, slot, c) ∈ slots plan records ↔
      ∃ columns, (rid, columns) ∈ plan.repeats ∧ slot < widest records rid ∧ c ∈ columns ∧ c.source ≠ .meta_ := by
  simp only [slots, List.mem_flatMap, List.mem_map, List.mem_filter, List.mem_range, decide_eq_true_eq, Prod.mk.injEq]
  constructor
  · rintro ⟨⟨rid, columns⟩, listed, slot, below, c, ⟨member, source⟩, rfl, rfl, rfl⟩
    exact ⟨columns, listed, below, member, source⟩
  · rintro ⟨columns, listed, below, member, source⟩
    exact ⟨(rid, columns), listed, slot, below, c, ⟨member, source⟩, rfl, rfl, rfl⟩

theorem flattened_forall₂ (taken : List String) (listed : List (String × ℕ × Column)) :
    List.Forall₂ (fun entry flat => flat.1 = entry.1 ∧ flat.2.1 = entry.2.1 ∧
      flat.2.2.core = { entry.2.2.core with position := some (entry.2.1 + 1) }) listed (flattened taken listed) := by
  induction listed generalizing taken with
  | nil => exact .nil
  | cons entry rest ih => exact .cons ⟨rfl, rfl, rfl⟩ (ih _)

theorem length_le_widest {rid : String} (member : record ∈ records) : (record.rows rid).length ≤ widest records rid := by
  rw [widest]
  induction records with
  | nil => cases member
  | cons first rest ih =>
    rw [List.map_cons, List.foldr_cons]
    rcases List.mem_cons.mp member with rfl | later
    · exact le_max_left _ _
    · exact (ih later).trans (le_max_right _ _)

theorem slotCell_of_row {entry : String × ℕ × Column} {row : RepeatRow Json}
    (at_ : (record.rows entry.1)[entry.2.1]? = some row) :
    slotCell py record entry = cellOf py record entry.2.2 (row.spot entry.1) := by
  rw [slotCell, at_]

theorem exists_slots_iff (placed : plan.Placed) (member : record ∈ records) (taken : List String) :
    (∃ cells, (flattened taken (slots plan records)).mapM (slotCell py record) = .ok cells) ↔
      ∀ rid, ∀ c ∈ plan.columnsAt (some rid), c.holdsValue = true → ∀ spot ∈ record.spots (some rid),
        ∃ cell, cellOf py record c spot = .ok cell := by
  have flat := flattened_forall₂ taken (slots plan records)
  rw [exists_mapM_ok_iff]
  constructor
  · intro ok rid c listed value spot spotted
    obtain ⟨row, rowed, rfl⟩ := List.mem_map.mp spotted
    obtain ⟨slot, at_⟩ := List.mem_iff_getElem?.mp rowed
    have below : slot < widest records rid :=
      (List.getElem?_eq_some_iff.mp at_).1.trans_le (length_le_widest member)
    have source : c.source ≠ .meta_ := by
      intro key
      rw [Column.holdsValue, key] at value
      cases value
    obtain ⟨⟨rid', slot', c'⟩, inside, same, same', core⟩ := exists_of_forall₂_left flat
      (mem_slots.mpr ⟨_, ColumnPlan.mem_repeats listed, below, listed, source⟩)
    dsimp only at same same' core
    subst same same'
    have ok := ok _ inside
    rw [slotCell_of_row at_] at ok
    simp only [Column.core, Core.mk.injEq] at core
    rwa [cellOf_congr core.1 core.2.1 core.2.2.1 core.2.2.2.1] at ok
  · rintro ok ⟨rid, slot, c'⟩ inside
    obtain ⟨⟨rid', slot', c⟩, listed, same, same', core⟩ := exists_of_forall₂_right flat inside
    dsimp only at same same' core
    subst same same'
    obtain ⟨columns, repeated, -, listed, source⟩ := mem_slots.mp listed
    rw [← placed.columnsAt_repeated repeated] at listed
    have value := (placed.repeated rid c listed).resolve_left source
    cases at_ : (record.rows rid)[slot]? with
    | none => exact ⟨.empty, by rw [slotCell, at_]⟩
    | some row =>
      rw [slotCell_of_row at_]
      simp only [Column.core, Core.mk.injEq] at core
      rw [cellOf_congr core.1 core.2.1 core.2.2.1 core.2.2.2.1]
      exact ok rid c listed value _ (List.mem_map_of_mem (List.mem_of_getElem? at_))

theorem writable_iff : Writable py plan record ↔
    (∀ c ∈ plan.columnsAt none, c.holdsValue = true → ∃ cell, cellOf py record c record.top = .ok cell) ∧
      ∀ rid, ∀ c ∈ plan.columnsAt (some rid), c.holdsValue = true → ∀ spot ∈ record.spots (some rid),
        ∃ cell, cellOf py record c spot = .ok cell := by
  constructor
  · intro writable
    exact ⟨fun c listed value => writable none c listed value _ (List.mem_singleton.mpr rfl), fun rid => writable (some rid)⟩
  · rintro ⟨top, repeated⟩ place
    cases place with
    | none =>
      intro c listed value spot spotted
      obtain rfl := List.mem_singleton.mp spotted
      exact top c listed value
    | some rid => exact repeated rid

theorem exists_repeatTables_iff (placed : plan.Placed) (baseName : String) :
    (∃ tables, plan.repeats.mapM (repeatTable py records baseName) = .ok tables) ↔
      ∀ record ∈ records, ∀ rid, ∀ c ∈ plan.columnsAt (some rid), c.holdsValue = true →
        ∀ spot ∈ record.spots (some rid), ∃ cell, cellOf py record c spot = .ok cell := by
  rw [exists_mapM_ok_iff]
  have rows {rid : String} {columns : List Column} (listed : (rid, columns) ∈ plan.repeats) :
      (∃ rows, repeatRows py records columns rid = .ok rows) ↔ ∀ record ∈ records,
        ∀ c ∈ plan.columnsAt (some rid), c.holdsValue = true → ∀ spot ∈ record.spots (some rid),
          ∃ cell, cellOf py record c spot = .ok cell := by
    rw [repeatRows, exists_mapM_ok_iff]
    constructor
    · intro ok record member c inside value spot spotted
      obtain ⟨row, rowed, rfl⟩ := List.mem_map.mp spotted
      have written := ok (record, row) (List.mem_flatMap.mpr ⟨record, member, List.mem_map_of_mem rowed⟩)
      exact (exists_repeatRow_iff placed listed row).mp written c inside value
    · intro ok entry member
      obtain ⟨record, known, pair⟩ := List.mem_flatMap.mp member
      obtain ⟨row, rowed, rfl⟩ := List.mem_map.mp pair
      refine (exists_repeatRow_iff placed listed row).mpr fun c inside value => ?_
      exact ok record known c inside value _ (List.mem_map_of_mem rowed)
  constructor
  · intro ok record member rid c inside
    obtain ⟨table, made⟩ := ok _ (ColumnPlan.mem_repeats inside)
    obtain ⟨made, written, -⟩ := bind_ok_iff.mp made
    exact (rows (ColumnPlan.mem_repeats inside)).mp ⟨_, written⟩ record member c inside
  · rintro ok ⟨rid, columns⟩ listed
    obtain ⟨made, written⟩ := (rows listed).mpr fun record member c inside => ok record member rid c inside
    exact ⟨_, bind_ok_iff.mpr ⟨made, written, rfl⟩⟩

theorem exists_buildTables_iff (placed : plan.Placed) (shape : Shape) (baseName : String) :
    (∃ tables, buildTables py plan records shape baseName = .ok tables) ↔ ∀ record ∈ records, Writable py plan record := by
  cases shape with
  | long =>
    have halves : (∃ tables, buildTables py plan records .long baseName = .ok tables) ↔
        (∃ parent, records.mapM (fun record => parentRow py record plan.parent) = .ok parent) ∧
          ∃ tables, plan.repeats.mapM (repeatTable py records baseName) = .ok tables := by
      dsimp only [buildTables]
      simp only [bind_ok_iff]
      constructor
      · rintro ⟨_, parent, first, tables, second, -⟩
        exact ⟨⟨parent, first⟩, tables, second⟩
      · rintro ⟨⟨parent, first⟩, tables, second⟩
        exact ⟨_, parent, first, tables, second, rfl⟩
    rw [halves, exists_mapM_ok_iff, exists_repeatTables_iff placed]
    simp only [exists_parentRow_iff, writable_iff]
    exact ⟨fun ok record member => ⟨ok.1 record member, ok.2 record member⟩,
      fun ok => ⟨fun record member => (ok record member).1, fun record member => (ok record member).2⟩⟩
  | wide =>
    have rows : (∃ tables, buildTables py plan records .wide baseName = .ok tables) ↔
        ∀ record ∈ records, (∃ front, parentRow py record plan.parent = .ok front) ∧
          ∃ back, (flattened (plan.parent.map (·.name)) (slots plan records)).mapM (slotCell py record) = .ok back := by
      dsimp only [buildTables, wideTable]
      simp only [bind_ok_iff]
      constructor
      · rintro ⟨_, _, ⟨made, written, -⟩, -⟩ record member
        obtain ⟨row, ok⟩ := exists_mapM_ok_iff.mp ⟨made, written⟩ record member
        obtain ⟨front, first, ok⟩ := bind_ok_iff.mp ok
        obtain ⟨back, second, -⟩ := bind_ok_iff.mp ok
        exact ⟨⟨front, first⟩, back, second⟩
      · intro ok
        obtain ⟨made, written⟩ := exists_mapM_ok_iff.mpr fun record member => by
          obtain ⟨⟨front, first⟩, back, second⟩ := ok record member
          exact ⟨front ++ back, bind_ok_iff.mpr ⟨front, first, bind_ok_iff.mpr ⟨back, second, rfl⟩⟩⟩
        exact ⟨_, _, ⟨made, written, rfl⟩, rfl⟩
    rw [rows]
    refine forall₂_congr fun record member => ?_
    rw [exists_parentRow_iff, exists_slots_iff placed member, writable_iff]

theorem instancesOf_getElem? {rid : String} {row : RepeatRow Json} {i j : ℕ} (at_ : records[i]? = some record)
    (rowed : (record.rows rid)[j]? = some row) :
    (instancesOf records rid)[(instancesOf (records.take i) rid).length + j]? = some (record, row) := by
  obtain ⟨below, here⟩ := List.getElem?_eq_some_iff.mp at_
  have split : instancesOf records rid = instancesOf (records.take i) rid ++
      ((record.rows rid).map (record, ·) ++ instancesOf (records.drop (i + 1)) rid) := by
    conv_lhs => rw [← List.take_append_drop i records, List.drop_eq_getElem_cons below, here]
    simp only [instancesOf, List.flatMap_append, List.flatMap_cons]
  obtain ⟨short, -⟩ := List.getElem?_eq_some_iff.mp rowed
  rw [split, List.getElem?_append_right (Nat.le_add_right _ _), Nat.add_sub_cancel_left,
    List.getElem?_append_left (by rwa [List.length_map]), List.getElem?_map, rowed]
  rfl

section Cells

variable {tables : List Table} {baseName : String} {i j : ℕ} {key : ColumnKey} {spot : Spot}

theorem holdsValue_of_key {c : Column} {place : Option String} (same : c.key place = key)
    (value : key.2.2.2 = .field ∨ key.2.2.2 = .label) : c.holdsValue = true := by
  have source : c.source = key.2.2.2 := congrArg (·.2.2.2) same
  rw [Column.holdsValue, source]
  rcases value with value | value <;> rw [value] <;> rfl

theorem placed_cell (placed : plan.Placed) {table : Table} {row : List Cell} {R : Column → Cell → Prop} {rest : List Column}
    (own : table.columns = plan.columnsAt key.1 ++ rest) (flat : ∀ c ∈ rest, c.position.isSome)
    (related : List.Forall₂ R table.columns row) (listed : ∃ c ∈ plan.columnsAt key.1, c.key key.1 = key) :
    ∃ c ∈ plan.columnsAt key.1, c.key key.1 = key ∧ ∃ cell, table.cell row key none = some cell ∧ R c cell := by
  have inside : ∃ c ∈ table.columns, c.key c.repeatId = key ∧ c.position = none := by
    obtain ⟨c, member, same⟩ := listed
    obtain ⟨-, at_, position⟩ := placed.own _ c member
    refine ⟨c, own ▸ List.mem_append_left _ member, ?_, position⟩
    rw [at_]
    exact same
  obtain ⟨c, member, ⟨same, position⟩, cell, found, here⟩ := Table.cell_of_forall₂ related inside
  rw [own] at member
  rcases List.mem_append.mp member with member | member
  · rw [(placed.own _ c member).2.1] at same
    exact ⟨c, member, same, cell, found, here⟩
  · have some := flat c member
    rw [position] at some
    cases some

theorem mem_flattened (placed : plan.Placed) {taken : List String} {entry : String × ℕ × Column}
    (member : entry ∈ flattened taken (slots plan records)) :
    ∃ c ∈ plan.columnsAt (some entry.1), entry.2.2.core = { c.core with position := some (entry.2.1 + 1) } ∧
      c.fieldId.isSome ∧ entry.2.2.repeatId = some entry.1 := by
  obtain ⟨⟨rid, slot, c⟩, listed, same, same', core⟩ := exists_of_forall₂_right (flattened_forall₂ taken _) member
  obtain ⟨rid', slot', flat⟩ := entry
  dsimp only at same same' core ⊢
  subst same same'
  obtain ⟨columns, repeated, -, listed, -⟩ := mem_slots.mp listed
  rw [← placed.columnsAt_repeated repeated] at listed
  obtain ⟨field, at_, -⟩ := placed.own _ c listed
  exact ⟨c, listed, core, field, (congrArg Core.repeatId core).trans at_⟩

def WideCell (py : Python) (record : SubmissionRecord) (c : Column) (cell : Cell) : Prop :=
  (c.position = none → c.holdsValue = true → cellOf py record c record.top = .ok cell) ∧
    ∀ rid slot row, c.repeatId = some rid → c.position = some (slot + 1) → (record.rows rid)[slot]? = some row →
      cellOf py record c (row.spot rid) = .ok cell

theorem wideRow_related (placed : plan.Placed) {taken : List String} {front back : List Cell}
    (first : parentRow py record plan.parent = .ok front)
    (second : (flattened taken (slots plan records)).mapM (slotCell py record) = .ok back) :
    List.Forall₂ (WideCell py record) (plan.parent ++ (flattened taken (slots plan records)).map (·.2.2)) (front ++ back) := by
  refine List.rel_append ?_ ?_
  · have related := (List.forall₂_and_left _ _).mpr ⟨placed.own none, mapM_ok_iff.mp first⟩
    refine related.imp fun c cell both => ⟨fun _ value => ?_, fun rid slot row _ position => ?_⟩
    · have here := both.2
      rwa [if_pos value] at here
    · rw [both.1.2.2] at position
      cases position
  · rw [List.forall₂_map_left_iff]
    have related := (List.forall₂_and_left _ _).mpr ⟨fun entry member => mem_flattened placed member, mapM_ok_iff.mp second⟩
    refine related.imp fun entry cell both => ?_
    obtain ⟨⟨c, -, core, -, at_⟩, here⟩ := both
    have position : entry.2.2.position = some (entry.2.1 + 1) := congrArg Core.position core
    refine ⟨fun none => ?_, fun rid slot row at' position' rowed => ?_⟩
    · rw [none] at position
      cases position
    · obtain rfl := Option.some.inj (at_.symm.trans at')
      obtain rfl := Nat.succ.inj (Option.some.inj (position.symm.trans position'))
      rwa [slotCell_of_row rowed] at here

theorem wide_cell (placed : plan.Placed) {table : Table} {taken : List String} {cells : List Cell} {rid : String}
    {row : RepeatRow Json} (own : table.columns = plan.parent ++ (flattened taken (slots plan records)).map (·.2.2))
    (related : List.Forall₂ (WideCell py record) table.columns cells) (member : record ∈ records)
    (rowed : (record.rows rid)[j]? = some row) (place : key.1 = some rid)
    (value : key.2.2.2 = .field ∨ key.2.2.2 = .label) (listed : ∃ c ∈ plan.columnsAt (some rid), c.key (some rid) = key) :
    ∃ c ∈ plan.columnsAt (some rid), c.key (some rid) = key ∧
      ∃ cell, table.cell cells key (some (j + 1)) = some cell ∧ cellOf py record c (row.spot rid) = .ok cell := by
  have keyed {c flat : Column} {slot : ℕ} (field : c.fieldId.isSome)
      (core : flat.core = { c.core with position := some (slot + 1) }) (place : Option String) :
      flat.key place = c.key place := by
    simp only [Column.core, Core.mk.injEq] at core
    obtain ⟨fid, given⟩ := Option.isSome_iff_exists.mp field
    simp [Column.key, core.1, core.2.2.1, core.2.2.2.1, given]
  have inside : ∃ c ∈ table.columns, c.key c.repeatId = key ∧ c.position = some (j + 1) := by
    obtain ⟨c, here, same⟩ := listed
    have below : j < widest records rid := (List.getElem?_eq_some_iff.mp rowed).1.trans_le (length_le_widest member)
    have source : c.source ≠ .meta_ := by
      intro meta_
      have holds := holdsValue_of_key same value
      rw [Column.holdsValue, meta_] at holds
      cases holds
    obtain ⟨flat, inside, first, second, core⟩ := exists_of_forall₂_left (flattened_forall₂ taken _)
      (mem_slots.mpr ⟨_, ColumnPlan.mem_repeats here, below, here, source⟩)
    obtain ⟨field, at_, -⟩ := placed.own _ c here
    have at' : flat.2.2.repeatId = some rid := (congrArg Core.repeatId core).trans at_
    refine ⟨flat.2.2, own ▸ List.mem_append_right _ (List.mem_map_of_mem inside), ?_, congrArg Core.position core⟩
    rw [at', keyed field core, same]
  obtain ⟨flat, listed, ⟨same, position⟩, cell, found, here⟩ := Table.cell_of_forall₂ related inside
  rw [own] at listed
  rcases List.mem_append.mp listed with parent | flattened
  · rw [(placed.own none flat parent).2.2] at position
    cases position
  · obtain ⟨entry, member, rfl⟩ := List.mem_map.mp flattened
    obtain ⟨c, ofRepeat, core, field, at_⟩ := mem_flattened placed member
    have same_rid : entry.1 = rid := by
      rw [at_] at same
      exact Option.some.inj ((congrArg Prod.fst same).trans place)
    subst same_rid
    refine ⟨c, ofRepeat, ?_, cell, found, ?_⟩
    · rw [← keyed field core, ← same, at_]
    · rw [← here.2 entry.1 j row at_ position rowed]
      simp only [Column.core, Core.mk.injEq] at core
      exact (cellOf_congr core.1 core.2.1 core.2.2.1 core.2.2.2.1 _).symm

theorem find?_repeatTable {repeats : List (String × List Column)} {made : List Table}
    (related : List.Forall₂ (fun entry table => repeatTable py records baseName entry = .ok table) repeats made)
    {rid : String} {columns : List Column} (found : repeats.lookup rid = some columns) :
    ∃ table, made.find? (·.repeatId = some rid) = some table ∧ table.columns = columns ∧
      repeatRows py records columns rid = .ok table.rows := by
  induction related with
  | nil => cases found
  | @cons entry table repeats made here _ ih =>
    obtain ⟨rows, written, same⟩ := bind_ok_iff.mp here
    obtain rfl := Except.ok.inj same
    rw [List.lookup_cons] at found
    by_cases own : entry.1 = rid
    · subst own
      simp only [beq_self_eq_true] at found
      obtain rfl := Option.some.inj found
      exact ⟨_, List.find?_cons_of_pos (by simp), rfl, written⟩
    · have other : (rid == entry.1) = false := beq_false_of_ne (Ne.symm own)
      rw [other] at found
      rw [List.find?_cons_of_neg (by simpa using own)]
      exact ih found

theorem spotCell_written (placed : plan.Placed) {shape : Shape}
    (ok : buildTables py plan records shape baseName = .ok tables) (at_ : records[i]? = some record)
    (spotted : (record.spots key.1)[j]? = some spot) (value : key.2.2.2 = .field ∨ key.2.2.2 = .label)
    (listed : ∃ c ∈ plan.columnsAt key.1, c.key key.1 = key) :
    ∃ c ∈ plan.columnsAt key.1, c.key key.1 = key ∧
      ∃ cell, spotCell shape tables records i key j = some cell ∧ cellOf py record c spot = .ok cell := by
  have top (place : key.1 = none) : spot = record.top := by
    rw [place] at spotted
    exact (List.mem_singleton.mp (List.mem_of_getElem? spotted))
  have instance_ {rid : String} (place : key.1 = some rid) : ∃ row, (record.rows rid)[j]? = some row ∧ row.spot rid = spot := by
    rw [place, SubmissionRecord.spots, List.getElem?_map] at spotted
    exact Option.map_eq_some_iff.mp spotted
  cases shape with
  | long =>
    obtain ⟨rows, parents, ok⟩ := bind_ok_iff.mp ok
    obtain ⟨made, repeats, same⟩ := bind_ok_iff.mp ok
    obtain rfl := Except.ok.inj same
    cases place : key.1 with
    | none =>
      obtain ⟨row, rowed, written⟩ := forall₂_getElem? (mapM_ok_iff.mp parents) at_
      obtain ⟨c, member, same, cell, found, here⟩ := @placed_cell plan key placed
        { name := baseName, kind := .submissions, columns := plan.parent, rows := rows } row _ []
        (by rw [place, List.append_nil]; rfl) (by intro c member; cases member) (mapM_ok_iff.mp written) listed
      rw [if_pos (holdsValue_of_key same value)] at here
      rw [place] at member same
      refine ⟨c, member, same, cell, ?_, ?_⟩
      · unfold spotCell
        rw [place]
        dsimp only
        simp only [List.head?_cons, Option.bind_eq_bind, Option.bind_some, rowed]
        exact found
      · rw [top place]
        exact here
    | some rid =>
      obtain ⟨row, rowed, rfl⟩ := instance_ place
      have columns : plan.repeats.lookup rid = some (plan.columnsAt (some rid)) := by
        obtain ⟨c, member, -⟩ := place ▸ listed
        exact lookup_of_mem placed.distinct (ColumnPlan.mem_repeats member)
      obtain ⟨table, found, own, written⟩ := find?_repeatTable (mapM_ok_iff.mp repeats) columns
      obtain ⟨cells, there, written⟩ := forall₂_getElem? (mapM_ok_iff.mp written) (instancesOf_getElem? at_ rowed)
      have related := mapM_ok_iff.mp written
      rw [← own] at related
      obtain ⟨c, member, same, cell, inside, here⟩ := @placed_cell plan key placed table cells _ []
        (by rw [place, List.append_nil]; exact own) (by intro c member; cases member) related listed
      have source : c.source ≠ .meta_ := by
        intro meta_
        have holds := holdsValue_of_key same value
        rw [Column.holdsValue, meta_] at holds
        cases holds
      rw [if_neg source] at here
      rw [place] at member same
      refine ⟨c, member, same, cell, ?_, here⟩
      unfold spotCell
      rw [place]
      dsimp only
      rw [List.find?_cons_of_neg (by simp), found]
      simp only [Option.bind_eq_bind, Option.bind_some, there]
      exact inside
  | wide =>
    obtain ⟨table, made, same⟩ := bind_ok_iff.mp ok
    obtain rfl := Except.ok.inj same
    obtain ⟨rows, written, same⟩ := bind_ok_iff.mp made
    obtain rfl := Except.ok.inj same
    obtain ⟨cells, there, written⟩ := forall₂_getElem? (mapM_ok_iff.mp written) at_
    obtain ⟨front, first, written⟩ := bind_ok_iff.mp written
    obtain ⟨back, second, same⟩ := bind_ok_iff.mp written
    obtain rfl := Except.ok.inj same
    have related := wideRow_related placed first second
    cases place : key.1 with
    | none =>
      obtain ⟨c, member, same, cell, found, here⟩ := @placed_cell plan key placed
        { name := baseName, kind := .submissions, columns := _, rows := rows } _ _ _
        (by rw [place]; rfl) (fun flat member => by
          obtain ⟨entry, inside, rfl⟩ := List.mem_map.mp member
          obtain ⟨c, -, core, -⟩ := mem_flattened placed inside
          have position : entry.2.2.position = some (entry.2.1 + 1) := congrArg Core.position core
          rw [position]
          rfl) related listed
      have position := (placed.own _ c member).2.2
      rw [place] at member same
      refine ⟨c, member, same, cell, ?_, ?_⟩
      · unfold spotCell
        rw [place]
        dsimp only
        simp only [List.head?_cons, Option.bind_eq_bind, Option.bind_some, there]
        exact found
      · rw [top place]
        exact here.1 position (holdsValue_of_key same value)
    | some rid =>
      obtain ⟨row, rowed, rfl⟩ := instance_ place
      rw [place] at listed
      obtain ⟨c, member, same, cell, found, here⟩ := @wide_cell py plan record records j key placed
        { name := baseName, kind := .submissions, columns := _, rows := rows } _ _ rid row rfl related
        (List.mem_of_getElem? at_) rowed place value listed
      refine ⟨c, member, same, cell, ?_, here⟩
      unfold spotCell
      rw [place]
      dsimp only
      simp only [List.head?_cons, Option.bind_eq_bind, Option.bind_some, there]
      exact found

end Cells

end Written

section Together

variable (py : Python) (forms : List FormVersion) (language : Option String) (records : List SubmissionRecord) (baseName : String)

/-- Every record has, in the export of all the versions, the cells that it has when its own version is exported alone. -/
def KeepsCells (shape : Shape) (tables : List Table) : Prop :=
  ∀ i record, records[i]? = some record → ∀ v ∈ forms, v.version = record.formVersion →
    ∃ alone, buildTables py (buildPlan [v] language) [record] shape baseName = .ok alone ∧
      ∀ cf ∈ v.form.fields, ∀ part ∈ columnParts cf.node.dataType, ∀ j < (record.spots cf.repeatId).length,
        ∃ cell, spotCell shape tables records i (cf.repeatId, cf.fieldId, part) j = some cell ∧
          spotCell shape alone [record] 0 (cf.repeatId, cf.fieldId, part) j = some cell

def LosesNothing : Prop :=
  ∀ shape, ∃ tables, buildTables py (buildPlan forms language) records shape baseName = .ok tables ∧
    KeepsCells py forms language records baseName shape tables

def Answers (record : SubmissionRecord) (place : Option String) (fid : String) (value : Json) : Prop :=
  ∃ spot ∈ record.spots place, spot.path fid ∉ record.projection.unreadable ∧ spot.cells fid = some value

/-- The type that introduced a column writes every answer under it, and as the type of the answer's own version does. -/
def WritesAlike : Prop :=
  ∀ record ∈ records, ∀ key : ColumnKey, ∀ value, Answers record key.1 key.2.1 value →
    ∀ type, introducing forms key = some type → Alike py record key type type value ∧
      ∀ v ∈ forms, v.version = record.formVersion → ∀ own, introducing [v] key = some own →
        Alike py record key type own value

variable {py} {forms} {language} {records} {baseName}

theorem introducing_isSome_iff {key : ColumnKey} :
    (introducing forms key).isSome ↔ ∃ v ∈ forms, ∃ cf ∈ v.form.fields,
      cf.repeatId = key.1 ∧ cf.fieldId = key.2.1 ∧ key.2.2 ∈ columnParts cf.node.dataType := by
  rw [introducing, introduced, List.findSome?_isSome_iff]
  constructor
  · rintro ⟨⟨v, cf⟩, member, some⟩
    obtain ⟨v', known, pair⟩ := List.mem_flatMap.mp member
    obtain ⟨cf', inside, same⟩ := List.mem_map.mp pair
    obtain ⟨rfl, rfl⟩ := Prod.mk.inj same
    refine ⟨v', List.mem_insertionSort _ |>.mp known, cf', inside, ?_⟩
    split at some
    · assumption
    · cases some
  · rintro ⟨v, known, cf, inside, holds⟩
    refine ⟨(v, cf), List.mem_flatMap.mpr ⟨v, (List.mem_insertionSort _).mpr known, List.mem_map_of_mem inside⟩, ?_⟩
    rw [if_pos holds]
    rfl

theorem introducing_part {key : ColumnKey} {type : String} (typed : introducing forms key = some type) :
    key.2.2 ∈ columnParts type := by
  obtain ⟨entry, -, found⟩ := List.exists_of_findSome?_eq_some typed
  split at found
  · rename_i holds
    obtain rfl := Option.some.inj found
    exact holds.2.2
  · cases found

theorem columnParts_source {dataType : String} {part : Option String × ColumnSource} (member : part ∈ columnParts dataType) :
    part.2 = .field ∨ part.2 = .label := by
  rw [← columnsFor_parts "" dataType none none 0] at member
  obtain ⟨c, listed, rfl⟩ := List.mem_map.mp member
  have value := (mem_columnsFor listed).2.2.2.1
  simpa [Column.holdsValue] using value

def keyedCell (py : Python) (record : SubmissionRecord) (key : ColumnKey) (type : String) (spot : Spot) : Except Failure Cell :=
  if spot.path key.2.1 ∈ record.projection.unreadable then .ok (.text encrypted)
  else
    match spot.cells key.2.1 with
    | none => .ok .empty
    | some value => written py record key.2.2.2 key.2.1 type key.2.2.1 value

theorem cellOf_planned {place : Option String} {c : Column} {record : SubmissionRecord} {type : String}
    (member : c ∈ (buildPlan forms language).columnsAt place) (value : c.holdsValue = true)
    (typed : introducing forms (c.key place) = some type) (spot : Spot) :
    cellOf py record c spot = keyedCell py record (c.key place) type spot := by
  obtain ⟨fid, field⟩ := Option.isSome_iff_exists.mp ((buildPlan_placed forms language).own place c member).1
  have same : c.dataType = some type := (buildPlan_held member value).1.symm.trans typed
  cases present : spot.cells fid <;>
    simp only [cellOf, keyedCell, Column.key, field, same, Option.getD_some, present]

theorem writable_buildPlan_iff {record : SubmissionRecord} :
    Writable py (buildPlan forms language) record ↔
      ∀ key type, introducing forms key = some type → ∀ spot ∈ record.spots key.1,
        ∃ cell, keyedCell py record key type spot = .ok cell := by
  constructor
  · intro writable key type typed spot spotted
    obtain ⟨c, member, same, value⟩ := @buildPlan_present forms language key (by rw [typed]; rfl)
    have ok := writable key.1 c member value spot spotted
    rwa [cellOf_planned member value (same ▸ typed), same] at ok
  · intro ok place c member value spot spotted
    obtain ⟨held, isSome⟩ := buildPlan_held member value
    obtain ⟨type, typed⟩ := Option.isSome_iff_exists.mp isSome
    rw [typed] at held
    rw [cellOf_planned member value held]
    exact ok (c.key place) type held spot spotted

theorem spotCell_planned {shape : Shape} {tables : List Table} {record : SubmissionRecord} {i j : ℕ} {key : ColumnKey}
    {type : String} {spot : Spot} (ok : buildTables py (buildPlan forms language) records shape baseName = .ok tables)
    (at_ : records[i]? = some record) (spotted : (record.spots key.1)[j]? = some spot)
    (typed : introducing forms key = some type) :
    ∃ cell, spotCell shape tables records i key j = some cell ∧ keyedCell py record key type spot = .ok cell := by
  obtain ⟨v, -, cf, -, -, -, part⟩ := introducing_isSome_iff.mp (show (introducing forms key).isSome by rw [typed]; rfl)
  have value := columnParts_source part
  obtain ⟨c, member, same, -⟩ := @buildPlan_present forms language key (by rw [typed]; rfl)
  obtain ⟨c, member, same, cell, found, here⟩ :=
    spotCell_written (buildPlan_placed forms language) ok at_ spotted value ⟨c, member, same⟩
  rw [cellOf_planned member (holdsValue_of_key same value) (same ▸ typed), same] at here
  exact ⟨cell, found, here⟩

theorem losesNothing_iff_writesAlike (py : Python) (forms : List FormVersion) (language : Option String)
    (records : List SubmissionRecord) (baseName : String) :
    LosesNothing py forms language records baseName ↔ WritesAlike py forms records := by
  have within {v : FormVersion} (known : v ∈ forms) {key : ColumnKey} {own : String} (typed : introducing [v] key = some own) :
      ∃ type, introducing forms key = some type := by
    obtain ⟨v', single, cf, inside, rest⟩ := introducing_isSome_iff.mp (show (introducing [v] key).isSome by rw [typed]; rfl)
    obtain rfl := List.mem_singleton.mp single
    exact Option.isSome_iff_exists.mp (introducing_isSome_iff.mpr ⟨v', known, cf, inside, rest⟩)
  constructor
  · intro loses record member key value answered type typed
    obtain ⟨spot, spotted, readable, found⟩ := answered
    obtain ⟨tables, ok, keeps⟩ := loses .long
    have same (t : String) : keyedCell py record key t spot = written py record key.2.2.2 key.2.1 t key.2.2.1 value := by
      rw [keyedCell, if_neg readable, found]
    obtain ⟨i, at_⟩ := List.mem_iff_getElem?.mp member
    obtain ⟨j, there⟩ := List.mem_iff_getElem?.mp spotted
    obtain ⟨cell, inTables, here⟩ := spotCell_planned ok at_ there typed
    rw [same] at here
    refine ⟨(alike_iff (introducing_part typed) (introducing_part typed)).mpr ⟨cell, here, here⟩,
      fun v known version own owned => (alike_iff (introducing_part typed) (introducing_part owned)).mpr ⟨cell, here, ?_⟩⟩
    obtain ⟨alone, made, kept⟩ := keeps i record at_ v known version
    obtain ⟨v', single, cf, inside, placed, named, part⟩ :=
      introducing_isSome_iff.mp (show (introducing [v] key).isSome by rw [owned]; rfl)
    obtain rfl := List.mem_singleton.mp single
    have below : j < (record.spots cf.repeatId).length := placed ▸ (List.getElem?_eq_some_iff.mp there).1
    have keyed : (cf.repeatId, cf.fieldId, key.2.2) = key := by rw [placed, named]
    obtain ⟨cell', union, single⟩ := kept cf inside key.2.2 part j below
    rw [keyed] at union single
    obtain rfl := Option.some.inj (inTables.symm.trans union)
    obtain ⟨cell'', inAlone, here'⟩ := spotCell_planned (i := 0) made rfl there owned
    obtain rfl := Option.some.inj (inAlone.symm.trans single)
    rwa [same] at here'
  · intro alike shape
    have each {record : SubmissionRecord} (member : record ∈ records) {key : ColumnKey} {type : String}
        (typed : introducing forms key = some type) {spot : Spot} (spotted : spot ∈ record.spots key.1) :
        ∃ cell, keyedCell py record key type spot = .ok cell ∧ ∀ v ∈ forms, v.version = record.formVersion →
          ∀ own, introducing [v] key = some own → keyedCell py record key own spot = .ok cell := by
      simp only [keyedCell]
      split
      · exact ⟨_, rfl, fun _ _ _ _ _ => rfl⟩
      · rename_i readable
        cases found : spot.cells key.2.1 with
        | none => exact ⟨_, rfl, fun _ _ _ _ _ => rfl⟩
        | some value =>
          obtain ⟨itself, others⟩ := alike record member key value ⟨spot, spotted, readable, found⟩ type typed
          obtain ⟨cell, here, -⟩ := (alike_iff (introducing_part typed) (introducing_part typed)).mp itself
          refine ⟨cell, here, fun v known version own owned => ?_⟩
          obtain ⟨cell', here', there⟩ :=
            (alike_iff (introducing_part typed) (introducing_part owned)).mp (others v known version own owned)
          obtain rfl := Except.ok.inj (here.symm.trans here')
          exact there
    obtain ⟨tables, ok⟩ := (exists_buildTables_iff (buildPlan_placed forms language) shape baseName).mpr
      fun record member => writable_buildPlan_iff.mpr fun key type typed spot spotted => by
        obtain ⟨cell, here, -⟩ := each member typed spotted
        exact ⟨cell, here⟩
    refine ⟨tables, ok, fun i record at_ v known version => ?_⟩
    have member := List.mem_of_getElem? at_
    obtain ⟨alone, made⟩ := (exists_buildTables_iff (buildPlan_placed [v] language) shape baseName).mpr
      fun record' single => writable_buildPlan_iff.mpr fun key own owned spot spotted => by
        obtain rfl := List.mem_singleton.mp single
        obtain ⟨type, typed⟩ := within known owned
        obtain ⟨cell, -, same⟩ := each member typed spotted
        exact ⟨cell, same v known version own owned⟩
    refine ⟨alone, made, fun cf inside part listed j below => ?_⟩
    obtain ⟨own, owned⟩ := Option.isSome_iff_exists.mp
      (@introducing_isSome_iff [v] (cf.repeatId, cf.fieldId, part) |>.mpr
        ⟨v, List.mem_singleton.mpr rfl, cf, inside, rfl, rfl, listed⟩)
    obtain ⟨type, typed⟩ := within known owned
    have there := List.getElem?_eq_getElem below
    obtain ⟨cell, union, here⟩ := spotCell_planned ok at_ there typed
    obtain ⟨cell', single, here'⟩ := spotCell_planned (i := 0) made rfl there owned
    obtain ⟨both, first, second⟩ := each member typed (List.mem_of_getElem? there)
    obtain rfl := Except.ok.inj (first.symm.trans here)
    obtain rfl := Except.ok.inj ((second v known version own owned).symm.trans here')
    exact ⟨_, union, single⟩

end Together

section Retyped

def ageCounted : FormVersion where
  version := 1
  document := [.question { id := "age", dataType := "integer" }]
  form := {
    fields := [{ node := { id := "age", dataType := "integer" }, dependsOn := [], ancestors := [], repeatId := none
                 choiceQuery := none, rowsQuery := none }]
    topoOrder := ["age"] }
  compiled := rfl

def ageTold : FormVersion where
  version := 2
  document := [.question { id := "age", dataType := "text" }]
  form := {
    fields := [{ node := { id := "age", dataType := "text" }, dependsOn := [], ancestors := [], repeatId := none
                 choiceQuery := none, rowsQuery := none }]
    topoOrder := ["age"] }
  compiled := rfl

def toldVisit : SubmissionRecord where
  submissionId := "s1"
  formKey := "household"
  formVersion := 2
  status := "submitted"
  projection := { top := fun fid => if fid = "age" then some (.str "about forty") else none }

def scalarsOnly : Python where
  repr _ := ""
  reprFloat _ := ""
  dumps _ := ""
  loads _ := none
  lower text := text

/-- The words are read as a number, and nothing is exported. -/
theorem retyped_loses : ¬ LosesNothing scalarsOnly [ageCounted, ageTold] none [toldVisit] "household" := by
  intro loses
  obtain ⟨tables, ok, -⟩ := loses .long
  have raised : buildTables scalarsOnly (buildPlan [ageCounted, ageTold] none) [toldVisit] .long "household" =
      .error (.raised "ValueError") := rfl
  rw [raised] at ok
  cases ok

end Retyped

end DataCollectionLab.Export
