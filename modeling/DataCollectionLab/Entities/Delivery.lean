import DataCollectionLab.Entities.Versions
import DataCollectionLab.Lib.Paging

/-!
How a dataset version reaches a device: the pages of its rows, and the pages of what changed since a
version the device has. A change is judged by the columns one form version reads.
-/

namespace DataCollectionLab.Entities

open Form

/-- A node of a form's IR: its choices, the expressions it evaluates, and its children. -/
inductive Node where
  | mk (choices : Option Choices) (exprs : List Expr) (children : List Node)

mutual

/-- Every `choices` block below a node. -/
def choicesIn : Node → List Choices
  | .mk choices _ children => choices.toList ++ choicesInAll children

def choicesInAll : List Node → List Choices
  | [] => []
  | node :: rest => choicesIn node ++ choicesInAll rest

end

mutual

def exprsIn : Node → List Expr
  | .mk _ exprs children => exprs ++ exprsInAll children

def exprsInAll : List Node → List Expr
  | [] => []
  | node :: rest => exprsIn node ++ exprsInAll rest

end

/-- `columns_read_by`, sorted. -/
def columnsReadBy (ir : List Node) (datasetKey : String) : List String :=
  ((((choicesInAll ir).filter fun choices => choices.dataset = datasetKey).filterMap compileChoices).flatMap
    columnsOf).dedup.insertionSort (· ≤ ·)

/-- Where a delta resumes: the text `c:` and an ordinal, or `d:` and a key. -/
inductive DeltaCursor where
  | changed (ordinal : Nat)
  | deleted (key : String)
  deriving DecidableEq, Repr

inductive Cursor where
  | row (ordinal : Nat)
  | delta (cursor : DeltaCursor)
  deriving DecidableEq, Repr

/-- `int(cursor)`. A delta's cursor is no number, and the walk starts from the beginning. -/
def Cursor.ordinal? : Cursor → Option Nat
  | .row ordinal => some ordinal
  | .delta _ => none

structure RowsPage where
  rows : List Row
  nextCursor : Option Nat

structure DatasetDelta where
  changed : List Row
  deleted : List String
  nextCursor : Option DeltaCursor

namespace DatasetVersion

/-- `WHERE ordinal > start ORDER BY ordinal`. -/
def after (version : DatasetVersion) : Option Nat → List DatasetRecord
  | none => version.records
  | some start => version.records.filter fun record => start < record.ordinal

/-- `dataset_rows_page`. -/
def rowsPage (version : DatasetVersion) (cursor : Option Cursor) (limit : Nat) : RowsPage :=
  let found := (version.after (cursor.bind Cursor.ordinal?)).take (limit + 1)
  let page := found.take limit
  { rows := page.map (·.data)
    nextCursor := if limit < found.length then page.getLast?.map (·.ordinal) else none }

theorem after_ordered (version : DatasetVersion) (start : Option Nat) :
    (version.after start).Pairwise fun a b => a.ordinal < b.ordinal := by
  cases start with
  | none => exact version.ordered
  | some start => exact version.ordered.filter _

theorem after_sublist (version : DatasetVersion) (start : Option Nat) :
    (version.after start).Sublist version.records := by
  cases start with
  | none => exact List.Sublist.refl _
  | some start => exact List.filter_sublist

theorem after_of_mem {version : DatasetVersion} {start : Option Nat} {record : DatasetRecord}
    (member : record ∈ version.after start) :
    version.after (some record.ordinal) =
      (version.after start).filter fun other => record.ordinal < other.ordinal := by
  cases start with
  | none => rfl
  | some start =>
    have above : start < record.ordinal := by simpa [after] using (List.mem_filter.mp member).2
    unfold after
    rw [List.filter_filter]
    apply List.filter_congr
    intro other _
    have trans : record.ordinal < other.ordinal → start < other.ordinal := Nat.lt_trans above
    simpa using trans

theorem after_resume {version : DatasetVersion} {start : Option Nat} {n : Nat} {last : DatasetRecord}
    (ends : ((version.after start).take n).getLast? = some last) :
    version.after (some last.ordinal) = (version.after start).drop n := by
  rw [after_of_mem (List.mem_of_mem_take (List.mem_of_getLast? ends))]
  exact Lib.filter_above_last _ (version.after_ordered start) ends

section RowsPage

variable (version : DatasetVersion) (cursor : Option Cursor) {limit : Nat}

theorem rowsPage_rows (limit : Nat) :
    (version.rowsPage cursor limit).rows =
      ((version.after (cursor.bind Cursor.ordinal?)).take limit).map (·.data) := by
  simp [rowsPage, List.take_take]

theorem rowsPage_last (positive : 0 < limit)
    (ends : (version.rowsPage cursor limit).nextCursor = none) :
    (version.after (cursor.bind Cursor.ordinal?)).length ≤ limit := by
  by_contra more
  dsimp only [rowsPage] at ends
  rw [if_pos (by rw [List.length_take]; omega), Option.map_eq_none_iff, List.getLast?_eq_none_iff,
    List.take_eq_nil_iff, List.take_eq_nil_iff] at ends
  rcases ends with zero | zero | empty
  · omega
  · omega
  · rw [empty] at more
    exact more (Nat.zero_le _)

theorem rowsPage_next {ordinal : Nat}
    (next : (version.rowsPage cursor limit).nextCursor = some ordinal) :
    limit < (version.after (cursor.bind Cursor.ordinal?)).length ∧
      version.after (some ordinal) = (version.after (cursor.bind Cursor.ordinal?)).drop limit := by
  dsimp only [rowsPage] at next
  split at next
  · rename_i more
    rw [List.length_take] at more
    obtain ⟨last, ends, rfl⟩ := Option.map_eq_some_iff.mp next
    rw [List.take_take, Nat.min_eq_left (Nat.le_succ limit)] at ends
    exact ⟨by omega, after_resume ends⟩
  · cases next

end RowsPage

section Delta

variable (rowHash : List (String × Option String) → String) (columns : List String)
  (older newer : DatasetVersion)

/-- `projection`: the hash of the row over the columns the form reads. -/
def projection (row : Row) : String := rowHash (columns.map fun column => (column, row.get column))

/-- `before.get(key) != projection(data)`. -/
def isChanged (record : DatasetRecord) : Bool :=
  (older.row record.recordKey).map (projection rowHash columns) ≠ some (projection rowHash columns record.data)

def gone : List String := (older.keys.filter fun key => key ∉ newer.keys).insertionSort (· ≤ ·)

def walkChanged (limit : Nat) : List DatasetRecord → List Row → List Row × Option Nat
  | [], changed => (changed, none)
  | record :: rest, changed =>
    let changed := if isChanged rowHash columns older record then changed ++ [record.data] else changed
    if limit ≤ changed.length then (changed, some record.ordinal) else walkChanged limit rest changed

def deletedPage (changed : List Row) (gone : List String) (limit : Nat) : DatasetDelta :=
  let page := gone.take limit
  { changed
    deleted := page
    nextCursor := if limit < gone.length then page.getLast?.map .deleted else none }

/-- `dataset_delta` between two versions: the changed rows in publication order, then the deleted keys. -/
def delta (cursor : Option DeltaCursor) (limit : Nat) : DatasetDelta :=
  let changes (start : Option Nat) : DatasetDelta :=
    match walkChanged rowHash columns older limit (newer.after start) [] with
    | (changed, some ordinal) => ⟨changed, [], some (.changed ordinal)⟩
    | (changed, none) => deletedPage changed (gone older newer) limit
  match cursor with
  | none => changes none
  | some (.changed ordinal) => changes (some ordinal)
  | some (.deleted position) => deletedPage [] ((gone older newer).filter (position < ·)) limit

theorem gone_ordered : (gone older newer).Pairwise fun a b => a < b := by
  have sorted : (gone older newer).Pairwise (· ≤ ·) := List.pairwise_insertionSort _ _
  have distinct : (gone older newer).Nodup :=
    (List.perm_insertionSort _ _).nodup_iff.mpr (older.distinct.filter _)
  exact (sorted.and distinct).imp fun {a b} both => lt_of_le_of_ne both.1 both.2

theorem mem_gone {key : String} : key ∈ gone older newer ↔ key ∈ older.keys ∧ key ∉ newer.keys := by
  simp [gone]

theorem walkChanged_spec {limit : Nat} (records : List DatasetRecord) (changed : List Row)
    (short : changed.length < limit) :
    ∃ seen rest, records = seen ++ rest ∧
      (walkChanged rowHash columns older limit records changed).1 =
        changed ++ (seen.filter (isChanged rowHash columns older)).map (·.data) ∧
      match (walkChanged rowHash columns older limit records changed).2 with
      | none => rest = []
      | some ordinal => (∃ last, seen.getLast? = some last ∧ last.ordinal = ordinal) ∧
          limit ≤ (walkChanged rowHash columns older limit records changed).1.length := by
  induction records generalizing changed with
  | nil => exact ⟨[], [], rfl, by simp [walkChanged], rfl⟩
  | cons record records ih =>
    let grown := if isChanged rowHash columns older record then changed ++ [record.data] else changed
    have grows : grown = changed ++ ([record].filter (isChanged rowHash columns older)).map (·.data) := by
      by_cases hit : isChanged rowHash columns older record <;> simp [grown, hit]
    by_cases full : limit ≤ grown.length
    · have stop : walkChanged rowHash columns older limit (record :: records) changed =
          (grown, some record.ordinal) := by
        rw [walkChanged]
        exact if_pos full
      rw [stop]
      exact ⟨[record], records, rfl, grows, ⟨record, rfl, rfl⟩, full⟩
    · have go : walkChanged rowHash columns older limit (record :: records) changed =
          walkChanged rowHash columns older limit records grown := by
        rw [walkChanged]
        exact if_neg full
      rw [go]
      obtain ⟨seen, rest, split, same, ends⟩ := ih grown (Nat.not_le.mp full)
      refine ⟨record :: seen, rest, by rw [split, List.cons_append], ?_, ?_⟩
      · rw [same, grows, List.append_assoc, ← List.map_append, ← List.filter_append, List.singleton_append]
      · revert ends
        cases (walkChanged rowHash columns older limit records grown).2 with
        | none => exact id
        | some ordinal =>
          rintro ⟨⟨last, at_, number⟩, enough⟩
          refine ⟨⟨last, ?_, number⟩, enough⟩
          rw [List.getLast?_cons, at_]
          rfl

def remaining : Option DeltaCursor → List DatasetRecord × List String
  | none => (newer.records.filter (isChanged rowHash columns older), gone older newer)
  | some (.changed ordinal) =>
    ((newer.after (some ordinal)).filter (isChanged rowHash columns older), gone older newer)
  | some (.deleted position) => ([], (gone older newer).filter (position < ·))

theorem remaining_sublist (cursor : Option DeltaCursor) :
    (remaining rowHash columns older newer cursor).1.Sublist newer.records ∧
      (remaining rowHash columns older newer cursor).2.Sublist (gone older newer) := by
  cases cursor with
  | none => exact ⟨List.filter_sublist, List.Sublist.refl _⟩
  | some cursor =>
    cases cursor with
    | changed ordinal =>
      exact ⟨List.filter_sublist.trans List.filter_sublist, List.Sublist.refl _⟩
    | deleted position => exact ⟨List.nil_sublist _, List.filter_sublist⟩

/-- One page brings the front of what remains, and its cursor stands for the rest. -/
structure PageOf (cursor : Option DeltaCursor) (page : DatasetDelta)
    (records laterRecords : List DatasetRecord) (laterKeys : List String) : Prop where
  changed : page.changed = records.map (·.data)
  accounts : remaining rowHash columns older newer cursor =
    (records ++ laterRecords, page.deleted ++ laterKeys)
  last : page.nextCursor = none → laterRecords = [] ∧ laterKeys = []
  next : ∀ next, page.nextCursor = some next →
    remaining rowHash columns older newer (some next) = (laterRecords, laterKeys) ∧
      0 < records.length + page.deleted.length

variable {rowHash columns older newer}

theorem PageOf.shrinks {cursor : Option DeltaCursor} {page : DatasetDelta}
    {records laterRecords : List DatasetRecord} {laterKeys : List String}
    (pageOf : PageOf rowHash columns older newer cursor page records laterRecords laterKeys)
    {next : DeltaCursor} (more : page.nextCursor = some next) :
    (remaining rowHash columns older newer (some next)).1.length +
        (remaining rowHash columns older newer (some next)).2.length <
      (remaining rowHash columns older newer cursor).1.length +
        (remaining rowHash columns older newer cursor).2.length := by
  obtain ⟨left, progress⟩ := pageOf.next next more
  rw [left, pageOf.accounts]
  simp only [List.length_append]
  omega

theorem deletedPage_of {cursor : Option DeltaCursor} {records : List DatasetRecord} {keys : List String}
    {limit : Nat} (positive : 0 < limit)
    (left : remaining rowHash columns older newer cursor = (records, keys))
    (tail : ∀ n last, (keys.take n).getLast? = some last →
      (gone older newer).filter (last < ·) = keys.drop n) :
    PageOf rowHash columns older newer cursor (deletedPage (records.map (·.data)) keys limit)
      records [] (keys.drop limit) where
  changed := rfl
  accounts := by rw [left, deletedPage, List.append_nil, List.take_append_drop]
  last := by
    dsimp only [deletedPage]
    intro ends
    split at ends
    · rw [Option.map_eq_none_iff, List.getLast?_eq_none_iff, List.take_eq_nil_iff] at ends
      rcases ends with zero | rfl
      · omega
      · exact ⟨rfl, List.drop_nil⟩
    · exact ⟨rfl, List.drop_eq_nil_of_le (by omega)⟩
  next := by
    dsimp only [deletedPage]
    intro next found
    split at found
    · rename_i more
      obtain ⟨last, ends, rfl⟩ := Option.map_eq_some_iff.mp found
      refine ⟨?_, by rw [List.length_take]; omega⟩
      rw [remaining, tail limit last ends]
    · cases found

theorem delta_pageOf {cursor : Option DeltaCursor} {limit : Nat} (positive : 0 < limit) :
    ∃ records laterRecords laterKeys, PageOf rowHash columns older newer cursor
      (delta rowHash columns older newer cursor limit) records laterRecords laterKeys := by
  have whole : ∀ n last, ((gone older newer).take n).getLast? = some last →
      (gone older newer).filter (last < ·) = (gone older newer).drop n := fun n last ends =>
    Lib.filter_above_last id (gone_ordered older newer) ends
  -- A page of changed rows, from wherever the walk starts.
  have changes : ∀ start, (remaining rowHash columns older newer cursor =
        ((newer.after start).filter (isChanged rowHash columns older), gone older newer)) →
      delta rowHash columns older newer cursor limit =
        (match walkChanged rowHash columns older limit (newer.after start) [] with
        | (changed, some ordinal) => ⟨changed, [], some (.changed ordinal)⟩
        | (changed, none) => deletedPage changed (gone older newer) limit) →
      ∃ records laterRecords laterKeys, PageOf rowHash columns older newer cursor
        (delta rowHash columns older newer cursor limit) records laterRecords laterKeys := by
    intro start left page
    obtain ⟨seen, rest, split, same, ends⟩ := walkChanged_spec rowHash columns older
      (newer.after start) [] positive
    rw [List.nil_append] at same
    rw [page]
    revert same ends
    rcases walkChanged rowHash columns older limit (newer.after start) [] with ⟨changed, stop⟩
    cases stop with
    | none =>
      rintro (rfl : changed = _) (rfl : rest = [])
      rw [List.append_nil] at split
      rw [split] at left
      exact ⟨_, _, _, deletedPage_of positive left whole⟩
    | some ordinal =>
      rintro (rfl : changed = _) ⟨⟨last, at_, rfl⟩, enough⟩
      refine ⟨seen.filter (isChanged rowHash columns older), rest.filter (isChanged rowHash columns older),
        gone older newer, rfl, ?_, by simp, ?_⟩
      · rw [left, split, List.filter_append]
        rfl
      · intro next found
        cases found
        have resumed : newer.after (some last.ordinal) = rest := by
          have cut : (newer.after start).take seen.length = seen := by rw [split, List.take_left]
          rw [@after_resume newer start seen.length last (by rw [cut, at_]), split, List.drop_left]
        refine ⟨by rw [remaining, resumed], ?_⟩
        rw [List.length_map] at enough
        exact Nat.lt_of_lt_of_le positive (Nat.le_trans enough (Nat.le_add_right _ _))
  cases cursor with
  | none => exact changes none rfl rfl
  | some cursor =>
    cases cursor with
    | changed ordinal => exact changes (some ordinal) rfl rfl
    | deleted position =>
      refine ⟨[], [], _, deletedPage_of positive rfl ?_⟩
      intro n last ends
      have sorted := (gone_ordered older newer).filter (position < ·)
      have above : position < last := by
        have member := List.mem_of_mem_take (List.mem_of_getLast? ends)
        simpa using (List.mem_filter.mp member).2
      rw [← Lib.filter_above_last id sorted ends, List.filter_filter]
      apply List.filter_congr
      intro key _
      have trans : last < key → position < key := lt_trans above
      simpa using trans

end Delta

end DatasetVersion

/-- What the server has published: dataset versions, the one each form version was published against under
each dataset key, and the forms. -/
structure Server where
  /-- SHA-256 over the canonical JSON of some columns of a row. -/
  rowHash : List (String × Option String) → String
  versions : String → Option DatasetVersion
  pins : String → String → Option String
  irs : String → List Node

namespace Server

variable (server : Server)

/-- `dataset_rows_page`; `none` for a version that does not exist. -/
def datasetRowsPage (datasetVersionId : String) (cursor : Option Cursor) (limit : Nat) : Option RowsPage :=
  (server.versions datasetVersionId).map fun version => version.rowsPage cursor limit

/-- `dataset_delta`; `none` is a refusal. -/
def datasetDelta (formVersionId datasetKey source : String) (cursor : Option DeltaCursor) (limit : Nat) :
    Option DatasetDelta := do
  let newer ← server.versions (← server.pins formVersionId datasetKey)
  let older ← server.versions source
  if older.datasetId ≠ newer.datasetId then none
  else
    some (DatasetVersion.delta server.rowHash (columnsReadBy (server.irs formVersionId) datasetKey) older newer
      cursor limit)

end Server

end DataCollectionLab.Entities
