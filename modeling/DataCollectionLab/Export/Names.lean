import DataCollectionLab.Export.Union

/-! The names of the columns: no two columns of a place share one, and a derived name gives way to a field's. -/

namespace DataCollectionLab.Export

open Form Lib

theorem serialName_inj {wanted : String} {m n : ℕ} (same : serialName wanted m = serialName wanted n) : m = n := by
  have texts : (toString (m + 2)).toList = (toString (n + 2)).toList := by
    have lists := congrArg String.toList same
    simpa only [serialName, String.toList_append, List.append_cancel_left_eq] using lists
  have digits : Nat.toDigits 10 (m + 2) = Nat.toDigits 10 (n + 2) := by
    simpa [Nat.toString_eq_repr, Nat.toList_repr] using texts
  have values := congrArg (Nat.ofDigitChars 10 · 0) digits
  simp only [Nat.ofDigitChars_ten_toDigits] at values
  omega

theorem claim_cases (taken : List String) (wanted : String) :
    claim taken wanted = wanted ∨ ∃ n, claim taken wanted = serialName wanted n := by
  unfold claim
  split
  · cases found : ((List.range (taken.length + 1)).map (serialName wanted)).find? (· ∉ taken) with
    | none => exact .inl rfl
    | some name =>
      obtain ⟨n, -, rfl⟩ := List.mem_map.mp (List.mem_of_find?_eq_some found)
      exact .inr ⟨n, rfl⟩
  · exact .inl rfl

theorem claim_fresh (taken : List String) (wanted : String) : claim taken wanted ∉ taken := by
  unfold claim
  split
  · cases found : ((List.range (taken.length + 1)).map (serialName wanted)).find? (· ∉ taken) with
    | some name => simpa using List.find?_some found
    | none =>
      have all : (List.range (taken.length + 1)).map (serialName wanted) ⊆ taken := by
        intro name member
        simpa using List.find?_eq_none.mp found name member
      have distinct : ((List.range (taken.length + 1)).map (serialName wanted)).Nodup :=
        List.nodup_range.map fun m n same => serialName_inj same
      have short := (distinct.subperm all).length_le
      rw [List.length_map, List.length_range] at short
      omega
  · assumption

namespace Planning

variable {plan : Planning}

def Open (plan : Planning) (place : Option String) : Prop := ∀ rid, place = some rid → rid ∈ plan.repeats.map (·.repeatId)

theorem find?_isSome_of_open {rid : String} (known : rid ∈ plan.repeats.map (·.repeatId)) :
    ∃ r, plan.repeats.find? (·.repeatId = rid) = some r := by
  obtain ⟨r, member, id⟩ := List.mem_map.mp known
  exact Option.isSome_iff_exists.mp (List.find?_isSome.mpr ⟨r, member, by simpa using id⟩)

theorem namesAt_amend (rid : String) {change : RepeatColumns → RepeatColumns}
    (keeps : ∀ r, (change r).repeatId = r.repeatId ∧ (change r).names = r.names) (place : Option String) :
    (plan.amend rid change).namesAt place = plan.namesAt place := by
  cases place with
  | none => rfl
  | some rid' =>
    dsimp only [namesAt]
    rw [find?_amend rid rid' fun r => (keeps r).1]
    cases plan.repeats.find? fun r => decide (r.repeatId = rid') with
    | none => rfl
    | some r =>
      simp only [Option.map_some, Option.getD_some]
      split
      · exact (keeps r).2
      · rfl

theorem namesAt_take {place : Option String} (opened : plan.Open place) (name : String) (other : Option String) :
    (plan.take place name).namesAt other =
      if other = place then plan.namesAt place ++ [name] else plan.namesAt other := by
  cases place with
  | none => cases other <;> rfl
  | some rid =>
    cases other with
    | none => rfl
    | some rid' =>
      dsimp only [namesAt, take]
      rw [find?_amend rid rid' (by intro r; rfl)]
      by_cases here : rid' = rid
      · subst here
        obtain ⟨r, found⟩ := find?_isSome_of_open (opened rid' rfl)
        simp [found]
      · simp [here]

theorem namesAt_emit (column : Column) (place other : Option String) :
    (plan.emit column place).namesAt other = plan.namesAt other := by
  unfold emit
  dsimp only
  split
  · cases other <;> rfl
  · cases place with
    | none => cases other <;> rfl
    | some rid => exact namesAt_amend rid (by intro r; exact ⟨rfl, rfl⟩) other

theorem namesAt_opened {rid : String} (new : rid ∉ plan.repeats.map (·.repeatId)) (names : List String) (place : Option String) :
    ({ plan with repeats := plan.repeats ++ [{ repeatId := rid, names := names }] } : Planning).namesAt place =
      if place = some rid then names else plan.namesAt place := by
  cases place with
  | none => rfl
  | some rid' =>
    dsimp only [namesAt]
    rw [List.find?_append]
    by_cases here : rid' = rid
    · subst here
      have absent : plan.repeats.find? (fun r => decide (r.repeatId = rid')) = none := by
        refine List.find?_eq_none.mpr fun r member same => new (List.mem_map.mpr ⟨r, member, ?_⟩)
        exact of_decide_eq_true same
      simp [absent]
    · have other : some rid' ≠ some rid := fun same => here (Option.some.inj same)
      rw [if_neg other]
      cases plan.repeats.find? fun r => decide (r.repeatId = rid') with
      | some r => rfl
      | none =>
        have apart : rid ≠ rid' := Ne.symm here
        simp [apart]

theorem mem_openRepeat (reserved : List String) (rid : String) (version : ℕ) :
    rid ∈ (plan.openRepeat reserved rid version).repeats.map (·.repeatId) := by
  unfold openRepeat
  dsimp only
  rw [repeatIds_amend rid (by intro r; rfl)]
  split
  · rename_i known
    obtain ⟨r, member, id⟩ := List.any_eq_true.mp known
    exact List.mem_map.mpr ⟨r, member, by simpa using id⟩
  · simp

end Planning

def Column.own (column : Column) : Bool := column.source = .field ∧ column.component = none

def Derived (language : Option String) (entries : List (FormVersion × CompiledField)) (place : Option String)
    (name : String) : Prop :=
  (∃ entry ∈ entries, ∃ c ∈ contributed language entry, c.repeatId = place ∧ c.own = false ∧ c.name = name) ∨
    (∃ rid, name = rid ++ countSuffix) ∨ ∃ wanted n, name = serialName wanted n

structure Named (language : Option String) (entries : List (FormVersion × CompiledField)) (reserved : List String)
    (plan : Planning) : Prop where
  reserves : ∀ place, plan.Open place → reserved ⊆ plan.namesAt place
  origin : ∀ place, ∀ name ∈ plan.namesAt place, name ∈ reserved ∨ Derived language entries place name
  columns : ∀ place, ∀ c ∈ plan.columnsAt place,
    (c.own = true ∧ c.fieldId = some c.name ∧ c.name ∈ reserved ∧ plan.seen (c.key place) = true) ∨
      (c.name ∉ reserved ∧ c.name ∈ plan.namesAt place)
  distinct : ∀ place, ((plan.columnsAt place).map (·.name)).Nodup

theorem own_name {language : Option String} {entry : FormVersion × CompiledField} {c : Column}
    (member : c ∈ contributed language entry) (own : c.own = true) : c.name = entry.2.fieldId := by
  simp only [Column.own, Bool.decide_and, Bool.and_eq_true, decide_eq_true_eq] at own
  unfold contributed columnsFor at member
  dsimp only at member
  split at member
  · cases member
  · split at member
    · obtain ⟨part, -, rfl⟩ := List.mem_map.mp member
      cases own.2
    · split at member
      · rcases List.mem_cons.mp member with rfl | second
        · rfl
        · obtain rfl := List.mem_singleton.mp second
          cases own.1
      · obtain rfl := List.mem_singleton.mp member
        rfl

namespace Named

variable {language : Option String} {entries : List (FormVersion × CompiledField)} {reserved : List String} {plan : Planning}

theorem open_congr {plan' : Planning} (ids : plan'.repeats.map (·.repeatId) = plan.repeats.map (·.repeatId))
    (place : Option String) : plan'.Open place ↔ plan.Open place := by
  rw [Planning.Open, Planning.Open, ids]

theorem take (named : Named language entries reserved plan) {place : Option String} (opened : plan.Open place)
    {name : String} (fits : name ∈ reserved ∨ Derived language entries place name) :
    Named language entries reserved (plan.take place name) := by
  have grown := Planning.namesAt_take opened name
  have kept {other : Option String} {n : String} (member : n ∈ plan.namesAt other) : n ∈ (plan.take place name).namesAt other := by
    rw [grown other]
    split
    · rename_i here
      exact List.mem_append_left _ (here ▸ member)
    · exact member
  have same : ∀ other, (plan.take place name).columnsAt other = plan.columnsAt other := Planning.columnsAt_take place name
  have seen (key : ColumnKey) : (plan.take place name).seen key = plan.seen key := by cases place <;> rfl
  refine ⟨fun other known n member => ?_, fun other n member => ?_, fun other c member => ?_, fun other => ?_⟩
  · exact kept (named.reserves other ((open_congr (Planning.repeatIds_take place name) other).mp known) member)
  · rw [grown other] at member
    split at member
    · rename_i here
      subst here
      rcases List.mem_append.mp member with old | new
      · exact named.origin other n old
      · obtain rfl := List.mem_singleton.mp new
        exact fits
    · exact named.origin other n member
  · rw [same] at member
    rw [seen]
    exact (named.columns other c member).imp_right fun derived => ⟨derived.1, kept derived.2⟩
  · rw [same]
    exact named.distinct other

theorem emit (named : Named language entries reserved plan) {place : Option String} (opened : plan.Open place)
    {column : Column} (fits : (column.own = true ∧ column.fieldId = some column.name ∧ column.name ∈ reserved) ∨
      (column.name ∉ reserved ∧ column.name ∈ plan.namesAt place ∧ ∀ c ∈ plan.columnsAt place, c.name ≠ column.name)) :
    Named language entries reserved (plan.emit column place) := by
  have names : ∀ other, (plan.emit column place).namesAt other = plan.namesAt other := Planning.namesAt_emit column place
  have seen {key : ColumnKey} (before : plan.seen key = true) : (plan.emit column place).seen key = true := by
    rw [Planning.seen_emit, before, Bool.true_or]
  have old {other : Option String} {c : Column} (member : c ∈ plan.columnsAt other) :
      (c.own = true ∧ c.fieldId = some c.name ∧ c.name ∈ reserved ∧ (plan.emit column place).seen (c.key other) = true) ∨
        (c.name ∉ reserved ∧ c.name ∈ (plan.emit column place).namesAt other) := by
    rw [names]
    exact (named.columns other c member).imp_left fun own => ⟨own.1, own.2.1, own.2.2.1, seen own.2.2.2⟩
  have reserves (other : Option String) (known : (plan.emit column place).Open other) :
      reserved ⊆ (plan.emit column place).namesAt other := by
    rw [names]
    exact named.reserves other ((open_congr (Planning.repeatIds_emit column place) other).mp known)
  have origin (other : Option String) : ∀ n ∈ (plan.emit column place).namesAt other,
      n ∈ reserved ∨ Derived language entries other n := by
    rw [names]
    exact named.origin other
  cases already : plan.seen (column.key place) with
  | true =>
    have same (other : Option String) : (plan.emit column place).columnsAt other = plan.columnsAt other := by
      unfold Planning.emit
      rw [if_pos already]
      cases other <;> rfl
    refine ⟨reserves, origin, fun other c member => ?_, fun other => ?_⟩
    · rw [same] at member
      exact old member
    · rw [same]
      exact named.distinct other
  | false =>
    have grown := Planning.columnsAt_emit already opened
    refine ⟨reserves, origin, fun other c member => ?_, fun other => ?_⟩
    · rw [grown other] at member
      split at member
      · rename_i here
        subst here
        rcases List.mem_append.mp member with before | new
        · exact old before
        · obtain rfl := List.mem_singleton.mp new
          refine fits.imp (fun own => ⟨own.1, own.2.1, own.2.2, ?_⟩) fun derived => ⟨derived.1, ?_⟩
          · rw [Planning.seen_emit]
            simp
          · rw [names]
            exact derived.2.1
      · exact old member
    · rw [grown other]
      split
      · rename_i here
        subst here
        rw [List.map_append]
        refine List.nodup_append.mpr ⟨named.distinct other, List.nodup_singleton _, ?_⟩
        intro a listed b single same
        obtain ⟨c, member, rfl⟩ := List.mem_map.mp listed
        obtain rfl := List.mem_singleton.mp single
        rcases fits with ⟨own, field, reservedName⟩ | ⟨-, -, free⟩
        · -- a column of the same field, which would be under the same key
          rcases named.columns other c member with ⟨own', field', -, before⟩ | ⟨unreserved, -⟩
          · have keys : c.key other = column.key other := by
              simp only [Column.own, Bool.decide_and, Bool.and_eq_true, decide_eq_true_eq] at own own'
              simp only [Column.key, field, field', same, own.1, own.2, own'.1, own'.2]
            rw [keys, already] at before
            cases before
          · exact unreserved (same ▸ reservedName)
        · exact free c member same
      · exact named.distinct other

theorem addColumn (named : Named language entries reserved plan) {place : Option String} (opened : plan.Open place)
    {column : Column} (fits : (column.own = true ∧ column.fieldId = some column.name ∧ column.name ∈ reserved) ∨
      (column.own = false ∧ Derived language entries place column.name)) :
    Named language entries reserved (plan.addColumn place column) := by
  rcases fits with ⟨own, field, listed⟩ | ⟨derived, wanted⟩
  · have given : plan.addColumn place column = (plan.take place column.name).emit column place := by
      unfold Planning.addColumn
      dsimp only
      rw [if_pos (by simpa [Column.own] using own)]
    rw [given]
    refine (named.take opened (.inl listed)).emit ?_ (.inl ⟨own, field, listed⟩)
    exact (open_congr (Planning.repeatIds_take place column.name) place).mpr opened
  · have fresh := claim_fresh (plan.namesAt place) column.name
    have origin : Derived language entries place (claim (plan.namesAt place) column.name) := by
      rcases claim_cases (plan.namesAt place) column.name with same | ⟨n, same⟩
      · rwa [same]
      · exact .inr (.inr ⟨_, n, same⟩)
    have given : plan.addColumn place column = (plan.take place (claim (plan.namesAt place) column.name)).emit
        { column with name := claim (plan.namesAt place) column.name } place := by
      unfold Planning.addColumn
      dsimp only
      rw [if_neg (by simpa [Column.own] using derived)]
    rw [given]
    have free : claim (plan.namesAt place) column.name ∉ reserved := fun listed => fresh (named.reserves place opened listed)
    refine (named.take opened (.inr origin)).emit ?_ (.inr ⟨free, ?_, fun c member same => ?_⟩)
    · exact (open_congr (Planning.repeatIds_take place _) place).mpr opened
    · rw [Planning.namesAt_take opened, if_pos rfl]
      exact List.mem_append_right _ (List.mem_singleton.mpr rfl)
    · rw [Planning.columnsAt_take] at member
      dsimp only at same
      rcases named.columns place c member with ⟨-, -, listed, -⟩ | ⟨-, taken⟩
      · exact free (same ▸ listed)
      · exact fresh (same ▸ taken)

theorem congr (named : Named language entries reserved plan) {plan' : Planning}
    (ids : plan'.repeats.map (·.repeatId) = plan.repeats.map (·.repeatId)) (seen : plan'.versions = plan.versions)
    (columns : ∀ place, plan'.columnsAt place = plan.columnsAt place)
    (names : ∀ place, plan'.namesAt place = plan.namesAt place) : Named language entries reserved plan' := by
  refine ⟨fun place known => ?_, fun place => ?_, fun place c member => ?_, fun place => ?_⟩
  · rw [names]
    exact named.reserves place ((open_congr ids place).mp known)
  · rw [names]
    exact named.origin place
  · rw [columns] at member
    rw [names, Planning.seen, seen]
    exact named.columns place c member
  · rw [columns]
    exact named.distinct place

theorem openRepeat (named : Named language entries reserved plan) (rid : String) (version : ℕ) :
    Named language entries reserved (plan.openRepeat reserved rid version) := by
  have again {opened : Planning} (named : Named language entries reserved opened) :
      Named language entries reserved (opened.amend rid fun r => { r with versions := r.versions ++ [version] }) :=
    named.congr (Planning.repeatIds_amend rid (by intro r; rfl)) rfl
      (Planning.columnsAt_amend rid (by intro r; exact ⟨rfl, rfl⟩)) (Planning.namesAt_amend rid (by intro r; exact ⟨rfl, rfl⟩))
  unfold Planning.openRepeat
  dsimp only
  split
  · exact again named
  · rename_i unknown
    have new : rid ∉ plan.repeats.map (·.repeatId) := by
      intro listed
      obtain ⟨r, member, id⟩ := List.mem_map.mp listed
      exact unknown (List.any_eq_true.mpr ⟨r, member, by simpa using id⟩)
    have names := Planning.namesAt_opened new reserved
    have columns := @Planning.columnsAt_opened plan rid reserved
    refine again ⟨fun place known => ?_, fun place name member => ?_, fun place c member => ?_, fun place => ?_⟩
    · rw [names]
      split
      · exact fun _ listed => listed
      · rename_i other
        refine named.reserves place fun rid' at_ => ?_
        have listed := known rid' at_
        rw [List.map_append, List.mem_append] at listed
        rcases listed with old | single
        · exact old
        · exact absurd (List.mem_singleton.mp single) fun same => other (at_.trans (congrArg some same))
    · rw [names] at member
      split at member
      · exact .inl member
      · exact named.origin place name member
    · rw [columns] at member
      refine (named.columns place c member).imp_right fun derived => ⟨derived.1, ?_⟩
      rw [names]
      split
      · rename_i here
        have empty : plan.namesAt (some rid) = [] := by
          dsimp only [Planning.namesAt]
          have absent : plan.repeats.find? (fun r => decide (r.repeatId = rid)) = none := by
            refine List.find?_eq_none.mpr fun r inside same => new (List.mem_map.mpr ⟨r, inside, ?_⟩)
            exact of_decide_eq_true same
          rw [absent]
          rfl
        have taken := derived.2
        rw [here, empty] at taken
        cases taken
      · exact derived.2
    · rw [columns]
      exact named.distinct place

theorem addColumns {place : Option String} (added : List Column) (fits : ∀ c ∈ added,
      (c.own = true ∧ c.fieldId = some c.name ∧ c.name ∈ reserved) ∨ (c.own = false ∧ Derived language entries place c.name)) :
    ∀ {plan : Planning}, Named language entries reserved plan → plan.Open place →
      Named language entries reserved (added.foldl (fun plan column => plan.addColumn place column) plan) := by
  induction added with
  | nil => exact fun named _ => named
  | cons column rest ih =>
    intro plan named opened
    refine ih (fun c member => fits c (List.mem_cons_of_mem _ member))
      (named.addColumn opened (fits column List.mem_cons_self)) ?_
    exact (open_congr (Planning.repeatIds_addColumn place column) place).mpr opened

theorem addField (named : Named language entries reserved plan) {entry : FormVersion × CompiledField} (listed : entry ∈ entries)
    (field : entry.2.fieldId ∈ reserved) : Named language entries reserved (plan.addField reserved language entry) := by
  obtain ⟨v, cf⟩ := entry
  have fits : ∀ c ∈ contributed language (v, cf), (c.own = true ∧ c.fieldId = some c.name ∧ c.name ∈ reserved) ∨
      (c.own = false ∧ Derived language entries cf.repeatId c.name) := by
    intro c member
    cases own : c.own with
    | true =>
      have name : c.name = cf.fieldId := own_name member own
      refine .inl ⟨rfl, ?_, name ▸ field⟩
      rw [name]
      exact (mem_columnsFor member).1
    | false => exact .inr ⟨rfl, .inl ⟨(v, cf), listed, c, member, (mem_columnsFor member).2.2.1, own, rfl⟩⟩
  have typed {plan : Planning} (named : Named language entries reserved plan) (datasets : List (String × String)) :
      Named language entries reserved { plan with datasetFields := datasets } :=
    named.congr rfl rfl (by intro place; cases place <;> rfl) (by intro place; cases place <;> rfl)
  obtain ⟨opens, known⟩ : Named language entries reserved (plan.opened reserved cf.repeatId v.version) ∧
      (plan.opened reserved cf.repeatId v.version).Open cf.repeatId := by
    cases cf.repeatId with
    | none => exact ⟨named, by intro rid at_; cases at_⟩
    | some rid =>
      refine ⟨named.openRepeat rid v.version, fun rid' at_ => ?_⟩
      obtain rfl := Option.some.inj at_
      exact Planning.mem_openRepeat reserved rid v.version
  unfold Planning.addField
  dsimp only
  cases cf.choiceQuery with
  | none => exact addColumns _ fits opens known
  | some query => exact addColumns _ fits (typed opens _) known

theorem addCount (named : Named language entries reserved plan) (r : RepeatColumns) :
    Named language entries reserved (plan.addCount r) := by
  have given : plan.addCount r = plan.addColumn none
      { name := r.repeatId ++ countSuffix, source := .count, fieldId := some r.repeatId, dataType := some "integer"
        label := some ("Number of " ++ r.repeatId), versions := (r.versions.insertionSort (· ≤ ·)).dedup } := by
    unfold Planning.addCount Planning.addColumn
    dsimp only
    rw [if_neg (by simp)]
    rfl
  rw [given]
  exact named.addColumn (by intro rid at_; cases at_) (.inr ⟨rfl, .inr (.inl ⟨r.repeatId, rfl⟩)⟩)

end Named

section Finished

variable (forms : List FormVersion) (language : Option String)

theorem planned_named : Named language (planFields forms) (reservedNames forms) (planned forms language) := by
  have grows (entries : List (FormVersion × CompiledField)) (listed : entries ⊆ planFields forms) :
      ∀ {plan : Planning}, Named language (planFields forms) (reservedNames forms) plan →
        Named language (planFields forms) (reservedNames forms)
          (entries.foldl (Planning.addField (reservedNames forms) language) plan) := by
    induction entries with
    | nil => exact fun named => named
    | cons entry rest ih =>
      intro plan named
      have member := listed List.mem_cons_self
      exact ih (fun e inside => listed (List.mem_cons_of_mem _ inside)) (named.addField member (List.mem_map_of_mem member))
  refine grows (planFields forms) (fun _ member => member) ⟨fun place known name listed => ?_, fun place name member => ?_,
    fun place c member => ?_, fun place => ?_⟩
  · cases place with
    | none => exact listed
    | some rid => cases known rid rfl
  · cases place with
    | none => exact .inl member
    | some rid => cases member
  · cases place <;> cases member
  · cases place <;> exact List.nodup_nil

theorem counted_named : Named language (planFields forms) (reservedNames forms)
    ((planned forms language).repeats.foldl Planning.addCount (planned forms language)) := by
  have grows (repeats : List RepeatColumns) : ∀ {plan : Planning}, Named language (planFields forms) (reservedNames forms) plan →
      Named language (planFields forms) (reservedNames forms) (repeats.foldl Planning.addCount plan) := by
    induction repeats with
    | nil => exact fun named => named
    | cons r rest ih => exact fun named => ih (named.addCount r)
  exact grows _ (planned_named forms language)

def Planning.Bare (plan : Planning) : Prop := ∀ place, ∀ c ∈ plan.columnsAt place, c.own = true → c.fieldId = some c.name

namespace Planning.Bare

variable {plan : Planning}

theorem mem_emit {column : Column} {place other : Option String} {c : Column}
    (member : c ∈ (plan.emit column place).columnsAt other) : c ∈ plan.columnsAt other ∨ c = column := by
  unfold Planning.emit at member
  dsimp only at member
  split at member
  · cases other <;> exact .inl member
  · cases place with
    | none =>
      cases other with
      | none =>
        rcases List.mem_append.mp member with old | new
        · exact .inl old
        · exact .inr (List.mem_singleton.mp new)
      | some rid => exact .inl member
    | some rid =>
      cases other with
      | none => exact .inl member
      | some rid' =>
        dsimp only [Planning.columnsAt] at member ⊢
        rw [Planning.find?_amend rid rid' (by intro r; rfl)] at member
        cases found : plan.repeats.find? fun r => decide (r.repeatId = rid') with
        | none =>
          simp only [found] at member
          cases member
        | some r =>
          simp only [found, Option.map_some, Option.getD_some] at member ⊢
          split at member
          · rcases List.mem_append.mp member with old | new
            · exact .inl old
            · exact .inr (List.mem_singleton.mp new)
          · exact .inl member

theorem congr (bare : plan.Bare) {plan' : Planning} (columns : ∀ place, plan'.columnsAt place = plan.columnsAt place) :
    plan'.Bare := by
  intro place c member
  rw [columns] at member
  exact bare place c member

theorem addColumn (bare : plan.Bare) (place : Option String) {column : Column}
    (fits : column.own = true → column.fieldId = some column.name) : (plan.addColumn place column).Bare := by
  intro other c member own
  rcases mem_emit member with old | rfl
  · rw [Planning.columnsAt_take] at old
    exact bare other c old own
  · have given : column.own = true := own
    rw [fits given]
    dsimp only
    rw [if_pos (by simpa [Column.own] using given)]

theorem addColumns {place : Option String} (added : List Column)
    (fits : ∀ c ∈ added, c.own = true → c.fieldId = some c.name) :
    ∀ {plan : Planning}, plan.Bare → (added.foldl (fun plan column => plan.addColumn place column) plan).Bare := by
  induction added with
  | nil => exact fun bare => bare
  | cons column rest ih =>
    intro plan bare
    exact ih (fun c member => fits c (List.mem_cons_of_mem _ member)) (bare.addColumn place (fits column List.mem_cons_self))

theorem openRepeat (bare : plan.Bare) (reserved : List String) (rid : String) (version : ℕ) :
    (plan.openRepeat reserved rid version).Bare := by
  have again {opened : Planning} (bare : opened.Bare) :
      (opened.amend rid fun r => { r with versions := r.versions ++ [version] }).Bare :=
    bare.congr (Planning.columnsAt_amend rid (by intro r; exact ⟨rfl, rfl⟩))
  unfold Planning.openRepeat
  dsimp only
  split
  · exact again bare
  · exact again (bare.congr (Planning.columnsAt_opened rid reserved))

theorem addField (bare : plan.Bare) (reserved : List String) (entry : FormVersion × CompiledField) :
    (plan.addField reserved language entry).Bare := by
  obtain ⟨v, cf⟩ := entry
  have fits : ∀ c ∈ contributed language (v, cf), c.own = true → c.fieldId = some c.name := by
    intro c member own
    rw [own_name member own]
    exact (mem_columnsFor member).1
  have opens : (plan.opened reserved cf.repeatId v.version).Bare := by
    cases cf.repeatId with
    | none => exact bare
    | some rid => exact bare.openRepeat reserved rid v.version
  unfold Planning.addField
  dsimp only
  cases cf.choiceQuery with
  | none => exact addColumns _ fits opens
  | some query => exact addColumns _ fits (opens.congr (by intro place; cases place <;> rfl))

theorem addCount (bare : plan.Bare) (r : RepeatColumns) : (plan.addCount r).Bare := by
  intro other c member own
  rcases mem_emit member with old | rfl
  · rw [Planning.columnsAt_take] at old
    exact bare other c old own
  · cases own

end Planning.Bare

theorem counted_bare : Planning.Bare ((planned forms language).repeats.foldl Planning.addCount (planned forms language)) := by
  have fields (entries : List (FormVersion × CompiledField)) : ∀ {plan : Planning}, plan.Bare →
      (entries.foldl (Planning.addField (reservedNames forms) language) plan).Bare := by
    induction entries with
    | nil => exact fun bare => bare
    | cons entry rest ih => exact fun bare => ih (bare.addField language _ entry)
  have counts (repeats : List RepeatColumns) : ∀ {plan : Planning}, plan.Bare → (repeats.foldl Planning.addCount plan).Bare := by
    induction repeats with
    | nil => exact fun bare => bare
    | cons r rest ih => exact fun bare => ih (bare.addCount r)
  refine counts _ (fields (planFields forms) ?_)
  intro place c member
  cases place <;> cases member

variable {forms} {language}

theorem claimMeta_fresh {place : Option String} {taken : List String} {titles : List (String × String)} :
    ((claimMeta place taken titles).map (·.name)).Nodup ∧ ∀ c ∈ claimMeta place taken titles, c.name ∉ taken := by
  induction titles generalizing taken with
  | nil => exact ⟨List.nodup_nil, fun c member => nomatch member⟩
  | cons title rest ih =>
    obtain ⟨name, title⟩ := title
    obtain ⟨distinct, free⟩ := @ih (taken ++ [claim taken name])
    refine ⟨List.nodup_cons.mpr ⟨fun listed => ?_, distinct⟩, fun c member => ?_⟩
    · obtain ⟨c, member, same⟩ := List.mem_map.mp listed
      exact free c member (same ▸ List.mem_append_right _ List.mem_cons_self)
    · rcases List.mem_cons.mp member with rfl | later
      · exact claim_fresh taken name
      · exact fun inside => free c later (List.mem_append_left _ inside)

theorem nodup_with_meta {entries : List (FormVersion × CompiledField)} {reserved : List String} {plan : Planning}
    (named : Named language entries reserved plan) {place : Option String} (opened : plan.Open place)
    (titles : List (String × String)) :
    ((claimMeta place (plan.namesAt place) titles ++ plan.finalise (plan.columnsAt place)).map (·.name)).Nodup := by
  have same : (plan.finalise (plan.columnsAt place)).map (·.name) = (plan.columnsAt place).map (·.name) := by
    rw [Planning.finalise, List.map_map]
    rfl
  rw [List.map_append, same]
  refine List.nodup_append.mpr ⟨claimMeta_fresh.1, named.distinct place, ?_⟩
  intro a left b right equal
  subst equal
  obtain ⟨key, member, rfl⟩ := List.mem_map.mp left
  obtain ⟨c, inside, name⟩ := List.mem_map.mp right
  refine claimMeta_fresh.2 key member ?_
  rw [← name]
  rcases named.columns place c inside with ⟨-, -, listed, -⟩ | ⟨-, taken⟩
  · exact named.reserves place opened listed
  · exact taken

def titlesAt : Option String → List (String × String)
  | none => metaColumns
  | some _ => repeatKeyColumns

def counted (forms : List FormVersion) (language : Option String) : Planning :=
  (planned forms language).repeats.foldl Planning.addCount (planned forms language)

theorem counted_repeats : (counted forms language).repeats = (planned forms language).repeats := (foldl_addCount _ _).1

theorem columnsAt_buildPlan {place : Option String} (opened : (counted forms language).Open place) :
    (buildPlan forms language).columnsAt place =
      claimMeta place ((counted forms language).namesAt place) (titlesAt place) ++
        (counted forms language).finalise ((counted forms language).columnsAt place) := by
  cases place with
  | none => rfl
  | some rid =>
    obtain ⟨r, found⟩ := Planning.find?_isSome_of_open (opened rid rfl)
    have named : r.repeatId = rid := by simpa using List.find?_some found
    have found' := found
    rw [counted_repeats] at found'
    rw [columnsAt_buildPlan_some, found']
    dsimp only [Planning.namesAt, Planning.columnsAt]
    rw [found]
    simp only [Option.map_some, Option.getD_some, named]
    rfl

theorem open_of_mem {place : Option String} {c : Column} (member : c ∈ (buildPlan forms language).columnsAt place) :
    (counted forms language).Open place := by
  intro rid at_
  subst at_
  rw [columnsAt_buildPlan_some] at member
  rw [counted_repeats]
  cases found : (planned forms language).repeats.find? fun r => decide (r.repeatId = rid) with
  | none =>
    rw [found] at member
    cases member
  | some r =>
    refine List.mem_map.mpr ⟨r, List.mem_of_find?_eq_some found, ?_⟩
    simpa using List.find?_some found

theorem names_nodup (forms : List FormVersion) (language place : Option String) :
    (((buildPlan forms language).columnsAt place).map (·.name)).Nodup := by
  cases columns : (buildPlan forms language).columnsAt place with
  | nil => exact List.nodup_nil
  | cons c rest =>
    have opened := open_of_mem (columns ▸ List.mem_cons_self : c ∈ (buildPlan forms language).columnsAt place)
    rw [← columns, columnsAt_buildPlan opened]
    exact nodup_with_meta (counted_named forms language) opened _

theorem bare_name {place : Option String} {c : Column} (member : c ∈ (buildPlan forms language).columnsAt place)
    (field : c.source = .field) (whole : c.component = none) : c.fieldId = some c.name := by
  have own : c.own = true := by simp [Column.own, field, whole]
  rw [columnsAt_buildPlan (open_of_mem member)] at member
  rcases List.mem_append.mp member with key | value
  · rw [(mem_claimMeta key).1] at field
    cases field
  · obtain ⟨c', listed, rfl⟩ := List.mem_map.mp value
    exact counted_bare forms language place c' listed own

end Finished

end DataCollectionLab.Export
