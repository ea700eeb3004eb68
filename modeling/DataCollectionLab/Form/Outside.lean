import DataCollectionLab.Form.Runtime
import DataCollectionLab.Form.RepeatState
import Mathlib.Data.List.TakeWhile

/-!
Expressions that come to the same in a row of a repeat and outside it: of names that are read from the form and
not from the row.
-/

namespace DataCollectionLab.Form

open Lib

section Expressions

theorem expr_induction {P : Expr → Prop} (lit : ∀ value, P (.lit value)) (ref : ∀ path, P (.ref path))
    (op : ∀ name args, (∀ arg ∈ args, P arg) → P (.op name args))
    (call : ∀ fn args, (∀ arg ∈ args, P arg) → P (.call fn args)) : ∀ expr, P expr
  | .lit value => lit value
  | .ref path => ref path
  | .op name args => op name args fun arg _ => expr_induction lit ref op call arg
  | .call fn args => call fn args fun arg _ => expr_induction lit ref op call arg

theorem paths_subset_pathsAll {args : List Expr} {arg : Expr} (member : arg ∈ args) : paths arg ⊆ pathsAll args := by
  induction args with
  | nil => cases member
  | cons first rest ih =>
    rw [pathsAll]
    rcases List.mem_cons.mp member with rfl | later
    · exact List.subset_append_left _ _
    · exact List.Subset.trans (ih later) (List.subset_append_right _ _)

namespace Reference

variable {functions : Context → String → Except Failure (List Value → Except Failure Value)}
  {resolve : Context → String → Except Failure Value} {ctx ctx' : Context}

section Arguments

variable {args : List Expr}
  (each : ∀ arg ∈ args, evaluate functions resolve ctx arg = evaluate functions resolve ctx' arg)

include each

theorem evaluateAll_congr : evaluateAll functions resolve ctx args = evaluateAll functions resolve ctx' args := by
  induction args with
  | nil => rfl
  | cons arg rest ih =>
    rw [evaluateAll, evaluateAll, each arg List.mem_cons_self,
      ih fun arg member => each arg (List.mem_cons_of_mem _ member)]

theorem evaluateFirst_congr : evaluateFirst functions resolve ctx args = evaluateFirst functions resolve ctx' args := by
  cases args with
  | nil => rfl
  | cons arg _ => exact each arg List.mem_cons_self

theorem evaluatePair_congr : evaluatePair functions resolve ctx args = evaluatePair functions resolve ctx' args := by
  match args with
  | [] => rfl
  | [arg] => rw [evaluatePair, evaluatePair, each arg List.mem_cons_self]
  | a :: b :: _ => rw [evaluatePair, evaluatePair, each a (by simp), each b (by simp)]

theorem evaluateIf_congr : evaluateIf functions resolve ctx args = evaluateIf functions resolve ctx' args := by
  match args with
  | [] => rfl
  | [cond] => rw [evaluateIf, evaluateIf, each cond (by simp)]
  | [cond, yes] => rw [evaluateIf, evaluateIf, each cond (by simp), each yes (by simp)]
  | cond :: yes :: no :: _ =>
    rw [evaluateIf, evaluateIf, each cond (by simp), each yes (by simp), each no (by simp)]

end Arguments

theorem evaluate_congr (called : functions ctx = functions ctx') (expr : Expr) :
    (∀ path ∈ paths expr, resolve ctx path = resolve ctx' path) →
      evaluate functions resolve ctx expr = evaluate functions resolve ctx' expr := by
  induction expr using expr_induction with
  | lit value => exact fun _ => rfl
  | ref path =>
    intro resolved
    rw [evaluate, evaluate]
    exact resolved path (List.mem_singleton_self _)
  | op name args ih =>
    intro resolved
    have each : ∀ arg ∈ args, evaluate functions resolve ctx arg = evaluate functions resolve ctx' arg :=
      fun arg member => ih arg member fun path read => resolved path (paths_subset_pathsAll member read)
    rw [evaluate, evaluate, evaluateIf_congr each, evaluateAll_congr each, evaluateFirst_congr each,
      evaluatePair_congr each]
  | call fn args ih =>
    intro resolved
    have each : ∀ arg ∈ args, evaluate functions resolve ctx arg = evaluate functions resolve ctx' arg :=
      fun arg member => ih arg member fun path read => resolved path (paths_subset_pathsAll member read)
    rw [evaluate, evaluate, called, evaluateAll_congr each]

end Reference

end Expressions

section Names

theorem cutAt_eq {mark cs : List Char} {cut : List Char × List Char} (found : cutAt mark cs = some cut) :
    cs = cut.1 ++ mark ++ cut.2 := by
  induction cs generalizing cut with
  | nil => cases found
  | cons c rest ih =>
    unfold cutAt at found
    split at found
    · rename_i starts
      obtain rfl := Option.some.inj found
      obtain ⟨tail, same⟩ := List.isPrefixOf_iff_prefix.mp starts
      rw [← same, List.drop_left, List.nil_append]
    · obtain ⟨later, cut, rfl⟩ := Option.map_eq_some_iff.mp found
      rw [ih cut, List.cons_append, List.cons_append]

theorem cutAt_append {first : Char} {mark front : List Char} (absent : first ∉ front) (cs : List Char) :
    cutAt (first :: mark) (front ++ cs) = (cutAt (first :: mark) cs).map fun cut => (front ++ cut.1, cut.2) := by
  induction front with
  | nil => simp
  | cons c rest ih =>
    have other : first ≠ c := fun same => absent (same ▸ List.mem_cons_self)
    rw [List.cons_append, cutAt, List.isPrefixOf_cons₂, beq_false_of_ne other, Bool.false_and,
      if_neg Bool.false_ne_true, ih fun member => absent (List.mem_cons_of_mem _ member), Option.map_map]
    rfl

theorem cutAt_here {first : Char} {mark front rest : List Char} (absent : first ∉ front) :
    cutAt (first :: mark) (front ++ (first :: mark ++ rest)) = some (front, rest) := by
  have here : cutAt (first :: mark) (first :: mark ++ rest) = some ([], rest) := by
    rw [List.cons_append, cutAt, if_pos (by simp), ← List.cons_append, List.drop_left]
  rw [cutAt_append absent, here, Option.map_some, List.append_nil]

theorem base_plain {id : String} (plain : Plain id) : base id = id := by
  have bracket : id.toList.takeWhile (· ≠ '[') = id.toList :=
    List.takeWhile_eq_self_iff.mpr fun c member => decide_eq_true (plain c member).1
  have point : id.toList.takeWhile (· ≠ '.') = id.toList :=
    List.takeWhile_eq_self_iff.mpr fun c member => decide_eq_true (plain c member).2.2
  rw [base, bracket, point, String.ofList_toList]

theorem base_marks (dep : String) : '[' ∉ (base dep).toList ∧ '.' ∉ (base dep).toList := by
  rw [base, String.toList_ofList]
  constructor
  · intro member
    have within := List.mem_takeWhile_imp ((List.takeWhile_sublist _).subset member)
    exact absurd rfl (of_decide_eq_true within)
  · intro member
    have within := List.mem_takeWhile_imp member
    exact absurd rfl (of_decide_eq_true within)

variable (form : CompiledForm)

/-- A name that comes to the same in a row and outside it: of a field outside the repeats, or of a field of all
the rows of a repeat or of one at a position. -/
def Outside (path : String) : Prop :=
  match rowPath path with
  | some _ => True
  | none =>
    if metadataPrefix.isPrefixOf path.toList then True
    else
      match cutAt "[].".toList path.toList with
      | some (_, suffix) => Plain (String.ofList suffix)
      | none =>
        match cutAt "[".toList path.toList, cutAt "].".toList path.toList with
        | some (_, rest), some _ =>
          match cutAt "].".toList rest with
          | none => True
          | some (index, suffix) => index ≠ ['.'] ∧ Plain (String.ofList suffix)
        | _, _ => ∃ cf ∈ form.fields, cf.fieldId = path ∧ cf.repeatId = none

structure Owned (s : FormInstance) : Prop where
  rows : ∀ rid, ∀ iid ∈ s.rows rid, ∃ node ∈ form.repeats, node.id = rid
  values : ∀ path, (s.values path).isSome → Keyed form s path
  states : ∀ path, (s.states path).isSome → Keyed form s path

def Agrees (s s' : FormInstance) (fid : String) : Prop :=
  s'.values fid = s.values fid ∧
    ∀ rid, ∀ iid ∈ s.rows rid, s'.values (instancePath rid iid fid) = s.values (instancePath rid iid fid)

variable {form} {s s' : FormInstance}

theorem resolveBare_outside (formed : Formed form) (owned : Owned form s) (session : Session)
    {scope : Option (String × String)} (placed : ∀ rid iid, scope = some (rid, iid) → ∃ node ∈ form.repeats, node.id = rid)
    {cf : CompiledField} (member : cf ∈ form.fields) (top : cf.repeatId = none) (agrees : Agrees s s' cf.fieldId) :
    Reference.resolveBare (s.context session scope) cf.fieldId =
      Reference.resolveBare (s'.context session none) cf.fieldId := by
  have nowhere (rid iid : String) (same : scope = some (rid, iid)) :
      s.values (instancePath rid iid cf.fieldId) = none := by
    by_contra given
    obtain ⟨node, listed, rfl⟩ := placed rid iid same
    rcases owned.values _ (Option.isSome_iff_ne_none.mpr given) with ⟨cf', member', -, path⟩ |
      ⟨cf', member', rid', inside, iid', within, path⟩
    · exact instancePath_ne (formed.plain cf' member') path
    · obtain ⟨node', listed', rfl⟩ := formed.within cf' member' rid' inside
      obtain ⟨-, -, id⟩ := instancePath_injective (formed.plainRepeats node listed) (formed.plain cf member)
        (formed.plainRepeats node' listed') (formed.plain cf' member') path
      obtain rfl := List.inj_on_of_nodup_map formed.distinct member member' id
      rw [top] at inside
      cases inside
  have row : (scope.bind fun scope => s.values (instancePath scope.1 scope.2 cf.fieldId)) = none := by
    cases scope with
    | none => rfl
    | some scope => exact nowhere scope.1 scope.2 rfl
  unfold Reference.resolveBare
  dsimp only [FormInstance.context]
  rw [row, agrees.1]
  rfl

theorem resolve_outside (formed : Formed form) (owned : Owned form s) (rows : s'.instances = s.instances)
    (session : Session) {scope : Option (String × String)}
    (placed : ∀ rid iid, scope = some (rid, iid) → ∃ node ∈ form.repeats, node.id = rid)
    {path : String} (outside : Outside form path)
    (agrees : ∀ dep, dependency path = some dep → Agrees s s' (base dep)) :
    Reference.resolve (s.context session scope) path = Reference.resolve (s'.context session none) path := by
  unfold Outside at outside
  unfold Reference.resolve
  cases column : rowPath path with
  | some column => rfl
  | none =>
    rw [column] at outside
    dsimp only at outside ⊢
    by_cases metadata : metadataPrefix.isPrefixOf path.toList = true
    · rw [if_pos metadata, if_pos metadata]
      rfl
    rw [if_neg metadata] at outside ⊢
    rw [if_neg metadata]
    have reads {front suffix : List Char} (cut : cutAt "].".toList path.toList = some (front, suffix))
        (plain : Plain (String.ofList suffix)) : Agrees s s' (String.ofList suffix) := by
      have dep : dependency path = some (String.ofList suffix) := by
        rw [dependency, if_neg (by simp [column, metadata]), cut]
      exact base_plain plain ▸ agrees _ dep
    -- A repeat that has a row is plain: the name is cut where its dependency is.
    have plainly {rid : List Char} {iid : String} (within : iid ∈ s.rows (String.ofList rid)) : ']' ∉ rid := by
      obtain ⟨node, listed, same⟩ := owned.rows _ iid within
      have plain := formed.plainRepeats node listed
      rw [same] at plain
      exact fun member => (plain ']' (by rwa [String.toList_ofList])).2.1 rfl
    cases every : cutAt "[].".toList path.toList with
    | some cut =>
      obtain ⟨rid, suffix⟩ := cut
      rw [every] at outside
      dsimp only at outside ⊢
      dsimp only [FormInstance.context]
      rw [rows]
      refine congrArg (fun items => Except.ok (Value.sequence items)) (List.map_congr_left fun iid within => ?_)
      have cut : cutAt "].".toList path.toList = some (rid ++ "[".toList, suffix) := by
        have apart : ']' ∉ rid ++ "[".toList := by
          simpa using plainly within
        have chars : path.toList = (rid ++ "[".toList) ++ ("].".toList ++ suffix) := by
          rw [cutAt_eq every]
          simp
        rw [chars]
        exact cutAt_here apart
      exact congrArg (·.getD Value.null) ((reads cut outside).2 _ iid within).symm
    | none =>
      rw [every] at outside
      dsimp only at outside ⊢
      have bare (top : ∃ cf ∈ form.fields, cf.fieldId = path ∧ cf.repeatId = none) :
          Reference.resolveBare (s.context session scope) path =
            Reference.resolveBare (s'.context session none) path := by
        obtain ⟨cf, member, rfl, top⟩ := top
        have plain := formed.plain cf member
        have uncut : cutAt "].".toList cf.fieldId.toList = none := by
          by_contra found
          obtain ⟨cut, found⟩ := Option.ne_none_iff_exists'.mp found
          refine (plain ']' ?_).2.1 rfl
          rw [cutAt_eq found]
          simp
        have dep : dependency cf.fieldId = some cf.fieldId := by
          rw [dependency, if_neg (by simp [column, metadata]), uncut]
        exact resolveBare_outside formed owned session placed member top (base_plain plain ▸ agrees _ dep)
      cases open_ : cutAt "[".toList path.toList with
      | none => exact bare (by rw [open_] at outside; exact outside)
      | some first =>
        obtain ⟨rid, rest⟩ := first
        cases closed : cutAt "].".toList path.toList with
        | none => exact bare (by rw [open_, closed] at outside; exact outside)
        | some whole =>
          rw [open_, closed] at outside
          dsimp only at outside ⊢
          cases inner : cutAt "].".toList rest with
          | none => rfl
          | some cut =>
            obtain ⟨index, suffix⟩ := cut
            rw [inner] at outside
            dsimp only at outside ⊢
            unfold Reference.resolveIndexed
            rw [if_neg outside.1, if_neg outside.1]
            split
            · rfl
            rename_i position isNumber
            dsimp only [FormInstance.context]
            rw [rows]
            by_cases negative : position < 0
            · rw [if_pos negative, if_pos negative]
            rw [if_neg negative, if_neg negative]
            cases held : ((s.instances (String.ofList rid)).getD [])[position.toNat]? with
            | none => rfl
            | some iid =>
              have within : iid ∈ s.rows (String.ofList rid) := List.mem_of_getElem? held
              have cut : cutAt "].".toList path.toList = some (rid ++ "[".toList ++ index, suffix) := by
                have apart : ']' ∉ rid ++ "[".toList := by
                  simpa using plainly within
                have chars : path.toList = (rid ++ "[".toList) ++ rest := cutAt_eq open_
                rw [chars]
                exact (@cutAt_append ']' ['.'] _ apart rest).trans (congrArg (Option.map _) inner)
              exact congrArg Except.ok (congrArg (·.getD Value.null) ((reads cut outside.2).2 _ iid within).symm)

end Names

section Relevance

variable (form : CompiledForm)

def chainOf (rid : String) : List String := (form.container? rid).elim [] fun container => container.ancestors ++ [rid]

def relevances (chain : List String) : List Expr :=
  chain.filterMap fun cid => (form.container? cid).bind Container.relevant

def Independent : Prop :=
  ∀ node ∈ form.repeats, ∀ expr ∈ relevances form (chainOf form node.id), ∀ path ∈ paths expr, Outside form path

variable {form} {evaluate : Context → Expr → Except Failure Value} {ctx ctx' : Context}

theorem containerRelevant_eq (session : Session) (s : FormInstance) (rid : String) :
    containerRelevant evaluate form session s rid =
      chainRelevant evaluate form (s.context session none) (chainOf form rid) := by
  rw [containerRelevant, chainOf]
  cases form.container? rid <;> rfl

theorem relevances_cons (cid : String) (rest : List String) : relevances form (cid :: rest) =
    ((form.container? cid).bind Container.relevant).toList ++ relevances form rest := by
  cases given : (form.container? cid).bind Container.relevant <;> simp [relevances, given]

theorem chainRelevant_congr {chain : List String}
    (same : ∀ expr ∈ relevances form chain, evaluate ctx expr = evaluate ctx' expr) :
    chainRelevant evaluate form ctx chain = chainRelevant evaluate form ctx' chain := by
  induction chain with
  | nil => rfl
  | cons cid rest ih =>
    unfold chainRelevant
    rw [relevances_cons] at same
    cases given : (form.container? cid).bind Container.relevant with
    | none =>
      rw [given] at same
      exact ih same
    | some expr =>
      rw [given] at same
      dsimp only
      rw [decideAt, decideAt, same expr List.mem_cons_self,
        ih fun expr member => same expr (List.mem_cons_of_mem _ member)]

theorem chainRelevant_append {chain more : List String}
    (relevant : chainRelevant evaluate form ctx (chain ++ more) = .ok true) :
    chainRelevant evaluate form ctx chain = .ok true := by
  induction chain with
  | nil => rfl
  | cons cid rest ih =>
    rw [List.cons_append] at relevant
    unfold chainRelevant at relevant ⊢
    cases given : (form.container? cid).bind Container.relevant with
    | none =>
      rw [given] at relevant
      exact ih relevant
    | some expr =>
      rw [given] at relevant
      dsimp only at relevant ⊢
      obtain ⟨holds, decided, relevant⟩ := bind_ok_iff.mp relevant
      rw [decided]
      cases holds with
      | true => exact ih relevant
      | false => cases relevant

theorem chainRelevant_of_field {cf : CompiledField} (relevant : fieldRelevant evaluate form ctx cf = .ok true) :
    chainRelevant evaluate form ctx cf.ancestors = .ok true := by
  obtain ⟨holds, chain, relevant⟩ := bind_ok_iff.mp relevant
  cases holds with
  | true => exact chain
  | false => cases relevant

variable (lib : Library) {s s' : FormInstance}

theorem chainRelevant_outside (formed : Formed form) (independent : Independent form) (owned : Owned form s)
    (rows : s'.instances = s.instances) (session : Session) {scope : Option (String × String)}
    (placed : ∀ rid iid, scope = some (rid, iid) → ∃ node ∈ form.repeats, node.id = rid) {node : Repeat}
    (listed : node ∈ form.repeats)
    (agrees : ∀ expr ∈ relevances form (chainOf form node.id), ∀ dep ∈ collectRefs expr, Agrees s s' (base dep)) :
    chainRelevant (Reference.evaluate (Reference.call lib) Reference.resolve) form (s.context session scope)
        (chainOf form node.id) =
      containerRelevant (Reference.evaluate (Reference.call lib) Reference.resolve) form session s' node.id := by
  rw [containerRelevant_eq]
  refine chainRelevant_congr fun expr member => Reference.evaluate_congr ?_ expr fun path read => ?_
  · rfl
  · refine resolve_outside formed owned rows session placed (independent node listed expr member path read) ?_
    exact fun dep names => agrees expr member dep (List.mem_filterMap.mpr ⟨path, read, names⟩)

end Relevance

end DataCollectionLab.Form
