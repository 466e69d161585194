import Mathlib.Data.List.Induction
import EntityScript.Proofs.Selections
import EntityScript.Run.Generate
/-!
# Registered pivots

A call of `register` fails or succeeds by the schema alone, and one that fails changes nothing. So what a
registry holds after calls is a function of those that succeeded.
-/

namespace EntityScript

/-! ## Calls -/

/-- A call that registers the use of a join table by a relation. -/
structure PivotCall where
  relation : String
  pivot : PivotSource
  deriving Repr, DecidableEq

/-- The columns that calls list for a table. -/
def listedColumns (calls : List PivotCall) (table : String) : List String :=
  (calls.filter (·.pivot.table == table)).flatMap (·.pivot.columns)

theorem mem_listedColumns {calls : List PivotCall} {table column : String} :
    column ∈ listedColumns calls table ↔ ∃ c ∈ calls, c.pivot.table = table ∧ column ∈ c.pivot.columns := by
  simp [listedColumns, and_assoc]

theorem listedColumns_concat (calls : List PivotCall) (c : PivotCall) (table : String) :
    listedColumns (calls ++ [c]) table =
      listedColumns calls table ++ if c.pivot.table = table then c.pivot.columns else [] := by
  by_cases h : c.pivot.table = table <;> simp [listedColumns, h]

/-- The interface of a table after calls that succeeded. -/
def interfaceAfter (schema : Option Schema) (calls : List PivotCall) (table : String) : PivotInterface :=
  let t := (schema.bind (·.table? table)).getD { columns := [] }
  let listed := listedColumns calls table
  { table
    columns := t.columns
    included := if listed.isEmpty then t.shownNames else listed
    isExplicit := !listed.isEmpty }

/-- What calls that succeeded leave in a registry. -/
def registryAfter (schema : Option Schema) (calls : List PivotCall) : PivotRegistry :=
  { schema, interfaces := (Text.distinct (calls.map (·.pivot.table))).map (interfaceAfter schema calls) }

namespace PivotRegistry

/-- The registry after a call, and whether it failed. -/
def attempt (r : PivotRegistry) (c : PivotCall) : PivotRegistry × Except BuildError Unit :=
  match r.register c.relation c.pivot with
  | .ok r => (r, .ok ())
  | .error e => (r, .error e)

/-- The registry after calls in turn, whether they fail or not. -/
def attemptAll (r : PivotRegistry) (calls : List PivotCall) : PivotRegistry :=
  calls.foldl (fun r c => (r.attempt c).1) r

/-- Whether a call succeeds. -/
def accepts (schema : Option Schema) (c : PivotCall) : Bool :=
  (({ schema } : PivotRegistry).attempt c).2.isOk

theorem attempt_of_ok {r : PivotRegistry} {c : PivotCall} {s : PivotSelection}
    (h : r.select c.relation c.pivot = .ok s) : r.attempt c = (r.includeSelection c.pivot.table s, .ok ()) := by
  simp [attempt, register, h, Except.map]

theorem attempt_of_error {r : PivotRegistry} {c : PivotCall} {e : BuildError}
    (h : r.select c.relation c.pivot = .error e) : r.attempt c = (r, .error e) := by
  simp [attempt, register, h, Except.map]

/-- How a call ends depends on the schema alone. -/
theorem attempt_outcome (r : PivotRegistry) (c : PivotCall) :
    (r.attempt c).2 = (({ schema := r.schema } : PivotRegistry).attempt c).2 := by
  have hselect : ({ schema := r.schema } : PivotRegistry).select c.relation c.pivot =
      r.select c.relation c.pivot := rfl
  cases h : r.select c.relation c.pivot with
  | ok s => rw [attempt_of_ok h, attempt_of_ok (hselect.trans h)]
  | error e => rw [attempt_of_error h, attempt_of_error (hselect.trans h)]

theorem attempt_of_not_accepts {r : PivotRegistry} {c : PivotCall} (h : accepts r.schema c = false) :
    (r.attempt c).1 = r := by
  cases hs : r.select c.relation c.pivot with
  | ok s =>
    rw [accepts, ← attempt_outcome, attempt_of_ok hs] at h
    cases h
  | error e => rw [attempt_of_error hs]

theorem accepts_iff {r : PivotRegistry} {c : PivotCall} :
    accepts r.schema c = true ↔ ∃ s, r.select c.relation c.pivot = .ok s := by
  rw [accepts, ← attempt_outcome]
  cases h : r.select c.relation c.pivot with
  | ok s => simp [attempt_of_ok h, Except.isOk, Except.toBool]
  | error e => simp [attempt_of_error h, Except.isOk, Except.toBool]

theorem accepts_iff_attempt {r : PivotRegistry} {c : PivotCall} :
    accepts r.schema c = true ↔ (r.attempt c).2 = .ok () := by
  rw [attempt_outcome, accepts]
  cases (({ schema := r.schema } : PivotRegistry).attempt c).2 <;> simp [Except.isOk, Except.toBool]

end PivotRegistry

/-! ## One more call -/

section Concat

variable {schema : Option Schema} {calls : List PivotCall} {c : PivotCall} {s : PivotSelection} {t : TableSchema}

theorem interfaceAfter_concat_of_ne {table : String} (h : c.pivot.table ≠ table) :
    interfaceAfter schema (calls ++ [c]) table = interfaceAfter schema calls table := by
  simp [interfaceAfter, listedColumns_concat, h]

/-- A table that was registered takes in what one more call selects. -/
theorem includeColumns_interfaceAfter (ht : schema.bind (·.table? c.pivot.table) = some t) (hs : s.Selects c.pivot t) :
    (interfaceAfter schema calls c.pivot.table).includeColumns (s.selected.map (·.name)) s.isExplicit =
      interfaceAfter schema (calls ++ [c]) c.pivot.table := by
  rw [hs.names, hs.isExplicit, PivotSource.selectedNames]
  by_cases hc : c.pivot.columns = [] <;> by_cases hl : listedColumns calls c.pivot.table = [] <;>
    simp [interfaceAfter, PivotInterface.includeColumns, listedColumns_concat, ht, hc, hl]

/-- A table that was not registered shows what the call selects. -/
theorem includeColumns_fresh (ht : schema.bind (·.table? c.pivot.table) = some t) (hs : s.Selects c.pivot t)
    (hl : listedColumns calls c.pivot.table = []) :
    ({ table := c.pivot.table, columns := s.columns } : PivotInterface).includeColumns
      (s.selected.map (·.name)) s.isExplicit = interfaceAfter schema (calls ++ [c]) c.pivot.table := by
  rw [hs.names, hs.isExplicit, hs.columns, PivotSource.selectedNames]
  by_cases hc : c.pivot.columns = [] <;>
    simp [interfaceAfter, PivotInterface.includeColumns, listedColumns_concat, ht, hc, hl]

theorem includeSelection_registryAfter (ht : schema.bind (·.table? c.pivot.table) = some t)
    (hs : s.Selects c.pivot t) :
    (registryAfter schema calls).includeSelection c.pivot.table s = registryAfter schema (calls ++ [c]) := by
  have hany : (registryAfter schema calls).interfaces.any (·.table == c.pivot.table) =
      decide (c.pivot.table ∈ calls.map (·.pivot.table)) := by
    rw [Bool.eq_iff_iff]
    simp [registryAfter, interfaceAfter]
  unfold PivotRegistry.includeSelection
  rw [hany]
  by_cases hm : c.pivot.table ∈ calls.map (·.pivot.table)
  · have hstep : ∀ table, (if table == c.pivot.table then
        (interfaceAfter schema calls table).includeColumns (s.selected.map (·.name)) s.isExplicit
        else interfaceAfter schema calls table) = interfaceAfter schema (calls ++ [c]) table := by
      intro table
      by_cases htable : table = c.pivot.table
      · subst htable
        simpa using includeColumns_interfaceAfter ht hs
      · simpa [htable] using (interfaceAfter_concat_of_ne (Ne.symm htable)).symm
    simp only [hm, decide_true, if_true, registryAfter, List.map_append, List.map_cons, List.map_nil,
      Text.distinct_concat, List.map_map]
    congr 1
    exact List.map_congr_left fun table _ => hstep table
  · have hl : listedColumns calls c.pivot.table = [] := by
      rw [List.eq_nil_iff_forall_not_mem]
      intro column hcolumn
      obtain ⟨c', hc', htable, -⟩ := mem_listedColumns.1 hcolumn
      exact hm (htable ▸ List.mem_map_of_mem hc')
    have hold : ∀ table ∈ Text.distinct (calls.map (·.pivot.table)),
        interfaceAfter schema (calls ++ [c]) table = interfaceAfter schema calls table := by
      intro table htable
      refine interfaceAfter_concat_of_ne ?_
      rintro rfl
      exact hm (Text.mem_distinct.1 htable)
    simp only [hm, decide_false, Bool.false_eq_true, if_false, registryAfter, List.map_append, List.map_cons,
      List.map_nil, Text.distinct_concat, includeColumns_fresh ht hs hl, List.map_congr_left hold]

end Concat

namespace PivotRegistry

variable {schema : Option Schema} {calls : List PivotCall} {table : String}

/-- What calls leave in a registry is a function of those that succeeded. -/
theorem attemptAll_eq (schema : Option Schema) (calls : List PivotCall) :
    attemptAll { schema } calls = registryAfter schema (calls.filter (accepts schema)) := by
  induction calls using List.reverseRecOn with
  | nil => rfl
  | append_singleton calls c ih =>
    have hstep : attemptAll { schema } (calls ++ [c]) = ((attemptAll { schema } calls).attempt c).1 := by
      simp [attemptAll]
    rw [hstep, ih, List.filter_append]
    generalize calls.filter (accepts schema) = done
    by_cases hc : accepts schema c = true
    · obtain ⟨s, hs⟩ := accepts_iff (r := registryAfter schema done).1 hc
      obtain ⟨t, ht, hsel⟩ := select_spec hs
      have hincluded : (registryAfter schema done).includeSelection c.pivot.table s =
          registryAfter schema (done ++ [c]) := includeSelection_registryAfter ht hsel
      simp [attempt_of_ok hs, hincluded, hc]
    · rw [attempt_of_not_accepts (by simpa [registryAfter] using hc)]
      simp [hc]

theorem get?_registryAfter : (registryAfter schema calls).get? table =
    if table ∈ calls.map (·.pivot.table) then some (interfaceAfter schema calls table) else none := by
  have hfind : (Text.distinct (calls.map (·.pivot.table))).find? (· == table) =
      if table ∈ calls.map (·.pivot.table) then some table else none := by
    split
    · rename_i hm
      cases hf : (Text.distinct (calls.map (·.pivot.table))).find? (· == table) with
      | none => exact absurd (List.find?_eq_none.1 hf table (Text.mem_distinct.2 hm)) (by simp)
      | some found => simpa using List.find?_some hf
    · rename_i hm
      rw [List.find?_eq_none]
      rintro other ho heq
      exact hm (by simpa [beq_iff_eq.1 heq] using Text.mem_distinct.1 ho)
  rw [get?, registryAfter, List.find?_map]
  have hcomp : ((fun p : PivotInterface => p.table == table) ∘ interfaceAfter schema calls) = (· == table) := rfl
  rw [hcomp, hfind]
  split <;> rfl

end PivotRegistry

/-! ## Models -/

/-- The call that registers a relation, if it shows a join table. -/
def RelationSource.call? (rel : RelationSource) : Option PivotCall :=
  rel.pivot.map fun pivot => { relation := rel.name, pivot }

/-- The calls that register a model. -/
def ModelSource.pivotCalls (m : ModelSource) : List PivotCall :=
  m.relations.filterMap RelationSource.call?

/-- Calls that all succeed on a schema. -/
def AllAccepted (schema : Option Schema) (calls : List PivotCall) : Prop :=
  ∀ c ∈ calls, PivotRegistry.accepts schema c = true

namespace PivotRegistry

theorem attempt_schema (r : PivotRegistry) (c : PivotCall) : (r.attempt c).1.schema = r.schema := by
  cases h : r.select c.relation c.pivot with
  | ok s =>
    rw [attempt_of_ok h]
    unfold includeSelection
    simp only
    split <;> rfl
  | error e => rw [attempt_of_error h]

theorem register_eq (r : PivotRegistry) (c : PivotCall) :
    r.register c.relation c.pivot = (r.attempt c).2.map fun _ => (r.attempt c).1 := by
  unfold attempt
  cases r.register c.relation c.pivot <;> rfl

/-- Relations are registered in turn if and only if each of their calls succeeds. -/
theorem registerRelations_eq_ok {r r' : PivotRegistry} {rels : List RelationSource} :
    r.registerRelations rels = (r', .ok ()) ↔
      AllAccepted r.schema (rels.filterMap RelationSource.call?) ∧
        r.attemptAll (rels.filterMap RelationSource.call?) = r' := by
  induction rels generalizing r with
  | nil => simp [registerRelations, AllAccepted, attemptAll]
  | cons rel rels ih =>
    cases hp : rel.pivot with
    | none =>
      have hcall : rel.call? = none := by simp [RelationSource.call?, hp]
      rw [registerRelations, registerRelation, hp, List.filterMap_cons_none hcall]
      exact ih
    | some pivot =>
      have hcall : rel.call? = some { relation := rel.name, pivot } := by simp [RelationSource.call?, hp]
      have hregister := r.register_eq { relation := rel.name, pivot }
      have hschema := r.attempt_schema { relation := rel.name, pivot }
      have haccepts := accepts_iff_attempt (r := r) (c := { relation := rel.name, pivot })
      rw [List.filterMap_cons_some hcall, AllAccepted, List.forall_mem_cons, haccepts, attemptAll, List.foldl_cons,
        registerRelations, registerRelation, hp]
      simp only at hregister ⊢
      rw [hregister]
      cases (r.attempt { relation := rel.name, pivot }).2 with
      | ok u =>
        simp only [Except.map, true_and]
        rw [← hschema]
        exact ih
      | error e => simp [Except.map]

/-- Registers models in turn, until one fails. -/
def registerModels (r : PivotRegistry) : List ModelSource → PivotRegistry × Except BuildError Unit
  | [] => (r, .ok ())
  | m :: ms =>
    match r.registerModel m with
    | (r, .ok ()) => registerModels r ms
    | (r, .error e) => (r, .error e)

theorem registerRelations_append (r : PivotRegistry) (rels rels' : List RelationSource) :
    r.registerRelations (rels ++ rels') =
      match r.registerRelations rels with
      | (r, .ok ()) => r.registerRelations rels'
      | (r, .error e) => (r, .error e) := by
  induction rels generalizing r with
  | nil => rfl
  | cons rel rels ih =>
    simp only [List.cons_append, registerRelations]
    cases r.registerRelation rel with
    | ok r => exact ih r
    | error e => rfl

theorem registerModels_eq (r : PivotRegistry) (ms : List ModelSource) :
    registerModels r ms = r.registerRelations (ms.flatMap (·.relations)) := by
  induction ms generalizing r with
  | nil => rfl
  | cons m ms ih => simp only [registerModels, registerModel, List.flatMap_cons, registerRelations_append, ih]

/-- Models are registered in turn if and only if each of their calls succeeds. -/
theorem registerModels_eq_ok {schema : Option Schema} {r : PivotRegistry} {ms : List ModelSource} :
    registerModels { schema } ms = (r, .ok ()) ↔
      AllAccepted schema (ms.flatMap (·.pivotCalls)) ∧ registryAfter schema (ms.flatMap (·.pivotCalls)) = r := by
  have hcalls : (ms.flatMap (·.relations)).filterMap RelationSource.call? = ms.flatMap (·.pivotCalls) :=
    List.filterMap_flatMap
  rw [registerModels_eq, registerRelations_eq_ok, hcalls, attemptAll_eq]
  refine and_congr_right fun hall => ?_
  rw [List.filter_eq_self.2 hall]

end PivotRegistry

/-! ## Projects -/

namespace Project

/-- The calls that register the models of a project. -/
def pivotCalls (p : Project) : List PivotCall :=
  p.models.flatMap (·.pivotCalls)

theorem registerPivots_eq_ok {r r' : PivotRegistry} {sources : List SourceFile} :
    registerPivots r sources = .ok r' ↔
      r.registerModels (sources.filterMap (·.entity.model?)) = (r', .ok ()) := by
  induction sources generalizing r with
  | nil => simp [registerPivots, PivotRegistry.registerModels]
  | cons s sources ih =>
    cases hs : s.entity with
    | enumeration source =>
      have hnone : s.entity.model? = none := by rw [hs]; rfl
      rw [List.filterMap_cons_none (by exact hnone), registerPivots, hs]
      exact ih
    | model m =>
      have hsome : s.entity.model? = some m := by rw [hs]; rfl
      rw [List.filterMap_cons_some (by exact hsome), registerPivots, hs, PivotRegistry.registerModels]
      simp only
      rcases r.registerModel m with ⟨r₁, ⟨e⟩ | ⟨⟨⟩⟩⟩
      · simp
      · exact ih

/-- The models of a project are registered if and only if each of their calls succeeds. -/
theorem pivots_eq_ok {p : Project} {r : PivotRegistry} : p.pivots = .ok r ↔
    AllAccepted p.schema p.pivotCalls ∧ registryAfter p.schema p.pivotCalls = r := by
  rw [pivots, registerPivots_eq_ok, PivotRegistry.registerModels_eq_ok]
  rfl

end Project

end EntityScript
