import EntityScript.Proofs.EnumFiles
/-!
# Faults of services

An enum has services if every exported method returns a list of cases of the enum and nothing else, and otherwise the
first thing that is wrong is reported. What is returned is described in TOML, where a case may name its enum in several
ways.
-/

namespace EntityScript

/-! ## Names of enums -/

theorem Text.dropWhile_eq_iff {d : Char} {cs ds : List Char} :
    cs.dropWhile (· == d) = ds ↔ ds.head? ≠ some d ∧ ∃ n, cs = List.replicate n d ++ ds := by
  induction cs with
  | nil =>
    constructor
    · rintro rfl
      exact ⟨by simp, 0, rfl⟩
    · rintro ⟨-, n, h⟩
      exact (List.append_eq_nil_iff.1 h.symm).2.symm
  | cons c cs ih =>
    by_cases hc : c = d
    · subst hc
      rw [List.dropWhile_cons_of_pos (by simp), ih]
      refine and_congr_right fun hhead => ⟨fun ⟨n, h⟩ => ⟨n + 1, by rw [h]; rfl⟩, fun ⟨n, h⟩ => ?_⟩
      cases n with
      | zero =>
        rw [List.replicate_zero, List.nil_append] at h
        exact absurd (by rw [← h]; rfl) hhead
      | succ n => exact ⟨n, (List.cons.inj h).2⟩
    · rw [List.dropWhile_cons_of_neg (by simpa using hc)]
      constructor
      · rintro rfl
        exact ⟨by simpa using hc, 0, rfl⟩
      · rintro ⟨-, n, h⟩
        cases n with
        | zero => exact h
        | succ n => exact absurd (List.cons.inj h).1 hc

namespace Name

/-- The qualified name that a reference means inside a namespace. A reference with a backslash is the qualified name
behind any number of backslashes; another one is a name of the namespace. -/
def Means (space reference qualified : String) : Prop :=
  if '\\' ∈ reference.toList then
    qualified.toList.head? ≠ some '\\' ∧ ∃ n, reference.toList = List.replicate n '\\' ++ qualified.toList
  else qualified = qualify space reference

theorem qualify_inj {space name name' : String} : qualify space name = qualify space name' ↔ name = name' := by
  unfold qualify
  split
  · rfl
  · simp only [← String.toList_inj, String.toList_append, List.append_cancel_left_eq]

end Name

namespace EnumSource

variable {e : EnumSource}

theorem referenced_some {reference owner : String} :
    e.referenced (some reference) = owner ↔ Name.Means e.space reference owner := by
  have hany : reference.toList.any Name.isBackslash = true ↔ '\\' ∈ reference.toList := by
    simp [Name.isBackslash]
  rw [referenced, Name.Means]
  by_cases h : '\\' ∈ reference.toList
  · rw [if_pos (hany.2 h), if_pos h, ← String.toList_inj, String.toList_ofList]
    exact Text.dropWhile_eq_iff
  · rw [if_neg (mt hany.1 h), if_neg h]
    exact eq_comm

/-- A reference without a backslash means the enum itself if it is the name of the enum. -/
theorem means_self {reference : String} (h : '\\' ∉ reference.toList) :
    Name.Means e.space reference e.qualifiedName ↔ reference = e.name := by
  rw [Name.Means, if_neg h, qualifiedName, Name.qualify_inj]
  exact eq_comm

/-! ## What is returned -/

/-- What a value refers to: a table with a `case` is this case of the enum that `enum` means, and of the enum itself if
there is no string under `enum`. -/
inductive Refers (e : EnumSource) : Toml.Value → String → String → Prop
  | own {entries : List (String × Toml.Value)} {case : String}
      (hcase : entries.lookup "case" = some (.string case))
      (henum : ∀ reference, entries.lookup "enum" ≠ some (.string reference)) :
      Refers e (.table entries) e.qualifiedName case
  | named {entries : List (String × Toml.Value)} {case reference owner : String}
      (hcase : entries.lookup "case" = some (.string case))
      (henum : entries.lookup "enum" = some (.string reference))
      (howner : Name.Means e.space reference owner) :
      Refers e (.table entries) owner case

theorem textAt?_eq_some {key text : String} {entries : List (String × Toml.Value)} :
    textAt? key entries = some text ↔ entries.lookup key = some (.string text) := by
  rw [textAt?, Option.bind_eq_some_iff]
  constructor
  · rintro ⟨v, hv, htext⟩
    cases v <;> simp_all [Toml.Decode.string?]
  · intro h
    exact ⟨_, h, rfl⟩

theorem evaluate_eq_case {v : Toml.Value} {owner case : String} :
    e.evaluate v = .case owner case ↔ e.Refers v owner case := by
  constructor
  · intro h
    cases v with
    | table entries =>
      rw [evaluate] at h
      split at h
      · rename_i c hc
        cases h
        cases henum : textAt? "enum" entries with
        | none =>
          refine .own (textAt?_eq_some.1 hc) fun reference href => ?_
          rw [textAt?_eq_some.2 href] at henum
          cases henum
        | some reference =>
          exact .named (textAt?_eq_some.1 hc) (textAt?_eq_some.1 henum) (referenced_some.1 rfl)
      · cases h
    | _ => simp [evaluate] at h
  · intro h
    cases h with
    | own hcase henum =>
      have hnone : textAt? "enum" _ = none :=
        Option.eq_none_iff_forall_ne_some.2 fun reference href => henum reference (textAt?_eq_some.1 href)
      rw [evaluate, textAt?_eq_some.2 hcase, hnone]
      rfl
    | named hcase henum howner =>
      rw [evaluate, textAt?_eq_some.2 hcase, textAt?_eq_some.2 henum, referenced_some.2 howner]

theorem evaluateAll_eq_map (items : List Toml.Value) : e.evaluateAll items = items.map e.evaluate := by
  induction items with
  | nil => simp [evaluateAll]
  | cons v items ih => rw [evaluateAll, ih, List.map_cons]

theorem evaluate_eq_array {v : Toml.Value} {items : List ServiceValue} :
    e.evaluate v = .array items ↔ ∃ values, v = .array values ∧ values.map e.evaluate = items := by
  cases v with
  | array values => simp [evaluate, evaluateAll_eq_map]
  | table entries =>
    rw [evaluate]
    split <;> simp
  | _ => simp [evaluate]

/-! ## What can be wrong -/

/-- A value is a case of the enum. -/
def IsCase (e : EnumSource) (v : Toml.Value) (case : String) : Prop :=
  e.Refers v e.qualifiedName case ∧ case ∈ e.cases.map (·.name)

/-- What is wrong with an element of a returned list. -/
inductive ItemFault (e : EnumSource) (m : MethodSource) (index : Nat) (v : Toml.Value) : BuildError → Prop
  | notCase (h : ∀ owner case, ¬ e.Refers v owner case) :
      ItemFault e m index v (.serviceNotCase (e.methodName m) (e.evaluate v).typeName index e.qualifiedName)
  | wrongEnum {owner case : String} (h : e.Refers v owner case) (howner : owner ≠ e.qualifiedName) :
      ItemFault e m index v (.serviceWrongEnum (e.methodName m) (owner ++ "::" ++ case) index e.qualifiedName)
  | unknownCase {case : String} (h : e.Refers v e.qualifiedName case) (hcase : case ∉ e.cases.map (·.name)) :
      ItemFault e m index v (.serviceUnknownCase (e.methodName m) case index)

/-- A method returns these cases of the enum. -/
structure Returns (e : EnumSource) (m : MethodSource) (cases : List String) : Prop where
  silent : m.throws = none
  items : ∃ items, m.returns = some (.array items) ∧ List.Forall₂ e.IsCase items cases

/-- What is wrong with a method first: it fails, or it returns nothing or something that is not a list, or an element of
the list is the first that is not a case of the enum. -/
inductive Fault (e : EnumSource) (m : MethodSource) : BuildError → Prop
  | failed {message : String} (h : m.throws = some message) : Fault e m (.serviceFailed (e.methodName m) message)
  | nothing (h : m.throws = none) (hv : m.returns = none) : Fault e m (.serviceNotArray (e.methodName m) "null")
  | notArray {v : Toml.Value} (h : m.throws = none) (hv : m.returns = some v) (hitems : ∀ items, v ≠ .array items) :
      Fault e m (.serviceNotArray (e.methodName m) (e.evaluate v).typeName)
  | item {front back : List Toml.Value} {v : Toml.Value} {err : BuildError} (h : m.throws = none)
      (hv : m.returns = some (.array (front ++ v :: back))) (hfront : ∀ w ∈ front, ∃ case, e.IsCase w case)
      (hitem : e.ItemFault m front.length v err) : Fault e m err

theorem caseAt_ok {m : MethodSource} {index : Nat} {v : Toml.Value} {case : String} :
    e.caseAt m index (e.evaluate v) = .ok case ↔ e.IsCase v case := by
  rw [caseAt_eq_ok, evaluate_eq_case, hasCase_iff, IsCase]

theorem caseAt_error {m : MethodSource} {index : Nat} {v : Toml.Value} {err : BuildError} :
    e.caseAt m index (e.evaluate v) = .error err ↔ e.ItemFault m index v err := by
  constructor
  · intro h
    unfold caseAt at h
    split at h
    · rename_i owner case hv
      rw [evaluate_eq_case] at hv
      split at h
      · rename_i howner
        subst howner
        split at h
        · cases h
        · rename_i hcase
          cases h
          exact .unknownCase hv fun hmem => hcase (hasCase_iff.2 hmem)
      · rename_i howner
        cases h
        exact .wrongEnum hv howner
    · rename_i hother
      cases h
      exact .notCase fun owner case hv => hother owner case (evaluate_eq_case.2 hv)
  · intro h
    cases h with
    | notCase h =>
      unfold caseAt
      split
      · rename_i owner case hv
        exact absurd (evaluate_eq_case.1 hv) (h owner case)
      · rfl
    | wrongEnum h howner => rw [evaluate_eq_case.2 h, caseAt, if_neg howner]
    | unknownCase h hcase =>
      rw [evaluate_eq_case.2 h, caseAt, if_pos rfl, if_neg fun hmem => hcase (hasCase_iff.1 hmem)]

theorem casesFrom_error {m : MethodSource} {index : Nat} {items : List Toml.Value} {err : BuildError} :
    e.casesFrom m index (items.map e.evaluate) = .error err ↔ ∃ front v back, items = front ++ v :: back ∧
      (∀ w ∈ front, ∃ case, e.IsCase w case) ∧ e.ItemFault m (index + front.length) v err := by
  induction items generalizing index with
  | nil => simp [casesFrom]
  | cons v items ih =>
    simp only [List.map_cons, casesFrom, bind_eq_error, caseAt_error, caseAt_ok, ih]
    constructor
    · rintro (hv | ⟨case, hcase, ⟨front, w, back, rfl, hfront, hw⟩ | ⟨cases, -, h⟩⟩)
      · exact ⟨[], v, items, rfl, by simp, hv⟩
      · refine ⟨v :: front, w, back, rfl, List.forall_mem_cons.2 ⟨⟨case, hcase⟩, hfront⟩, ?_⟩
        rwa [List.length_cons, Nat.add_comm front.length, ← Nat.add_assoc]
      · cases h
    · rintro ⟨front, w, back, hitems, hfront, hw⟩
      cases front with
      | nil =>
        obtain ⟨rfl, rfl⟩ := List.cons.inj hitems
        exact .inl hw
      | cons u front =>
        obtain ⟨rfl, rfl⟩ := List.cons.inj hitems
        obtain ⟨⟨case, hcase⟩, hfront⟩ := List.forall_mem_cons.1 hfront
        refine .inr ⟨case, hcase, .inl ⟨front, w, back, rfl, hfront, ?_⟩⟩
        rwa [List.length_cons, Nat.add_comm front.length, ← Nat.add_assoc] at hw

/-! ## Methods one by one -/

theorem run_eq_error {m : MethodSource} {message : String} : e.run m = .error message ↔ m.throws = some message := by
  unfold run
  split <;> simp_all

theorem run_eq_ok {m : MethodSource} {v : ServiceValue} :
    e.run m = .ok v ↔ m.throws = none ∧ (m.returns.map e.evaluate).getD .null = v := by
  unfold run
  split <;> simp_all

theorem run_eq_array {m : MethodSource} {items : List ServiceValue} : e.run m = .ok (.array items) ↔
    m.throws = none ∧ ∃ values, m.returns = some (.array values) ∧ values.map e.evaluate = items := by
  rw [run_eq_ok]
  refine and_congr_right fun _ => ?_
  cases m.returns with
  | none => simp
  | some v => simp [evaluate_eq_array]

theorem returns_iff {m : MethodSource} {cases : List String} : e.Returns m cases ↔
    e.run m = .ok (.array (cases.map (.case e.qualifiedName))) ∧ ∀ c ∈ cases, c ∈ e.cases.map (·.name) := by
  have hitems {items : List Toml.Value} : List.Forall₂ e.IsCase items cases ↔
      items.map e.evaluate = cases.map (.case e.qualifiedName) ∧ ∀ c ∈ cases, c ∈ e.cases.map (·.name) := by
    induction items generalizing cases with
    | nil => cases cases <;> simp
    | cons v items ih => cases cases <;> simp [ih, IsCase, evaluate_eq_case, and_assoc, and_left_comm]
  rw [run_eq_array]
  constructor
  · rintro ⟨hsilent, items, hreturns, hall⟩
    obtain ⟨heq, hknown⟩ := hitems.1 hall
    exact ⟨⟨hsilent, items, hreturns, heq⟩, hknown⟩
  · rintro ⟨⟨hsilent, items, hreturns, heq⟩, hknown⟩
    exact ⟨hsilent, items, hreturns, hitems.2 ⟨heq, hknown⟩⟩

theorem service_ok {m : MethodSource} {exportName : String} {service : ServiceMethod} :
    e.service m exportName = .ok service ↔ service.exportName = exportName ∧ e.Returns m service.cases := by
  rw [service_eq_ok, returns_iff]
  exact ⟨fun h => ⟨h.name, h.returned, h.known⟩, fun ⟨hname, hreturned, hknown⟩ => ⟨hname, hreturned, hknown⟩⟩

theorem service_error {m : MethodSource} {exportName : String} {err : BuildError} :
    e.service m exportName = .error err ↔ e.Fault m err := by
  constructor
  · intro h
    unfold service at h
    split at h
    · rename_i message hrun
      cases h
      exact .failed (run_eq_error.1 hrun)
    · rename_i items hrun
      obtain ⟨hsilent, values, hreturns, rfl⟩ := run_eq_array.1 hrun
      rw [map_eq_error, casesFrom_error] at h
      obtain ⟨front, v, back, rfl, hfront, hv⟩ := h
      rw [Nat.zero_add] at hv
      exact .item hsilent hreturns hfront hv
    · rename_i v hother hrun
      obtain ⟨hsilent, rfl⟩ := run_eq_ok.1 hrun
      cases h
      cases hreturns : m.returns with
      | none => exact .nothing hsilent hreturns
      | some v =>
        refine .notArray hsilent hreturns fun items hitems => ?_
        rw [hreturns, hitems] at hother
        exact hother _ (evaluate_eq_array.2 ⟨items, rfl, rfl⟩)
  · intro h
    cases h with
    | failed h => rw [service, run_eq_error.2 h]
    | nothing h hv =>
      have hrun : e.run m = .ok .null := run_eq_ok.2 ⟨h, by rw [hv]; rfl⟩
      rw [service, hrun]
      rfl
    | notArray h hv hitems =>
      rename_i v
      have hrun : e.run m = .ok (e.evaluate v) := run_eq_ok.2 ⟨h, by rw [hv]; rfl⟩
      unfold service
      split <;> rename_i hrun'
      · rw [hrun] at hrun'
        cases hrun'
      · rw [hrun, Except.ok.injEq, evaluate_eq_array] at hrun'
        obtain ⟨values, hvalues, -⟩ := hrun'
        exact absurd hvalues (hitems values)
      · rw [hrun, Except.ok.injEq] at hrun'
        rw [hrun']
    | item h hv hfront hitem =>
      rw [service, run_eq_array.2 ⟨h, _, hv, rfl⟩]
      refine map_eq_error.2 (casesFrom_error.2 ⟨_, _, _, rfl, hfront, ?_⟩)
      rwa [Nat.zero_add]

/-! ## All methods -/

end EnumSource

/-- Whether a method is exported: it is public and static, and it is marked. -/
def MethodSource.isExported (m : MethodSource) : Bool :=
  m.isPublic && m.isStatic && m.mark != .flag false

/-- The name of the export of a method: the one that its mark gives, or that of the method. -/
def MethodSource.exportName (m : MethodSource) : String :=
  match m.mark with
  | .flag _ => m.name
  | .name name => name

theorem MethodSource.exportName?_eq (m : MethodSource) :
    m.exportName? = if m.isExported then some m.exportName else none := by
  unfold exportName? isExported exportName
  cases m.isPublic <;> cases m.isStatic <;> cases m.mark with
  | flag exported => cases exported <;> simp
  | name name => simp

namespace EnumSource

/-- The methods that are exported. -/
def exported (e : EnumSource) : List MethodSource :=
  e.methods.filter (·.isExported)

theorem services_eq (e : EnumSource) : e.services = e.exported.mapM fun m => e.service m m.exportName := by
  have hexports : e.exports = e.exported.map fun m => (m, m.exportName) := by
    unfold exports exported
    induction e.methods with
    | nil => rfl
    | cons m ms ih =>
      rw [List.filterMap_cons, ih, m.exportName?_eq, List.filter_cons]
      cases m.isExported <;> rfl
  rw [services, hexports, List.mapM_map]
  rfl

/-- An enum has services if every exported method returns cases of the enum, and these are what it exports, method by
method. Otherwise the first exported method that does not is reported, with the first thing that is wrong with it.
Whatever its namespace looks like, a reference without a backslash means the enum only if it is the enum's own name. -/
theorem services_validated (e : EnumSource) :
    ((∃ services, e.services = .ok services) ↔ ∀ m ∈ e.exported, ∃ cases, e.Returns m cases) ∧
    (∀ services, e.services = .ok services ↔ List.Forall₂ (fun m service =>
      service.exportName = m.exportName ∧ e.Returns m service.cases) e.exported services) ∧
    (∀ err, e.services = .error err ↔ ∃ front m back, e.exported = front ++ m :: back ∧
      (∀ m' ∈ front, ∃ cases, e.Returns m' cases) ∧ e.Fault m err) ∧
    ∀ reference : String, '\\' ∉ reference.toList →
      (Name.Means e.space reference e.qualifiedName ↔ reference = e.name) := by
  have hreturns (m : MethodSource) : (∃ service, e.service m m.exportName = .ok service) ↔ ∃ cases, e.Returns m cases :=
    ⟨fun ⟨service, h⟩ => ⟨service.cases, (service_ok.1 h).2⟩,
      fun ⟨cases, h⟩ => ⟨⟨m.exportName, cases⟩, service_ok.2 ⟨rfl, h⟩⟩⟩
  refine ⟨?_, fun services => ?_, fun err => ?_, fun reference h => means_self h⟩
  · rw [services_eq, exists_mapM_ok]
    exact forall₂_congr fun m _ => hreturns m
  · simp only [services_eq, mapM_eq_ok, service_ok]
  · simp only [services_eq, mapM_eq_error, hreturns, service_error]

end EnumSource

end EntityScript
