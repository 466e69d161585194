import Mathlib.Data.List.TakeWhile
import EntityScript.Proofs.Outcome
import EntityScript.Proofs.TypeNames
import EntityScript.Type.Resolve
/-!
# Names of resolved types

A type that a signal resolves to is made of built-in names, of `undefined` and of names that are known.
-/

namespace EntityScript

/-- The names of types that need no import. -/
def builtins : List String :=
  ["number", "string", "boolean", "any", "null", "Date", "Array", "Partial"]

/-- A built-in name reads as itself. -/
theorem identifiers_of_builtin {n : String} (h : n ∈ builtins) : identifiers n = [n] := by
  have hall : ∀ b ∈ builtins, identifiers b = [b] := by decide
  exact hall n h

namespace Signal

/-! ## Keys -/

mutual

/-- The keys of shapes in a signal. -/
def keys : Signal → List String
  | named _ => []
  | nullable inner => inner.keys
  | union items => allKeys items
  | list value => value.keys
  | map key value => key.keys ++ value.keys
  | shape fields => fieldKeys fields
  | generic _ args => allKeys args

/-- The keys of shapes in signals. -/
def allKeys : List Signal → List String
  | [] => []
  | item :: items => item.keys ++ allKeys items

/-- The keys of fields and of shapes in their types. -/
def fieldKeys : List (ShapeField Signal) → List String
  | [] => []
  | ⟨key, _, type⟩ :: fields => key :: (type.keys ++ fieldKeys fields)

end

/-- Whether all of these are made of the characters of names. -/
def AreNames (ks : List String) : Prop :=
  ∀ k ∈ ks, ∀ c ∈ k.toList, isNameChar c

theorem AreNames.append {ks ls : List String} (hk : AreNames ks) (hl : AreNames ls) : AreNames (ks ++ ls) :=
  List.forall_mem_append.2 ⟨hk, hl⟩

theorem keys_ofAlternatives (first : Signal) (more : List Signal) :
    (ofAlternatives first more).keys = first.keys ++ allKeys more := by
  cases more <;> simp [ofAlternatives, keys, allKeys]

theorem keys_readSuffixes (s : Signal) (cs : List Char) : (readSuffixes s cs).1.keys = s.keys := by
  fun_induction readSuffixes s cs with
  | case1 s cs rest h ih => rw [ih, keys]
  | case2 => rfl

theorem keys_ofArguments? {name : String} {args : List Signal} {s : Signal} (h : ofArguments? name args = some s) :
    s.keys = allKeys args := by
  unfold ofArguments? at h
  split at h
  · split at h <;> cases h <;> simp [keys, allKeys]
  · cases h
    simp [keys]

theorem areNames_readName {cs rest : List Char} {name : String} (h : readName cs = .ok (name, rest)) :
    AreNames [name] := by
  unfold readName at h
  simp only at h
  split at h
  · cases h
  · cases h
    simp only [AreNames, List.mem_singleton, forall_eq, String.toList_ofList]
    exact fun c hc => List.mem_takeWhile_imp hc

/-- On this fuel, the readers read shapes whose keys are names. -/
structure ReadsNames (fuel : Nat) : Prop where
  union : ∀ {cs s rest}, readUnion fuel cs = .ok (s, rest) → AreNames s.keys
  alternatives : ∀ {cs ss rest}, readAlternatives fuel cs = .ok (ss, rest) → AreNames (allKeys ss)
  item : ∀ {cs s rest}, readItem fuel cs = .ok (s, rest) → AreNames s.keys
  primary : ∀ {cs s rest}, readPrimary fuel cs = .ok (s, rest) → AreNames s.keys
  arguments : ∀ {cs ss rest}, readArguments fuel cs = .ok (ss, rest) → AreNames (allKeys ss)
  fields : ∀ {cs fields rest}, readFields fuel cs = .ok (fields, rest) → AreNames (fieldKeys fields)

namespace ReadsNames

variable {fuel : Nat} {cs rest : List Char} {s : Signal} {ss : List Signal}

theorem union_succ (ih : ReadsNames fuel) (h : readUnion (fuel + 1) cs = .ok (s, rest)) : AreNames s.keys := by
  simp only [readUnion, bind_eq_ok, Prod.exists] at h
  obtain ⟨first, cs, hf, more, cs', hm, h⟩ := h
  cases h
  rw [keys_ofAlternatives]
  exact (ih.item hf).append (ih.alternatives hm)

theorem alternatives_succ (ih : ReadsNames fuel) (h : readAlternatives (fuel + 1) cs = .ok (ss, rest)) :
    AreNames (allKeys ss) := by
  unfold readAlternatives at h
  split at h
  · cases h
    intro k hk
    simp [allKeys] at hk
  · simp only [bind_eq_ok, Prod.exists] at h
    obtain ⟨item, cs, hi, more, cs', hm, h⟩ := h
    cases h
    exact (ih.item hi).append (ih.alternatives hm)

theorem item_succ (ih : ReadsNames fuel) (h : readItem (fuel + 1) cs = .ok (s, rest)) : AreNames s.keys := by
  unfold readItem at h
  split at h
  · simp only [bind_eq_ok, Prod.exists] at h
    obtain ⟨inner, cs', hi, h⟩ := h
    cases h
    rw [keys]
    exact ih.item hi
  · simp only [bind_eq_ok, Prod.exists] at h
    obtain ⟨s', cs', hs, h⟩ := h
    have hkeys := keys_readSuffixes s' cs'
    rw [Except.ok.inj h] at hkeys
    rw [hkeys]
    exact ih.primary hs

theorem primary_succ (ih : ReadsNames fuel) (h : readPrimary (fuel + 1) cs = .ok (s, rest)) : AreNames s.keys := by
  unfold readPrimary at h
  split at h
  · simp only [bind_eq_ok, Prod.exists] at h
    obtain ⟨inner, cs', hi, _, -, h⟩ := h
    cases h
    exact ih.union hi
  · simp only [bind_eq_ok, Prod.exists] at h
    obtain ⟨name, cs', -, h⟩ := h
    split at h
    · split at h
      · simp only [bind_eq_ok, Prod.exists] at h
        obtain ⟨fields, cs'', hf, h⟩ := h
        cases h
        rw [keys]
        exact ih.fields hf
      · cases h
    · split at h
      · simp only [bind_eq_ok, Prod.exists] at h
        obtain ⟨args, cs'', ha, _, -, h⟩ := h
        split at h
        · rename_i signal hsignal
          cases h
          rw [keys_ofArguments? hsignal]
          exact ih.arguments ha
        · cases h
      · cases h
        intro k hk
        simp [keys] at hk

theorem arguments_succ (ih : ReadsNames fuel) (h : readArguments (fuel + 1) cs = .ok (ss, rest)) :
    AreNames (allKeys ss) := by
  simp only [readArguments, bind_eq_ok, Prod.exists] at h
  obtain ⟨first, cs', hf, h⟩ := h
  split at h
  · cases h
    simpa [allKeys] using ih.union hf
  · simp only [bind_eq_ok, Prod.exists] at h
    obtain ⟨more, cs'', hm, h⟩ := h
    cases h
    exact (ih.union hf).append (ih.arguments hm)

theorem fields_succ (ih : ReadsNames fuel) {fields : List (ShapeField Signal)}
    (h : readFields (fuel + 1) cs = .ok (fields, rest)) : AreNames (fieldKeys fields) := by
  unfold readFields at h
  split at h
  · cases h
    intro k hk
    simp [fieldKeys] at hk
  · simp only [bind_eq_ok, Prod.exists] at h
    obtain ⟨key, cs', hk, h⟩ := h
    have hkey := areNames_readName hk
    obtain ⟨_, -, type, cs'', ht, h⟩ := h
    split at h
    · simp only [bind_eq_ok, Prod.exists] at h
      obtain ⟨more, _, hm, h⟩ := h
      cases h
      rw [fieldKeys]
      exact hkey.append ((ih.union ht).append (ih.fields hm))
    · simp only [bind_eq_ok] at h
      obtain ⟨_, -, h⟩ := h
      cases h
      simpa [fieldKeys] using hkey.append (ih.union ht)

end ReadsNames

theorem readsNames (fuel : Nat) : ReadsNames fuel := by
  induction fuel with
  | zero =>
    constructor <;> intro _ _ _ h <;> cases h
  | succ fuel ih =>
    exact ⟨ih.union_succ, ih.alternatives_succ, ih.item_succ, ih.primary_succ, ih.arguments_succ, ih.fields_succ⟩

theorem areNames_parse {input : String} {s : Signal} (h : parse input = .ok s) : AreNames s.keys := by
  unfold parse at h
  split at h
  · rename_i s' hr
    cases h
    simp only [read, bind_eq_ok, Prod.exists] at hr
    obtain ⟨s', rest, hu, hr⟩ := hr
    split at hr
    · cases hr
      exact (readsNames _).union hu
    · cases hr
  · cases h

/-! ## Inline types -/

/-- What a type may be made of: built-in names, `undefined` and known names. -/
def IsAllowed (known : List String) (n : String) : Prop :=
  n ∈ builtins ∨ n = "undefined" ∨ n ∈ known

/-- Whether names are allowed and keys are names. -/
def IsMade (known names keys : List String) : Prop :=
  (∀ n ∈ names, IsAllowed known n) ∧ AreNames keys

variable {known : List String}

theorem IsMade.append {ns ms ks ls : List String} (h : IsMade known ns ks) (h' : IsMade known ms ls) :
    IsMade known (ns ++ ms) (ks ++ ls) :=
  ⟨List.forall_mem_append.2 ⟨h.1, h'.1⟩, h.2.append h'.2⟩

theorem isMade_nil : IsMade known [] [] :=
  ⟨by simp, by simp [AreNames]⟩

theorem isMade_one {n : String} (h : IsAllowed known n) : IsMade known [n] [] :=
  ⟨by simpa using h, by simp [AreNames]⟩

theorem isMade_builtin {n : String} (h : n ∈ builtins) : IsMade known [n] [] :=
  isMade_one (.inl h)

theorem isMade_nameType (known : List String) (name : String) :
    IsMade known (nameType known name).names (nameType known name).keys := by
  have hscalars : ∀ s ∈ scalars, IsAllowed known s.2 := by
    have h : ∀ s ∈ scalars, s.2 ∈ builtins ∨ s.2 = "undefined" := by decide
    exact fun s hs => (h s hs).imp_right .inl
  unfold nameType
  simp only
  split
  · rename_i type hs
    obtain ⟨l₁, l₂, hl, -⟩ := List.lookup_eq_some_iff.1 hs
    exact isMade_one (hscalars (Text.lowerAscii (Name.base name), type) (by simp [hl]))
  · split
    · exact (isMade_builtin (n := "Array") (by decide)).append (isMade_builtin (n := "any") (by decide))
    · split
      · rename_i hk
        exact isMade_one (.inr (.inr (by simpa using hk)))
      · exact isMade_builtin (by decide)

theorem allNames_eq (ts : List TypeExpr) : TypeExpr.allNames ts = ts.flatMap (·.names) := by
  induction ts with
  | nil => rfl
  | cons t ts ih => simp [TypeExpr.allNames, ih]

theorem allKeys_eq (ts : List TypeExpr) : TypeExpr.allKeys ts = ts.flatMap (·.keys) := by
  induction ts with
  | nil => rfl
  | cons t ts ih => simp [TypeExpr.allKeys, ih]

/-- Of types that are made so, any selection is. -/
theorem IsMade.of_subset {ts us : List TypeExpr} (h : IsMade known (TypeExpr.allNames ts) (TypeExpr.allKeys ts))
    (hs : us ⊆ ts) : IsMade known (TypeExpr.allNames us) (TypeExpr.allKeys us) := by
  simp only [allNames_eq, allKeys_eq] at h ⊢
  refine ⟨fun n hn => ?_, fun k hk => ?_⟩
  · obtain ⟨t, ht, hn⟩ := List.mem_flatMap.1 hn
    exact h.1 n (List.mem_flatMap.2 ⟨t, hs ht, hn⟩)
  · obtain ⟨t, ht, hk⟩ := List.mem_flatMap.1 hk
    exact h.2 k (List.mem_flatMap.2 ⟨t, hs ht, hk⟩)

theorem IsMade.of_mem {ts : List TypeExpr} (h : IsMade known (TypeExpr.allNames ts) (TypeExpr.allKeys ts))
    {t : TypeExpr} (ht : t ∈ ts) : IsMade known t.names t.keys := by
  simpa [TypeExpr.allNames, TypeExpr.allKeys] using h.of_subset (show [t] ⊆ ts by simpa using ht)

theorem distinctTexts_subset (ts : List TypeExpr) : TypeExpr.distinctTexts ts ⊆ ts := by
  induction ts with
  | nil => simp [TypeExpr.distinctTexts]
  | cons u ts ih =>
    intro t ht
    simp only [TypeExpr.distinctTexts, List.mem_cons, List.mem_filter] at ht ⊢
    exact ht.imp_right fun h => ih h.1

theorem IsMade.unite {ts : List TypeExpr} (h : IsMade known (TypeExpr.allNames ts) (TypeExpr.allKeys ts)) :
    IsMade known (TypeExpr.unite ts).names (TypeExpr.unite ts).keys := by
  unfold TypeExpr.unite
  split
  · exact isMade_builtin (by decide)
  · exact h.of_subset (distinctTexts_subset ts)

theorem IsMade.array {t : TypeExpr} (h : IsMade known t.names t.keys) :
    IsMade known (TypeExpr.array t).names (TypeExpr.array t).keys :=
  (isMade_builtin (n := "Array") (by decide)).append h

mutual

/-- An inline type is made of allowed names. -/
theorem isMade_expression (known : List String) :
    (s : Signal) → AreNames s.keys → IsMade known (expression known s).names (expression known s).keys
  | named name, _ => by
    rw [expression, nestedName]
    split
    · exact isMade_builtin (by decide)
    · exact isMade_nameType known name
  | nullable inner, hk => by
    rw [keys] at hk
    have ih := isMade_expression known inner hk
    rw [expression]
    split
    · exact ih
    · have h := ih.append (isMade_builtin (n := "null") (by decide))
      simpa [TypeExpr.names, TypeExpr.keys, TypeExpr.allNames, TypeExpr.allKeys, TypeExpr.null] using h
  | union items, hk => by
    rw [keys] at hk
    rw [expression]
    exact (isMade_expressions known items hk).unite
  | list value, hk => by
    rw [keys] at hk
    rw [expression]
    exact (isMade_expression known value hk).array
  | map key value, hk => by
    rw [keys, AreNames, List.forall_mem_append] at hk
    rw [expression, TypeExpr.names, TypeExpr.keys]
    exact (isMade_expression known key hk.1).append (isMade_expression known value hk.2)
  | shape fields, hk => by
    rw [keys] at hk
    rw [expression, TypeExpr.names, TypeExpr.keys]
    exact isMade_fieldExpressions known fields hk
  | generic name args, hk => by
    rw [keys] at hk
    have ih := isMade_expressions known args hk
    rw [expression]
    split
    · split
      · rename_i element he
        exact (ih.of_mem (List.mem_of_getLast? he)).array
      · exact isMade_builtin (by decide)
    · exact isMade_nameType known name

theorem isMade_expressions (known : List String) : (ss : List Signal) → AreNames (allKeys ss) →
    IsMade known (TypeExpr.allNames (expressions known ss)) (TypeExpr.allKeys (expressions known ss))
  | [], _ => by
    rw [expressions]
    exact isMade_nil
  | s :: ss, hk => by
    rw [allKeys, AreNames, List.forall_mem_append] at hk
    rw [expressions, TypeExpr.allNames, TypeExpr.allKeys]
    exact (isMade_expression known s hk.1).append (isMade_expressions known ss hk.2)

theorem isMade_fieldExpressions (known : List String) :
    (fields : List (ShapeField Signal)) → AreNames (fieldKeys fields) →
    IsMade known (TypeExpr.fieldNames (fieldExpressions known fields))
      (TypeExpr.fieldKeys (fieldExpressions known fields))
  | [], _ => by
    rw [fieldExpressions]
    exact isMade_nil
  | ⟨key, _, type⟩ :: fields, hk => by
    rw [fieldKeys, AreNames, List.forall_mem_cons, List.forall_mem_append] at hk
    have h := (isMade_expression known type hk.2.1).append (isMade_fieldExpressions known fields hk.2.2)
    rw [fieldExpressions, TypeExpr.fieldNames, TypeExpr.fieldKeys]
    exact ⟨h.1, List.forall_mem_cons.2 ⟨hk.1, h.2⟩⟩

end

/-! ## Alternatives -/

/-- What is true of some alternatives, and of `any`, is true of them united. -/
theorem forall_uniteDescriptors {P : Descriptor → Prop} (hany : P .any) {ds : List Descriptor} (h : ∀ d ∈ ds, P d) :
    ∀ d ∈ uniteDescriptors ds, P d := by
  unfold uniteDescriptors
  split
  · exact List.forall_mem_singleton.2 hany
  · exact fun d hd => h d (Text.mem_distinct.1 hd)

mutual

/-- What is true of texts and stays true of collections is true of all alternatives. -/
theorem forall_resolve {P : Descriptor → Prop} (hnamed : ∀ text, P (.named text))
    (hcollection : ∀ d, P d → P d.asCollection) (known : List String) : (s : Signal) → ∀ d ∈ resolve known s, P d
  | named _ | list _ | map _ _ | shape _ => by
    rw [resolve, List.forall_mem_singleton]
    exact hnamed _
  | nullable inner => by
    have ih := forall_resolve hnamed hcollection known inner
    rw [resolve]
    refine forall_uniteDescriptors (hnamed "any") (List.forall_mem_append.2 ⟨ih, ?_⟩)
    exact List.forall_mem_singleton.2 (hnamed "undefined")
  | union items => by
    have ih := forall_resolveAll hnamed hcollection known items
    rw [resolve]
    refine forall_uniteDescriptors (hnamed "any") fun d hd => ?_
    obtain ⟨ds, hds, hd⟩ := List.mem_flatten.1 hd
    exact ih ds hds d hd
  | generic name args => by
    have ih := forall_resolveAll hnamed hcollection known args
    rw [resolve]
    split
    · split
      · rename_i element he
        intro d hd
        obtain ⟨d', hd', rfl⟩ := List.mem_map.1 hd
        exact hcollection d' (ih element (List.mem_of_getLast? he) d' hd')
      · exact List.forall_mem_singleton.2 (hnamed "any")
    · exact List.forall_mem_singleton.2 (hnamed _)

theorem forall_resolveAll {P : Descriptor → Prop} (hnamed : ∀ text, P (.named text))
    (hcollection : ∀ d, P d → P d.asCollection) (known : List String) :
    (ss : List Signal) → ∀ ds ∈ resolveAll known ss, ∀ d ∈ ds, P d
  | [] => by simp [resolveAll]
  | s :: ss => by
    rw [resolveAll, List.forall_mem_cons]
    exact ⟨forall_resolve hnamed hcollection known s, forall_resolveAll hnamed hcollection known ss⟩

end

theorem forall_resolveText {P : Descriptor → Prop} (hnamed : ∀ text, P (.named text))
    (hcollection : ∀ d, P d → P d.asCollection) (known : List String) (input : String) :
    ∀ d ∈ resolveText known input, P d := by
  unfold resolveText
  split
  · exact forall_resolve hnamed hcollection known _
  · exact List.forall_mem_singleton.2 (hnamed "any")

/-- An alternative that is the text of a type made of allowed names. -/
def IsTyped (known : List String) (d : Descriptor) : Prop :=
  ∃ t : TypeExpr, d.name = t.text ∧ IsMade known t.names t.keys

theorem isTyped_text {t : TypeExpr} (h : IsMade known t.names t.keys) : IsTyped known (.named t.text) :=
  ⟨t, rfl, h⟩

theorem isTyped_builtin {n : String} (h : n ∈ builtins) : IsTyped known (.named n) :=
  ⟨.name n, rfl, isMade_builtin h⟩

theorem isTyped_undefined : IsTyped known .undefined :=
  ⟨.name "undefined", rfl, isMade_one (.inr (.inl rfl))⟩

theorem isTyped_any : IsTyped known .any :=
  isTyped_builtin (by decide)

mutual

/-- Every alternative of a signal is made of allowed names. -/
theorem isTyped_resolve (known : List String) :
    (s : Signal) → AreNames s.keys → ∀ d ∈ resolve known s, IsTyped known d
  | named name, _ => by
    rw [resolve, List.forall_mem_singleton]
    exact isTyped_text (isMade_nameType known name)
  | nullable inner, hk => by
    rw [keys] at hk
    rw [resolve]
    refine forall_uniteDescriptors isTyped_any (List.forall_mem_append.2 ⟨isTyped_resolve known inner hk, ?_⟩)
    exact List.forall_mem_singleton.2 isTyped_undefined
  | union items, hk => by
    rw [keys] at hk
    rw [resolve]
    refine forall_uniteDescriptors isTyped_any fun d hd => ?_
    obtain ⟨ds, hds, hd⟩ := List.mem_flatten.1 hd
    exact isTyped_resolveAll known items hk ds hds d hd
  | list value, hk => by
    rw [resolve, List.forall_mem_singleton]
    exact isTyped_text (isMade_expression known (list value) hk)
  | map key value, hk => by
    rw [resolve, List.forall_mem_singleton]
    exact isTyped_text (isMade_expression known (map key value) hk)
  | shape fields, hk => by
    rw [resolve, List.forall_mem_singleton]
    exact isTyped_text (isMade_expression known (shape fields) hk)
  | generic name args, hk => by
    rw [keys] at hk
    have ih := isTyped_resolveAll known args hk
    rw [resolve]
    split
    · split
      · rename_i element he
        intro d hd
        obtain ⟨d', hd', rfl⟩ := List.mem_map.1 hd
        exact ih element (List.mem_of_getLast? he) d' hd'
      · exact List.forall_mem_singleton.2 isTyped_any
    · rw [List.forall_mem_singleton]
      exact isTyped_text (isMade_nameType known name)

theorem isTyped_resolveAll (known : List String) : (ss : List Signal) → AreNames (allKeys ss) →
    ∀ ds ∈ resolveAll known ss, ∀ d ∈ ds, IsTyped known d
  | [], _ => by simp [resolveAll]
  | s :: ss, hk => by
    rw [allKeys, AreNames, List.forall_mem_append] at hk
    rw [resolveAll, List.forall_mem_cons]
    exact ⟨isTyped_resolve known s hk.1, isTyped_resolveAll known ss hk.2⟩

end

theorem isTyped_resolveText (known : List String) (input : String) :
    ∀ d ∈ resolveText known input, IsTyped known d := by
  unfold resolveText
  split
  · rename_i s hs
    exact isTyped_resolve known s (areNames_parse hs)
  · exact List.forall_mem_singleton.2 isTyped_any

/-- What is read from an alternative is built in, `undefined` or read from a known name. -/
theorem IsTyped.identifiers {d : Descriptor} (h : IsTyped known d) : ∀ n ∈ identifiers d.name,
    n ∈ builtins ∨ n = "undefined" ∨ ∃ k ∈ known, n ∈ EntityScript.identifiers k := by
  obtain ⟨t, ht, hnames, hkeys⟩ := h
  intro n hn
  rw [ht, TypeExpr.identifiers_text t hkeys, List.mem_flatMap] at hn
  obtain ⟨k, hk, hn⟩ := hn
  rcases hnames k hk with hb | rfl | hk
  · rw [identifiers_of_builtin hb, List.mem_singleton] at hn
    exact .inl (hn ▸ hb)
  · have hu : EntityScript.identifiers "undefined" = ["undefined"] := by decide
    rw [hu, List.mem_singleton] at hn
    exact .inr (.inl hn)
  · exact .inr (.inr ⟨k, hk, hn⟩)

end Signal

end EntityScript
