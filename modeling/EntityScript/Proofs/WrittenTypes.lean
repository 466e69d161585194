import EntityScript.Proofs.TypeSyntax
import EntityScript.Proofs.Unions
/-!
# Types of the grammar

A signal that is read resolves to texts of the grammar just if it fits: where a shape shows, its keys are identifiers
or numerals, and where a map shows, its keys are texts and numbers. What `any` absorbs in a union does not show.
-/

namespace EntityScript

open TypeSyntax

/-! ## Keys that are read -/

namespace Signal

/-- The keys of shapes in what a symbol writes. -/
def Symbol.keys : (k : Symbol) → k.Value → List String
  | .union, s | .item, s | .primary, s => s.keys
  | .alternatives, ss | .arguments, ss => allKeys ss
  | .fields, fs => fieldKeys fs

theorem mem_allKeys {k : String} {ss : List Signal} : k ∈ allKeys ss ↔ ∃ s ∈ ss, k ∈ s.keys := by
  induction ss with
  | nil => simp [allKeys]
  | cons s ss ih => simp [allKeys, ih]

theorem mem_fieldKeys {k : String} {fields : List (ShapeField Signal)} :
    k ∈ fieldKeys fields ↔ ∃ f ∈ fields, k = f.key ∨ k ∈ f.type.keys := by
  induction fields with
  | nil => simp [fieldKeys]
  | cons f fields ih => simp [fieldKeys, ih, or_assoc]

theorem keys_brackets (gs : List Gap) (s : Signal) : (gs.foldl (fun s _ => Signal.list s) s).keys = s.keys := by
  induction gs generalizing s with
  | nil => rfl
  | cons g gs ih => rw [List.foldl_cons, ih, keys]

theorem NameText.word_ne (n : NameText) : n.word ≠ "" := by
  intro h
  refine n.nonempty ?_
  rw [← String.toList_ofList (l := n.chars), ← NameText.word, h]
  rfl

/-- No key that a phrase writes is empty. -/
theorem Phrase.keys_ne {k : Symbol} (d : Phrase k) : ∀ key ∈ k.keys d.value, key ≠ "" := by
  induction d with
  | noMore | noField | name => exact fun _ h => absurd h (by simp [Symbol.keys, value, keys, allKeys, fieldKeys])
  | union _ _ hf hm =>
    show ∀ key ∈ (ofAlternatives _ _).keys, key ≠ ""
    rw [keys_ofAlternatives]
    exact List.forall_mem_append.2 ⟨hf, hm⟩
  | bar _ _ _ hi hm => exact List.forall_mem_append.2 ⟨hi, hm⟩
  | nullable _ _ hi => exact hi
  | plain _ brackets hp =>
    show ∀ key ∈ (brackets.foldl (fun s _ => Signal.list s) (_ : Signal)).keys, key ≠ ""
    rw [keys_brackets]
    exact hp
  | parenthesized _ _ _ hu => exact hu
  | shape _ _ _ _ hf => exact hf
  | list _ _ _ _ _ hv => exact hv
  | map _ _ _ _ _ _ _ hk hv => exact List.forall_mem_append.2 ⟨hk, hv⟩
  | generic _ _ _ _ _ ha => exact ha
  | argument _ hl => exact List.forall_mem_append.2 ⟨hl, by simp [allKeys]⟩
  | comma _ _ _ hf hm => exact List.forall_mem_append.2 ⟨hf, hm⟩
  | lastField head _ _ ht =>
    exact List.forall_mem_cons.2 ⟨head.key.word_ne, List.forall_mem_append.2 ⟨ht, by simp [fieldKeys]⟩⟩
  | field head _ _ _ ht hm =>
    exact List.forall_mem_cons.2 ⟨head.key.word_ne, List.forall_mem_append.2 ⟨ht, hm⟩⟩

theorem keys_ne_of_parse {input : String} {s : Signal} (h : parse input = .ok s) : ∀ k ∈ s.keys, k ≠ "" := by
  obtain ⟨d, -, rfl⟩ := read_eq_ok.1 (parse_eq_ok.1 h)
  exact d.union.keys_ne

end Signal

/-! ## Types of names -/

namespace TypeExpr

/-- What a name is resolved to: an identifier, or a list of anything. -/
inductive IsSimple : TypeExpr → Prop
  | name {n : String} (h : IsIdentifier n) : IsSimple (.name n)
  | list : IsSimple (.array .any)

theorem isSimple_any : IsSimple .any :=
  .name (by decide)

theorem isSimple_null : IsSimple .null :=
  .name (by decide)

theorem IsSimple.wellFormed {t : TypeExpr} (h : t.IsSimple) : ∀ a ∈ t.alternatives, a.WellFormed := by
  cases h with
  | name h => exact List.forall_mem_singleton.2 (.name h)
  | list => exact List.forall_mem_singleton.2 (.array (by simp [alternatives, any]) isSimple_any.wellFormed)

theorem IsSimple.isWritten {t : TypeExpr} (h : t.IsSimple) : ∀ a ∈ t.alternatives, a.IsWritten := by
  cases h with
  | name h => exact List.forall_mem_singleton.2 (.name h)
  | list => exact List.forall_mem_singleton.2 (.array (by simp [alternatives, any]) isSimple_any.isWritten)

end TypeExpr

namespace Signal

open TypeExpr (IsSimple isSimple_any isSimple_null)

variable {known : List String}

theorem isIdentifier_of_isAllowed (hknown : ∀ k ∈ known, IsIdentifier k) {n : String} (h : IsAllowed known n) :
    IsIdentifier n := by
  have hbuiltins : ∀ b ∈ builtins, IsIdentifier b := by decide
  rcases h with hb | rfl | hk
  · exact hbuiltins n hb
  · decide
  · exact hknown n hk

theorem isSimple_nameType (hknown : ∀ k ∈ known, IsIdentifier k) {name : String}
    (h : ∀ c ∈ name.toList, isNameChar c) : (nameType known name).IsSimple := by
  rcases nameType_cases known h with ⟨n, hn, -⟩ | hn
  · have hallowed := (isMade_nameType known name).1 n (by simp [hn, TypeExpr.names])
    rw [hn]
    exact .name (isIdentifier_of_isAllowed hknown hallowed)
  · rw [hn]
    exact .list

theorem isSimple_nestedName {t : TypeExpr} (h : t.IsSimple) : (nestedName t).IsSimple := by
  unfold nestedName
  split
  · exact isSimple_null
  · exact h

/-! ## Keys of maps -/

/-- Whether a name stands for texts or numbers. -/
def NamesKeys (name : String) : Prop :=
  scalars.lookup (Text.lowerAscii (Name.base name)) = some "string" ∨
    scalars.lookup (Text.lowerAscii (Name.base name)) = some "number"

instance (name : String) : Decidable (NamesKeys name) :=
  inferInstanceAs (Decidable (_ ∨ _))

/-- Whether a signal stands for texts and numbers alone. -/
inductive IsKeyed : Signal → Prop
  | named {name : String} (h : NamesKeys name) : IsKeyed (.named name)
  | union {items : List Signal} (h : ∀ s ∈ items, IsKeyed s) : IsKeyed (.union items)
  | generic {name : String} {args : List Signal} (hc : isCollection name = false) (h : NamesKeys name) :
    IsKeyed (.generic name args)

/-- Whether a type is one of the two that keys may have. -/
def IsKeyName (a : Alternative) : Prop :=
  a = .name "string" ∨ a = .name "number"

theorem keyed_nameType (known : List String) (name : String) :
    (∀ a ∈ (nameType known name).alternatives, IsKeyName a) ↔ NamesKeys name := by
  -- Entities never stand for keys: no name of theirs is looked up before the scalars.
  have hscalars : ∀ k ∈ ["string", "number"], (scalars.lookup (Text.lowerAscii k)).isSome = true := by
    decide +kernel
  unfold nameType NamesKeys
  simp only
  split
  · rename_i type hs
    simp [TypeExpr.alternatives, IsKeyName, hs]
  · rename_i hs
    rw [hs]
    split
    · simp [TypeExpr.alternatives, IsKeyName]
    · split
      · refine iff_of_false (fun hall => ?_) (by simp)
        have hname : Name.base name ∈ ["string", "number"] := by
          simpa [TypeExpr.alternatives, IsKeyName] using hall
        simpa [hs] using hscalars _ hname
      · simp [TypeExpr.alternatives, TypeExpr.any, IsKeyName]

theorem keyed_nestedName {name : String} (h : ∀ c ∈ name.toList, isNameChar c) :
    (∀ a ∈ (nestedName (nameType known name)).alternatives, IsKeyName a) ↔ NamesKeys name := by
  rw [← keyed_nameType known name, nestedName]
  split
  · rename_i hu
    rcases nameType_cases known h with ⟨n, hn, -⟩ | hn
    · obtain rfl : n = "undefined" := by simpa [hn, TypeExpr.text] using hu
      simp [hn, TypeExpr.null, TypeExpr.alternatives, IsKeyName]
    · simp [hn, TypeExpr.null, TypeExpr.alternatives, IsKeyName]
  · exact Iff.rfl

end Signal

namespace TypeExpr

variable {t : TypeExpr} {ts : List TypeExpr} {P : Alternative → Prop}

theorem alternatives_of_isAny (h : t.IsPlain) (hany : t.isAny = true) : t.alternatives = [.name "any"] := by
  have htext : t.text = any.text := beq_iff_eq.1 hany
  have hread := readTypeText?_text h
  rw [htext, readTypeText?_text isPlain_any] at hread
  exact (Option.some.inj hread).symm

/-- What holds of the alternatives of a union without `any` holds of those of its items. -/
theorem forall_alternatives_unite (h : ∀ t ∈ ts, t.IsPlain) (hany : ts.any isAny = false) :
    (∀ a ∈ (unite ts).alternatives, P a) ↔ ∀ t ∈ ts, ∀ a ∈ t.alternatives, P a := by
  rw [unite, if_neg (by rw [hany]; exact Bool.false_ne_true), alternatives]
  constructor
  · intro hall t ht a ha
    obtain ⟨u, hu, htext⟩ := exists_mem_distinctTexts ht
    have hread := readTypeText?_text (h u (Signal.distinctTexts_subset ts hu))
    rw [htext, readTypeText?_text (h t ht)] at hread
    exact hall a (mem_allAlternatives.2 ⟨u, hu, Option.some.inj hread ▸ ha⟩)
  · intro hall a ha
    obtain ⟨u, hu, ha⟩ := mem_allAlternatives.1 ha
    exact hall u (Signal.distinctTexts_subset ts hu) a ha

theorem alternatives_unite_any (hany : ts.any isAny = true) : (unite ts).alternatives = [.name "any"] := by
  rw [unite, if_pos hany]
  rfl

end TypeExpr

namespace Signal

open TypeExpr (IsSimple isSimple_any isSimple_null alternatives_of_isAny forall_alternatives_unite
  alternatives_unite_any)

variable {known : List String}

/-- The type of the keys of a map is made of `string` and `number` just if its signal stands for nothing else. -/
theorem keyed_expression {s : Signal} (h : s.IsPlain) :
    (∀ a ∈ (expression known s).alternatives, IsKeyName a) ↔ IsKeyed s := by
  have hname (n : String) (hn : n ≠ "string" ∧ n ≠ "number") : ¬ IsKeyName (.name n) := by
    simpa [IsKeyName] using hn
  induction h with
  | named h =>
    rw [expression, keyed_nestedName h]
    exact ⟨.named, fun hs => by cases hs; assumption⟩
  | @nullable inner h _ =>
    refine iff_of_false (fun hall => ?_) (fun hs => by cases hs)
    by_cases hany : (expression known inner).isAny = true
    · rw [expression, if_pos hany, alternatives_of_isAny (isPlain_expression h) hany] at hall
      exact hname "any" (by decide) (hall _ List.mem_cons_self)
    · rw [expression, if_neg hany] at hall
      exact hname "null" (by decide) (hall _ (by simp [TypeExpr.alternatives, TypeExpr.allAlternatives, TypeExpr.null]))
  | @union items _ h ih =>
    rw [expression, expressions_eq]
    cases hany : (items.map (expression known)).any TypeExpr.isAny with
    | true =>
      rw [alternatives_unite_any hany, List.forall_mem_singleton]
      refine iff_of_false (hname "any" (by decide)) fun hs => ?_
      obtain ⟨_, hmem, hone⟩ := List.any_eq_true.1 hany
      obtain ⟨s, hs', rfl⟩ := List.mem_map.1 hmem
      cases hs with
      | union hs =>
        have hkeyed := (ih s hs').2 (hs s hs')
        rw [alternatives_of_isAny (isPlain_expression (h s hs')) hone] at hkeyed
        exact hname "any" (by decide) (hkeyed _ List.mem_cons_self)
    | false =>
      rw [forall_alternatives_unite (by simpa using fun s hs => isPlain_expression (h s hs)) hany]
      simp only [List.forall_mem_map]
      rw [forall₂_congr ih]
      exact ⟨.union, fun hs => by cases hs; assumption⟩
  | list | map | shape =>
    rw [expression]
    exact iff_of_false (by simp [TypeExpr.alternatives, IsKeyName]) (fun hs => by cases hs)
  | @generic name args hname' _ _ =>
    cases hc : isCollection name with
    | false =>
      rw [expression_generic args hc, keyed_nameType]
      exact ⟨.generic hc, fun hs => by cases hs; assumption⟩
    | true =>
      refine iff_of_false (fun hall => ?_) fun hs => by cases hs; simp_all
      rw [expression_collection args hc] at hall
      cases hlast : args.getLast? <;> simp [hlast, TypeExpr.alternatives, TypeExpr.any, IsKeyName] at hall

/-! ## Signals that fit -/

/-- Whether a signal stands for anything, at the top of the type of a member or inside a type, so that nothing else of a
union that it is in shows. -/
def Absorbs (known : List String) (inside : Bool) (s : Signal) : Prop :=
  if inside then (expression known s).isAny = true else ∃ d ∈ resolve known s, d.isAny = true

/-- Whether what shows of a signal has texts of the grammar. -/
inductive Fits (known : List String) : Bool → Signal → Prop
  | named {inside : Bool} {name : String} : Fits known inside (.named name)
  | nullable {inside : Bool} {inner : Signal} (h : Fits known inside inner) : Fits known inside (.nullable inner)
  | absorbed {inside : Bool} {s : Signal} {items : List Signal} (hs : s ∈ items) (h : Absorbs known inside s) :
    Fits known inside (.union items)
  | union {inside : Bool} {items : List Signal} (h : ∀ s ∈ items, Fits known inside s) :
    Fits known inside (.union items)
  | list {inside : Bool} {value : Signal} (h : Fits known true value) : Fits known inside (.list value)
  | map {inside : Bool} {key value : Signal} (hk : IsKeyed key) (hv : Fits known true value) :
    Fits known inside (.map key value)
  | shape {inside : Bool} {fields : List (ShapeField Signal)} (hkeys : ∀ f ∈ fields, IsKey f.key)
    (h : ∀ f ∈ fields, Fits known true f.type) : Fits known inside (.shape fields)
  /-- Other names are resolved without their arguments. -/
  | generic {inside : Bool} {name : String} {args : List Signal} (hc : isCollection name = false) :
    Fits known inside (.generic name args)
  | collection {inside : Bool} {name : String} {args : List Signal} (hc : isCollection name = true)
    (h : ∀ s ∈ args.getLast?, Fits known inside s) : Fits known inside (.generic name args)

section Fits

variable {inside : Bool} {name : String} {s inner key value : Signal} {items args : List Signal}
  {fields : List (ShapeField Signal)}

theorem fits_nullable : Fits known inside (.nullable inner) ↔ Fits known inside inner :=
  ⟨fun h => by cases h; assumption, .nullable⟩

theorem fits_union : Fits known inside (.union items) ↔
    (∃ s ∈ items, Absorbs known inside s) ∨ ∀ s ∈ items, Fits known inside s := by
  constructor
  · intro h
    cases h with
    | absorbed hs h => exact .inl ⟨_, hs, h⟩
    | union h => exact .inr h
  · rintro (⟨s, hs, h⟩ | h)
    · exact .absorbed hs h
    · exact .union h

theorem fits_list : Fits known inside (.list value) ↔ Fits known true value :=
  ⟨fun h => by cases h; assumption, .list⟩

theorem fits_map : Fits known inside (.map key value) ↔ IsKeyed key ∧ Fits known true value :=
  ⟨fun h => by cases h; constructor <;> assumption, fun h => .map h.1 h.2⟩

theorem fits_shape : Fits known inside (.shape fields) ↔
    (∀ f ∈ fields, IsKey f.key) ∧ ∀ f ∈ fields, Fits known true f.type :=
  ⟨fun h => by cases h; constructor <;> assumption, fun h => .shape h.1 h.2⟩

theorem fits_collection (hc : isCollection name = true) :
    Fits known inside (.generic name args) ↔ ∀ s ∈ args.getLast?, Fits known inside s := by
  refine ⟨fun h => ?_, .collection hc⟩
  cases h with
  | generic hno => rw [hc] at hno; cases hno
  | collection _ h => exact h

end Fits

/-! ## Inside a type -/

theorem wellFormed_array {element : List Alternative} (hne : element ≠ []) :
    (Alternative.array element).WellFormed ↔ ∀ a ∈ element, a.WellFormed :=
  ⟨fun h => by cases h; assumption, .array hne⟩

theorem wellFormed_index {key value : List Alternative} (hkey : key ≠ []) (hvalue : value ≠ []) :
    (Alternative.index key value).WellFormed ↔ (∀ a ∈ key, IsKeyName a) ∧ ∀ a ∈ value, a.WellFormed :=
  ⟨fun h => by cases h; constructor <;> assumption, fun h => .index hkey h.1 hvalue h.2⟩

theorem wellFormed_object {fields : List (String × Bool × List Alternative)} (hne : ∀ f ∈ fields, f.2.2 ≠ []) :
    (Alternative.object fields).WellFormed ↔
      (∀ f ∈ fields, IsKey f.1) ∧ ∀ f ∈ fields, ∀ a ∈ f.2.2, a.WellFormed :=
  ⟨fun h => by cases h; constructor <;> assumption, fun h => .object h.1 hne h.2⟩

/-- The alternatives of a field are those of its signal. -/
theorem forall_fieldAlternatives {fields : List (ShapeField Signal)} {P : String × Bool × List Alternative → Prop} :
    (∀ f ∈ TypeExpr.fieldAlternatives (fieldExpressions known fields), P f) ↔
      ∀ f ∈ fields, P (f.key, f.optional, (expression known f.type).alternatives) := by
  simp only [TypeExpr.mem_fieldAlternatives, mem_fieldExpressions]
  constructor
  · intro h f hf
    exact h _ ⟨_, ⟨f, hf, rfl⟩, rfl⟩
  · rintro h _ ⟨_, ⟨f, hf, rfl⟩, rfl⟩
    exact h f hf

theorem alternatives_ne_nil {s : Signal} (h : s.IsPlain) : (expression known s).alternatives ≠ [] :=
  TypeExpr.alternatives_ne_nil (isPlain_expression h)

/-- The names and keys in an inline type are those of the signal. -/
theorem isWritten_expression (hknown : ∀ k ∈ known, IsIdentifier k) {s : Signal} (h : s.IsPlain)
    (hkeys : ∀ k ∈ s.keys, k ≠ "") : ∀ a ∈ (expression known s).alternatives, a.IsWritten := by
  induction h with
  | named h =>
    rw [expression]
    exact (isSimple_nestedName (isSimple_nameType hknown h)).isWritten
  | nullable _ ih =>
    rw [keys] at hkeys
    rw [expression]
    split
    · exact ih hkeys
    · simp only [TypeExpr.alternatives, TypeExpr.allAlternatives, List.append_nil]
      exact List.forall_mem_append.2 ⟨ih hkeys, isSimple_null.isWritten⟩
  | @union items _ h ih =>
    rw [expression, expressions_eq]
    cases hany : (items.map (expression known)).any TypeExpr.isAny with
    | true =>
      rw [alternatives_unite_any hany]
      exact isSimple_any.isWritten
    | false =>
      rw [forall_alternatives_unite (by simpa using fun s hs => isPlain_expression (h s hs)) hany, List.forall_mem_map]
      exact fun s hs => ih s hs fun k hk => hkeys k (mem_allKeys.2 ⟨s, hs, hk⟩)
  | list h ih =>
    rw [expression]
    exact List.forall_mem_singleton.2 (.array (alternatives_ne_nil h) (ih hkeys))
  | map hk hv ihk ihv =>
    rw [keys, List.forall_mem_append] at hkeys
    rw [expression]
    refine List.forall_mem_singleton.2 (.index ?_ ?_ (ihk hkeys.1) (ihv hkeys.2))
    · exact alternatives_ne_nil hk
    · exact alternatives_ne_nil hv
  | shape hchars h ih =>
    rw [expression, TypeExpr.alternatives, List.forall_mem_singleton]
    refine .object ?_ ?_ ?_ <;> rw [forall_fieldAlternatives] <;> intro f hf
    · exact ⟨hkeys _ (mem_fieldKeys.2 ⟨f, hf, .inl rfl⟩), hchars f hf⟩
    · exact alternatives_ne_nil (h f hf)
    · exact ih f hf fun k hk => hkeys k (mem_fieldKeys.2 ⟨f, hf, .inr hk⟩)
  | @generic name args hname h ih =>
    cases hc : isCollection name with
    | false =>
      rw [expression_generic args hc]
      exact (isSimple_nameType hknown hname).isWritten
    | true =>
      rw [expression_collection args hc]
      cases hlast : args.getLast? with
      | none => exact isSimple_any.isWritten
      | some s =>
        have hs := List.mem_of_getLast? hlast
        refine List.forall_mem_singleton.2 (.array (alternatives_ne_nil (h s hs)) (ih s hs fun k hk => ?_))
        exact hkeys k (mem_allKeys.2 ⟨s, hs, hk⟩)

theorem wellFormed_expression (hknown : ∀ k ∈ known, IsIdentifier k) {s : Signal} (h : s.IsPlain) :
    (∀ a ∈ (expression known s).alternatives, a.WellFormed) ↔ Fits known true s := by
  induction h with
  | named h =>
    rw [expression]
    exact iff_of_true (isSimple_nestedName (isSimple_nameType hknown h)).wellFormed .named
  | nullable _ ih =>
    rw [expression, fits_nullable, ← ih]
    split
    · exact Iff.rfl
    · simp only [TypeExpr.alternatives, TypeExpr.allAlternatives, List.append_nil]
      rw [List.forall_mem_append]
      exact and_iff_left isSimple_null.wellFormed
  | @union items _ h ih =>
    rw [expression, expressions_eq, fits_union]
    cases hany : (items.map (expression known)).any TypeExpr.isAny with
    | true =>
      rw [alternatives_unite_any hany]
      refine iff_of_true isSimple_any.wellFormed (.inl ?_)
      simpa [Absorbs] using hany
    | false =>
      have hnone : ¬ ∃ s ∈ items, Absorbs known true s := by simpa [Absorbs] using hany
      rw [forall_alternatives_unite (by simpa using fun s hs => isPlain_expression (h s hs)) hany, List.forall_mem_map,
        forall₂_congr ih, or_iff_right hnone]
  | list h ih =>
    rw [expression, TypeExpr.alternatives, List.forall_mem_singleton, wellFormed_array (alternatives_ne_nil h), ih,
      fits_list]
  | map hk hv _ ihv =>
    rw [expression, TypeExpr.alternatives, List.forall_mem_singleton,
      wellFormed_index (alternatives_ne_nil hk) (alternatives_ne_nil hv), keyed_expression hk, ihv, fits_map]
  | shape _ h ih =>
    rw [expression, TypeExpr.alternatives, List.forall_mem_singleton, wellFormed_object, forall_fieldAlternatives,
      forall_fieldAlternatives, forall₂_congr ih, fits_shape]
    rw [forall_fieldAlternatives]
    exact fun f hf => alternatives_ne_nil (h f hf)
  | @generic name args hname h ih =>
    cases hc : isCollection name with
    | false =>
      rw [expression_generic args hc]
      exact iff_of_true (isSimple_nameType hknown hname).wellFormed (.generic hc)
    | true =>
      rw [expression_collection args hc, fits_collection hc]
      cases hlast : args.getLast? with
      | none => exact iff_of_true isSimple_any.wellFormed (by simp)
      | some s =>
        have hs := List.mem_of_getLast? hlast
        simp only [Option.map_some, Option.getD_some, TypeExpr.alternatives, Option.mem_some_iff, forall_eq']
        rw [List.forall_mem_singleton, wellFormed_array (alternatives_ne_nil (h s hs)), ih s hs]

/-! ## At the top -/

/-- Whether the name of a descriptor is the text of one alternative, and neither columns nor an accessor are required of
it. -/
structure IsSingle (d : Descriptor) (a : Alternative) : Prop where
  plain : a.IsPlain
  written : a.IsWritten
  name : d.name.toList = a.chars
  noColumns : d.requiredColumns = none
  noAccessor : d.accessor = none

theorem IsSingle.asCollection {d : Descriptor} {a : Alternative} (h : IsSingle d a) : IsSingle d.asCollection a :=
  ⟨h.plain, h.written, h.name, h.noColumns, h.noAccessor⟩

theorem isSingle_text {t : TypeExpr} (hplain : t.IsPlain) (h : ∀ a ∈ t.alternatives, a.IsWritten) {a : Alternative}
    (hone : t.alternatives = [a]) : IsSingle (.named t.text) a := by
  refine ⟨TypeExpr.isPlain_alternatives hplain a (by simp [hone]), h a (by simp [hone]), ?_, rfl, rfl⟩
  rw [Descriptor.named, TypeExpr.toList_text hplain, hone, typeChars]

theorem isSingle_simple {t : TypeExpr} (hplain : t.IsPlain) (h : t.IsSimple) : ∃ a, IsSingle (.named t.text) a := by
  cases h <;> exact ⟨_, isSingle_text hplain (IsSimple.isWritten (by constructor <;> assumption)) rfl⟩

theorem isSingle_expression (hknown : ∀ k ∈ known, IsIdentifier k) {s : Signal} (h : s.IsPlain)
    (hkeys : ∀ k ∈ s.keys, k ≠ "") {a : Alternative} (hone : (expression known s).alternatives = [a]) :
    IsSingle (.named (expression known s).text) a :=
  isSingle_text (isPlain_expression h) (isWritten_expression hknown h hkeys) hone

/-- Each text that a signal resolves to is one alternative, so the brackets of a list follow no union. -/
theorem exists_isSingle (hknown : ∀ k ∈ known, IsIdentifier k) {s : Signal} (h : s.IsPlain)
    (hkeys : ∀ k ∈ s.keys, k ≠ "") : ∀ d ∈ resolve known s, ∃ a, IsSingle d a := by
  have hname {n : String} (hn : IsIdentifier n) : ∃ a, IsSingle (.named n) a :=
    isSingle_simple (t := .name n) (.name (IsWord.isNameChar hn.1)) (.name hn)
  have hany : ∃ a, IsSingle .any a := hname (by decide)
  induction h with
  | named h =>
    rw [resolve, List.forall_mem_singleton]
    exact isSingle_simple (isPlain_nameType known h) (isSimple_nameType hknown h)
  | nullable _ ih =>
    rw [resolve]
    refine forall_uniteDescriptors hany (List.forall_mem_append.2 ⟨ih hkeys, List.forall_mem_singleton.2 ?_⟩)
    exact hname (n := "undefined") (by decide)
  | union _ _ ih =>
    rw [resolve_union]
    refine forall_uniteDescriptors hany fun d hd => ?_
    obtain ⟨s, hs, hd⟩ := List.mem_flatMap.1 hd
    exact ih s hs (fun k hk => hkeys k (mem_allKeys.2 ⟨s, hs, hk⟩)) d hd
  | list h =>
    rw [resolve, List.forall_mem_singleton]
    exact ⟨_, isSingle_expression hknown (.list h) hkeys (by rw [expression, TypeExpr.alternatives])⟩
  | map hk hv =>
    rw [resolve, List.forall_mem_singleton]
    exact ⟨_, isSingle_expression hknown (.map hk hv) hkeys (by rw [expression, TypeExpr.alternatives])⟩
  | shape hchars h =>
    rw [resolve, List.forall_mem_singleton]
    exact ⟨_, isSingle_expression hknown (.shape hchars h) hkeys (by rw [expression, TypeExpr.alternatives])⟩
  | @generic name args hchars _ ih =>
    rw [resolve]
    split
    · rw [resolveAll_eq, List.getLast?_map]
      cases hlast : args.getLast? with
      | none => exact List.forall_mem_singleton.2 hany
      | some s =>
        have hs := List.mem_of_getLast? hlast
        refine List.forall_mem_map.2 fun d hd => ?_
        obtain ⟨a, ha⟩ := ih s hs (fun k hk => hkeys k (mem_allKeys.2 ⟨s, hs, hk⟩)) d hd
        exact ⟨a, ha.asCollection⟩
    · rw [List.forall_mem_singleton]
      exact isSingle_simple (isPlain_nameType known hchars) (isSimple_nameType hknown hchars)

theorem isType_identifier {n : String} (h : IsIdentifier n) (isList : Bool) :
    IsType (n ++ if isList then "[]" else "") := by
  refine (isType_iff_wellFormed (.name h) isList ?_).2 (.name h)
  cases isList <;> simp [Alternative.chars]

theorem isType_any : IsType "any" :=
  isType_identifier (n := "any") (by decide) false

theorem isType_simple {t : TypeExpr} (hplain : t.IsPlain) (h : t.IsSimple) : IsType t.text := by
  obtain ⟨a, ha⟩ : ∃ a, t.alternatives = [a] := by cases h <;> exact ⟨_, rfl⟩
  refine (isType_iff_wellFormed (h.isWritten a (by simp [ha])) false ?_).2 (h.wellFormed a (by simp [ha]))
  rw [TypeExpr.toList_text hplain, ha, typeChars]
  simp

theorem isType_expression (hknown : ∀ k ∈ known, IsIdentifier k) {s : Signal} (h : s.IsPlain)
    (hkeys : ∀ k ∈ s.keys, k ≠ "") {a : Alternative} (hone : (expression known s).alternatives = [a]) :
    IsType (expression known s).text ↔ Fits known true s := by
  have hsingle := isSingle_expression hknown h hkeys hone
  have htext : (expression known s).text.toList = a.chars ++ if false then ['[', ']'] else [] := by
    simpa [Descriptor.named] using hsingle.name
  rw [isType_iff_wellFormed hsingle.written false htext, ← wellFormed_expression hknown h, hone,
    List.forall_mem_singleton]

theorem forall_isType_named {text : String} {p : Prop} (h : IsType text ↔ p) :
    (∀ d ∈ [Descriptor.named text], IsType d.name) ↔ p := by
  rw [List.forall_mem_singleton]
  exact h

theorem forall_isType_unite {ds : List Descriptor} : (∀ d ∈ uniteDescriptors ds, IsType d.name) ↔
    (∃ d ∈ ds, d.isAny = true) ∨ ∀ d ∈ ds, IsType d.name := by
  by_cases h : ∃ d ∈ ds, d.isAny = true
  · rw [uniteDescriptors_any h]
    exact iff_of_true (List.forall_mem_singleton.2 isType_any) (.inl h)
  · rw [uniteDescriptors_distinct h, or_iff_right h]
    simp only [Text.mem_distinct]

/-- The texts that a signal resolves to are types just if it fits. -/
theorem isType_resolve (hknown : ∀ k ∈ known, IsIdentifier k) {s : Signal} (h : s.IsPlain)
    (hkeys : ∀ k ∈ s.keys, k ≠ "") : (∀ d ∈ resolve known s, IsType d.name) ↔ Fits known false s := by
  induction h with
  | named h =>
    rw [resolve]
    have htype := isType_simple (isPlain_nameType known h) (isSimple_nameType hknown h)
    exact forall_isType_named (iff_of_true htype .named)
  | @nullable inner h ih =>
    rw [resolve, forall_isType_unite, fits_nullable, ← ih hkeys]
    constructor
    · rintro (⟨d, hd, hdany⟩ | hall)
      · rcases List.mem_append.1 hd with hd | hd
        · rw [resolve_eq_singleton h hd hdany, List.forall_mem_singleton, beq_iff_eq.1 hdany]
          exact isType_any
        · rw [List.mem_singleton.1 hd] at hdany
          simp [Descriptor.undefined, Descriptor.named, Descriptor.isAny] at hdany
      · exact fun d hd => hall d (List.mem_append_left _ hd)
    · have hundefined : IsType "undefined" := isType_identifier (n := "undefined") (by decide) false
      exact fun hall => .inr (List.forall_mem_append.2 ⟨hall, List.forall_mem_singleton.2 hundefined⟩)
  | @union items _ _ ih =>
    have hitems : (∀ d ∈ items.flatMap (resolve known), IsType d.name) ↔ ∀ s ∈ items, Fits known false s := by
      rw [List.forall_mem_flatMap]
      exact forall₂_congr fun s hs => ih s hs fun k hk => hkeys k (mem_allKeys.2 ⟨s, hs, hk⟩)
    have habsorbs : (∃ d ∈ items.flatMap (resolve known), d.isAny = true) ↔
        ∃ s ∈ items, Absorbs known false s := by
      simp only [List.mem_flatMap, Absorbs, Bool.false_eq_true, if_false]
      constructor
      · rintro ⟨d, ⟨s, hs, hd⟩, h⟩
        exact ⟨s, hs, d, hd, h⟩
      · rintro ⟨s, hs, d, hd, h⟩
        exact ⟨d, ⟨s, hs, hd⟩, h⟩
    rw [resolve_union, forall_isType_unite, hitems, habsorbs, fits_union]
  | list h =>
    have htype := isType_expression hknown (.list h) hkeys (by rw [expression, TypeExpr.alternatives])
    rw [resolve]
    exact forall_isType_named (htype.trans (fits_list.trans fits_list.symm))
  | map hk hv =>
    have htype := isType_expression hknown (.map hk hv) hkeys (by rw [expression, TypeExpr.alternatives])
    rw [resolve]
    exact forall_isType_named (htype.trans (fits_map.trans fits_map.symm))
  | shape hchars h =>
    have htype := isType_expression hknown (.shape hchars h) hkeys (by rw [expression, TypeExpr.alternatives])
    rw [resolve]
    exact forall_isType_named (htype.trans (fits_shape.trans fits_shape.symm))
  | @generic name args hchars _ ih =>
    cases hc : isCollection name with
    | false =>
      rw [resolve, if_neg (by rw [hc]; exact Bool.false_ne_true)]
      have htype := isType_simple (isPlain_nameType known hchars) (isSimple_nameType hknown hchars)
      exact forall_isType_named (iff_of_true htype (.generic hc))
    | true =>
      rw [resolve, if_pos hc, resolveAll_eq, List.getLast?_map, fits_collection hc]
      cases hlast : args.getLast? with
      | none => exact iff_of_true (List.forall_mem_singleton.2 isType_any) (by simp)
      | some s =>
        have hs := List.mem_of_getLast? hlast
        simp only [Option.map_some, List.forall_mem_map, Option.mem_some_iff, forall_eq']
        exact ih s hs fun k hk => hkeys k (mem_allKeys.2 ⟨s, hs, hk⟩)

/-- What is written of an alternative is a type just if its name is. -/
theorem IsSingle.isType_text {d : Descriptor} {a : Alternative} (h : IsSingle d a) {ctx : Context}
    (hctx : ∀ r ∈ ctx.renames, IsIdentifier r.1 ∧ IsIdentifier r.2) : IsType (d.text ctx) ↔ IsType d.name := by
  have hkeys : d.requiredKeys? = none := by simp [Descriptor.requiredKeys?, h.noColumns, h.noAccessor]
  have htext : d.text ctx = d.nameText ctx ++ if d.collection then "[]" else "" := by
    simp only [Descriptor.text, Descriptor.elementText, hkeys, ite_self]
  have hidentifier {n m : String} (hn : IsIdentifier n) (hm : IsIdentifier m) (hname : d.name = n)
      (hnew : d.nameText ctx = m) : IsType (d.text ctx) ↔ IsType d.name := by
    rw [htext, hnew, hname]
    exact iff_of_true (isType_identifier hm _) (by simpa using isType_identifier hn false)
  by_cases hdate : d.isDate = true ∧ ctx.interface = true
  · refine hidentifier (n := "Date") (m := "string") (by decide) (by decide) (beq_iff_eq.1 hdate.1) ?_
    rw [Descriptor.nameText, if_pos (by simpa using hdate)]
  · have hname : d.nameText ctx = ctx.rename d.name := by
      rw [Descriptor.nameText, if_neg (by simpa using hdate)]
    rw [Context.rename] at hname
    cases hlookup : ctx.renames.lookup d.name with
    | some new =>
      obtain ⟨_, _, hmem, -⟩ := List.lookup_eq_some_iff.1 hlookup
      have hboth := hctx (d.name, new) (by simp [hmem])
      exact hidentifier hboth.1 hboth.2 rfl (by rw [hname, hlookup, Option.getD_some])
    | none =>
      rw [htext, hname, hlookup, Option.getD_none]
      have hlist : (d.name ++ if d.collection then "[]" else "").toList =
          a.chars ++ if d.collection then ['[', ']'] else [] := by
        rw [String.toList_append, h.name]
        cases d.collection <;> rfl
      rw [isType_iff_wellFormed h.written _ hlist, isType_iff_wellFormed h.written false (by simpa using h.name)]

/-- Each text that a signal resolves to is one alternative, which no bar parts. All are types of the grammar, with the
brackets of lists and with the names that entities go by, just if the signal fits. -/
theorem texts_of_grammar_iff (hknown : ∀ k ∈ known, IsIdentifier k) {input : String} {s : Signal}
    (h : parse input = .ok s) {ctx : Context} (hctx : ∀ r ∈ ctx.renames, IsIdentifier r.1 ∧ IsIdentifier r.2) :
    (∀ d ∈ resolve known s, ∃ a, readTypeText? d.name = some [a]) ∧
      ((∀ d ∈ resolve known s, IsType (d.text ctx)) ↔ Fits known false s) := by
  have hplain := isPlain_parse h
  have hsingle := exists_isSingle hknown hplain (keys_ne_of_parse h)
  refine ⟨fun d hd => ?_, ?_⟩
  · obtain ⟨a, ha⟩ := hsingle d hd
    refine ⟨a, readTypeText?_of_chars (by simp) (List.forall_mem_singleton.2 ha.plain) ?_⟩
    rw [ha.name, typeChars]
  · rw [← isType_resolve hknown hplain (keys_ne_of_parse h)]
    refine forall₂_congr fun d hd => ?_
    obtain ⟨a, ha⟩ := hsingle d hd
    exact ha.isType_text hctx

/-- A shape with two keys, one of them a numeral, and a map. In a file of `New` models the tags of the collection go by
their new name. -/
theorem fields_and_tags_fit : ∃ s, parse "array{a?: Tag[], 0: array<int|string, Tag>}|Collection<Tag>" = .ok s ∧
    (resolve ["Tag"] s).map (·.text (.forNewModels {} ["Tag"])) =
      ["\x7b a?: Array<Tag>, 0: \x7b [key: number | string]: Tag \x7d \x7d", "NewTag[]"] ∧
    (∀ d ∈ resolve ["Tag"] s, IsType (d.text (.forNewModels {} ["Tag"]))) ∧ Fits ["Tag"] false s := by
  have hparse : (parse "array{a?: Tag[], 0: array<int|string, Tag>}|Collection<Tag>").toOption.map (fun s =>
      (resolve ["Tag"] s).map (·.text (.forNewModels {} ["Tag"]))) =
        some ["\x7b a?: Array<Tag>, 0: \x7b [key: number | string]: Tag \x7d \x7d", "NewTag[]"] := by
    decide +kernel
  obtain ⟨s, hs, htexts⟩ := Option.map_eq_some_iff.1 hparse
  have htag : Derives .type [.word "Tag"] := .single (.name (by decide))
  have hobject : IsType "\x7b a?: Array<Tag>, 0: \x7b [key: number | string]: Tag \x7d \x7d" := by
    have htokens : tokens "\x7b a?: Array<Tag>, 0: \x7b [key: number | string]: Tag \x7d \x7d".toList =
        [.symbol '\x7b', .word "a", .symbol '?', .symbol ':', .word "Array", .symbol '<', .word "Tag", .symbol '>',
          .symbol ',', .word "0", .symbol ':', .symbol '\x7b', .symbol '[', .word "key", .symbol ':', .word "number",
          .symbol '|', .word "string", .symbol ']', .symbol ':', .word "Tag", .symbol '\x7d', .symbol '\x7d'] := by
      decide +kernel
    have hmap := Derives.single (.index (.bar (.inr rfl) (.key (.inl rfl))) htag)
    have hfields := Derives.comma (k := "a") (by decide) true (.single (.array htag))
      (.field (k := "0") (by decide) false hmap)
    rw [IsType, htokens]
    exact .single (.object hfields)
  have hlist : IsType "NewTag[]" := isType_identifier (n := "NewTag") (by decide) true
  have hall : ∀ d ∈ resolve ["Tag"] s, IsType (d.text (.forNewModels {} ["Tag"])) := by
    rw [← List.forall_mem_map (P := IsType), htexts]
    exact List.forall_mem_cons.2 ⟨hobject, List.forall_mem_singleton.2 hlist⟩
  have hknown : ∀ k ∈ ["Tag"], IsIdentifier k := by decide
  have hctx : ∀ r ∈ (Context.forNewModels {} ["Tag"]).renames, IsIdentifier r.1 ∧ IsIdentifier r.2 := by decide +kernel
  exact ⟨s, toOption_eq_some.1 hs, htexts, hall,
    (texts_of_grammar_iff hknown (toOption_eq_some.1 hs) hctx).2.1 hall⟩

/-- A key with a hyphen is written as it stands, and so is the type of the keys of a map. -/
theorem hyphens_and_booleans_written :
    (∃ s d, parse "array{a-b: int}" = .ok s ∧ d ∈ resolve [] s ∧ d.text (.regular {}) = "\x7b a-b: number \x7d" ∧
      ¬ IsType (d.text (.regular {}))) ∧
    ∃ s d, parse "array<bool, int>" = .ok s ∧ d ∈ resolve [] s ∧
      d.text (.regular {}) = "\x7b [key: boolean]: number \x7d" ∧ ¬ IsType (d.text (.regular {})) := by
  have hshape : (parse "array{a-b: int}").toOption.map (resolve []) = some [.named "\x7b a-b: number \x7d"] := by
    decide +kernel
  have hmap : (parse "array<bool, int>").toOption.map (resolve []) =
      some [.named "\x7b [key: boolean]: number \x7d"] := by
    decide +kernel
  obtain ⟨s, hs, hresolve⟩ := Option.map_eq_some_iff.1 hshape
  obtain ⟨s', hs', hresolve'⟩ := Option.map_eq_some_iff.1 hmap
  refine ⟨⟨s, _, toOption_eq_some.1 hs, by rw [hresolve]; exact List.mem_cons_self, by decide +kernel, fun htype => ?_⟩,
    s', _, toOption_eq_some.1 hs', by rw [hresolve']; exact List.mem_cons_self, by decide +kernel, fun htype => ?_⟩
  · have hhyphen : .symbol '-' ∈ tokens ((Descriptor.named "\x7b a-b: number \x7d").text (.regular {})).toList := by
      decide +kernel
    exact absurd ((fit_of_derives htype).1.mem_marks hhyphen) (by decide)
  · have htokens : tokens ((Descriptor.named "\x7b [key: boolean]: number \x7d").text (.regular {})).toList =
        [.symbol '\x7b', .symbol '[', .word "key", .symbol ':', .word "boolean", .symbol ']', .symbol ':',
          .word "number", .symbol '\x7d'] := by
      decide +kernel
    have hfit := (fit_of_derives htype).1
    rw [htokens] at hfit
    obtain ⟨ks, rest, heq, hks⟩ := (hfit.2.1.2 rfl).resolve_left (by simp)
    cases ks with
    | nil => simp at heq
    | cons k ks =>
      simp only [List.cons_append, List.cons.injEq, true_and] at heq
      obtain ⟨rfl, -⟩ := heq
      exact absurd (hks _ List.mem_cons_self) (by simp [IsKeyToken])

end Signal

end EntityScript
