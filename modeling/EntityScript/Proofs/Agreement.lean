import EntityScript.Proofs.PlainSignals
/-!
# The two resolutions of a signal

A signal is resolved in one way at the top of the type of a member and in another way inside a type. Both ways admit
the same values in most places. They part where the flag of a collection is set on each alternative of what it
collects, where a collection of `any` counts as `any`, and where a name for nothing has arguments.
-/

namespace EntityScript.Signal

variable {known : List String} {v : Datum}

/-! ## What the two ways admit -/

/-- What a signal admits at the top of the type of a member. -/
def TopAdmits (known : List String) (s : Signal) (v : Datum) : Prop :=
  ∃ d ∈ resolve known s, d.Admits v

/-- What a signal admits inside a type. -/
def NestedAdmits (known : List String) (s : Signal) (v : Datum) : Prop :=
  TextAdmits (expression known s).text v

/-- Whether a signal admits the same at the top and inside. -/
def Agrees (known : List String) (s : Signal) : Prop :=
  ∀ v, TopAdmits known s v ↔ NestedAdmits known s v

/-- The signal itself and the branches of unions and nullables at its top. -/
inductive IsBranch : Signal → Signal → Prop
  | self (s : Signal) : IsBranch s s
  | nullable {b inner : Signal} (h : IsBranch b inner) : IsBranch b (.nullable inner)
  | union {b s : Signal} {items : List Signal} (hs : s ∈ items) (h : IsBranch b s) : IsBranch b (.union items)

/-- Whether one alternative of a signal admits all that the signal does inside a type, and none admits more. The flags
of the alternatives do not count here. -/
def HasGreatest (known : List String) (s : Signal) : Prop :=
  (∃ d ∈ resolve known s, ∀ v, NestedAdmits known s v → d.AdmitsItem v) ∧
    ∀ d ∈ resolve known s, ∀ v, d.AdmitsItem v → NestedAdmits known s v

/-- Whether the two ways take the step at the top of a signal alike. Where a branch has an alternative named `any`,
collection or not, a branch is `any`; what is collected has a greatest alternative; and no name for nothing has
arguments. -/
def IsRegular (known : List String) : Signal → Prop
  | .nullable inner => (∃ d ∈ resolve known inner, d.isAny = true) → (expression known inner).isAny = true
  | .union items =>
    (∃ s ∈ items, ∃ d ∈ resolve known s, d.isAny = true) → ∃ s ∈ items, (expression known s).isAny = true
  | .generic name args =>
    if isCollection name then ∀ s, args.getLast? = some s → HasGreatest known s
    else (nameType known name).text ≠ "undefined"
  | _ => True

/-! ### Inside a type -/

theorem nestedAdmits_nullable {inner : Signal} (h : inner.IsPlain) :
    NestedAdmits known (.nullable inner) v ↔ NestedAdmits known inner v ∨ v = .null := by
  have hplain : (expression known inner).IsPlain := isPlain_expression h
  unfold NestedAdmits
  rw [expression]
  split
  · rename_i hany
    have hall := TypeExpr.textAdmits_of_isAny hany (v := v)
    exact iff_of_true hall (.inl hall)
  · rw [TypeExpr.textAdmits_union (by simp) (by simpa [TypeExpr.isPlain_null] using hplain)]
    simp only [List.mem_cons, List.not_mem_nil, or_false, exists_eq_or_imp, exists_eq_left]
    exact or_congr_right TypeExpr.textAdmits_null

theorem nestedAdmits_union {items : List Signal} (hne : items ≠ []) (h : ∀ s ∈ items, s.IsPlain) :
    NestedAdmits known (.union items) v ↔ ∃ s ∈ items, NestedAdmits known s v := by
  unfold NestedAdmits
  rw [expression, expressions_eq, TypeExpr.textAdmits_unite (by simpa using hne)]
  · simp only [List.mem_map, exists_exists_and_eq_and]
  · simpa using fun s hs => isPlain_expression (h s hs)

theorem nestedAdmits_collection {name : String} {args : List Signal} {s : Signal} (hc : isCollection name = true)
    (hlast : args.getLast? = some s) (h : s.IsPlain) :
    NestedAdmits known (.generic name args) v ↔ ∃ items, v = .list items ∧ ∀ x ∈ items, NestedAdmits known s x := by
  unfold NestedAdmits
  rw [expression_collection args hc, hlast]
  exact TypeExpr.textAdmits_array (isPlain_expression h)

theorem isAny_nameType {name : String} (h : ∀ c ∈ name.toList, isNameChar c)
    (hany : .name "any" ∈ (nameType known name).alternatives) : (nameType known name).isAny = true := by
  rcases nameType_cases known h with ⟨n, hn, -⟩ | hn <;> rw [hn] at hany ⊢
  · obtain rfl : "any" = n := by simpa [TypeExpr.alternatives] using hany
    rfl
  · simp [TypeExpr.alternatives] at hany

/-- An expression has the alternative `any` only if it is `any`. -/
theorem isAny_of_mem {s : Signal} (h : s.IsPlain) (hany : .name "any" ∈ (expression known s).alternatives) :
    (expression known s).isAny = true := by
  induction h with
  | @named name h =>
    rw [expression] at hany ⊢
    unfold nestedName at hany ⊢
    split
    · rename_i hu
      rw [if_pos hu] at hany
      simp [TypeExpr.null, TypeExpr.alternatives] at hany
    · rename_i hu
      rw [if_neg hu] at hany
      exact isAny_nameType h hany
  | @nullable inner h ih =>
    by_cases hi : (expression known inner).isAny = true
    · rw [expression, if_pos hi]
      exact hi
    · rw [expression, if_neg hi] at hany
      obtain ⟨t, ht, hany⟩ := TypeExpr.mem_allAlternatives.1 hany
      rcases List.mem_cons.1 ht with rfl | ht
      · exact absurd (ih hany) hi
      · obtain rfl := List.mem_singleton.1 ht
        simp [TypeExpr.null, TypeExpr.alternatives] at hany
  | @union items hne h ih =>
    rw [expression, expressions_eq] at hany ⊢
    unfold TypeExpr.unite at hany ⊢
    split
    · rfl
    · rename_i hi
      rw [if_neg hi] at hany
      obtain ⟨t, ht, hany⟩ := TypeExpr.mem_allAlternatives.1 hany
      obtain ⟨s, hs, rfl⟩ := List.mem_map.1 (distinctTexts_subset _ ht)
      exact absurd (List.any_eq_true.2 ⟨_, List.mem_map_of_mem hs, ih s hs hany⟩) hi
  | list | map | shape =>
    rw [expression] at hany
    simp [TypeExpr.alternatives] at hany
  | @generic name args hname h ih =>
    cases hc : isCollection name with
    | false =>
      rw [expression_generic args hc] at hany ⊢
      exact isAny_nameType hname hany
    | true =>
      rw [expression_collection args hc] at hany ⊢
      cases hlast : args.getLast? with
      | none => rfl
      | some s => simp [hlast, TypeExpr.alternatives] at hany

/-- Just what is `any` inside a type admits a value that no name stands for. -/
theorem isAny_of_nestedAdmits {s : Signal} (h : s.IsPlain) (hv : NestedAdmits known s (.named " ")) :
    (expression known s).isAny = true :=
  isAny_of_mem h (TypeExpr.any_mem_of_admits (isPlain_expression h) hv)

/-! ### At the top -/

theorem admits_named {text : String} (h : text ≠ "undefined") : (Descriptor.named text).Admits v ↔ TextAdmits text v := by
  simp [Descriptor.Admits, Descriptor.AdmitsItem, Descriptor.named, Descriptor.isUndefined, h]

theorem admits_undefined : Descriptor.undefined.Admits v ↔ v = .null := by
  simp [Descriptor.Admits, Descriptor.AdmitsItem, Descriptor.undefined, Descriptor.named, Descriptor.isUndefined]

theorem admits_any : Descriptor.any.Admits v :=
  (admits_named (by simp)).2 TypeExpr.textAdmits_any

/-- United alternatives admit what one of them does; all, if one is named `any`. -/
theorem admits_uniteDescriptors {ds : List Descriptor} :
    (∃ d ∈ uniteDescriptors ds, d.Admits v) ↔ (∃ d ∈ ds, d.isAny = true) ∨ ∃ d ∈ ds, d.Admits v := by
  unfold uniteDescriptors
  split
  · rename_i hany
    exact iff_of_true ⟨.any, List.mem_cons_self, admits_any⟩ (.inl (List.any_eq_true.1 hany))
  · rename_i hany
    rw [List.any_eq_true] at hany
    simp only [Text.mem_distinct, hany, false_or]

theorem topAdmits_nullable {inner : Signal} : TopAdmits known (.nullable inner) v ↔
    (∃ d ∈ resolve known inner, d.isAny = true) ∨ TopAdmits known inner v ∨ v = .null := by
  unfold TopAdmits
  rw [resolve, admits_uniteDescriptors]
  simp only [List.mem_append, List.mem_singleton, or_and_right, exists_or, exists_eq_left, admits_undefined]
  simp [Descriptor.isAny, Descriptor.undefined, Descriptor.named]

theorem topAdmits_union {items : List Signal} : TopAdmits known (.union items) v ↔
    (∃ s ∈ items, ∃ d ∈ resolve known s, d.isAny = true) ∨ ∃ s ∈ items, TopAdmits known s v := by
  have hflatten (P : Descriptor → Prop) : (∃ d ∈ (items.map (resolve known)).flatten, P d) ↔
      ∃ s ∈ items, ∃ d ∈ resolve known s, P d := by
    simp only [List.mem_flatten, List.mem_map, exists_exists_and_eq_and]
    constructor
    · rintro ⟨d, ⟨s, hs, hd⟩, h⟩
      exact ⟨s, hs, d, hd, h⟩
    · rintro ⟨s, hs, d, hd, h⟩
      exact ⟨d, ⟨s, hs, hd⟩, h⟩
  unfold TopAdmits
  rw [resolve, resolveAll_eq, admits_uniteDescriptors, hflatten, hflatten]

theorem topAdmits_collection {name : String} {args : List Signal} {s : Signal} (hc : isCollection name = true)
    (hlast : args.getLast? = some s) : TopAdmits known (.generic name args) v ↔
      ∃ d ∈ resolve known s, ∃ items, v = .list items ∧ ∀ x ∈ items, d.AdmitsItem x := by
  have hresolve : resolve known (.generic name args) = (resolve known s).map (·.asCollection) := by
    rw [resolve, if_pos hc, resolveAll_eq, List.getLast?_map, hlast]
    rfl
  unfold TopAdmits
  rw [hresolve]
  simp only [List.mem_map, exists_exists_and_eq_and]
  rfl

/-! ## Where the two ways agree -/

/-- A signal with one alternative that is the text of its expression agrees, unless that is `undefined`. -/
theorem agrees_of_text {s : Signal} (h : resolve known s = [.named (expression known s).text])
    (hne : (expression known s).text ≠ "undefined") : Agrees known s := by
  intro v
  unfold TopAdmits NestedAdmits
  rw [h]
  simp only [List.mem_singleton, exists_eq_left]
  exact admits_named hne

theorem agrees_named {name : String} : Agrees known (.named name) := by
  by_cases hu : (nameType known name).text = "undefined"
  · intro v
    unfold TopAdmits NestedAdmits
    rw [resolve, expression, nestedName, if_pos hu, hu]
    simp only [List.mem_singleton, exists_eq_left]
    exact admits_undefined.trans TypeExpr.textAdmits_null.symm
  · have he : expression known (.named name) = nameType known name := by rw [expression, nestedName, if_neg hu]
    exact agrees_of_text (by rw [he, resolve]) (by rwa [he])

theorem agrees_list {value : Signal} : Agrees known (.list value) := by
  refine agrees_of_text (by rw [resolve]) fun h => ?_
  have hchars := congrArg String.toList h
  rw [expression, TypeExpr.text] at hchars
  simp at hchars

theorem agrees_map {key value : Signal} : Agrees known (.map key value) := by
  refine agrees_of_text (by rw [resolve]) fun h => ?_
  have hchars := congrArg String.toList h
  rw [expression, TypeExpr.text] at hchars
  simp at hchars

theorem agrees_shape {fields : List (ShapeField Signal)} : Agrees known (.shape fields) := by
  refine agrees_of_text (by rw [resolve]) fun h => ?_
  have hchars := congrArg String.toList h
  rw [expression] at hchars
  cases hf : fieldExpressions known fields with
  | nil => simp [hf, TypeExpr.text] at hchars
  | cons f fs =>
    rw [hf, TypeExpr.text] at hchars
    simp at hchars

theorem agrees_nullable_iff {inner : Signal} (h : inner.IsPlain) (hi : Agrees known inner) :
    Agrees known (.nullable inner) ↔ IsRegular known (.nullable inner) := by
  unfold Agrees IsRegular
  simp only [topAdmits_nullable, nestedAdmits_nullable h, hi _]
  constructor
  · intro hall hany
    exact isAny_of_nestedAdmits h (((hall (.named " ")).1 (.inl hany)).resolve_right (by simp))
  · intro hregular v
    refine ⟨fun hv => hv.elim (fun hany => ?_) id, .inr⟩
    exact .inl (TypeExpr.textAdmits_of_isAny (hregular hany))

theorem agrees_union_iff {items : List Signal} (hne : items ≠ []) (h : ∀ s ∈ items, s.IsPlain)
    (hi : ∀ s ∈ items, Agrees known s) : Agrees known (.union items) ↔ IsRegular known (.union items) := by
  have hitems (v : Datum) : (∃ s ∈ items, TopAdmits known s v) ↔ ∃ s ∈ items, NestedAdmits known s v :=
    exists_congr fun s => and_congr_right fun hs => hi s hs v
  unfold Agrees IsRegular
  simp only [topAdmits_union, nestedAdmits_union hne h, hitems]
  constructor
  · intro hall hany
    obtain ⟨s, hs, hv⟩ := (hall (.named " ")).1 (.inl hany)
    exact ⟨s, hs, isAny_of_nestedAdmits (h s hs) hv⟩
  · intro hregular v
    refine ⟨fun hv => hv.elim (fun hany => ?_) id, .inr⟩
    obtain ⟨s, hs, hany⟩ := hregular hany
    exact ⟨s, hs, TypeExpr.textAdmits_of_isAny hany⟩

/-- Where each of some properties misses a value, some values are missed by all of them at once. -/
theorem exists_list_of_missing {α β : Type} {P : β → Prop} {Q : α → β → Prop} (as : List α)
    (h : ∀ a ∈ as, ∃ b, P b ∧ ¬ Q a b) : ∃ bs : List β, (∀ b ∈ bs, P b) ∧ ∀ a ∈ as, ∃ b ∈ bs, ¬ Q a b := by
  induction as with
  | nil => exact ⟨[], by simp, by simp⟩
  | cons a as ih =>
    rw [List.forall_mem_cons] at h
    obtain ⟨b, hb, hmiss⟩ := h.1
    obtain ⟨bs, hbs, hall⟩ := ih h.2
    refine ⟨b :: bs, List.forall_mem_cons.2 ⟨hb, hbs⟩, List.forall_mem_cons.2 ⟨⟨b, List.mem_cons_self, hmiss⟩, ?_⟩⟩
    intro a' ha'
    obtain ⟨b', hb', hmiss'⟩ := hall a' ha'
    exact ⟨b', List.mem_cons_of_mem _ hb', hmiss'⟩

/-- A collection admits the same lists at the top and inside just if what it collects has a greatest alternative. -/
theorem agrees_collection_iff {name : String} {args : List Signal} {s : Signal} (hc : isCollection name = true)
    (hlast : args.getLast? = some s) (h : s.IsPlain) : Agrees known (.generic name args) ↔ HasGreatest known s := by
  unfold Agrees
  simp only [topAdmits_collection hc hlast, nestedAdmits_collection hc hlast h]
  constructor
  · intro hall
    have hone (d : Descriptor) (hd : d ∈ resolve known s) (x : Datum) (hx : d.AdmitsItem x) : NestedAdmits known s x := by
      obtain ⟨items, heq, hitems⟩ := (hall (.list [x])).1 ⟨d, hd, [x], rfl, by simpa using hx⟩
      cases heq
      exact hitems x List.mem_cons_self
    refine ⟨?_, hone⟩
    by_contra hnone
    push Not at hnone
    -- A list of values that the alternatives miss, one for each, is in no alternative.
    obtain ⟨items, hitems, hmiss⟩ := exists_list_of_missing (resolve known s) hnone
    obtain ⟨d, hd, items', heq, hadmits⟩ := (hall (.list items)).2 ⟨items, rfl, hitems⟩
    cases heq
    obtain ⟨x, hx, hnot⟩ := hmiss d hd
    exact hnot (hadmits x hx)
  · rintro ⟨⟨d, hd, hgreatest⟩, hone⟩ v
    constructor
    · rintro ⟨d', hd', items, rfl, hitems⟩
      exact ⟨items, rfl, fun x hx => hone d' hd' x (hitems x hx)⟩
    · rintro ⟨items, rfl, hitems⟩
      exact ⟨d, hd, items, rfl, fun x hx => hgreatest x (hitems x hx)⟩

theorem agrees_generic_iff {name : String} {args : List Signal}
    (h : ∀ s ∈ args, s.IsPlain) : Agrees known (.generic name args) ↔ IsRegular known (.generic name args) := by
  rw [IsRegular]
  cases hc : isCollection name with
  | true =>
    rw [if_pos rfl]
    cases hlast : args.getLast? with
    | none =>
      have he : expression known (.generic name args) = .any := by rw [expression_collection args hc, hlast]; rfl
      refine iff_of_true (agrees_of_text ?_ (by rw [he]; decide)) (fun s hs => by cases hs)
      rw [he, resolve, if_pos hc, resolveAll_eq, List.getLast?_map, hlast]
      rfl
    | some s =>
      rw [agrees_collection_iff hc hlast (h s (List.mem_of_getLast? hlast))]
      simp
  | false =>
    rw [if_neg Bool.false_ne_true]
    have he : expression known (.generic name args) = nameType known name := expression_generic args hc
    have hresolve : resolve known (.generic name args) = [.named (nameType known name).text] := by
      rw [resolve, if_neg (by rw [hc]; exact Bool.false_ne_true)]
    refine ⟨fun hall hu => ?_, fun hne => agrees_of_text (by rw [he, hresolve]) (by rwa [he])⟩
    have htop : TopAdmits known (.generic name args) .null := by
      rw [TopAdmits, hresolve, hu]
      exact ⟨_, List.mem_cons_self, admits_undefined.2 rfl⟩
    have hnested := (hall .null).1 htop
    rw [NestedAdmits, he, hu, TypeExpr.textAdmits_name (.name (by simp [isNameChar, Text.isAlphanumeric]))] at hnested
    simp [nameAdmits] at hnested

/-! ## All branches at once -/

theorem forall_branch_nullable {P : Signal → Prop} {inner : Signal} :
    (∀ b, IsBranch b (.nullable inner) → P b) ↔ P (.nullable inner) ∧ ∀ b, IsBranch b inner → P b := by
  constructor
  · exact fun h => ⟨h _ (.self _), fun b hb => h b (.nullable hb)⟩
  · rintro ⟨hself, hinner⟩ b (_ | hb)
    · exact hself
    · exact hinner b hb

theorem forall_branch_union {P : Signal → Prop} {items : List Signal} :
    (∀ b, IsBranch b (.union items) → P b) ↔ P (.union items) ∧ ∀ s ∈ items, ∀ b, IsBranch b s → P b := by
  constructor
  · exact fun h => ⟨h _ (.self _), fun s hs b hb => h b (.union hs hb)⟩
  · rintro ⟨hself, hitems⟩ b (_ | _ | ⟨hs, hb⟩)
    · exact hself
    · exact hitems _ hs b hb

/-- A signal that is no union and no nullable has no branch but itself. -/
theorem agree_iff_of_other {s : Signal} (hself : ∀ b, IsBranch b s → b = s)
    (h : Agrees known s ↔ IsRegular known s) :
    (∀ b, IsBranch b s → Agrees known b) ↔ ∀ b, IsBranch b s → IsRegular known b := by
  have hone (P : Signal → Prop) : (∀ b, IsBranch b s → P b) ↔ P s :=
    ⟨fun hall => hall s (.self s), fun hs b hb => hself b hb ▸ hs⟩
  rw [hone, hone, h]

theorem branches_agree_iff {s : Signal} (h : s.IsPlain) :
    (∀ b, IsBranch b s → Agrees known b) ↔ ∀ b, IsBranch b s → IsRegular known b := by
  induction h with
  | named => exact agree_iff_of_other (fun b hb => by cases hb; rfl) (iff_of_true agrees_named trivial)
  | nullable h ih =>
    rw [forall_branch_nullable, forall_branch_nullable, ← ih]
    exact and_congr_left fun hbranches => agrees_nullable_iff h (hbranches _ (.self _))
  | union hne h ih =>
    rw [forall_branch_union, forall_branch_union, ← forall₂_congr ih]
    exact and_congr_left fun hbranches => agrees_union_iff hne h fun s hs => hbranches s hs s (.self s)
  | list => exact agree_iff_of_other (fun b hb => by cases hb; rfl) (iff_of_true agrees_list trivial)
  | map => exact agree_iff_of_other (fun b hb => by cases hb; rfl) (iff_of_true agrees_map trivial)
  | shape => exact agree_iff_of_other (fun b hb => by cases hb; rfl) (iff_of_true agrees_shape trivial)
  | generic _ h => exact agree_iff_of_other (fun b hb => by cases hb; rfl) (agrees_generic_iff h)

/-- A signal that was read and its branches at the top admit the same there and inside types if and only if each of
them is regular. The branches count one by one, as one branch may admit what another one misses. -/
theorem resolutions_agree_iff {input : String} {s : Signal} (h : parse input = .ok s) (known : List String) :
    (∀ b, IsBranch b s → Agrees known b) ↔ ∀ b, IsBranch b s → IsRegular known b :=
  branches_agree_iff (isPlain_parse h)

/-- A signal that agrees and has one alternative that is no collection can be collected. -/
theorem hasGreatest_of_single {s : Signal} {d : Descriptor} (hs : resolve known s = [d]) (hd : d.collection = false)
    (h : Agrees known s) : HasGreatest known s := by
  have hitem (v : Datum) : d.AdmitsItem v ↔ NestedAdmits known s v := by
    rw [← h v, TopAdmits, hs]
    simp [Descriptor.Admits, hd]
  unfold HasGreatest
  rw [hs]
  simp only [List.mem_singleton, exists_eq_left, forall_eq, hitem]
  exact ⟨fun _ hv => hv, fun _ hv => hv⟩

theorem nullable_collection_agrees : ∃ s, parse "?Collection<Tag>" = .ok s ∧
    (∀ b, IsBranch b s → IsRegular ["Tag"] b) ∧ ∀ b, IsBranch b s → Agrees ["Tag"] b := by
  have hcollection : ∀ c ∈ ['C', 'o', 'l', 'l', 'e', 'c', 't', 'i', 'o', 'n'], isNameChar c = true := by
    simp [isNameChar, Text.isAlphanumeric]
  have hother : isListKeyword (String.ofList ['C', 'o', 'l', 'l', 'e', 'c', 't', 'i', 'o', 'n']) = false := by
    decide +kernel
  have htag : ∀ c ∈ ['T', 'a', 'g'], isNameChar c = true := by simp [isNameChar, Text.isAlphanumeric]
  have hparse : parse "?Collection<Tag>" = .ok (.nullable (.generic "Collection" [.named "Tag"])) := by
    refine parse_eq_ok.2 (read_eq_ok.2 ⟨⟨.union (.nullable ⟨[], by simp⟩ (.plain (.generic ⟨[], by simp⟩
      ⟨⟨_, by simp, hcollection⟩, hother⟩ ⟨[], by simp⟩ (.argument (.union (.plain (.name ⟨[], by simp⟩
        ⟨_, by simp, htag⟩) []) .noMore)) ⟨[], by simp⟩) [])) .noMore, ⟨[], by simp⟩⟩, ?_, rfl⟩)
    simp [Derivation.text, Phrase.text, Gap.mark, bracketsText]
  have hregular : ∀ b, IsBranch b (.nullable (.generic "Collection" [.named "Tag"])) → IsRegular ["Tag"] b := by
    rw [forall_branch_nullable]
    refine ⟨?_, fun b hb => ?_⟩
    · have hnone : ¬ ∃ d ∈ resolve ["Tag"] (.generic "Collection" [.named "Tag"]), d.isAny = true := by decide +kernel
      exact fun hany => absurd hany hnone
    · cases hb
      rw [IsRegular, if_pos (by decide +kernel)]
      intro s hs
      obtain rfl : Signal.named "Tag" = s := by simpa using hs
      have htag : resolve ["Tag"] (.named "Tag") = [.named "Tag"] := by decide +kernel
      exact hasGreatest_of_single htag rfl agrees_named
  exact ⟨_, hparse, hregular, (resolutions_agree_iff hparse ["Tag"]).2 hregular⟩

/-- A list of lists is in a collection of collections, but at the top that is a list of numbers. -/
theorem nested_collection_differs : ∃ s v, parse "Collection<Collection<int>>" = .ok s ∧ NestedAdmits [] s v ∧
    ¬ TopAdmits [] s v := by
  have htypes : (parse "Collection<Collection<int>>").toOption.map (fun s => (resolve [] s, (expression [] s).text)) =
      some ([(Descriptor.named "number").asCollection], "Array<Array<number>>") := by decide +kernel
  obtain ⟨s, hs, htypes⟩ := Option.map_eq_some_iff.1 htypes
  obtain ⟨htop, hnested⟩ := Prod.mk.inj htypes
  have hnumber : (TypeExpr.name "number").IsPlain := .name (by simp [isNameChar, Text.isAlphanumeric])
  refine ⟨s, .list [.list []], toOption_eq_some.1 hs, ?_, ?_⟩
  · have htext : "Array<Array<number>>" = (TypeExpr.array (.array (.name "number"))).text := by decide +kernel
    rw [NestedAdmits, hnested, htext, TypeExpr.textAdmits_array (.array hnumber)]
    refine ⟨[.list []], rfl, List.forall_mem_singleton.2 ?_⟩
    exact (TypeExpr.textAdmits_array hnumber).2 ⟨[], rfl, by simp⟩
  · rw [TopAdmits, htop]
    rintro ⟨d, hd, hadmits⟩
    cases List.mem_singleton.1 hd
    obtain ⟨items, heq, hitems⟩ := hadmits
    cases heq
    have hitem : TextAdmits "number" (.list []) := hitems _ List.mem_cons_self
    rw [TypeExpr.textAdmits_name hnumber] at hitem
    simp [nameAdmits] at hitem

end EntityScript.Signal
