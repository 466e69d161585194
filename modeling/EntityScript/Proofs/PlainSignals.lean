import EntityScript.Proofs.Acceptance
import EntityScript.Proofs.Meaning
/-!
# Signals that are read and their expressions

The names and keys of a signal that was read are made of name characters, and no union in it is empty. So the text of
its expression reads back.
-/

namespace EntityScript.Signal

/-! ## Signals that can be read -/

/-- Whether names and keys are made of name characters, and no union is empty. -/
inductive IsPlain : Signal → Prop
  | named {name : String} (h : ∀ c ∈ name.toList, isNameChar c) : IsPlain (.named name)
  | nullable {inner : Signal} (h : IsPlain inner) : IsPlain (.nullable inner)
  | union {items : List Signal} (hne : items ≠ []) (h : ∀ s ∈ items, IsPlain s) : IsPlain (.union items)
  | list {value : Signal} (h : IsPlain value) : IsPlain (.list value)
  | map {key value : Signal} (hk : IsPlain key) (hv : IsPlain value) : IsPlain (.map key value)
  | shape {fields : List (ShapeField Signal)} (hkeys : ∀ f ∈ fields, ∀ c ∈ f.key.toList, isNameChar c)
    (h : ∀ f ∈ fields, IsPlain f.type) : IsPlain (.shape fields)
  | generic {name : String} {args : List Signal} (hname : ∀ c ∈ name.toList, isNameChar c)
    (h : ∀ s ∈ args, IsPlain s) : IsPlain (.generic name args)

/-- Whether what a symbol writes is plain. -/
def Symbol.IsPlain : (k : Symbol) → k.Value → Prop
  | .union, s | .item, s | .primary, s => Signal.IsPlain s
  | .alternatives, ss | .arguments, ss => ∀ s ∈ ss, Signal.IsPlain s
  | .fields, fs => ∀ f ∈ fs, (∀ c ∈ f.key.toList, isNameChar c) ∧ Signal.IsPlain f.type

theorem NameText.nameChar_word (n : NameText) : ∀ c ∈ n.word.toList, isNameChar c := by
  simpa [NameText.word] using n.nameChar

theorem isPlain_ofAlternatives {first : Signal} {more : List Signal} (hf : first.IsPlain)
    (hm : ∀ s ∈ more, s.IsPlain) : (ofAlternatives first more).IsPlain := by
  cases more with
  | nil => exact hf
  | cons s ss => exact .union (by simp) (List.forall_mem_cons.2 ⟨hf, hm⟩)

theorem isPlain_brackets (gs : List Gap) {s : Signal} (h : s.IsPlain) :
    (gs.foldl (fun s _ => Signal.list s) s).IsPlain := by
  induction gs generalizing s with
  | nil => exact h
  | cons g gs ih => exact ih (.list h)

/-- What a phrase writes is plain. -/
theorem Phrase.isPlain_value {k : Symbol} (d : Phrase k) : k.IsPlain d.value := by
  induction d with
  | union _ _ hf hm => exact isPlain_ofAlternatives hf hm
  | noMore => exact fun _ h => absurd h List.not_mem_nil
  | bar _ _ _ hi hm => exact List.forall_mem_cons.2 ⟨hi, hm⟩
  | nullable _ _ hi => exact .nullable hi
  | plain _ brackets hp => exact isPlain_brackets brackets hp
  | parenthesized _ _ _ hu => exact hu
  | name _ n => exact .named n.nameChar_word
  | shape _ n _ _ hf => exact .shape (fun f hmem => (hf f hmem).1) fun f hmem => (hf f hmem).2
  | list _ n _ _ _ hv => exact .list hv
  | map _ n _ _ _ _ _ hk hv => exact .map hk hv
  | generic _ n _ _ _ ha => exact .generic n.nameChar_word ha
  | argument _ hl => exact List.forall_mem_singleton.2 hl
  | comma _ _ _ hf hm => exact List.forall_mem_cons.2 ⟨hf, hm⟩
  | noField => exact fun _ h => absurd h List.not_mem_nil
  | lastField head _ _ ht => exact List.forall_mem_singleton.2 ⟨head.key.nameChar_word, ht⟩
  | field head _ _ _ ht hm => exact List.forall_mem_cons.2 ⟨⟨head.key.nameChar_word, ht⟩, hm⟩

theorem isPlain_parse {input : String} {s : Signal} (h : parse input = .ok s) : s.IsPlain := by
  obtain ⟨d, -, rfl⟩ := read_eq_ok.1 (parse_eq_ok.1 h)
  exact d.union.isPlain_value

/-! ## Expressions of plain signals -/

variable {known : List String}

theorem expressions_eq (known : List String) (ss : List Signal) : expressions known ss = ss.map (expression known) := by
  induction ss with
  | nil => rw [expressions, List.map_nil]
  | cons s ss ih => rw [expressions, List.map_cons, ih]

theorem resolveAll_eq (known : List String) (ss : List Signal) : resolveAll known ss = ss.map (resolve known) := by
  induction ss with
  | nil => rw [resolveAll, List.map_nil]
  | cons s ss ih => rw [resolveAll, List.map_cons, ih]

theorem mem_fieldExpressions {f : String × Bool × TypeExpr} {fields : List (ShapeField Signal)} :
    f ∈ fieldExpressions known fields ↔ ∃ g ∈ fields, f = (g.key, g.optional, expression known g.type) := by
  induction fields with
  | nil => simp [fieldExpressions]
  | cons g fields ih => simp [fieldExpressions, ih]

theorem expression_collection {name : String} (args : List Signal) (h : isCollection name = true) :
    expression known (.generic name args) = (args.getLast?.map fun e => .array (expression known e)).getD .any := by
  rw [expression, if_pos h, expressions_eq, List.getLast?_map]
  cases args.getLast? <;> rfl

theorem expression_generic {name : String} (args : List Signal) (h : isCollection name = false) :
    expression known (.generic name args) = nameType known name := by
  rw [expression, if_neg (by rw [h]; exact Bool.false_ne_true)]

theorem mem_afterLastBackslash {c : Char} {cs : List Char} (h : c ∈ Name.afterLastBackslash cs) : c ∈ cs := by
  induction cs with
  | nil => exact h
  | cons d cs ih =>
    unfold Name.afterLastBackslash at h
    split at h
    · exact List.mem_cons_of_mem _ (ih h)
    · split at h
      · exact List.mem_cons_of_mem _ h
      · exact h

/-- The type of a name is a name or a list of anything. -/
theorem nameType_cases (known : List String) {name : String} (h : ∀ c ∈ name.toList, isNameChar c) :
    (∃ n, nameType known name = .name n ∧ ∀ c ∈ n.toList, isNameChar c) ∨ nameType known name = .array .any := by
  have hscalars : ∀ s ∈ scalars, ∀ c ∈ s.2.toList, isNameChar c := by
    simp [scalars, isNameChar, Text.isAlphanumeric]
  unfold nameType
  simp only
  split
  · rename_i type hs
    obtain ⟨l₁, l₂, hl, -⟩ := List.lookup_eq_some_iff.1 hs
    exact .inl ⟨_, rfl, hscalars (Text.lowerAscii (Name.base name), type) (by simp [hl])⟩
  · split
    · exact .inr rfl
    · split
      · refine .inl ⟨_, rfl, fun c hc => h c ?_⟩
        rw [Name.base, String.toList_ofList] at hc
        exact (List.dropWhile_sublist _).subset (mem_afterLastBackslash hc)
      · exact .inl ⟨"any", rfl, by simp [isNameChar, Text.isAlphanumeric]⟩

theorem isPlain_nameType (known : List String) {name : String} (h : ∀ c ∈ name.toList, isNameChar c) :
    (nameType known name).IsPlain := by
  rcases nameType_cases known h with ⟨n, hn, hplain⟩ | hn <;> rw [hn]
  · exact .name hplain
  · exact .array TypeExpr.isPlain_any

theorem isPlain_nestedName {t : TypeExpr} (h : t.IsPlain) : (nestedName t).IsPlain := by
  unfold nestedName
  split
  · exact TypeExpr.isPlain_null
  · exact h

theorem isPlain_expression {s : Signal} (h : s.IsPlain) : (expression known s).IsPlain := by
  induction h with
  | named h =>
    rw [expression]
    exact isPlain_nestedName (isPlain_nameType known h)
  | nullable _ ih =>
    rw [expression]
    split
    · exact ih
    · exact .union (by simp) (by simpa [TypeExpr.isPlain_null] using ih)
  | union hne _ ih =>
    rw [expression, expressions_eq]
    exact TypeExpr.isPlain_unite (by simpa using hne) (by simpa using ih)
  | list _ ih =>
    rw [expression]
    exact .array ih
  | map _ _ ihk ihv =>
    rw [expression]
    exact .index ihk ihv
  | shape hkeys _ ih =>
    rw [expression]
    refine .object ?_ ?_ <;> intro f hf <;> obtain ⟨g, hg, rfl⟩ := mem_fieldExpressions.1 hf
    · exact hkeys g hg
    · exact ih g hg
  | @generic name args hname _ ih =>
    cases hc : isCollection name with
    | false =>
      rw [expression_generic args hc]
      exact isPlain_nameType known hname
    | true =>
      rw [expression_collection args hc]
      cases hlast : args.getLast? with
      | none => exact TypeExpr.isPlain_any
      | some e => exact .array (ih e (List.mem_of_getLast? hlast))

end EntityScript.Signal
