import EntityScript.Proofs.Resolution
import EntityScript.Proofs.TypeReading
/-!
# What types admit

The values that a type admits, from its text alone. A union admits what one of its alternatives does, and `any`
admits everything. A descriptor admits what its name does, or lists of that if it is a collection; the name
`undefined` stands for null there.
-/

namespace EntityScript

/-- Values, as far as types tell them apart. -/
inductive Datum
  | null
  /-- A value of a type that has a name. -/
  | named (type : String)
  | list (items : List Datum)
  /-- Values under keys of one type. -/
  | dictionary (entries : List (Datum × Datum))
  /-- Values under keys of their own. -/
  | record (fields : List (String × Datum))

/-- Whether a name admits a value. -/
def nameAdmits (name : String) (v : Datum) : Prop :=
  if name = "any" then True else if name = "null" then v = .null else v = .named name

mutual

def Alternative.Admits : Alternative → Datum → Prop
  | .name n, v => nameAdmits n v
  | .array element, v => ∃ items, v = .list items ∧ ∀ x ∈ items, AnyAdmits element x
  | .index key value, v =>
    ∃ entries, v = .dictionary entries ∧ ∀ p ∈ entries, AnyAdmits key p.1 ∧ AnyAdmits value p.2
  | .object fields, v => ∃ values, v = .record values ∧ FieldsAdmit fields values

/-- Whether one of some alternatives admits a value. -/
def AnyAdmits : List Alternative → Datum → Prop
  | [], _ => False
  | a :: as, v => a.Admits v ∨ AnyAdmits as v

/-- Whether there is a value for each field that needs one, and each has the type of its field. -/
def FieldsAdmit : List (String × Bool × List Alternative) → List (String × Datum) → Prop
  | [], _ => True
  | (key, optional, type) :: fields, values =>
    (match values.lookup key with
      | some x => AnyAdmits type x
      | none => optional = true) ∧ FieldsAdmit fields values

end

/-- Whether the type that a text writes admits a value. -/
def TextAdmits (text : String) (v : Datum) : Prop :=
  ∃ type, readTypeText? text = some type ∧ AnyAdmits type v

namespace Descriptor

/-- Whether a value is one of the type that a descriptor names; `undefined` stands for null. -/
def AdmitsItem (d : Descriptor) (v : Datum) : Prop :=
  if d.isUndefined then v = .null else TextAdmits d.name v

/-- Whether a descriptor admits a value; a collection admits lists. -/
def Admits (d : Descriptor) (v : Datum) : Prop :=
  if d.collection then ∃ items, v = .list items ∧ ∀ x ∈ items, d.AdmitsItem x else d.AdmitsItem v

end Descriptor

/-! ## Expressions -/

theorem anyAdmits_iff {as : List Alternative} {v : Datum} : AnyAdmits as v ↔ ∃ a ∈ as, a.Admits v := by
  induction as with
  | nil => simp [AnyAdmits]
  | cons a as ih => simp [AnyAdmits, ih]

namespace TypeExpr

variable {t : TypeExpr} {ts : List TypeExpr} {v : Datum}

theorem textAdmits_iff (h : t.IsPlain) : TextAdmits t.text v ↔ AnyAdmits t.alternatives v := by
  simp [TextAdmits, readTypeText?_text h]

theorem isPlain_any : any.IsPlain :=
  .name (by simp [Signal.isNameChar, Text.isAlphanumeric])

theorem isPlain_null : null.IsPlain :=
  .name (by simp [Signal.isNameChar, Text.isAlphanumeric])

theorem textAdmits_name {n : String} (h : (name n).IsPlain) : TextAdmits n v ↔ nameAdmits n v := by
  refine (textAdmits_iff h).trans ?_
  simp [alternatives, AnyAdmits, Alternative.Admits]

/-- All is of type `any`. -/
theorem textAdmits_any : TextAdmits "any" v :=
  (textAdmits_name isPlain_any).2 (by simp [nameAdmits])

theorem textAdmits_null : TextAdmits "null" v ↔ v = .null :=
  (textAdmits_name isPlain_null).trans (by simp [nameAdmits])

theorem textAdmits_array (h : t.IsPlain) :
    TextAdmits (array t).text v ↔ ∃ items, v = .list items ∧ ∀ x ∈ items, TextAdmits t.text x := by
  simp [textAdmits_iff (.array h), textAdmits_iff h, alternatives, AnyAdmits, Alternative.Admits]

/-- A union admits what one of its items does. -/
theorem textAdmits_union (hne : ts ≠ []) (h : ∀ t ∈ ts, t.IsPlain) :
    TextAdmits (union ts).text v ↔ ∃ t ∈ ts, TextAdmits t.text v := by
  rw [textAdmits_iff (.union hne h), alternatives]
  simp only [anyAdmits_iff, mem_allAlternatives]
  constructor
  · rintro ⟨a, ⟨t, ht, ha⟩, hv⟩
    exact ⟨t, ht, (textAdmits_iff (h t ht)).2 (anyAdmits_iff.2 ⟨a, ha, hv⟩)⟩
  · rintro ⟨t, ht, hv⟩
    obtain ⟨a, ha, hv⟩ := anyAdmits_iff.1 ((textAdmits_iff (h t ht)).1 hv)
    exact ⟨a, ⟨t, ht, ha⟩, hv⟩

theorem textAdmits_of_isAny (h : t.isAny = true) : TextAdmits t.text v := by
  rw [isAny, beq_iff_eq] at h
  rw [h]
  exact textAdmits_any

theorem exists_mem_distinctTexts (h : t ∈ ts) : ∃ u ∈ distinctTexts ts, u.text = t.text := by
  induction ts with
  | nil => cases h
  | cons t' ts ih =>
    by_cases htext : t.text = t'.text
    · exact ⟨t', List.mem_cons_self, htext.symm⟩
    · rcases List.mem_cons.1 h with rfl | h
      · exact absurd rfl htext
      · obtain ⟨u, hu, hut⟩ := ih h
        refine ⟨u, List.mem_cons_of_mem _ (List.mem_filter.2 ⟨hu, ?_⟩), hut⟩
        simpa [hut] using htext

theorem isPlain_unite (hne : ts ≠ []) (h : ∀ t ∈ ts, t.IsPlain) : (unite ts).IsPlain := by
  unfold unite
  split
  · exact isPlain_any
  · obtain ⟨t, ht⟩ := List.exists_mem_of_ne_nil ts hne
    obtain ⟨u, hu, -⟩ := exists_mem_distinctTexts ht
    exact .union (List.ne_nil_of_mem hu) fun u hu => h u (Signal.distinctTexts_subset ts hu)

/-- A union admits what one of its items does, also if `any` absorbs the others. -/
theorem textAdmits_unite (hne : ts ≠ []) (h : ∀ t ∈ ts, t.IsPlain) :
    TextAdmits (unite ts).text v ↔ ∃ t ∈ ts, TextAdmits t.text v := by
  unfold unite
  split
  · rename_i hany
    obtain ⟨t, ht, hany⟩ := List.any_eq_true.1 hany
    exact iff_of_true textAdmits_any ⟨t, ht, textAdmits_of_isAny hany⟩
  · obtain ⟨t, ht⟩ := List.exists_mem_of_ne_nil ts hne
    obtain ⟨u, hu, -⟩ := exists_mem_distinctTexts ht
    rw [textAdmits_union (List.ne_nil_of_mem hu) fun u hu => h u (Signal.distinctTexts_subset ts hu)]
    constructor
    · rintro ⟨u, hu, hv⟩
      exact ⟨u, Signal.distinctTexts_subset ts hu, hv⟩
    · rintro ⟨t, ht, hv⟩
      obtain ⟨u, hu, htext⟩ := exists_mem_distinctTexts ht
      exact ⟨u, hu, htext ▸ hv⟩

/-- Just `any` admits a value of a type that no text names. -/
theorem any_mem_of_admits (h : t.IsPlain) (hv : TextAdmits t.text (.named " ")) : .name "any" ∈ t.alternatives := by
  obtain ⟨a, ha, hv⟩ := anyAdmits_iff.1 ((textAdmits_iff h).1 hv)
  cases a with
  | name n =>
    simp only [Alternative.Admits, nameAdmits] at hv
    split at hv
    · rename_i hn
      rwa [← hn]
    · split at hv
      · cases hv
      · obtain rfl : " " = n := by simpa using hv
        cases isPlain_alternatives h _ ha with
        | name hplain => simp [Signal.isNameChar, Text.isAlphanumeric] at hplain
  | array element => simp [Alternative.Admits] at hv
  | index key value => simp [Alternative.Admits] at hv
  | object fields => simp [Alternative.Admits] at hv

end TypeExpr

end EntityScript
