import EntityScript.Proofs.Constants
import EntityScript.Proofs.Meaning
import EntityScript.Toml.Reader
/-!
# Types of constants

The type of a constant and its value are computed apart, from the same TOML value. They agree unless a number that
JSON has no text for is declared as a number: its value is then `null`.
-/

namespace EntityScript

/-! ## What literals are values of -/

namespace Literal

mutual

/-- What a literal is a value of. -/
def datum : Literal → Datum
  | null => .null
  | boolean _ => .named "boolean"
  | number _ => .named "number"
  | string _ => .named "string"
  | array items => .list (data items)
  | object entries => .record (entryData entries)

def data : List Literal → List Datum
  | [] => []
  | item :: items => item.datum :: data items

def entryData : List (StringLiteral × Literal) → List (String × Datum)
  | [] => []
  | (key, value) :: entries => (key.text, value.datum) :: entryData entries

end

end Literal

/-- What the JSON of an array is a value of, item by item. -/
theorem Json.data_literals (style : QuoteStyle) (vs : List Toml.Value) :
    Literal.data (literals style (ofTomls vs)) = vs.map fun v => ((ofToml v).literal style).datum := by
  induction vs with
  | nil => rfl
  | cons v vs ih => rw [ofTomls, literals, Literal.data, ih, List.map_cons]

/-! ## Numbers without a text -/

namespace Toml.Value

/-- The numbers of all kinds. -/
def isNumber : Value → Bool
  | integer _ | float _ | oversized => true
  | _ => false

/-- The numbers that JSON has a text for. -/
def isFinite : Value → Bool
  | integer _ | float (.finite ..) => true
  | _ => false

/-- The items of an array. -/
def items : Value → List Value
  | array items => items
  | _ => []

/-- Whether a value is written as one of the type that it is declared with: it is no number that JSON has no text
for, and no array of numbers with such a number in it. -/
def Fits (v : Value) : Prop :=
  (v.isNumber = true → v.isFinite = true) ∧
    ((∀ x ∈ v.items, x.isNumber = true) → ∀ x ∈ v.items, x.isFinite = true)

instance (v : Value) : Decidable v.Fits :=
  inferInstanceAs (Decidable (_ ∧ _))

end Toml.Value

namespace Constant

open Toml (Value)

theorem scalarType?_eq_number {v : Value} : scalarType? v = some "number" ↔ v.isNumber = true := by
  cases v <;> simp [scalarType?, Value.isNumber]

/-- The types that values are declared with, other than those of arrays. -/
def plainTypes : List String :=
  ["string", "number", "boolean", "any"]

theorem scalarType?_mem {v : Value} {type : String} (h : scalarType? v = some type) :
    type ∈ plainTypes ∧ type ≠ "any" := by
  cases v <;> cases h <;> decide

/-- The elements of an array are declared with the one type that they all have, or else with `any`. -/
theorem elementType_cases (items : List Value) :
    (items ≠ [] ∧ ∀ x ∈ items, scalarType? x = some (elementType items)) ∨
      elementType items = "any" ∧ (items ≠ [] → ∀ type, ∃ x ∈ items, scalarType? x ≠ some type) := by
  cases items with
  | nil => exact .inr ⟨rfl, fun h => absurd rfl h⟩
  | cons first rest =>
    cases hfirst : scalarType? first with
    | none => exact .inr ⟨by simp [elementType, hfirst], fun _ type => ⟨first, by simp [hfirst]⟩⟩
    | some type =>
      by_cases hrest : ∀ x ∈ rest, scalarType? x = some type
      · refine .inl ⟨List.cons_ne_nil _ _, ?_⟩
        have helement : elementType (first :: rest) = type := by
          simp only [elementType, hfirst]
          exact if_pos (by simpa using hrest)
        rw [helement, List.forall_mem_cons]
        exact ⟨hfirst, hrest⟩
      · push Not at hrest
        obtain ⟨x, hx, hne⟩ := hrest
        refine .inr ⟨?_, fun _ other => ?_⟩
        · simp only [elementType, hfirst]
          rw [if_neg]
          simpa using ⟨x, hx, hne⟩
        · by_cases hother : type = other
          · exact ⟨x, List.mem_cons_of_mem _ hx, hother ▸ hne⟩
          · exact ⟨first, List.mem_cons_self, by simpa [hfirst] using hother⟩

theorem elementType_mem (items : List Value) : elementType items ∈ plainTypes := by
  rcases elementType_cases items with ⟨hne, hall⟩ | ⟨hany, -⟩
  · obtain ⟨x, hx⟩ := List.exists_mem_of_ne_nil items hne
    exact (scalarType?_mem (hall x hx)).1
  · rw [hany]
    decide

/-- A constant is declared with a plain type, or with arrays of one. -/
theorem type_cases (v : Value) :
    (∃ type ∈ plainTypes, Constant.type v = .named type) ∨
      ∃ type ∈ plainTypes, Constant.type v = .named (TypeExpr.array (.name type)).text := by
  unfold Constant.type
  split
  · rename_i type h
    exact .inl ⟨type, (scalarType?_mem h).1, rfl⟩
  · rename_i items _
    exact .inr ⟨elementType items, elementType_mem items, by rfl⟩
  · exact .inl ⟨"any", by decide, rfl⟩

/-- A constant is declared with the name of its type. -/
theorem typeText_member (name : String) (v : Value) (o : Options) :
    (member name v).typeText (.regular o) = (Constant.type v).name := by
  obtain ⟨type, heq, hdate, hundefined⟩ :
      ∃ type, Constant.type v = .named type ∧ type ≠ "Date" ∧ type ≠ "undefined" := by
    rcases type_cases v with ⟨type, htype, heq⟩ | ⟨type, htype, heq⟩
    · have hnames : ∀ type ∈ plainTypes, type ≠ "Date" ∧ type ≠ "undefined" := by decide
      exact ⟨_, heq, hnames type htype⟩
    · have hnames : ∀ type ∈ plainTypes, (TypeExpr.array (.name type)).text ≠ "Date" ∧
          (TypeExpr.array (.name type)).text ≠ "undefined" := by decide
      exact ⟨_, heq, hnames type htype⟩
  have hrename : (Context.regular o).rename type = type := rfl
  simp [member, Member.constant, Member.withTypes, Member.typeText, Member.writtenTypes, heq, Descriptor.named,
    Descriptor.isUndefined, hundefined, Descriptor.text, Descriptor.elementText, Descriptor.requiredKeys?,
    Descriptor.nameText, Descriptor.isDate, hdate, hrename, Text.distinct, Text.join]

/-! ## Values of their types -/

theorem isPlain_name {type : String} (h : type ∈ plainTypes) : (TypeExpr.name type).IsPlain := by
  have hnames : ∀ type ∈ plainTypes, type.toList.all Signal.isNameChar = true := by decide +kernel
  exact .name (List.all_eq_true.1 (hnames type h))

/-- A scalar is written as one of its type unless it is a number without a text. -/
theorem textAdmits_scalar {v : Value} {type : String} (h : scalarType? v = some type) (style : QuoteStyle) :
    TextAdmits type ((Json.ofToml v).literal style).datum ↔ (v.isNumber = true → v.isFinite = true) := by
  rw [TypeExpr.textAdmits_name (isPlain_name (scalarType?_mem h).1)]
  cases v with
  | float x =>
    cases x <;> cases h <;>
      simp [nameAdmits, Json.ofToml, Json.literal, Literal.datum, Value.isNumber, Value.isFinite]
  | _ => cases h <;> simp [nameAdmits, Json.ofToml, Json.literal, Literal.datum, Value.isNumber, Value.isFinite]

/-- An array is written as one of its type unless it is declared with numbers and one of them has no text. -/
theorem textAdmits_array (items : List Value) (style : QuoteStyle) :
    TextAdmits (TypeExpr.array (.name (elementType items))).text ((Json.ofToml (.array items)).literal style).datum ↔
      ((∀ x ∈ items, x.isNumber = true) → ∀ x ∈ items, x.isFinite = true) := by
  have hdatum : ((Json.ofToml (.array items)).literal style).datum =
      .list (items.map fun x => ((Json.ofToml x).literal style).datum) := by
    rw [Json.ofToml, Json.literal, Literal.datum, Json.data_literals]
  rw [hdatum, TypeExpr.textAdmits_array (isPlain_name (elementType_mem items))]
  simp only [Datum.list.injEq, exists_eq_left', List.forall_mem_map, TypeExpr.text]
  rcases elementType_cases items with ⟨hne, hall⟩ | ⟨hany, hmixed⟩
  · have hitem (x : Value) (hx : x ∈ items) := textAdmits_scalar (hall x hx) style
    constructor
    · intro h hnumbers x hx
      exact (hitem x hx).1 (h x hx) (hnumbers x hx)
    · intro h x hx
      refine (hitem x hx).2 fun hnumber => h (fun y hy => ?_) x hx
      rw [← scalarType?_eq_number, hall y hy, ← hall x hx, scalarType?_eq_number]
      exact hnumber
  · rw [hany]
    refine iff_of_true (fun x _ => TypeExpr.textAdmits_any) fun hnumbers => ?_
    cases items with
    | nil => simp
    | cons first rest =>
      obtain ⟨x, hx, hother⟩ := hmixed (List.cons_ne_nil _ _) "number"
      exact absurd (scalarType?_eq_number.2 (hnumbers x hx)) hother

/-- The value of a constant reads as a literal, which is one of the declared type just if the value fits: any value
of any size does, other than a number that JSON has no text for and an array of numbers that holds one. -/
theorem value_of_type_iff (name : String) (v : Value) (o : Options) :
    ∃ value literal, (member name v).initialText? (.regular o) = some value ∧ Literal.read? value = some literal ∧
      (TextAdmits ((member name v).typeText (.regular o)) literal.datum ↔ v.Fits) := by
  refine ⟨_, _, rfl, (requote_reads v o.stringQuotes).1, ?_⟩
  rw [typeText_member, Value.Fits]
  cases hscalar : scalarType? v with
  | some type =>
    have htype : (Constant.type v).name = type := by simp [Constant.type, hscalar, Descriptor.named]
    have hitems : v.items = [] := by cases v <;> cases hscalar <;> rfl
    rw [htype, textAdmits_scalar hscalar, hitems]
    simp
  | none =>
    cases v with
    | array items =>
      refine (textAdmits_array items o.stringQuotes).trans ?_
      simp [Value.isNumber, Value.items]
    | table entries =>
      refine iff_of_true TypeExpr.textAdmits_any ?_
      simp [Value.isNumber, Value.items]
    | _ => cases hscalar

/-- Numbers beside a text, in an array: what has no text for JSON is an element of type `any` here. -/
theorem value_of_type_mixed : ∃ value literal,
    (member "MIXED" (.array [.integer 1, .float .nan, .string "x"])).initialText? (.regular {}) = some value ∧
      Literal.read? value = some literal ∧ TextAdmits
        ((member "MIXED" (.array [.integer 1, .float .nan, .string "x"])).typeText (.regular {})) literal.datum := by
  obtain ⟨value, literal, hvalue, hread, hiff⟩ :=
    value_of_type_iff "MIXED" (.array [.integer 1, .float .nan, .string "x"]) {}
  exact ⟨value, literal, hvalue, hread, hiff.2 (by decide)⟩

/-- A constant that is not a number is declared as one and written as `null`. -/
theorem nan_without_type : Toml.read? "RATIO=nan\n" = some [("RATIO", Value.float .nan)] ∧
    (member "RATIO" (.float .nan)).text (.regular {}) = "public static readonly RATIO: number = null" ∧
    (member "RATIO" (.float .nan)).typeText (.regular {}) = "number" ∧
    (member "RATIO" (.float .nan)).initialText? (.regular {}) = some "null" ∧
    Literal.read? "null" = some .null ∧ ¬ TextAdmits "number" Literal.null.datum := by
  refine ⟨by rfl, by decide, by decide, by decide, by rfl, ?_⟩
  rw [TypeExpr.textAdmits_name (isPlain_name (by decide))]
  simp [nameAdmits, Literal.datum]

end Constant

end EntityScript
