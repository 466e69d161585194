import EntityScript.Json
import EntityScript.Quote
import EntityScript.Proofs.Literals
/-!
# JSON in either quote style

JSON text is brought into a quote style character by character. The outcome is the text of the same value, with
every string written in the style and all else as it was.
-/

namespace EntityScript

open Text

/-! ## The text in a style -/

theorem mem_of_lookup {α β : Type} [BEq α] [LawfulBEq α] {l : List (α × β)} {a : α} {b : β} (h : l.lookup a = some b) :
    (a, b) ∈ l := by
  obtain ⟨l₁, l₂, rfl, -⟩ := List.lookup_eq_some_iff.1 h
  simp

namespace QuoteStyle

/-- A character inside a string that was brought into the style. -/
def jsonChar : QuoteStyle → Char → List Char
  | double, c => Json.escapeChar c
  | single, c =>
    if c = '"' then ['"']
    else if c = '\'' then ['\\', '\'']
    else Json.escapeChar c

def jsonString (style : QuoteStyle) (s : String) : List Char :=
  style.char :: (s.toList.flatMap style.jsonChar ++ [style.char])

end QuoteStyle

namespace Json

mutual

/-- The text of a value that was brought into a quote style. -/
def chars (style : QuoteStyle) : Json → List Char
  | null => "null".toList
  | boolean truth => (if truth then "true" else "false").toList
  | integer number => (toString number).toList
  | float number => number.text.toList
  | string s => style.jsonString s
  | array items => '[' :: itemChars style items
  | object entries => '\x7b' :: entryChars style entries

/-- What stands behind an opening bracket. -/
def itemChars (style : QuoteStyle) : List Json → List Char
  | [] => [']']
  | [item] => item.chars style ++ [']']
  | item :: next :: items => item.chars style ++ ',' :: itemChars style (next :: items)

/-- What stands behind an opening brace. -/
def entryChars (style : QuoteStyle) : List (String × Json) → List Char
  | [] => ['\x7d']
  | [(key, value)] => style.jsonString key ++ ':' :: (value.chars style ++ ['\x7d'])
  | (key, value) :: next :: entries =>
    style.jsonString key ++ ':' :: (value.chars style ++ ',' :: entryChars style (next :: entries))

end

mutual

/-- The literal of a value with all strings in a quote style. -/
def literal (style : QuoteStyle) : Json → Literal
  | null => .null
  | boolean truth => .boolean truth
  | integer number => .number (toString number)
  | float number => .number number.text
  | string s => .string ⟨style, s⟩
  | array items => .array (literals style items)
  | object entries => .object (entryLiterals style entries)

def literals (style : QuoteStyle) : List Json → List Literal
  | [] => []
  | item :: items => item.literal style :: literals style items

def entryLiterals (style : QuoteStyle) : List (String × Json) → List (StringLiteral × Literal)
  | [] => []
  | (key, value) :: entries => (⟨style, key⟩, value.literal style) :: entryLiterals style entries

end

mutual

/-- Whether every number in a value has the text of one. -/
def HasNumbers : Json → Prop
  | integer number => Literal.isNumber (toString number).toList
  | float number => Literal.isNumber number.text.toList
  | array items => HaveNumbers items
  | object entries => EntriesHaveNumbers entries
  | _ => True

def HaveNumbers : List Json → Prop
  | [] => True
  | item :: items => item.HasNumbers ∧ HaveNumbers items

def EntriesHaveNumbers : List (String × Json) → Prop
  | [] => True
  | (_, value) :: entries => value.HasNumbers ∧ EntriesHaveNumbers entries

end

theorem quote_toList (s : String) : (quote s).toList = QuoteStyle.double.jsonString s := by
  rw [quote, String.toList_ofList]
  rfl

mutual

theorem text_toList : (j : Json) → j.text.toList = j.chars .double
  | null | integer _ | float _ => rfl
  | boolean truth => by cases truth <;> rfl
  | string s => quote_toList s
  | array items => by
    have h := join_texts items
    simp only [text, chars, String.toList_append, List.append_assoc, ← h]
    rfl
  | object entries => by
    have h := join_entryTexts entries
    simp only [text, chars, String.toList_append, List.append_assoc, ← h]
    rfl

theorem join_texts : (items : List Json) →
    (Text.join "," (texts items)).toList ++ [']'] = itemChars .double items
  | [] => rfl
  | [item] => by
    have h := text_toList item
    simp [texts, join, itemChars, h]
  | item :: next :: items => by
    have h := text_toList item
    have h' := join_texts (next :: items)
    simp [texts, join, itemChars, h, ← h']

theorem join_entryTexts : (entries : List (String × Json)) →
    (Text.join "," (entryTexts entries)).toList ++ ['\x7d'] = entryChars .double entries
  | [] => rfl
  | [(key, value)] => by
    have h := text_toList value
    simp [entryTexts, join, entryChars, h, quote_toList]
  | (key, value) :: next :: entries => by
    have h := text_toList value
    have h' := join_entryTexts (next :: entries)
    simp [entryTexts, join, entryChars, h, ← h', quote_toList]

end

end Json

namespace QuoteStyle

/-- The characters that bringing a text into single quotes changes. -/
def specials : List Char := ['\\', '"', '\'']

theorem toSingleQuotes_plain {cs : List Char} (h : ∀ c ∈ cs, c ∉ specials) (rest : List Char) :
    toSingleQuotes (cs ++ rest) = cs ++ toSingleQuotes rest := by
  induction cs with
  | nil => rfl
  | cons c cs ih =>
    rw [List.forall_mem_cons] at h
    have hc := h.1
    simp only [specials, List.mem_cons, List.not_mem_nil, or_false, not_or] at hc
    rw [List.cons_append, toSingleQuotes, ih h.2]
    · rfl
    all_goals simp_all

theorem toSingleQuotes_escape {c : Char} (h : c ≠ '"') (rest : List Char) :
    toSingleQuotes ('\\' :: c :: rest) = '\\' :: c :: toSingleQuotes rest := by
  rw [toSingleQuotes]
  intro h'
  exact absurd h' h

theorem toSingleQuotes_escapeChar (c : Char) (rest : List Char) :
    toSingleQuotes (Json.escapeChar c ++ rest) = single.jsonChar c ++ toSingleQuotes rest := by
  by_cases hquote : c = '"'
  · subst hquote
    rfl
  by_cases happ : c = '\''
  · subst happ
    rfl
  rw [jsonChar, if_neg hquote, if_neg happ]
  unfold Json.escapeChar
  split
  · rename_i letter hlookup
    have hletters : ∀ p ∈ Json.letterEscapes, p.1 ≠ '"' → p.2 ≠ '"' := by decide
    exact toSingleQuotes_escape (hletters _ (mem_of_lookup hlookup) hquote) rest
  · rename_i hlookup
    rw [List.lookup_eq_none_iff] at hlookup
    split
    · rename_i hlt
      have hdigits : ∀ n < 0x20, ∀ d ∈ ['0', '0', Nat.digitChar (n / 16), Nat.digitChar (n % 16)], d ∉ specials := by
        simp only [List.forall_mem_cons, List.not_mem_nil, false_implies, implies_true, and_true]
        decide
      have hcode := toSingleQuotes_plain (hdigits c.toNat hlt) rest
      exact (toSingleQuotes_escape (by decide) _).trans (congrArg (['\\', 'u'] ++ ·) hcode)
    · have hback : c ≠ '\\' := by simpa using hlookup ('\\', '\\') (by decide)
      have hplain : ∀ d ∈ [c], d ∉ specials := by simp [specials, hback, hquote, happ]
      exact toSingleQuotes_plain hplain rest

theorem toSingleQuotes_jsonString (s : String) (rest : List Char) :
    toSingleQuotes (double.jsonString s ++ rest) = single.jsonString s ++ toSingleQuotes rest := by
  have htext (text : List Char) : toSingleQuotes (text.flatMap double.jsonChar ++ '"' :: rest) =
      text.flatMap single.jsonChar ++ '\'' :: toSingleQuotes rest := by
    induction text with
    | nil => rfl
    | cons c text ih =>
      simp only [List.flatMap_cons, List.append_assoc]
      exact (toSingleQuotes_escapeChar c _).trans (congrArg _ ih)
  have hopen (cs : List Char) : toSingleQuotes ('"' :: cs) = '\'' :: toSingleQuotes cs := rfl
  simp only [jsonString, List.cons_append, List.append_assoc, List.nil_append, char, hopen, htext]

theorem toSingleQuotes_number {cs : List Char} (h : Literal.isNumber cs = true) (rest : List Char) :
    toSingleQuotes (cs ++ rest) = cs ++ toSingleQuotes rest := by
  have hspecials : ∀ c ∈ specials, Literal.isNumberChar c = false := by simp [specials, Literal.isNumberChar]
  refine toSingleQuotes_plain (fun c hc hs => ?_) rest
  have hnumber := Literal.all_of_isNumber h c hc
  rw [hspecials c hs] at hnumber
  cases hnumber

mutual

theorem toSingleQuotes_chars (rest : List Char) : (j : Json) → j.HasNumbers →
    toSingleQuotes (j.chars double ++ rest) = j.chars single ++ toSingleQuotes rest
  | .null, _ => rfl
  | .boolean truth, _ => by cases truth <;> rfl
  | .integer _, h => toSingleQuotes_number h rest
  | .float _, h => toSingleQuotes_number h rest
  | .string s, _ => toSingleQuotes_jsonString s rest
  | .array items, h => congrArg ('[' :: ·) (toSingleQuotes_itemChars rest items h)
  | .object entries, h => congrArg ('\x7b' :: ·) (toSingleQuotes_entryChars rest entries h)

theorem toSingleQuotes_itemChars (rest : List Char) : (items : List Json) → Json.HaveNumbers items →
    toSingleQuotes (Json.itemChars double items ++ rest) = Json.itemChars single items ++ toSingleQuotes rest
  | [], _ => rfl
  | [item], h => by
    simp only [Json.itemChars, List.append_assoc]
    rw [toSingleQuotes_chars _ item h.1]
    rfl
  | item :: next :: items, h => by
    have ih := toSingleQuotes_itemChars rest (next :: items) h.2
    simp only [Json.itemChars, List.append_assoc]
    rw [toSingleQuotes_chars _ item h.1]
    exact congrArg (item.chars single ++ ',' :: ·) ih

theorem toSingleQuotes_entryChars (rest : List Char) :
    (entries : List (String × Json)) → Json.EntriesHaveNumbers entries →
      toSingleQuotes (Json.entryChars double entries ++ rest) = Json.entryChars single entries ++ toSingleQuotes rest
  | [], _ => rfl
  | [(key, value)], h => by
    have hvalue := toSingleQuotes_chars ('\x7d' :: rest) value h.1
    simp only [Json.entryChars, List.append_assoc, List.cons_append, List.nil_append]
    rw [toSingleQuotes_jsonString]
    exact congrArg (single.jsonString key ++ ':' :: ·) hvalue
  | (key, value) :: next :: entries, h => by
    have ih := toSingleQuotes_entryChars rest (next :: entries) h.2
    have hvalue := toSingleQuotes_chars (',' :: (Json.entryChars double (next :: entries) ++ rest)) value h.1
    simp only [Json.entryChars, List.append_assoc, List.cons_append]
    rw [toSingleQuotes_jsonString]
    refine congrArg (single.jsonString key ++ ':' :: ·) (hvalue.trans ?_)
    exact congrArg (value.chars single ++ ',' :: ·) ih

end

/-- A JSON text in the style. -/
theorem requote_toList {j : Json} (h : j.HasNumbers) (style : QuoteStyle) :
    (style.requote j.text).toList = j.chars style := by
  cases style with
  | double => exact j.text_toList
  | single =>
    have hchars := toSingleQuotes_chars [] j h
    rw [List.append_nil, toSingleQuotes, List.append_nil] at hchars
    rw [requote, String.toList_ofList, j.text_toList, hchars]

end QuoteStyle

end EntityScript
