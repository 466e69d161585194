import EntityScript.Build.Constant
import EntityScript.Proofs.NumberText
import EntityScript.Proofs.Requoting
/-!
# Constants

A constant is written as JSON, and then brought into the quote style. What is read back from that is the literal
of the JSON value with all its strings in that style.
-/

namespace EntityScript

open Text

/-! ## Strings -/

namespace Literal

theorem readText_plain {q c : Char} (hb : c ≠ '\\') (hq : c ≠ q) (hn : c ≠ '\n') (hr : c ≠ '\r') (cs : List Char) :
    readText q (c :: cs) = (readText q cs).map (push c) := by
  rw [readText.eq_def]
  split <;> simp_all

theorem readText_escape {q c d : Char} (hu : c ≠ 'u') (hx : c ≠ 'x') (h : unescape? c = some d) (cs : List Char) :
    readText q ('\\' :: c :: cs) = (readText q cs).map (push d) := by
  rw [readText, h]
  · rfl
  · rintro _ _ _ _ _ rfl
    exact absurd rfl hu
  · rintro _ _ _ rfl
    exact absurd rfl hx

theorem readText_code {q e : Char} {a b c d : Char} (h : ofHex? [a, b, c, d] = some e) (cs : List Char) :
    readText q ('\\' :: 'u' :: a :: b :: c :: d :: cs) = (readText q cs).map (push e) := by
  rw [readText, h]
  rfl

/-- A character comes back from the text that JSON has for it, unless it is a quote that JSON does not escape. -/
theorem readText_escapeChar {q c : Char} (hq : c = q → c = '"') (cs : List Char) :
    readText q (Json.escapeChar c ++ cs) = (readText q cs).map (push c) := by
  unfold Json.escapeChar
  split
  · rename_i letter hlookup
    have hletters : ∀ p ∈ Json.letterEscapes, p.2 ≠ 'u' ∧ p.2 ≠ 'x' ∧ unescape? p.2 = some p.1 := by decide
    obtain ⟨hu, hx, hletter⟩ := hletters _ (mem_of_lookup hlookup)
    exact readText_escape hu hx hletter cs
  · rename_i hlookup
    rw [List.lookup_eq_none_iff] at hlookup
    simp only [Json.letterEscapes, List.forall_mem_cons, bne_iff_ne] at hlookup
    obtain ⟨hquote, hback, -, -, hn, hr, -⟩ := hlookup
    split
    · rename_i hlt
      have hcode : ∀ n < 0x20, ofHex? ['0', '0', Nat.digitChar (n / 16), Nat.digitChar (n % 16)] = some (Char.ofNat n) := by
        decide
      have h := hcode c.toNat hlt
      rw [Char.ofNat_toNat] at h
      exact readText_code h cs
    · exact readText_plain hback (fun h => hquote (hq h)) hn hr cs

/-- A character comes back from the text that a string in the style has for it. -/
theorem readText_jsonChar (style : QuoteStyle) (c : Char) (cs : List Char) :
    readText style.char (style.jsonChar c ++ cs) = (readText style.char cs).map (push c) := by
  cases style with
  | double => exact readText_escapeChar id cs
  | single =>
    by_cases hquote : c = '"'
    · subst hquote
      exact readText_plain (by decide) (by decide) (by decide) (by decide) cs
    by_cases happ : c = '\''
    · subst happ
      exact readText_escape (c := '\'') (by decide) (by decide) (by decide) cs
    rw [QuoteStyle.jsonChar, if_neg hquote, if_neg happ]
    exact readText_escapeChar (fun h => absurd h happ) cs

theorem readString_jsonString (style : QuoteStyle) (s : String) (cs : List Char) :
    readString (style.jsonString s ++ cs) = some (⟨style, s⟩, cs) := by
  have htext (text : List Char) :
      readText style.char (text.flatMap style.jsonChar ++ style.char :: cs) = some (text, cs) := by
    induction text with
    | nil =>
      rw [List.flatMap_nil, List.nil_append]
      cases style <;> rfl
    | cons c text ih =>
      rw [List.flatMap_cons, List.append_assoc, readText_jsonChar, ih]
      rfl
  have hstyle : styleOf? style.char = some style := by cases style <;> rfl
  simp only [QuoteStyle.jsonString, readString, List.cons_append, List.append_assoc, List.nil_append, hstyle, htext,
    Option.bind_eq_bind, Option.bind_some, String.ofList_toList]

/-! ## Values -/

theorem after?_self (c : Char) (cs : List Char) : after? [c] (c :: cs) = some cs := by
  simp [after?]

theorem after?_of_ne {c d : Char} (h : c ≠ d) (cs : List Char) : after? [c] (d :: cs) = none := by
  simp [after?, h]

/-- Whether no number goes on with a text. -/
def Stops (cs : List Char) : Prop :=
  ∀ c ∈ cs.head?, isNumberChar c = false

theorem readScalar_word {word : String} {literal : Literal} (h : (word, literal) ∈ words) (rest : List Char) :
    readScalar (word.toList ++ rest) = some (literal, rest) := by
  simp only [words, List.mem_cons, List.not_mem_nil, or_false, Prod.mk.injEq] at h
  rcases h with ⟨rfl, rfl⟩ | ⟨rfl, rfl⟩ | ⟨rfl, rfl⟩ <;> rfl

theorem no_word {c : Char} (h : c ∉ ['n', 't', 'f']) (cs : List Char) :
    (words.findSome? fun (word, literal) => (after? word.toList (c :: cs)).map (literal, ·)) = none := by
  simp only [List.mem_cons, List.not_mem_nil, or_false, not_or] at h
  obtain ⟨hn, ht, hf⟩ := h
  simp [words, after?, Ne.symm hn, Ne.symm ht, Ne.symm hf]

theorem readScalar_string (style : QuoteStyle) (s : String) (rest : List Char) :
    readScalar (style.jsonString s ++ rest) = some (.string ⟨style, s⟩, rest) := by
  have hstring := readString_jsonString style s rest
  rw [QuoteStyle.jsonString, List.cons_append] at hstring ⊢
  rw [readScalar, no_word (by cases style <;> decide), hstring]

theorem readScalar_number {cs rest : List Char} (h : isNumber cs = true) (hrest : Stops rest) :
    readScalar (cs ++ rest) = some (.number (String.ofList cs), rest) := by
  have hall := all_of_isNumber h
  have htake : (cs ++ rest).takeWhile isNumberChar = cs := Text.takeWhile_run hall hrest
  have hdrop : (cs ++ rest).dropWhile isNumberChar = rest := Text.dropWhile_run hall hrest
  obtain ⟨c, cs', hcs⟩ := List.exists_cons_of_ne_nil (ne_nil_of_isNumber h)
  have hc : isNumberChar c = true := hall c (by simp [hcs])
  have hword : c ∉ ['n', 't', 'f'] := by
    have hnone : ∀ d ∈ ['n', 't', 'f'], isNumberChar d = false := by simp [isNumberChar]
    intro hmem
    rw [hnone c hmem] at hc
    cases hc
  have hstring : readString (cs ++ rest) = none := by
    have hquotes : isNumberChar '\'' = false ∧ isNumberChar '"' = false := by decide
    have hstyle : styleOf? c = none := by
      unfold styleOf?
      split
      · rename_i happ
        rw [happ] at hc
        cases hc.symm.trans hquotes.1
      · split
        · rename_i hquote
          rw [hquote] at hc
          cases hc.symm.trans hquotes.2
        · rfl
    rw [hcs, List.cons_append, readString, hstyle]
    rfl
  rw [readScalar, hstring, readNumber, htake, hdrop, if_pos h, hcs, List.cons_append, no_word hword]

theorem exists_number_cons {cs : List Char} (h : isNumber cs = true) :
    ∃ c cs', cs = c :: cs' ∧ c ∉ ['[', ']', '\x7b', '\x7d'] := by
  obtain ⟨c, cs', rfl⟩ := List.exists_cons_of_ne_nil (ne_nil_of_isNumber h)
  refine ⟨c, cs', rfl, fun hmem => ?_⟩
  have hnone : ∀ d ∈ ['[', ']', '\x7b', '\x7d'], isNumberChar d = false := by simp [isNumberChar]
  have hc := all_of_isNumber h c (by simp)
  rw [hnone c hmem] at hc
  cases hc

theorem readValue_of_scalar {cs : List Char} {r : Literal × List Char} {fuel : Nat} (hfuel : 1 ≤ fuel)
    (hbracket : after? ['['] cs = none) (hbrace : after? ['\x7b'] cs = none) (h : readScalar cs = some r) :
    readValue fuel cs = some r := by
  obtain ⟨fuel, rfl⟩ : ∃ n, fuel = n + 1 := ⟨fuel - 1, by omega⟩
  rw [readValue, hbracket, hbrace, ← h]

/-- No value starts like the end of an array or of an object. -/
theorem not_closed {j : Json} (h : j.HasNumbers) (style : QuoteStyle) (rest : List Char) :
    after? [']'] (j.chars style ++ rest) = none ∧ after? ['\x7d'] (j.chars style ++ rest) = none := by
  obtain ⟨c, cs, hcs, hbracket, hbrace⟩ : ∃ c cs, j.chars style = c :: cs ∧ ']' ≠ c ∧ '\x7d' ≠ c := by
    cases j with
    | null => exact ⟨_, _, rfl, by decide, by decide⟩
    | boolean truth => cases truth <;> exact ⟨_, _, rfl, by decide, by decide⟩
    | string s => cases style <;> exact ⟨_, _, rfl, by decide, by decide⟩
    | array items | object entries => exact ⟨_, _, rfl, by decide, by decide⟩
    | integer n | float x =>
      obtain ⟨c, cs, hcs, hc⟩ := exists_number_cons h
      simp only [List.mem_cons, List.not_mem_nil, or_false, not_or] at hc
      exact ⟨c, cs, hcs, Ne.symm hc.2.1, Ne.symm hc.2.2.2⟩
  rw [hcs, List.cons_append]
  exact ⟨after?_of_ne hbracket _, after?_of_ne hbrace _⟩

theorem readValue_number {cs : List Char} (h : isNumber cs = true) {fuel : Nat} (hfuel : 1 ≤ fuel) {rest : List Char}
    (hrest : Stops rest) : readValue fuel (cs ++ rest) = some (.number (String.ofList cs), rest) := by
  obtain ⟨c, cs', hcs, hc⟩ := exists_number_cons h
  simp only [List.mem_cons, List.not_mem_nil, or_false, not_or] at hc
  refine readValue_of_scalar hfuel ?_ ?_ (readScalar_number h hrest)
  · rw [hcs]
    exact after?_of_ne (Ne.symm hc.1) _
  · rw [hcs]
    exact after?_of_ne (Ne.symm hc.2.2.1) _

theorem stops_of_mem {c : Char} (h : c ∈ [',', ']', '\x7d']) (cs : List Char) : Stops (c :: cs) := by
  have hnone : ∀ d ∈ [',', ']', '\x7d'], isNumberChar d = false := by simp [isNumberChar]
  intro d hd
  obtain rfl : c = d := by simpa using hd
  exact hnone c h

mutual

theorem readValue_chars (style : QuoteStyle) {fuel : Nat} {rest : List Char} (hrest : Stops rest) :
    (j : Json) → j.HasNumbers → 2 * (j.chars style).length + 1 ≤ fuel →
      readValue fuel (j.chars style ++ rest) = some (j.literal style, rest)
  | .null, _, hfuel => readValue_of_scalar (by omega) rfl rfl (readScalar_word (.head _) rest)
  | .boolean true, _, hfuel => readValue_of_scalar (by omega) rfl rfl (readScalar_word (.tail _ (.head _)) rest)
  | .boolean false, _, hfuel =>
    readValue_of_scalar (by omega) rfl rfl (readScalar_word (.tail _ (.tail _ (.head _))) rest)
  | .integer n, h, hfuel => by
    rw [Json.literal, ← String.ofList_toList (s := toString n)]
    exact readValue_number h (by omega) hrest
  | .float x, h, hfuel => by
    rw [Json.literal, ← String.ofList_toList (s := x.text)]
    exact readValue_number h (by omega) hrest
  | .string s, _, hfuel =>
    readValue_of_scalar (by omega) (by cases style <;> rfl) (by cases style <;> rfl) (readScalar_string style s rest)
  | .array items, h, hfuel => by
    obtain ⟨fuel, rfl⟩ : ∃ n, fuel = n + 1 := ⟨fuel - 1, by omega⟩
    simp only [Json.chars, List.length_cons] at hfuel
    have hitems := readItems_itemChars style rest items h (show _ ≤ fuel by omega)
    rw [Json.chars, List.cons_append, readValue, after?_self]
    simp only [hitems]
    rfl
  | .object entries, h, hfuel => by
    obtain ⟨fuel, rfl⟩ : ∃ n, fuel = n + 1 := ⟨fuel - 1, by omega⟩
    simp only [Json.chars, List.length_cons] at hfuel
    have hentries := readEntries_entryChars style rest entries h (show _ ≤ fuel by omega)
    rw [Json.chars, List.cons_append, readValue, after?_of_ne (by decide), after?_self]
    simp only [hentries]
    rfl

theorem readItems_itemChars (style : QuoteStyle) {fuel : Nat} (rest : List Char) :
    (items : List Json) → Json.HaveNumbers items → 2 * (Json.itemChars style items).length + 2 ≤ fuel →
      readItems fuel (Json.itemChars style items ++ rest) = some (Json.literals style items, rest)
  | [], _, hfuel => by
    obtain ⟨fuel, rfl⟩ : ∃ n, fuel = n + 1 := ⟨fuel - 1, by omega⟩
    rw [Json.itemChars, List.cons_append, readItems, after?_self]
    rfl
  | [item], h, hfuel => by
    obtain ⟨fuel, rfl⟩ : ∃ n, fuel = n + 1 := ⟨fuel - 1, by omega⟩
    simp only [Json.itemChars, List.length_append, List.length_cons] at hfuel
    have hitem := readValue_chars style (stops_of_mem (c := ']') (by decide) rest) item h.1 (show _ ≤ fuel by omega)
    rw [Json.itemChars, List.append_assoc, readItems, (not_closed h.1 style _).1]
    simp only [List.cons_append, List.nil_append, hitem, Option.bind_eq_bind, Option.bind_some,
      after?_of_ne (show ',' ≠ ']' by decide), after?_self]
    rfl
  | item :: next :: items, h, hfuel => by
    obtain ⟨fuel, rfl⟩ : ∃ n, fuel = n + 1 := ⟨fuel - 1, by omega⟩
    simp only [Json.itemChars, List.length_append, List.length_cons] at hfuel
    have hitem := readValue_chars style (stops_of_mem (c := ',') (by decide) (Json.itemChars style (next :: items) ++ rest))
      item h.1 (show _ ≤ fuel by omega)
    have ih := readItems_itemChars style rest (next :: items) h.2 (show _ ≤ fuel by omega)
    rw [Json.itemChars, List.append_assoc, readItems, (not_closed h.1 style _).1]
    simp only [List.cons_append, hitem, Option.bind_eq_bind, Option.bind_some, after?_self, ih]
    rfl

theorem readEntries_entryChars (style : QuoteStyle) {fuel : Nat} (rest : List Char) :
    (entries : List (String × Json)) → Json.EntriesHaveNumbers entries →
      2 * (Json.entryChars style entries).length + 2 ≤ fuel →
        readEntries fuel (Json.entryChars style entries ++ rest) = some (Json.entryLiterals style entries, rest)
  | [], _, hfuel => by
    obtain ⟨fuel, rfl⟩ : ∃ n, fuel = n + 1 := ⟨fuel - 1, by omega⟩
    rw [Json.entryChars, List.cons_append, readEntries, after?_self]
    rfl
  | [(key, value)], h, hfuel => by
    obtain ⟨fuel, rfl⟩ : ∃ n, fuel = n + 1 := ⟨fuel - 1, by omega⟩
    simp only [Json.entryChars, List.length_append, List.length_cons] at hfuel
    have hopen (cs : List Char) : after? ['\x7d'] (style.jsonString key ++ cs) = none := by cases style <;> rfl
    have hvalue := readValue_chars style (stops_of_mem (c := '\x7d') (by decide) rest) value h.1 (show _ ≤ fuel by omega)
    rw [Json.entryChars, List.append_assoc, readEntries, hopen]
    simp only [List.cons_append, List.append_assoc, List.nil_append, readString_jsonString, hvalue, Option.bind_eq_bind,
      Option.bind_some, after?_of_ne (show ',' ≠ '\x7d' by decide), after?_self]
    rfl
  | (key, value) :: next :: entries, h, hfuel => by
    obtain ⟨fuel, rfl⟩ : ∃ n, fuel = n + 1 := ⟨fuel - 1, by omega⟩
    simp only [Json.entryChars, List.length_append, List.length_cons] at hfuel
    have hopen (cs : List Char) : after? ['\x7d'] (style.jsonString key ++ cs) = none := by cases style <;> rfl
    have hvalue := readValue_chars style (stops_of_mem (c := ',') (by decide)
      (Json.entryChars style (next :: entries) ++ rest)) value h.1 (show _ ≤ fuel by omega)
    have ih := readEntries_entryChars style rest (next :: entries) h.2 (show _ ≤ fuel by omega)
    rw [Json.entryChars, List.append_assoc, readEntries, hopen]
    simp only [List.cons_append, List.append_assoc, readString_jsonString, hvalue, Option.bind_eq_bind, Option.bind_some,
      after?_self, ih]
    rfl

end

/-- What is read from a value in a quote style. -/
theorem read?_requote {j : Json} (h : j.HasNumbers) (style : QuoteStyle) :
    read? (style.requote j.text) = some (j.literal style) := by
  have hstops : Stops [] := by simp [Stops]
  have hvalue := readValue_chars style hstops j h (Nat.le_refl _)
  rw [List.append_nil] at hvalue
  rw [read?, QuoteStyle.requote_toList h, hvalue]

end Literal

namespace Json

mutual

theorem style_of_mem_strings {style : QuoteStyle} : (j : Json) → ∀ s ∈ (j.literal style).strings, s.style = style
  | null | boolean _ | integer _ | float _ => by simp [literal, Literal.strings]
  | string s => by simp [literal, Literal.strings]
  | array items => style_of_mem_stringsIn items
  | object entries => style_of_mem_entryStrings entries

theorem style_of_mem_stringsIn {style : QuoteStyle} :
    (items : List Json) → ∀ s ∈ Literal.stringsIn (literals style items), s.style = style
  | [] => by simp [literals, Literal.stringsIn]
  | item :: items => by
    intro s hs
    exact (List.mem_append.1 hs).elim (style_of_mem_strings item s) (style_of_mem_stringsIn items s)

theorem style_of_mem_entryStrings {style : QuoteStyle} :
    (entries : List (String × Json)) → ∀ s ∈ Literal.entryStrings (entryLiterals style entries), s.style = style
  | [] => by simp [entryLiterals, Literal.entryStrings]
  | (key, value) :: entries => by
    intro s hs
    rcases List.mem_cons.1 hs with rfl | hs
    · rfl
    · exact (List.mem_append.1 hs).elim (style_of_mem_strings value s) (style_of_mem_entryStrings entries s)

end

end Json

/-! ## Constants -/

namespace Json

mutual

theorem hasNumbers_ofToml : (v : Toml.Value) → (ofToml v).HasNumbers
  | .string _ | .oversized | .boolean _ | .datetime _ => trivial
  | .integer n => Literal.isNumber_integer n
  | .float (.finite _ _ _ h) => Binary64.isNumber_text h
  | .float (.infinite _) | .float .nan => trivial
  | .array items => haveNumbers_ofTomls items
  | .table entries => entriesHaveNumbers_ofEntries entries

theorem haveNumbers_ofTomls : (vs : List Toml.Value) → HaveNumbers (ofTomls vs)
  | [] => trivial
  | v :: vs => ⟨hasNumbers_ofToml v, haveNumbers_ofTomls vs⟩

theorem entriesHaveNumbers_ofEntries : (entries : List (String × Toml.Value)) → EntriesHaveNumbers (ofEntries entries)
  | [] => trivial
  | (_, v) :: entries => ⟨hasNumbers_ofToml v, entriesHaveNumbers_ofEntries entries⟩

end

end Json

namespace Constant

/-- A constant in either quote style reads as the literal of its JSON value, whose strings and keys all have that
style. -/
theorem requote_reads (v : Toml.Value) (style : QuoteStyle) :
    Literal.read? (style.requote (Json.ofToml v).text) = some ((Json.ofToml v).literal style) ∧
      ∀ s ∈ ((Json.ofToml v).literal style).strings, s.style = style :=
  ⟨Literal.read?_requote (Json.hasNumbers_ofToml v) style, Json.style_of_mem_strings (Json.ofToml v)⟩

/-- Quotes of either style in a key and in a string, and a backslash. -/
theorem requote_reads_quotes :
    Literal.read? (QuoteStyle.single.requote (Json.ofToml (.table [("it's", .array [.string "say \"\\'\"",
        .float (.finite true 3 (-1) ⟨by decide, by decide, by decide⟩)])])).text) =
      some (.object [(⟨.single, "it's"⟩, .array [.string ⟨.single, "say \"\\'\""⟩, .number "-1.5"])]) :=
  (requote_reads _ .single).1

end Constant

end EntityScript
