import EntityScript.Proofs.Sources
import EntityScript.Proofs.TypeReading
/-!
# The syntax of types

The grammar of types, over the tokens of a text, and what stands beside each token of a derivation. The text of an
alternative is derived just if its names are identifiers, the keys of its objects identifiers or numerals, and those
of its indexes united from `string` and `number`.
-/

namespace EntityScript

open Signal (isNameChar)
open Text (isWordChar)

/-! ## Tokens -/

/-- A name that may be declared, or one that is built in: word characters that start with no digit. -/
def IsIdentifier (name : String) : Prop :=
  IsWord name ∧ ∀ c ∈ name.toList.head?, c.isDigit = false

/-- Decimal digits. -/
def IsNumeral (name : String) : Prop :=
  name ≠ "" ∧ ∀ c ∈ name.toList, c.isDigit = true

/-- What may be a key of an object. -/
def IsKey (name : String) : Prop :=
  IsIdentifier name ∨ IsNumeral name

instance (name : String) : Decidable (IsIdentifier name) :=
  decidable_of_iff (IsWord name ∧ name.toList.head?.all (!·.isDigit) = true)
    (by simp [IsIdentifier, Option.all_eq_true])

instance (name : String) : Decidable (IsNumeral name) :=
  decidable_of_iff (name ≠ "" ∧ name.toList.all (·.isDigit) = true) (by simp [IsNumeral])

instance (name : String) : Decidable (IsKey name) :=
  inferInstanceAs (Decidable (_ ∨ _))

namespace TypeSyntax

inductive Token
  /-- The longest text of word characters. -/
  | word (text : String)
  | symbol (c : Char)
  deriving Repr, DecidableEq

/-- Tokens with a character in front of the first word. -/
def push (c : Char) : List Token → List Token
  | .word w :: ts => .word (String.ofList (c :: w.toList)) :: ts
  | ts => .word (String.ofList [c]) :: ts

/-- The tokens of a text. Spaces only part words. -/
def tokens : List Char → List Token
  | [] => []
  | c :: cs =>
    if isWordChar c then
      if cs.head?.any isWordChar then push c (tokens cs) else .word (String.ofList [c]) :: tokens cs
    else if c = ' ' then tokens cs
    else .symbol c :: tokens cs

theorem tokens_word_cons {c : Char} (hc : isWordChar c = true) (cs : List Char) :
    ∃ w ts, tokens (c :: cs) = .word w :: ts := by
  rw [tokens, if_pos hc]
  split
  · unfold push
    split <;> exact ⟨_, _, rfl⟩
  · exact ⟨_, _, rfl⟩

theorem tokens_symbol {c : Char} (hc : isWordChar c = false) (hs : c ≠ ' ') (cs : List Char) :
    tokens (c :: cs) = .symbol c :: tokens cs := by
  rw [tokens, if_neg (by simp [hc]), if_neg hs]

/-- A text ends its last word where no word character follows. -/
theorem tokens_append (a : List Char) {b : List Char} (hb : b.head?.any isWordChar = false) :
    tokens (a ++ b) = tokens a ++ tokens b := by
  induction a with
  | nil => rfl
  | cons c a ih =>
    have hhead : (a ++ b).head?.any isWordChar = a.head?.any isWordChar := by
      cases a with
      | nil => cases b <;> simp_all
      | cons d a => rfl
    rw [List.cons_append, tokens, tokens, hhead, ih]
    split
    · split
      · rename_i hnext
        obtain ⟨d, a, rfl, hd⟩ : ∃ d a', a = d :: a' ∧ isWordChar d = true := by
          cases a with
          | nil => simp at hnext
          | cons d a => exact ⟨d, a, rfl, by simpa using hnext⟩
        obtain ⟨w, ts, hw⟩ := tokens_word_cons hd a
        rw [hw]
        rfl
      · rfl
    · split <;> rfl

theorem tokens_of_isWord {name : String} (h : IsWord name) : tokens name.toList = [.word name] := by
  have hchars (cs : List Char) (hne : cs ≠ []) (hcs : ∀ c ∈ cs, isWordChar c = true) :
      tokens cs = [.word (String.ofList cs)] := by
    induction cs with
    | nil => exact absurd rfl hne
    | cons c cs ih =>
      rw [List.forall_mem_cons] at hcs
      rw [tokens, if_pos hcs.1]
      cases cs with
      | nil => rfl
      | cons d cs =>
        rw [ih (by simp) hcs.2, if_pos (by simpa using hcs.2 d List.mem_cons_self), push, String.toList_ofList]
  rw [hchars name.toList (by simpa using h.1) h.2, String.ofList_toList]

theorem symbol_mem_tokens {c : Char} {cs : List Char} (hmem : c ∈ cs) (hc : isWordChar c = false) (hs : c ≠ ' ') :
    .symbol c ∈ tokens cs := by
  obtain ⟨front, back, rfl⟩ := List.append_of_mem hmem
  rw [tokens_append front (by simpa using hc), tokens_symbol hc hs]
  simp

/-! ## The grammar -/

inductive Part
  /-- `Alternative ('|' Alternative)*` -/
  | type
  /-- A name, `Array<T>`, `P[]`, `{}`, an object or an index. -/
  | alternative
  /-- `Field (',' Field)*` where a field is `Key '?'? ':' Type` -/
  | fields
  /-- The type of the keys of an index: `string` and `number` in a union. -/
  | keys

/-- What stands behind the key of a field. -/
def mark (optional : Bool) : List Token :=
  if optional then [.symbol '?', .symbol ':'] else [.symbol ':']

/-- The tokens that each part of the grammar derives. -/
inductive Derives : Part → List Token → Prop
  | single {ts : List Token} (h : Derives .alternative ts) : Derives .type ts
  | union {ts us : List Token} (h : Derives .alternative ts) (hmore : Derives .type us) :
    Derives .type (ts ++ .symbol '|' :: us)
  | name {n : String} (h : IsIdentifier n) : Derives .alternative [.word n]
  | array {ts : List Token} (h : Derives .type ts) :
    Derives .alternative (.word "Array" :: .symbol '<' :: (ts ++ [.symbol '>']))
  | list {ts : List Token} (h : Derives .alternative ts) : Derives .alternative (ts ++ [.symbol '[', .symbol ']'])
  | empty : Derives .alternative [.symbol '\x7b', .symbol '\x7d']
  | object {ts : List Token} (h : Derives .fields ts) :
    Derives .alternative (.symbol '\x7b' :: (ts ++ [.symbol '\x7d']))
  | index {ks ts : List Token} (hk : Derives .keys ks) (h : Derives .type ts) :
    Derives .alternative (.symbol '\x7b' :: .symbol '[' :: .word "key" :: .symbol ':' ::
      (ks ++ .symbol ']' :: .symbol ':' :: (ts ++ [.symbol '\x7d'])))
  | field {k : String} {ts : List Token} (hk : IsKey k) (optional : Bool) (h : Derives .type ts) :
    Derives .fields (.word k :: (mark optional ++ ts))
  | comma {k : String} {ts us : List Token} (hk : IsKey k) (optional : Bool) (h : Derives .type ts)
    (hmore : Derives .fields us) : Derives .fields (.word k :: (mark optional ++ (ts ++ .symbol ',' :: us)))
  | key {k : String} (h : k = "string" ∨ k = "number") : Derives .keys [.word k]
  | bar {k : String} {ks : List Token} (h : k = "string" ∨ k = "number") (hmore : Derives .keys ks) :
    Derives .keys (.word k :: .symbol '|' :: ks)

/-- Whether a text is one of the grammar. -/
def IsType (text : String) : Prop :=
  Derives .type (tokens text.toList)

/-! ## What stands beside a token -/

/-- The symbols of the grammar that may stand before anything. -/
def freeMarks : List Char :=
  ['<', '>', ']', '\x7b', '\x7d', '|', ':', '?', ',']

/-- The symbols of the grammar. -/
def marks : List Char :=
  '[' :: freeMarks

/-- The tokens in the type of the keys of an index. -/
def IsKeyToken (t : Token) : Prop :=
  t ∈ [.word "string", .word "number", .symbol '|']

/-- Whether tokens go on as an index does behind its bracket. -/
def OpensIndex (ts : List Token) : Prop :=
  ∃ ks rest, ts = .word "key" :: .symbol ':' :: (ks ++ .symbol ']' :: rest) ∧ ∀ t ∈ ks, IsKeyToken t

/-- Whether a token may stand before others: a word is a key, a symbol is one of the grammar, and a bracket opens an
index or is closed at once. -/
def FitsBefore : Token → List Token → Prop
  | .word w, _ => IsKey w
  | .symbol c, ts => c ∈ marks ∧ (c = '[' → ts.head? = some (.symbol ']') ∨ OpensIndex ts)

/-- Whether each token may stand before what follows it. -/
def Fit : List Token → Prop
  | [] => True
  | t :: ts => FitsBefore t ts ∧ Fit ts

theorem OpensIndex.append {ts : List Token} (h : OpensIndex ts) (us : List Token) : OpensIndex (ts ++ us) := by
  obtain ⟨ks, rest, rfl, hks⟩ := h
  exact ⟨ks, rest ++ us, by simp, hks⟩

theorem FitsBefore.append {t : Token} {ts : List Token} (h : FitsBefore t ts) (us : List Token) :
    FitsBefore t (ts ++ us) := by
  cases t with
  | word w => exact h
  | symbol c =>
    refine ⟨h.1, fun hc => (h.2 hc).imp (fun hhead => ?_) fun hindex => hindex.append us⟩
    rw [List.head?_append, hhead]
    rfl

theorem Fit.append {ts us : List Token} (h : Fit ts) (h' : Fit us) : Fit (ts ++ us) := by
  induction ts with
  | nil => exact h'
  | cons t ts ih => exact ⟨h.1.append us, ih h.2⟩

theorem Fit.right {ts us : List Token} (h : Fit (ts ++ us)) : Fit us := by
  induction ts with
  | nil => exact h
  | cons t ts ih => exact ih h.2

theorem Fit.mem_marks {ts : List Token} (h : Fit ts) {c : Char} (hc : .symbol c ∈ ts) : c ∈ marks := by
  induction ts with
  | nil => cases hc
  | cons t ts ih =>
    rcases List.mem_cons.1 hc with rfl | hc
    · exact h.1.1
    · exact ih h.2 hc

theorem isIdentifier_of_key {k : String} (h : k = "string" ∨ k = "number") : IsIdentifier k := by
  rcases h with rfl | rfl <;> decide

theorem fit_symbol {c : Char} (h : c ∈ freeMarks) {ts : List Token} (hts : Fit ts) : Fit (.symbol c :: ts) := by
  refine ⟨⟨List.mem_cons_of_mem _ h, ?_⟩, hts⟩
  rintro rfl
  exact absurd h (by decide)

/-- What follows the key of a field fits if its type does. -/
theorem fit_mark (optional : Bool) {ts : List Token} (h : Fit ts) : Fit (mark optional ++ ts) := by
  have hcolon : Fit (.symbol ':' :: ts) := fit_symbol (by decide) h
  cases optional with
  | false => exact hcolon
  | true => exact fit_symbol (by decide) hcolon

/-- In what is derived, each token may stand where it does. -/
theorem fit_of_derives {p : Part} {ts : List Token} (h : Derives p ts) :
    Fit ts ∧ (p = .keys → ∀ t ∈ ts, IsKeyToken t) := by
  induction h with
  | single _ ih => exact ⟨ih.1, nofun⟩
  | union _ _ ih ihmore => exact ⟨ih.1.append (fit_symbol (by decide) ihmore.1), nofun⟩
  | name h => exact ⟨⟨.inl h, trivial⟩, nofun⟩
  | array _ ih =>
    refine ⟨⟨.inl (by decide), fit_symbol (by decide) (ih.1.append ?_)⟩, nofun⟩
    exact fit_symbol (by decide) trivial
  | list _ ih =>
    exact ⟨ih.1.append ⟨⟨by decide, fun _ => .inl rfl⟩, fit_symbol (by decide) trivial⟩, nofun⟩
  | empty => exact ⟨fit_symbol (by decide) (fit_symbol (by decide) trivial), nofun⟩
  | object _ ih =>
    refine ⟨fit_symbol (by decide) (ih.1.append ?_), nofun⟩
    exact fit_symbol (by decide) trivial
  | @index ks ts _ _ ihk ih =>
    have hend : Fit (.symbol ']' :: .symbol ':' :: (ts ++ [.symbol '\x7d'])) :=
      fit_symbol (by decide) (fit_symbol (by decide)
        (ih.1.append (fit_symbol (by decide) trivial)))
    refine ⟨fit_symbol (by decide) ⟨⟨by decide, fun _ => .inr ⟨ks, _, rfl, ihk.2 rfl⟩⟩, ?_⟩, nofun⟩
    exact ⟨.inl (by decide), fit_symbol (by decide) (ihk.1.append hend)⟩
  | field hk optional _ ih => exact ⟨⟨hk, fit_mark optional ih.1⟩, nofun⟩
  | comma hk optional _ _ ih ihmore =>
    exact ⟨⟨hk, fit_mark optional (ih.1.append (fit_symbol (by decide) ihmore.1))⟩, nofun⟩
  | key h =>
    refine ⟨⟨.inl (isIdentifier_of_key h), trivial⟩, fun _ => List.forall_mem_singleton.2 ?_⟩
    rcases h with rfl | rfl <;> simp [IsKeyToken]
  | bar h _ ih =>
    refine ⟨⟨.inl (isIdentifier_of_key h), fit_symbol (by decide) ih.1⟩, fun _ => ?_⟩
    rw [List.forall_mem_cons, List.forall_mem_cons]
    refine ⟨?_, by simp [IsKeyToken], ih.2 rfl⟩
    rcases h with rfl | rfl <;> simp [IsKeyToken]

end TypeSyntax

/-! ## Alternatives -/

namespace Alternative

/-- Whether an alternative has a text of the grammar. -/
inductive WellFormed : Alternative → Prop
  | name {n : String} (h : IsIdentifier n) : WellFormed (.name n)
  | array {element : List Alternative} (hne : element ≠ []) (h : ∀ a ∈ element, WellFormed a) :
    WellFormed (.array element)
  | index {key value : List Alternative} (hkey : key ≠ []) (hk : ∀ a ∈ key, a = .name "string" ∨ a = .name "number")
    (hvalue : value ≠ []) (hv : ∀ a ∈ value, WellFormed a) : WellFormed (.index key value)
  | object {fields : List (String × Bool × List Alternative)} (hkeys : ∀ f ∈ fields, IsKey f.1)
    (hne : ∀ f ∈ fields, f.2.2 ≠ []) (h : ∀ f ∈ fields, ∀ a ∈ f.2.2, WellFormed a) : WellFormed (.object fields)

/-- Whether an alternative is made of identifiers and of keys that a signal may have. -/
inductive IsWritten : Alternative → Prop
  | name {n : String} (h : IsIdentifier n) : IsWritten (.name n)
  | array {element : List Alternative} (hne : element ≠ []) (h : ∀ a ∈ element, IsWritten a) :
    IsWritten (.array element)
  | index {key value : List Alternative} (hkey : key ≠ []) (hvalue : value ≠ []) (hk : ∀ a ∈ key, IsWritten a)
    (hv : ∀ a ∈ value, IsWritten a) : IsWritten (.index key value)
  | object {fields : List (String × Bool × List Alternative)}
    (hkeys : ∀ f ∈ fields, f.1 ≠ "" ∧ ∀ c ∈ f.1.toList, isNameChar c = true) (hne : ∀ f ∈ fields, f.2.2 ≠ [])
    (h : ∀ f ∈ fields, ∀ a ∈ f.2.2, IsWritten a) : IsWritten (.object fields)

end Alternative

namespace TypeSyntax

/-! ### Tokens of alternatives -/

theorem tokens_array (element : List Alternative) : tokens (Alternative.array element).chars =
    .word "Array" :: .symbol '<' :: (tokens (typeChars element) ++ [.symbol '>']) := by
  have hopen (cs : List Char) : tokens (['A', 'r', 'r', 'a', 'y', '<'] ++ cs) =
      .word "Array" :: .symbol '<' :: tokens cs := rfl
  rw [Alternative.chars, hopen, tokens_append _ rfl]
  rfl

theorem tokens_index (key value : List Alternative) : tokens (Alternative.index key value).chars =
    .symbol '\x7b' :: .symbol '[' :: .word "key" :: .symbol ':' :: (tokens (typeChars key) ++
      .symbol ']' :: .symbol ':' :: (tokens (typeChars value) ++ [.symbol '\x7d'])) := by
  have hopen (cs : List Char) : tokens (['\x7b'] ++ ([' '] ++ (['[', 'k', 'e', 'y', ':', ' '] ++ cs))) =
      .symbol '\x7b' :: .symbol '[' :: .word "key" :: .symbol ':' :: tokens cs := rfl
  have hcolon (cs : List Char) : tokens ([']', ':', ' '] ++ cs) = .symbol ']' :: .symbol ':' :: tokens cs := rfl
  rw [Alternative.chars, hopen, tokens_append _ rfl, hcolon, tokens_append _ rfl]
  rfl

theorem tokens_object (field : String × Bool × List Alternative) (fields : List (String × Bool × List Alternative)) :
    tokens (Alternative.object (field :: fields)).chars =
      .symbol '\x7b' :: (tokens (fieldsChars (field :: fields)) ++ [.symbol '\x7d']) := by
  have hopen (cs : List Char) : tokens (['\x7b'] ++ ([' '] ++ cs)) = .symbol '\x7b' :: tokens cs := rfl
  rw [Alternative.chars, hopen, tokens_append _ rfl]
  rfl

theorem tokens_union (a b : Alternative) (as : List Alternative) :
    tokens (typeChars (a :: b :: as)) = tokens a.chars ++ .symbol '|' :: tokens (typeChars (b :: as)) := by
  have hbar (cs : List Char) : tokens ([' ', '|', ' '] ++ cs) = .symbol '|' :: tokens cs := rfl
  rw [typeChars, tokens_append _ rfl, hbar]

theorem tokens_key (key : String) (optional : Bool) (cs : List Char) :
    tokens (keyChars key optional ++ cs) = tokens key.toList ++ (mark optional ++ tokens cs) := by
  have hmark : tokens ((if optional then ['?'] else []) ++ [':', ' '] ++ cs) = mark optional ++ tokens cs := by
    cases optional <;> rfl
  rw [keyChars, List.append_assoc, tokens_append _ (by cases optional <;> rfl), hmark]

theorem tokens_fields (key : String) (optional : Bool) (type : List Alternative) :
    tokens (fieldsChars [(key, optional, type)]) =
      tokens key.toList ++ (mark optional ++ tokens (typeChars type)) :=
  tokens_key key optional (typeChars type)

theorem tokens_fields_cons (key : String) (optional : Bool) (type : List Alternative)
    (field : String × Bool × List Alternative) (fields : List (String × Bool × List Alternative)) :
    tokens (fieldsChars ((key, optional, type) :: field :: fields)) = tokens key.toList ++
      (mark optional ++ (tokens (typeChars type) ++ .symbol ',' :: tokens (fieldsChars (field :: fields)))) := by
  have hcomma (cs : List Char) : tokens ([',', ' '] ++ cs) = .symbol ',' :: tokens cs := rfl
  rw [fieldsChars, tokens_key, tokens_append _ rfl, hcomma]

/-! ### Well-formed alternatives have texts of the grammar -/

theorem isWord_of_isKey {k : String} (h : IsKey k) : IsWord k := by
  rcases h with h | h
  · exact h.1
  · exact ⟨h.1, fun c hc => by simp [isWordChar, Char.isAlphanum, h.2 c hc]⟩

theorem derives_keys {as : List Alternative} (hne : as ≠ []) (h : ∀ a ∈ as, a = .name "string" ∨ a = .name "number") :
    Derives .keys (tokens (typeChars as)) := by
  induction as with
  | nil => exact absurd rfl hne
  | cons a as ih =>
    rw [List.forall_mem_cons] at h
    obtain ⟨k, rfl, hk⟩ : ∃ k, a = .name k ∧ (k = "string" ∨ k = "number") := by
      rcases h.1 with rfl | rfl
      · exact ⟨_, rfl, .inl rfl⟩
      · exact ⟨_, rfl, .inr rfl⟩
    have hword : tokens (Alternative.name k).chars = [.word k] := tokens_of_isWord (isIdentifier_of_key hk).1
    cases as with
    | nil =>
      rw [typeChars, hword]
      exact .key hk
    | cons b as =>
      rw [tokens_union, hword]
      exact .bar hk (ih (by simp) h.2)

theorem derives_type {as : List Alternative} (hne : as ≠ []) (h : ∀ a ∈ as, Derives .alternative (tokens a.chars)) :
    Derives .type (tokens (typeChars as)) := by
  induction as with
  | nil => exact absurd rfl hne
  | cons a as ih =>
    rw [List.forall_mem_cons] at h
    cases as with
    | nil =>
      rw [typeChars]
      exact .single h.1
    | cons b as =>
      rw [tokens_union]
      exact .union h.1 (ih (by simp) h.2)

theorem derives_fields {fields : List (String × Bool × List Alternative)} (hne : fields ≠ [])
    (hkeys : ∀ f ∈ fields, IsKey f.1) (h : ∀ f ∈ fields, Derives .type (tokens (typeChars f.2.2))) :
    Derives .fields (tokens (fieldsChars fields)) := by
  induction fields with
  | nil => exact absurd rfl hne
  | cons field fields ih =>
    obtain ⟨key, optional, type⟩ := field
    rw [List.forall_mem_cons] at hkeys h
    have hword : tokens key.toList = [.word key] := tokens_of_isWord (isWord_of_isKey hkeys.1)
    cases fields with
    | nil =>
      rw [tokens_fields, hword]
      exact .field hkeys.1 optional h.1
    | cons field fields =>
      rw [tokens_fields_cons, hword]
      exact .comma hkeys.1 optional h.1 (ih (by simp) hkeys.2 h.2)

theorem derives_of_wellFormed {a : Alternative} (h : a.WellFormed) : Derives .alternative (tokens a.chars) := by
  induction h with
  | name h =>
    rw [Alternative.chars, tokens_of_isWord h.1]
    exact .name h
  | array hne _ ih =>
    rw [tokens_array]
    exact .array (derives_type hne ih)
  | index hkey hk hvalue _ ih =>
    rw [tokens_index]
    exact .index (derives_keys hkey hk) (derives_type hvalue ih)
  | @object fields hkeys hne _ ih =>
    cases fields with
    | nil => exact .empty
    | cons field fields =>
      rw [tokens_object]
      exact .object (derives_fields (by simp) hkeys fun f hf => derives_type (hne f hf) (ih f hf))

/-! ### Texts of the grammar are those of well-formed alternatives -/

theorem isKey_of_fit {k : String} (hne : k ≠ "") (hk : ∀ c ∈ k.toList, isNameChar c = true) {rest : List Token}
    (h : Fit (tokens k.toList ++ rest)) : IsKey k := by
  have hword : IsWord k := by
    refine ⟨hne, fun c hc => ?_⟩
    by_contra hno
    rw [Bool.not_eq_true] at hno
    have hspace : c ≠ ' ' := by
      rintro rfl
      exact absurd (hk _ hc) (by decide)
    have hmark := h.mem_marks (List.mem_append_left rest (symbol_mem_tokens hc hno hspace))
    have hnone : marks.any isNameChar = false := by decide
    exact absurd (hk c hc) (List.any_eq_false.1 hnone c hmark)
  rw [tokens_of_isWord hword] at h
  exact h.1

/-- An alternative that is not `string` or `number` starts with a token that no type of keys has. -/
theorem key_or_first {a : Alternative} (h : a.IsWritten) :
    (∃ k, a = .name k ∧ (k = "string" ∨ k = "number")) ∨
      ∃ t ts, tokens a.chars = t :: ts ∧ ¬ IsKeyToken t ∧ t ≠ .symbol ']' := by
  cases h with
  | @name n h =>
    by_cases hk : n = "string" ∨ n = "number"
    · exact .inl ⟨n, rfl, hk⟩
    · refine .inr ⟨.word n, [], tokens_of_isWord h.1, ?_, by simp⟩
      simpa [IsKeyToken] using hk
  | array => exact .inr ⟨_, _, tokens_array _, by simp [IsKeyToken], by simp⟩
  | index => exact .inr ⟨_, _, tokens_index _ _, by simp [IsKeyToken], by simp⟩
  | @object fields =>
    cases fields with
    | nil => exact .inr ⟨.symbol '\x7b', [.symbol '\x7d'], rfl, by simp [IsKeyToken], by simp⟩
    | cons => exact .inr ⟨_, _, tokens_object _ _, by simp [IsKeyToken], by simp⟩

/-- What stands between the opening of an index and the first bracket that closes is the type of its keys. -/
theorem keys_of_opens {as : List Alternative} (h : ∀ a ∈ as, a.IsWritten) {ks rest rest' : List Token}
    (hks : ∀ t ∈ ks, IsKeyToken t)
    (heq : tokens (typeChars as) ++ .symbol ']' :: rest = ks ++ .symbol ']' :: rest') :
    ∀ a ∈ as, a = .name "string" ∨ a = .name "number" := by
  induction as generalizing ks with
  | nil => simp
  | cons a as ih =>
    rw [List.forall_mem_cons] at h
    obtain ⟨more, hmore⟩ : ∃ more, tokens (typeChars (a :: as)) = tokens a.chars ++ more := by
      cases as with
      | nil => exact ⟨[], by rw [typeChars, List.append_nil]⟩
      | cons b as => exact ⟨_, tokens_union a b as⟩
    rcases key_or_first h.1 with ⟨k, rfl, hk⟩ | ⟨t, ts, ht, hkey, hclose⟩
    · have hname : Alternative.name k = .name "string" ∨ Alternative.name k = .name "number" :=
        hk.imp (congrArg _) (congrArg _)
      have hword : tokens (Alternative.name k).chars = [.word k] := tokens_of_isWord (isIdentifier_of_key hk).1
      cases as with
      | nil => exact List.forall_mem_singleton.2 hname
      | cons b as =>
        rw [tokens_union, hword] at heq
        rw [List.forall_mem_cons]
        obtain _ | ⟨_, _ | ⟨_, ks⟩⟩ := ks
        · simp at heq
        · simp at heq
        · simp only [List.cons_append, List.nil_append, List.cons.injEq] at heq
          exact ⟨hname, ih h.2 (fun t ht => hks t (by simp [ht])) heq.2.2⟩
    · rw [hmore, ht] at heq
      cases ks with
      | nil => exact absurd (List.cons.inj heq).1 hclose
      | cons k ks =>
        obtain ⟨rfl, -⟩ := List.cons.inj heq
        exact absurd (hks t List.mem_cons_self) hkey

/-- Each alternative of a type that fits does so, before what follows it. -/
theorem fit_alternative {as : List Alternative} {rest : List Token} (h : Fit (tokens (typeChars as) ++ rest)) :
    ∀ a ∈ as, ∃ rest', Fit (tokens a.chars ++ rest') := by
  induction as with
  | nil => simp
  | cons a as ih =>
    rw [List.forall_mem_cons]
    cases as with
    | nil =>
      rw [typeChars] at h
      exact ⟨⟨rest, h⟩, by simp⟩
    | cons b as =>
      rw [tokens_union, List.append_assoc] at h
      exact ⟨⟨_, h⟩, ih h.right.2⟩

/-- Each field that fits has a key and a type that fit, before what follows them. -/
theorem fit_field {fields : List (String × Bool × List Alternative)} {rest : List Token}
    (h : Fit (tokens (fieldsChars fields) ++ rest)) : ∀ f ∈ fields,
      (∃ rest', Fit (tokens f.1.toList ++ rest')) ∧ ∃ rest', Fit (tokens (typeChars f.2.2) ++ rest') := by
  induction fields with
  | nil => simp
  | cons field fields ih =>
    obtain ⟨key, optional, type⟩ := field
    rw [List.forall_mem_cons]
    cases fields with
    | nil =>
      rw [tokens_fields, List.append_assoc] at h
      have htype := h.right
      rw [List.append_assoc] at htype
      exact ⟨⟨⟨_, h⟩, _, htype.right⟩, by simp⟩
    | cons field fields =>
      rw [tokens_fields_cons, List.append_assoc] at h
      have htype := h.right
      rw [List.append_assoc, List.append_assoc] at htype
      exact ⟨⟨⟨_, h⟩, _, htype.right⟩, ih htype.right.right.2⟩

theorem wellFormed_of_fit {a : Alternative} (h : a.IsWritten) {rest : List Token}
    (hfit : Fit (tokens a.chars ++ rest)) : a.WellFormed := by
  induction h generalizing rest with
  | name h => exact .name h
  | array hne _ ih =>
    simp only [tokens_array, List.cons_append, List.append_assoc] at hfit
    refine .array hne fun a ha => ?_
    obtain ⟨rest', hrest⟩ := fit_alternative hfit.2.2 a ha
    exact ih a ha hrest
  | @index key value hkey hvalue hk _ _ ihv =>
    simp only [tokens_index, List.cons_append, List.append_assoc] at hfit
    obtain ⟨-, ⟨-, hbracket⟩, -, -, hkeys⟩ := hfit
    obtain ⟨ks, rest', heq, hks⟩ := (hbracket rfl).resolve_left (by simp)
    obtain ⟨-, heq⟩ := List.cons.inj heq
    obtain ⟨-, heq⟩ := List.cons.inj heq
    refine .index hkey (keys_of_opens hk hks heq) hvalue fun a ha => ?_
    obtain ⟨rest', hrest⟩ := fit_alternative hkeys.right.2.2 a ha
    exact ihv a ha hrest
  | @object fields hkeys hne _ ih =>
    cases fields with
    | nil => exact .object (by simp) (by simp) (by simp)
    | cons field fields =>
      simp only [tokens_object, List.cons_append, List.append_assoc] at hfit
      have hparts := fit_field hfit.2
      refine .object (fun f hf => ?_) hne fun f hf a ha => ?_
      · obtain ⟨rest', hrest⟩ := (hparts f hf).1
        exact isKey_of_fit (hkeys f hf).1 (hkeys f hf).2 hrest
      · obtain ⟨-, rest', hrest⟩ := hparts f hf
        obtain ⟨rest'', hrest'⟩ := fit_alternative hrest a ha
        exact ih f hf a ha hrest'

/-- The text of an alternative, perhaps as a list, is one of the grammar just if the alternative is well-formed. The
brackets of a list follow the alternative, which is no union. -/
theorem isType_iff_wellFormed {a : Alternative} (h : a.IsWritten) {text : String} (isList : Bool)
    (htext : text.toList = a.chars ++ if isList then ['[', ']'] else []) : IsType text ↔ a.WellFormed := by
  have htokens : tokens text.toList = tokens a.chars ++ if isList then [.symbol '[', .symbol ']'] else [] := by
    rw [htext, tokens_append _ (by cases isList <;> rfl)]
    cases isList <;> rfl
  rw [IsType, htokens]
  constructor
  · intro hderives
    exact wellFormed_of_fit h (fit_of_derives hderives).1
  · intro hwell
    have hone := derives_of_wellFormed hwell
    cases isList with
    | false =>
      rw [if_neg Bool.false_ne_true, List.append_nil]
      exact .single hone
    | true => exact .single (.list hone)

end TypeSyntax

end EntityScript
