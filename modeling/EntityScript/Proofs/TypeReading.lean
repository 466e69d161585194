import EntityScript.Proofs.Grammar
import EntityScript.Type.Expression
/-!
# Reading the texts of types

A type is a union of alternatives. Its text reads back: the reader, which knows the syntax of types and nothing of
how they are made, finds the alternatives that an expression is made of.
-/

namespace EntityScript

open Signal (isNameChar)
open Text (after?)

/-- One alternative of a type. The types inside it are lists of alternatives. -/
inductive Alternative
  | name (name : String)
  /-- `Array<T>` -/
  | array (element : List Alternative)
  /-- `{ [key: K]: V }` -/
  | index (key value : List Alternative)
  /-- `{ k: T, l?: U }` -/
  | object (fields : List (String × Bool × List Alternative))

/-! ## Texts of alternatives -/

/-- A key as it stands before its type. -/
def keyChars (key : String) (optional : Bool) : List Char :=
  key.toList ++ ((if optional then ['?'] else []) ++ [':', ' '])

mutual

def Alternative.chars : Alternative → List Char
  | .name n => n.toList
  | .array element => ['A', 'r', 'r', 'a', 'y', '<'] ++ (typeChars element ++ ['>'])
  | .index key value =>
    ['\x7b'] ++ ([' '] ++ (['[', 'k', 'e', 'y', ':', ' '] ++
      (typeChars key ++ ([']', ':', ' '] ++ (typeChars value ++ [' ', '\x7d'])))))
  | .object [] => ['\x7b'] ++ ['\x7d']
  | .object (field :: fields) =>
    ['\x7b'] ++ ([' '] ++ (fieldsChars (field :: fields) ++ [' ', '\x7d']))

/-- The text of a type. -/
def typeChars : List Alternative → List Char
  | [] => []
  | [a] => a.chars
  | a :: b :: as => a.chars ++ ([' ', '|', ' '] ++ typeChars (b :: as))

def fieldsChars : List (String × Bool × List Alternative) → List Char
  | [] => []
  | [(key, optional, type)] => keyChars key optional ++ typeChars type
  | (key, optional, type) :: field :: fields =>
    keyChars key optional ++ (typeChars type ++ ([',', ' '] ++ fieldsChars (field :: fields)))

end

/-- Whether a type could be the text of an alternative: its names and keys are made of name characters, and no type
in it is empty. -/
inductive Alternative.IsPlain : Alternative → Prop
  | name {n : String} (h : ∀ c ∈ n.toList, isNameChar c) : IsPlain (.name n)
  | array {element : List Alternative} (hne : element ≠ []) (h : ∀ a ∈ element, IsPlain a) : IsPlain (.array element)
  | index {key value : List Alternative} (hkey : key ≠ []) (hvalue : value ≠ []) (hk : ∀ a ∈ key, IsPlain a)
    (hv : ∀ a ∈ value, IsPlain a) : IsPlain (.index key value)
  | object {fields : List (String × Bool × List Alternative)} (hkeys : ∀ f ∈ fields, ∀ c ∈ f.1.toList, isNameChar c)
    (hne : ∀ f ∈ fields, f.2.2 ≠ []) (h : ∀ f ∈ fields, ∀ a ∈ f.2.2, IsPlain a) : IsPlain (.object fields)

/-! ## The reader -/

/-- A key with whether it is optional, up to its type. -/
def readKey (cs : List Char) : Option (String × Bool × List Char) :=
  let rest := cs.dropWhile isNameChar
  (after? [':', ' '] ((after? ['?'] rest).getD rest)).map fun type =>
    (String.ofList (cs.takeWhile isNameChar), (after? ['?'] rest).isSome, type)

/-! `fuel` bounds the depth of the calls; two units more than there are characters are enough. -/

mutual

def readType : Nat → List Char → Option (List Alternative × List Char)
  | 0, _ => none
  | fuel + 1, cs => do
    let (first, cs) ← readAlternative fuel cs
    match after? [' ', '|', ' '] cs with
    | none => return ([first], cs)
    | some cs => do
      let (more, cs) ← readType fuel cs
      return (first :: more, cs)

def readAlternative : Nat → List Char → Option (Alternative × List Char)
  | 0, _ => none
  | fuel + 1, cs =>
    match after? ['\x7b'] cs with
    | some cs =>
      match after? ['\x7d'] cs with
      | some cs => some (.object [], cs)
      | none => do
        let cs ← after? [' '] cs
        match after? ['[', 'k', 'e', 'y', ':', ' '] cs with
        | some cs => do
          let (key, cs) ← readType fuel cs
          let cs ← after? [']', ':', ' '] cs
          let (value, cs) ← readType fuel cs
          let cs ← after? [' ', '\x7d'] cs
          return (.index key value, cs)
        | none => do
          let (fields, cs) ← readObject fuel cs
          return (.object fields, cs)
    | none =>
      match after? ['A', 'r', 'r', 'a', 'y', '<'] cs with
      | some cs => do
        let (element, cs) ← readType fuel cs
        let cs ← after? ['>'] cs
        return (.array element, cs)
      | none => some (.name (String.ofList (cs.takeWhile isNameChar)), cs.dropWhile isNameChar)

/-- The fields of an object up to its closing brace. -/
def readObject : Nat → List Char → Option (List (String × Bool × List Alternative) × List Char)
  | 0, _ => none
  | fuel + 1, cs => do
    let (key, optional, cs) ← readKey cs
    let (type, cs) ← readType fuel cs
    match after? [',', ' '] cs with
    | some cs => do
      let (more, cs) ← readObject fuel cs
      return ((key, optional, type) :: more, cs)
    | none => do
      let cs ← after? [' ', '\x7d'] cs
      return ([(key, optional, type)], cs)

end

/-- The type that a text writes. -/
def readTypeText? (text : String) : Option (List Alternative) :=
  match readType (text.toList.length + 2) text.toList with
  | some (type, []) => some type
  | _ => none

/-! ## Texts of alternatives read back -/

@[simp] theorem after?_append (word cs : List Char) : after? word (word ++ cs) = some cs := by
  simp [after?]

/-- What may stand behind an alternative. -/
def EndsAlternative (rest : List Char) : Prop :=
  ∀ c ∈ rest.head?, c ∈ [' ', '>', ']', ',']

/-- What may stand behind a type. -/
def EndsType (rest : List Char) : Prop :=
  EndsAlternative rest ∧ after? [' ', '|', ' '] rest = none

namespace Alternative

/-- Whether an alternative is read back from its text. -/
def ReadsBack (a : Alternative) : Prop :=
  ∀ fuel rest, a.chars.length < fuel → EndsAlternative rest → readAlternative fuel (a.chars ++ rest) = some (a, rest)

theorem readType_chars {as : List Alternative} (hne : as ≠ []) (h : ∀ a ∈ as, a.ReadsBack) (fuel : Nat)
    {rest : List Char} (hfuel : (typeChars as).length + 1 < fuel) (hrest : EndsType rest) :
    readType fuel (typeChars as ++ rest) = some (as, rest) := by
  induction as generalizing fuel with
  | nil => exact absurd rfl hne
  | cons a as ih =>
    obtain ⟨fuel, rfl⟩ : ∃ n, fuel = n + 1 := ⟨fuel - 1, by omega⟩
    rw [List.forall_mem_cons] at h
    cases as with
    | nil =>
      simp only [typeChars] at hfuel ⊢
      rw [readType, h.1 fuel rest (by omega) hrest.1]
      simp [hrest.2]
    | cons b as =>
      simp only [typeChars, List.append_assoc, List.length_append] at hfuel ⊢
      have hbar : EndsAlternative ([' ', '|', ' '] ++ (typeChars (b :: as) ++ rest)) := by
        simp [EndsAlternative]
      have hmore := ih (by simp) h.2 fuel (by simp at hfuel; omega)
      rw [readType, h.1 fuel _ (by omega) hbar]
      simp only [Option.bind_eq_bind, Option.bind_some, after?_append, hmore, Option.pure_def]

theorem after?_eq_none {word cs : List Char} (c : Char) (h : word.head? = some c)
    (hc : ∀ d ∈ cs.head?, d ≠ c) : after? word cs = none := by
  rw [after?, if_neg]
  intro hprefix
  obtain ⟨tail, rfl⟩ := List.isPrefixOf_iff_prefix.1 hprefix
  exact hc c (by simp [List.head?_append, h]) rfl

/-- A name ends where an alternative does. -/
theorem head_of_ends {rest : List Char} (h : EndsAlternative rest) : ∀ c ∈ rest.head?, isNameChar c = false := by
  intro c hc
  have hall : ∀ d ∈ [' ', '>', ']', ','], isNameChar d = false := by
    simp [isNameChar, Text.isAlphanumeric]
  exact hall c (h c hc)

/-- What is no name character does not come first after a name that it does not follow. -/
theorem head_name_append {name rest : List Char} (hn : ∀ c ∈ name, isNameChar c) {c : Char} (hc : isNameChar c = false)
    (hrest : ∀ d ∈ rest.head?, d ≠ c) : ∀ d ∈ (name ++ rest).head?, d ≠ c := by
  rintro d hd rfl
  cases name with
  | nil => exact hrest d hd rfl
  | cons e name =>
    obtain rfl : e = d := by simpa using hd
    rw [hn e List.mem_cons_self] at hc
    cases hc

theorem readsBack_name {n : String} (hn : ∀ c ∈ n.toList, isNameChar c) : (Alternative.name n).ReadsBack := by
  intro fuel rest hfuel hrest
  obtain _ | fuel := fuel
  · exact absurd hfuel (Nat.not_lt_zero _)
  have htake := Text.takeWhile_run hn (head_of_ends hrest)
  have hdrop := Text.dropWhile_run hn (head_of_ends hrest)
  have hbrace : after? ['\x7b'] (n.toList ++ rest) = none := by
    refine after?_eq_none '\x7b' (by simp) (head_name_append hn (by simp [isNameChar, Text.isAlphanumeric]) ?_)
    rintro c hc rfl
    have := hrest _ hc
    simp at this
  have harray : after? ['A', 'r', 'r', 'a', 'y', '<'] (n.toList ++ rest) = none := by
    rw [after?, if_neg]
    intro hprefix
    obtain ⟨tail, htail⟩ := List.isPrefixOf_iff_prefix.1 hprefix
    have hbracket : rest = '<' :: tail := by
      rw [← hdrop, ← htail]
      simp [isNameChar, Text.isAlphanumeric]
    have := hrest '<' (by simp [hbracket])
    simp at this
  rw [readAlternative]
  simp only [chars, hbrace, harray, htake, hdrop, String.ofList_toList]

theorem readsBack_array {element : List Alternative} (hne : element ≠ []) (h : ∀ a ∈ element, a.ReadsBack) :
    (Alternative.array element).ReadsBack := by
  intro fuel rest hfuel hrest
  obtain _ | fuel := fuel
  · exact absurd hfuel (Nat.not_lt_zero _)
  simp only [chars, List.append_assoc, List.length_append] at hfuel ⊢
  have hends : EndsType (['>'] ++ rest) := ⟨by simp [EndsAlternative], after?_eq_none ' ' (by simp) (by simp)⟩
  have hread := readType_chars hne h fuel (by simp at hfuel; omega) hends
  have hbrace : after? ['\x7b'] (['A', 'r', 'r', 'a', 'y', '<'] ++ (typeChars element ++ (['>'] ++ rest))) = none :=
    after?_eq_none '\x7b' (by simp) (by simp)
  rw [readAlternative, hbrace]
  simp only [after?_append, hread, Option.bind_eq_bind, Option.bind_some, Option.pure_def]

theorem readsBack_index {key value : List Alternative} (hkey : key ≠ []) (hvalue : value ≠ [])
    (hk : ∀ a ∈ key, a.ReadsBack) (hv : ∀ a ∈ value, a.ReadsBack) : (Alternative.index key value).ReadsBack := by
  intro fuel rest hfuel hrest
  obtain _ | fuel := fuel
  · exact absurd hfuel (Nat.not_lt_zero _)
  simp only [chars, List.append_assoc, List.length_append] at hfuel ⊢
  have hclose : EndsType ([' ', '\x7d'] ++ rest) := ⟨by simp [EndsAlternative], by simp [after?]⟩
  have hcolon : EndsType ([']', ':', ' '] ++ (typeChars value ++ ([' ', '\x7d'] ++ rest))) :=
    ⟨by simp [EndsAlternative], after?_eq_none ' ' (by simp) (by simp)⟩
  have hreadKey := readType_chars hkey hk fuel (by simp at hfuel; omega) hcolon
  have hreadValue := readType_chars hvalue hv fuel (by simp at hfuel; omega) hclose
  have hempty (cs : List Char) : after? ['\x7d'] ([' '] ++ cs) = none := after?_eq_none '\x7d' (by simp) (by simp)
  rw [readAlternative]
  simp only [hempty, after?_append, hreadKey, hreadValue, Option.bind_eq_bind, Option.bind_some, Option.pure_def]

theorem readKey_chars {key : String} (hk : ∀ c ∈ key.toList, isNameChar c) (optional : Bool) (cs : List Char) :
    readKey (keyChars key optional ++ cs) = some (key, optional, cs) := by
  have hend : ∀ c ∈ ((if optional then ['?'] else []) ++ ([':', ' '] ++ cs)).head?, isNameChar c = false := by
    cases optional <;> simp [isNameChar, Text.isAlphanumeric]
  have htake := Text.takeWhile_run hk hend
  have hdrop := Text.dropWhile_run hk hend
  simp only [readKey, keyChars, List.append_assoc, htake, hdrop, String.ofList_toList]
  cases optional <;> simp [after?]

/-- The fields of an object do not start like an index. -/
theorem after?_index {field : String × Bool × List Alternative} (hk : ∀ c ∈ field.1.toList, isNameChar c)
    (fields : List (String × Bool × List Alternative)) (cs : List Char) :
    after? ['[', 'k', 'e', 'y', ':', ' '] (fieldsChars (field :: fields) ++ cs) = none := by
  obtain ⟨key, optional, type⟩ := field
  obtain ⟨more, hmore⟩ : ∃ more, fieldsChars ((key, optional, type) :: fields) ++ cs = keyChars key optional ++ more := by
    cases fields with
    | nil => exact ⟨typeChars type ++ cs, by simp [fieldsChars]⟩
    | cons field fields =>
      refine ⟨typeChars type ++ ([',', ' '] ++ fieldsChars (field :: fields)) ++ cs, ?_⟩
      simp only [fieldsChars, List.append_assoc]
  rw [hmore, keyChars, List.append_assoc]
  refine after?_eq_none '[' (by simp) (head_name_append hk (by simp [isNameChar, Text.isAlphanumeric]) ?_)
  cases optional <;> simp

theorem readObject_chars {fields : List (String × Bool × List Alternative)} (hfields : fields ≠ [])
    (hkeys : ∀ f ∈ fields, ∀ c ∈ f.1.toList, isNameChar c) (hne : ∀ f ∈ fields, f.2.2 ≠ [])
    (h : ∀ f ∈ fields, ∀ a ∈ f.2.2, a.ReadsBack) (fuel : Nat) (rest : List Char)
    (hfuel : (fieldsChars fields).length < fuel) :
    readObject fuel (fieldsChars fields ++ ([' ', '\x7d'] ++ rest)) = some (fields, rest) := by
  induction fields generalizing fuel with
  | nil => exact absurd rfl hfields
  | cons field fields ih =>
    obtain ⟨key, optional, type⟩ := field
    obtain _ | fuel := fuel
    · exact absurd hfuel (Nat.not_lt_zero _)
    rw [List.forall_mem_cons] at hkeys hne h
    have hlength : 2 ≤ (keyChars key optional).length := by
      simp only [keyChars, List.length_append, String.length_toList]
      exact Nat.le_add_left_of_le (Nat.le_add_left _ _)
    cases fields with
    | nil =>
      simp only [fieldsChars, List.append_assoc, List.length_append] at hfuel ⊢
      have hclose : EndsType ([' ', '\x7d'] ++ rest) := ⟨by simp [EndsAlternative], by simp [after?]⟩
      have hread := readType_chars (show type ≠ [] from hne.1) h.1 fuel (by omega) hclose
      have hcomma : after? [',', ' '] ([' ', '\x7d'] ++ rest) = none := after?_eq_none ',' (by simp) (by simp)
      rw [readObject, readKey_chars hkeys.1]
      simp only [hread, hcomma, after?_append, Option.bind_eq_bind, Option.bind_some, Option.pure_def]
    | cons field fields =>
      simp only [fieldsChars, List.append_assoc, List.length_append] at hfuel ⊢
      have hcomma : EndsType ([',', ' '] ++ (fieldsChars (field :: fields) ++ ([' ', '\x7d'] ++ rest))) :=
        ⟨by simp [EndsAlternative], after?_eq_none ' ' (by simp) (by simp)⟩
      have hread := readType_chars (show type ≠ [] from hne.1) h.1 fuel (by omega) hcomma
      have hmore := ih (by simp) hkeys.2 hne.2 h.2 fuel (by omega)
      rw [readObject, readKey_chars hkeys.1]
      simp only [hread, hmore, after?_append, Option.bind_eq_bind, Option.bind_some, Option.pure_def]

theorem readsBack_object {fields : List (String × Bool × List Alternative)}
    (hkeys : ∀ f ∈ fields, ∀ c ∈ f.1.toList, isNameChar c) (hne : ∀ f ∈ fields, f.2.2 ≠ [])
    (h : ∀ f ∈ fields, ∀ a ∈ f.2.2, a.ReadsBack) : (Alternative.object fields).ReadsBack := by
  intro fuel rest hfuel hrest
  obtain _ | fuel := fuel
  · exact absurd hfuel (Nat.not_lt_zero _)
  cases fields with
  | nil =>
    simp only [chars, List.append_assoc]
    rw [readAlternative]
    simp only [after?_append]
  | cons field fields =>
    simp only [chars, List.append_assoc, List.length_append] at hfuel ⊢
    have hread := readObject_chars (List.cons_ne_nil field fields) hkeys hne h fuel rest
      (by simp at hfuel; omega)
    have hempty (cs : List Char) : after? ['\x7d'] ([' '] ++ cs) = none := after?_eq_none '\x7d' (by simp) (by simp)
    have hindex := after?_index (hkeys field List.mem_cons_self) fields ([' ', '\x7d'] ++ rest)
    rw [readAlternative]
    simp only [hempty, hindex, hread, after?_append, Option.bind_eq_bind, Option.bind_some, Option.pure_def]

theorem IsPlain.readsBack {a : Alternative} (h : a.IsPlain) : a.ReadsBack := by
  induction h with
  | name h => exact readsBack_name h
  | array hne _ ih => exact readsBack_array hne ih
  | index hkey hvalue _ _ ihk ihv => exact readsBack_index hkey hvalue ihk ihv
  | object hkeys hne _ ih => exact readsBack_object hkeys hne ih

end Alternative

/-- A type is read back from its text. -/
theorem readTypeText?_of_chars {as : List Alternative} (hne : as ≠ []) (h : ∀ a ∈ as, a.IsPlain) {text : String}
    (htext : text.toList = typeChars as) : readTypeText? text = some as := by
  have hend : EndsType [] := ⟨by simp [EndsAlternative], by simp [after?]⟩
  have hread := Alternative.readType_chars hne (fun a ha => (h a ha).readsBack) _
    (Nat.lt_succ_self ((typeChars as).length + 1)) hend
  rw [List.append_nil] at hread
  rw [readTypeText?, htext, hread]

theorem typeChars_append {as bs : List Alternative} (ha : as ≠ []) (hb : bs ≠ []) :
    typeChars (as ++ bs) = typeChars as ++ ([' ', '|', ' '] ++ typeChars bs) := by
  induction as with
  | nil => exact absurd rfl ha
  | cons a as ih =>
    obtain ⟨b, bs, rfl⟩ := List.exists_cons_of_ne_nil hb
    cases as with
    | nil => rfl
    | cons a' as =>
      have hmore := ih (by simp)
      simp only [List.cons_append] at hmore
      simp only [List.cons_append, typeChars, hmore, List.append_assoc]

/-! ## Expressions -/

namespace TypeExpr

/-- Whether the names and keys of a type are made of name characters, and no union in it is empty. -/
inductive IsPlain : TypeExpr → Prop
  | name {n : String} (h : ∀ c ∈ n.toList, isNameChar c) : IsPlain (.name n)
  | array {element : TypeExpr} (h : IsPlain element) : IsPlain (.array element)
  | index {key value : TypeExpr} (hk : IsPlain key) (hv : IsPlain value) : IsPlain (.index key value)
  | object {fields : List (String × Bool × TypeExpr)} (hkeys : ∀ f ∈ fields, ∀ c ∈ f.1.toList, isNameChar c)
    (h : ∀ f ∈ fields, IsPlain f.2.2) : IsPlain (.object fields)
  | union {items : List TypeExpr} (hne : items ≠ []) (h : ∀ t ∈ items, IsPlain t) : IsPlain (.union items)

mutual

/-- The alternatives of a type. -/
def alternatives : TypeExpr → List Alternative
  | name n => [.name n]
  | array element => [.array element.alternatives]
  | index key value => [.index key.alternatives value.alternatives]
  | object fields => [.object (fieldAlternatives fields)]
  | union items => allAlternatives items

/-- The alternatives of types together. -/
def allAlternatives : List TypeExpr → List Alternative
  | [] => []
  | item :: items => item.alternatives ++ allAlternatives items

/-- Fields with the alternatives of their types. -/
def fieldAlternatives : List (String × Bool × TypeExpr) → List (String × Bool × List Alternative)
  | [] => []
  | (key, optional, type) :: fields => (key, optional, type.alternatives) :: fieldAlternatives fields

end

theorem mem_allAlternatives {a : Alternative} {ts : List TypeExpr} :
    a ∈ allAlternatives ts ↔ ∃ t ∈ ts, a ∈ t.alternatives := by
  induction ts with
  | nil => simp [allAlternatives]
  | cons t ts ih => simp [allAlternatives, ih]

theorem mem_fieldAlternatives {f : String × Bool × List Alternative} {fields : List (String × Bool × TypeExpr)} :
    f ∈ fieldAlternatives fields ↔ ∃ g ∈ fields, f = (g.1, g.2.1, g.2.2.alternatives) := by
  induction fields with
  | nil => simp [fieldAlternatives]
  | cons g fields ih => simp [fieldAlternatives, ih]

theorem alternatives_ne_nil {t : TypeExpr} (h : t.IsPlain) : t.alternatives ≠ [] := by
  induction h with
  | name | array | index | object => simp [alternatives]
  | union hne _ ih =>
    obtain ⟨t, ts, rfl⟩ := List.exists_cons_of_ne_nil hne
    simp [alternatives, allAlternatives, ih t List.mem_cons_self]

theorem isPlain_alternatives {t : TypeExpr} (h : t.IsPlain) : ∀ a ∈ t.alternatives, a.IsPlain := by
  induction h with
  | name h => exact List.forall_mem_singleton.2 (.name h)
  | array h ih => exact List.forall_mem_singleton.2 (.array (alternatives_ne_nil h) ih)
  | index hk hv ihk ihv =>
    exact List.forall_mem_singleton.2 (.index (alternatives_ne_nil hk) (alternatives_ne_nil hv) ihk ihv)
  | object hkeys h ih =>
    rw [alternatives, List.forall_mem_singleton]
    refine .object ?_ ?_ ?_ <;> intro f hf <;> obtain ⟨g, hg, rfl⟩ := mem_fieldAlternatives.1 hf
    · exact hkeys g hg
    · exact alternatives_ne_nil (h g hg)
    · exact ih g hg
  | union _ _ ih =>
    intro a ha
    obtain ⟨t, ht, ha⟩ := mem_allAlternatives.1 ha
    exact ih t ht a ha

theorem toList_join_texts {ts : List TypeExpr} (hplain : ∀ t ∈ ts, t.IsPlain)
    (h : ∀ t ∈ ts, t.text.toList = typeChars t.alternatives) :
    (Text.join " | " (texts ts)).toList = typeChars (allAlternatives ts) := by
  induction ts with
  | nil => rfl
  | cons t ts ih =>
    rw [List.forall_mem_cons] at hplain h
    cases ts with
    | nil => simp [texts, Text.join, allAlternatives, h.1]
    | cons u ts =>
      have hmore := ih hplain.2 h.2
      have hne : allAlternatives (u :: ts) ≠ [] := by
        simp [allAlternatives, alternatives_ne_nil (hplain.2 u List.mem_cons_self)]
      rw [allAlternatives, typeChars_append (alternatives_ne_nil hplain.1) hne, ← hmore, ← h.1]
      simp [texts, Text.join]

theorem toList_join_fieldTexts {fields : List (String × Bool × TypeExpr)}
    (h : ∀ f ∈ fields, f.2.2.text.toList = typeChars f.2.2.alternatives) :
    (Text.join ", " (fieldTexts fields)).toList = fieldsChars (fieldAlternatives fields) := by
  induction fields with
  | nil => rfl
  | cons field fields ih =>
    obtain ⟨key, optional, type⟩ := field
    rw [List.forall_mem_cons] at h
    have hmore := ih h.2
    cases fields with
    | nil => cases optional <;> simp [fieldTexts, Text.join, fieldAlternatives, fieldsChars, keyChars, h.1]
    | cons field fields =>
      obtain ⟨key', optional', type'⟩ := field
      rw [fieldAlternatives, fieldAlternatives, fieldsChars, ← fieldAlternatives, ← hmore, ← h.1]
      cases optional <;> simp [fieldTexts, Text.join, keyChars]

/-- The text of an expression is the text of its alternatives. -/
theorem toList_text {t : TypeExpr} (h : t.IsPlain) : t.text.toList = typeChars t.alternatives := by
  induction h with
  | name => rfl
  | array _ ih => simp [text, alternatives, typeChars, Alternative.chars, ih]
  | index _ _ ihk ihv =>
    simp [text, alternatives, typeChars, Alternative.chars, ihk, ihv]
  | @object fields _ _ ih =>
    have hfields := toList_join_fieldTexts ih
    cases fields with
    | nil => simp [text, alternatives, typeChars, fieldAlternatives, Alternative.chars]
    | cons field fields =>
      simp only [fieldAlternatives] at hfields
      simp [text, alternatives, typeChars, fieldAlternatives, Alternative.chars, hfields]
  | union _ hplain ih => rw [text, alternatives, toList_join_texts hplain ih]

/-- The text of an expression reads back as its alternatives. -/
theorem readTypeText?_text {t : TypeExpr} (h : t.IsPlain) : readTypeText? t.text = some t.alternatives :=
  readTypeText?_of_chars (alternatives_ne_nil h) (isPlain_alternatives h) (toList_text h)

end TypeExpr

end EntityScript
