import Mathlib.Data.List.TakeWhile
import EntityScript.Quote
import EntityScript.Text.Cut
/-!
# Literals

The literals of generated code, and a reader for them: words, numbers, strings in either quote style, arrays, and
objects with quoted keys. Strings are read with their escapes undone, numbers are kept as they are written. The
reader refuses what generated code has no use for, such as blanks between tokens.
-/

namespace EntityScript

open Text

/-- A string literal: its quotes, and the text with its escapes undone. -/
structure StringLiteral where
  style : QuoteStyle
  text : String
  deriving DecidableEq, Repr

inductive Literal
  | null
  | boolean (truth : Bool)
  | number (text : String)
  | string (literal : StringLiteral)
  | array (items : List Literal)
  | object (entries : List (StringLiteral × Literal))
  deriving Repr

namespace Literal

mutual

/-- The string literals in a literal, keys included. -/
def strings : Literal → List StringLiteral
  | string s => [s]
  | array items => stringsIn items
  | object entries => entryStrings entries
  | _ => []

def stringsIn : List Literal → List StringLiteral
  | [] => []
  | item :: items => item.strings ++ stringsIn items

def entryStrings : List (StringLiteral × Literal) → List StringLiteral
  | [] => []
  | (key, value) :: entries => key :: (value.strings ++ entryStrings entries)

end

/-! ## Numbers -/

/-- Digits after which a number may end. -/
def isDigits (cs : List Char) : Bool :=
  !cs.isEmpty && cs.all Char.isDigit

/-- An exponent, or nothing. -/
def isExponent : List Char → Bool
  | [] => true
  | c :: cs =>
    (c == 'e' || c == 'E') &&
      match cs with
      | '+' :: cs | '-' :: cs => isDigits cs
      | cs => isDigits cs

/-- What may stand behind the whole part of a number. -/
def isFraction : List Char → Bool
  | '.' :: cs => isDigits (cs.takeWhile Char.isDigit) && isExponent (cs.dropWhile Char.isDigit)
  | cs => isExponent cs

/-- A whole part, which starts with no zero unless it is zero. -/
def isWhole : List Char → Bool
  | [] => false
  | ['0'] => true
  | c :: cs => c != '0' && (c :: cs).all Char.isDigit

def isUnsigned (cs : List Char) : Bool :=
  isWhole (cs.takeWhile Char.isDigit) && isFraction (cs.dropWhile Char.isDigit)

/-- A decimal number, perhaps behind a minus. -/
def isNumber : List Char → Bool
  | '-' :: cs => isUnsigned cs
  | cs => isUnsigned cs

/-- The characters of numbers. -/
def isNumberChar (c : Char) : Bool :=
  c.isDigit || ['.', 'e', 'E', '+', '-'].contains c

theorem isNumberChar_of_isDigit {c : Char} (h : c.isDigit = true) : isNumberChar c = true := by
  simp [isNumberChar, h]

theorem all_of_isDigits {cs : List Char} (h : isDigits cs = true) : ∀ c ∈ cs, isNumberChar c = true := by
  intro c hc
  simp only [isDigits, Bool.and_eq_true, List.all_eq_true] at h
  exact isNumberChar_of_isDigit (h.2 c hc)

theorem all_of_isExponent {cs : List Char} (h : isExponent cs = true) : ∀ c ∈ cs, isNumberChar c = true := by
  match cs with
  | [] => simp
  | mark :: cs =>
    simp only [isExponent, Bool.and_eq_true, Bool.or_eq_true, beq_iff_eq] at h
    obtain ⟨hmark, h⟩ := h
    rw [List.forall_mem_cons]
    refine ⟨by rcases hmark with rfl | rfl <;> decide, ?_⟩
    split at h
    · exact List.forall_mem_cons.2 ⟨by decide, all_of_isDigits h⟩
    · exact List.forall_mem_cons.2 ⟨by decide, all_of_isDigits h⟩
    · exact all_of_isDigits h

theorem all_of_takeWhile {cs : List Char} (h : ∀ c ∈ cs.dropWhile Char.isDigit, isNumberChar c = true) :
    ∀ c ∈ cs, isNumberChar c = true := by
  intro c hc
  rw [← List.takeWhile_append_dropWhile (p := Char.isDigit) (l := cs), List.mem_append] at hc
  exact hc.elim (fun hc => isNumberChar_of_isDigit (List.mem_takeWhile_imp hc)) (h c)

theorem all_of_isUnsigned {cs : List Char} (h : isUnsigned cs = true) : ∀ c ∈ cs, isNumberChar c = true := by
  simp only [isUnsigned, Bool.and_eq_true] at h
  refine all_of_takeWhile ?_
  obtain ⟨-, h⟩ := h
  unfold isFraction at h
  split at h
  · rename_i cs' hcs
    rw [hcs]
    rw [Bool.and_eq_true] at h
    exact List.forall_mem_cons.2 ⟨by decide, all_of_takeWhile (all_of_isExponent h.2)⟩
  · exact all_of_isExponent h

/-- A number is made of characters of numbers. -/
theorem all_of_isNumber {cs : List Char} (h : isNumber cs = true) : ∀ c ∈ cs, isNumberChar c = true := by
  unfold isNumber at h
  split at h
  · exact List.forall_mem_cons.2 ⟨by decide, all_of_isUnsigned h⟩
  · exact all_of_isUnsigned h

theorem ne_nil_of_isNumber {cs : List Char} (h : isNumber cs = true) : cs ≠ [] := by
  rintro rfl
  cases h

/-! ## Strings -/

/-- The characters that letters stand for behind a backslash; any other character that may stand there stands for
itself. -/
def letterEscapes : List (Char × Char) :=
  [('b', '\x08'), ('t', '\t'), ('n', '\n'), ('v', '\x0b'), ('f', '\x0c'), ('r', '\r')]

/-- The value of a hexadecimal digit. -/
def hexValue? (c : Char) : Option Nat :=
  if c.isDigit then some (c.toNat - '0'.toNat)
  else if 'a' ≤ c ∧ c ≤ 'f' then some (c.toNat - 'a'.toNat + 10)
  else if 'A' ≤ c ∧ c ≤ 'F' then some (c.toNat - 'A'.toNat + 10)
  else none

/-- The character of a code in hexadecimal digits. -/
def ofHex? (digits : List Char) : Option Char := do
  let values ← digits.mapM hexValue?
  let code := values.foldl (fun code value => 16 * code + value) 0
  if code.isValidChar then some (Char.ofNat code) else none

/-- The character that one behind a backslash stands for. Line ends stand for none, `u` and `x` go with a code, and
digits are refused. -/
def unescape? (c : Char) : Option Char :=
  match letterEscapes.lookup c with
  | some d => some d
  | none => if c.isDigit || ['u', 'x', '\n', '\r', '\u2028', '\u2029'].contains c then none else some c

/-- A text that starts with one more character, and what stands behind it. -/
def push (c : Char) (r : List Char × List Char) : List Char × List Char :=
  (c :: r.1, r.2)

/-- The text up to the closing quote, and what stands behind it. -/
def readText (closing : Char) : List Char → Option (List Char × List Char)
  | [] => none
  | '\\' :: 'u' :: a :: b :: c :: d :: cs =>
    (ofHex? [a, b, c, d]).bind fun char => (readText closing cs).map (push char)
  | '\\' :: 'x' :: a :: b :: cs => (ofHex? [a, b]).bind fun char => (readText closing cs).map (push char)
  | '\\' :: c :: cs => (unescape? c).bind fun char => (readText closing cs).map (push char)
  | c :: cs =>
    if c = closing then some ([], cs)
    else if c = '\n' ∨ c = '\r' then none
    else (readText closing cs).map (push c)

/-- The style whose quote a character is. -/
def styleOf? (c : Char) : Option QuoteStyle :=
  if c = QuoteStyle.single.char then some .single
  else if c = QuoteStyle.double.char then some .double
  else none

def readString : List Char → Option (StringLiteral × List Char)
  | [] => none
  | c :: cs => do
    let style ← styleOf? c
    let (text, cs) ← readText c cs
    some (⟨style, String.ofList text⟩, cs)

/-! ## Values -/

def readNumber (cs : List Char) : Option (Literal × List Char) :=
  if isNumber (cs.takeWhile isNumberChar) then
    some (number (String.ofList (cs.takeWhile isNumberChar)), cs.dropWhile isNumberChar)
  else none

/-- The words that are literals. -/
def words : List (String × Literal) :=
  [("null", null), ("true", boolean true), ("false", boolean false)]

/-- A word, a string or a number. -/
def readScalar (cs : List Char) : Option (Literal × List Char) :=
  match words.findSome? fun (word, literal) => (after? word.toList cs).map (literal, ·) with
  | some result => some result
  | none =>
    match readString cs with
    | some (s, cs) => some (string s, cs)
    | none => readNumber cs

/-! `fuel` bounds the depth of the readers; two units for each character are enough. -/

mutual

def readValue : Nat → List Char → Option (Literal × List Char)
  | 0, _ => none
  | fuel + 1, cs =>
    match after? ['['] cs with
    | some cs => do
      let (items, cs) ← readItems fuel cs
      some (array items, cs)
    | none =>
      match after? ['\x7b'] cs with
      | some cs => do
        let (entries, cs) ← readEntries fuel cs
        some (object entries, cs)
      | none => readScalar cs

/-- The items up to the closing bracket; a comma may stand before it. -/
def readItems : Nat → List Char → Option (List Literal × List Char)
  | 0, _ => none
  | fuel + 1, cs =>
    match after? [']'] cs with
    | some cs => some ([], cs)
    | none => do
      let (item, cs) ← readValue fuel cs
      match after? [','] cs with
      | some cs => do
        let (items, cs) ← readItems fuel cs
        some (item :: items, cs)
      | none => do
        let cs ← after? [']'] cs
        some ([item], cs)

/-- The entries up to the closing brace; a comma may stand before it. -/
def readEntries : Nat → List Char → Option (List (StringLiteral × Literal) × List Char)
  | 0, _ => none
  | fuel + 1, cs =>
    match after? ['\x7d'] cs with
    | some cs => some ([], cs)
    | none => do
      let (key, cs) ← readString cs
      let cs ← after? [':'] cs
      let (value, cs) ← readValue fuel cs
      match after? [','] cs with
      | some cs => do
        let (entries, cs) ← readEntries fuel cs
        some ((key, value) :: entries, cs)
      | none => do
        let cs ← after? ['\x7d'] cs
        some ([(key, value)], cs)

end

/-- The literal that a whole text writes. -/
def read? (text : String) : Option Literal :=
  match readValue (2 * text.toList.length + 1) text.toList with
  | some (literal, []) => some literal
  | _ => none

end Literal

end EntityScript
