import Mathlib.Data.List.TakeWhile
import EntityScript.Signal.Parser
/-!
# The grammar of type signals

The derivations of the grammar, each with the text that it derives and the signal that the text writes, and what
may stand behind a phrase.
-/

namespace EntityScript.Signal

open Text

/-! ## Tokens -/

/-- Blanks, as they may stand before every token. -/
@[ext]
structure Gap where
  blanks : List Char
  blank : ∀ c ∈ blanks, isBlank c

/-- The characters of a name. -/
@[ext]
structure NameText where
  chars : List Char
  nonempty : chars ≠ []
  nameChar : ∀ c ∈ chars, isNameChar c

/-- A name as a text. -/
def NameText.word (n : NameText) : String :=
  String.ofList n.chars

/-- A name that stands for a list. -/
structure ListName extends NameText where
  isList : isListKeyword toNameText.word = true

/-- A name that stands for no list. -/
structure OtherName extends NameText where
  isOther : isListKeyword toNameText.word = false

/-- A token of one character. -/
def Gap.mark (g : Gap) (c : Char) : List Char :=
  g.blanks ++ [c]

/-! ## Derivations -/

/-- The symbols of the grammar. -/
inductive Symbol
  /-- `Item Alternatives` -/
  | union
  /-- `('|' Item)*` -/
  | alternatives
  /-- `'?' Item`, or `Primary '[]'*` -/
  | item
  /-- A union in parentheses, a name, a shape, a list or a generic. -/
  | primary
  /-- `Union (',' Union)*` -/
  | arguments
  /-- `(Field (',' Field)* ','?)? '}'` where a field is `Name '?'? ':' Union` -/
  | fields

/-- What a symbol writes. -/
abbrev Symbol.Value : Symbol → Type
  | union | item | primary => Signal
  | alternatives | arguments => List Signal
  | fields => List (ShapeField Signal)

/-- What stands before the type of a field: its key, perhaps a question mark, and a colon. -/
@[ext]
structure FieldHead where
  before : Gap
  key : NameText
  mark : Option Gap
  colon : Gap

/-- The derivations from each symbol. A gap stands before the token that it is named for. -/
inductive Phrase : Symbol → Type
  | union (first : Phrase .item) (more : Phrase .alternatives) : Phrase .union
  | noMore : Phrase .alternatives
  | bar (gap : Gap) (item : Phrase .item) (more : Phrase .alternatives) : Phrase .alternatives
  | nullable (mark : Gap) (inner : Phrase .item) : Phrase .item
  | plain (primary : Phrase .primary) (brackets : List Gap) : Phrase .item
  | parenthesized (opening : Gap) (inner : Phrase .union) (closing : Gap) : Phrase .primary
  | name (before : Gap) (n : NameText) : Phrase .primary
  | shape (before : Gap) (n : ListName) (opening : Gap) (fields : Phrase .fields) : Phrase .primary
  | list (before : Gap) (n : ListName) (opening : Gap) (value : Phrase .union) (closing : Gap) : Phrase .primary
  | map (before : Gap) (n : ListName) (opening : Gap) (key : Phrase .union) (gap : Gap) (value : Phrase .union)
    (closing : Gap) : Phrase .primary
  | generic (before : Gap) (n : OtherName) (opening : Gap) (args : Phrase .arguments) (closing : Gap) :
    Phrase .primary
  | argument (last : Phrase .union) : Phrase .arguments
  | comma (first : Phrase .union) (gap : Gap) (more : Phrase .arguments) : Phrase .arguments
  | noField (closing : Gap) : Phrase .fields
  | lastField (head : FieldHead) (type : Phrase .union) (closing : Gap) : Phrase .fields
  | field (head : FieldHead) (type : Phrase .union) (gap : Gap) (more : Phrase .fields) : Phrase .fields

/-- The tokens `[]`, each behind its gap. -/
def bracketsText (gaps : List Gap) : List Char :=
  gaps.flatMap fun g => g.blanks ++ ['[', ']']

def FieldHead.text (h : FieldHead) : List Char :=
  h.before.blanks ++ h.key.chars ++ (h.mark.elim [] (·.mark '?')) ++ h.colon.mark ':'

namespace Phrase

/-- The text that is derived. -/
def text : {k : Symbol} → Phrase k → List Char
  | _, union first more => first.text ++ more.text
  | _, noMore => []
  | _, bar gap item more => gap.mark '|' ++ item.text ++ more.text
  | _, nullable mark inner => mark.mark '?' ++ inner.text
  | _, plain primary brackets => primary.text ++ bracketsText brackets
  | _, parenthesized opening inner closing => opening.mark '(' ++ inner.text ++ closing.mark ')'
  | _, name before n => before.blanks ++ n.chars
  | _, shape before n opening fields => before.blanks ++ n.chars ++ opening.mark '\x7b' ++ fields.text
  | _, list before n opening value closing =>
    before.blanks ++ n.chars ++ opening.mark '<' ++ value.text ++ closing.mark '>'
  | _, map before n opening key gap value closing =>
    before.blanks ++ n.chars ++ opening.mark '<' ++ key.text ++ gap.mark ',' ++ value.text ++ closing.mark '>'
  | _, generic before n opening args closing =>
    before.blanks ++ n.chars ++ opening.mark '<' ++ args.text ++ closing.mark '>'
  | _, argument last => last.text
  | _, comma first gap more => first.text ++ gap.mark ',' ++ more.text
  | _, noField closing => closing.mark '\x7d'
  | _, lastField head type closing => head.text ++ type.text ++ closing.mark '\x7d'
  | _, field head type gap more => head.text ++ type.text ++ gap.mark ',' ++ more.text

/-- What the text writes. -/
def value : {k : Symbol} → Phrase k → k.Value
  | _, union first more => ofAlternatives first.value more.value
  | _, noMore => ([] : List Signal)
  | _, bar _ item more => (item.value : Signal) :: more.value
  | _, nullable _ inner => Signal.nullable inner.value
  | _, plain primary brackets => brackets.foldl (fun s _ => Signal.list s) primary.value
  | _, parenthesized _ inner _ => inner.value
  | _, name _ n => Signal.named n.word
  | _, shape _ _ _ fields => Signal.shape fields.value
  | _, list _ _ _ value _ => Signal.list value.value
  | _, map _ _ _ key _ value _ => Signal.map key.value value.value
  | _, generic _ n _ args _ => Signal.generic n.word args.value
  | _, argument last => ([last.value] : List Signal)
  | _, comma first _ more => (first.value : Signal) :: more.value
  | _, noField _ => ([] : List (ShapeField Signal))
  | _, lastField head type _ => ([⟨head.key.word, head.mark.isSome, type.value⟩] : List (ShapeField Signal))
  | _, field head type _ more =>
    (⟨head.key.word, head.mark.isSome, type.value⟩ : ShapeField Signal) :: more.value

end Phrase

/-- A whole text: a union, and blanks behind it. -/
@[ext]
structure Derivation where
  union : Phrase .union
  trailing : Gap

def Derivation.text (d : Derivation) : List Char :=
  d.union.text ++ d.trailing.blanks

def Derivation.signal (d : Derivation) : Signal :=
  d.union.value

/-! ## What stands next -/

/-- No blank is a character of names. -/
theorem isBlank_of_nameChar {c : Char} (h : isNameChar c = true) : isBlank c = false := by
  have hrun : ∀ r ∈ blanks, ∀ n ∈ List.range' r.first (r.last + 1 - r.first), n < 0x10000 ∧
      basicAlphanumeric.any (·.contains n) = false := by
    decide +kernel
  by_contra hb
  rw [Bool.not_eq_false] at hb
  unfold isBlank at hb
  split at hb
  · rename_i hlt
    have hle : c.toNat ≤ 32 := by
      simp only [Bool.or_eq_true, beq_iff_eq, Bool.and_eq_true, decide_eq_true_eq] at hb
      rcases hb with rfl | hb
      · decide
      · omega
    have hall : ∀ n ≤ 32, isNameChar (Char.ofNat n) = false := by decide +kernel
    rw [← Char.ofNat_toNat c, hall _ hle] at h
    cases h
  · rename_i hge
    obtain ⟨r, hr, hn⟩ := List.any_eq_true.1 hb
    simp only [CodeRun.contains, Bool.and_eq_true, decide_eq_true_eq] at hn
    obtain ⟨hlt, hnone⟩ := hrun r hr c.toNat (List.mem_range'_1.2 (by omega))
    simp only [isNameChar, isAlphanumeric, hge, hlt, if_true, if_false, hnone, Bool.or_eq_true, beq_iff_eq] at h
    rcases h with ((h | rfl) | rfl) | rfl
    · cases h
    all_goals exact absurd hge (by decide)

theorem trimStart_gap (g : Gap) (cs : List Char) : trimStart (g.blanks ++ cs) = trimStart cs :=
  List.dropWhile_append_of_pos g.blank

theorem trimStart_cons {c : Char} (h : isBlank c = false) (cs : List Char) : trimStart (c :: cs) = c :: cs := by
  simp [trimStart, h]

theorem trimStart_mark {c : Char} (g : Gap) (h : isBlank c = false) (cs : List Char) :
    trimStart (g.mark c ++ cs) = c :: cs := by
  rw [Gap.mark, List.append_assoc, trimStart_gap]
  exact trimStart_cons h cs

theorem trimStart_name (g : Gap) (n : NameText) (cs : List Char) :
    trimStart (g.blanks ++ (n.chars ++ cs)) = n.chars ++ cs := by
  rw [trimStart_gap]
  obtain ⟨c, chars, hn⟩ := List.exists_cons_of_ne_nil n.nonempty
  rw [hn]
  exact trimStart_cons (isBlank_of_nameChar (n.nameChar c (by simp [hn]))) _

/-- The next character that is no blank. -/
def next? (cs : List Char) : Option Char :=
  (trimStart cs).head?

/-- The marks that may stand behind a union. -/
def closers : List Char :=
  [')', '\x7d', '>', ',']

/-- The marks that may stand behind a phrase. -/
def Symbol.followers : Symbol → List Char
  | union | alternatives => closers
  | item => '|' :: closers
  | primary => '[' :: '|' :: closers
  | arguments => ['>']
  | fields => []

theorem Symbol.isBlank_of_follower (k : Symbol) : ∀ c ∈ k.followers, isBlank c = false := by
  cases k <;> simp [followers, closers, isBlank]

/-- Whether a text that stands behind a phrase leaves the phrase as it is. The fields of a shape end with a
token of their own, so all leaves them as they are. -/
def Ends (k : Symbol) (cs : List Char) : Prop :=
  k = .fields ∨ ∀ c ∈ next? cs, c ∈ k.followers

theorem Ends.of_subset {k k' : Symbol} {cs : List Char} (h : Ends k cs) (hk : k ≠ .fields)
    (hs : k.followers ⊆ k'.followers) : Ends k' cs :=
  .inr fun c hc => hs (h.resolve_left hk c hc)

theorem ends_mark {k : Symbol} {c : Char} (g : Gap) (hb : isBlank c = false) (hc : c ∈ k.followers) (cs : List Char) :
    Ends k (g.mark c ++ cs) := by
  refine .inr fun d hd => ?_
  rw [next?, trimStart_mark g hb] at hd
  obtain rfl : c = d := by simpa using hd
  exact hc

theorem ends_gap (k : Symbol) (g : Gap) : Ends k g.blanks := by
  refine .inr fun c hc => ?_
  rw [next?, ← List.append_nil g.blanks, trimStart_gap] at hc
  cases hc

/-- A name ends where a primary does. -/
theorem head_of_ends {cs : List Char} (h : Ends .primary cs) : ∀ c ∈ cs.head?, isNameChar c = false := by
  intro c hc
  obtain ⟨cs', rfl⟩ : ∃ cs', cs = c :: cs' := by
    cases cs with
    | nil => cases hc
    | cons d cs' => exact ⟨cs', by simpa using hc⟩
  by_contra hn
  rw [Bool.not_eq_false] at hn
  have hmem : c ∈ Symbol.primary.followers := by
    refine h.resolve_left (by simp) c ?_
    rw [next?, trimStart_cons (isBlank_of_nameChar hn)]
    rfl
  have hall : ∀ d ∈ Symbol.primary.followers, isNameChar d = false := by
    simp [Symbol.followers, closers, isNameChar, isAlphanumeric]
  rw [hall c hmem] at hn
  cases hn

theorem bracketsText_cons (g : Gap) (gs : List Gap) (rest : List Char) :
    bracketsText (g :: gs) ++ rest = g.mark '[' ++ (']' :: (bracketsText gs ++ rest)) := by
  simp [bracketsText, Gap.mark]

namespace Phrase

variable {rest : List Char}

theorem ends_alternatives (d : Phrase .alternatives) (h : Ends .alternatives rest) : Ends .item (d.text ++ rest) := by
  cases d with
  | noMore => exact h.of_subset (by simp) (by decide)
  | bar gap item more =>
    simp only [text, List.append_assoc]
    exact ends_mark gap (by decide) (by decide) _

theorem ends_brackets (gs : List Gap) (h : Ends .item rest) : Ends .primary (bracketsText gs ++ rest) := by
  cases gs with
  | nil => exact h.of_subset (by simp) (by decide)
  | cons g gs =>
    rw [bracketsText_cons]
    exact ends_mark g (by decide) (by decide) _

end Phrase

end EntityScript.Signal
