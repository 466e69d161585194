import Mathlib.Data.List.Chain
import Mathlib.Data.List.DropRight
import EntityScript.Doc
import EntityScript.Proofs.Grammar
import EntityScript.Proofs.NewFiles
/-!
# Documented properties, written and read back

Each tag stands on a line of its own, behind any decoration and with any blanks between its words, among lines
of other kinds. The block documents the properties that were written, in order.
-/

namespace EntityScript

open Text
open Signal (Gap)

/-! ## Trimmed texts -/

namespace Text

theorem isBlank_of_wordChar {c : Char} (h : isWordChar c = true) : isBlank c = false := by
  have hword : IsWord (String.singleton c) := ⟨by simp, by simpa using h⟩
  exact Signal.isBlank_of_nameChar (hword.isNameChar c (by simp))

theorem trimEnd_gap (cs : List Char) (g : Gap) : trimEnd (cs ++ g.blanks) = trimEnd cs := by
  rw [trimEnd, dropEndWhile, List.reverse_append, List.dropWhile_append_of_pos]
  · rfl
  · intro c hc
    exact g.blank c (List.mem_reverse.1 hc)

theorem trimEnd_concat {c : Char} (h : isBlank c = false) (cs : List Char) : trimEnd (cs ++ [c]) = cs ++ [c] := by
  simp [trimEnd, dropEndWhile, h]

/-- What stands before a text that is not blank is not trimmed at the end. -/
theorem trimEnd_append {cs : List Char} (h : trimEnd cs ≠ []) (front : List Char) :
    trimEnd (front ++ cs) = front ++ trimEnd cs := by
  have hrest : ¬ (cs.reverse.dropWhile isBlank).isEmpty := by
    simpa [trimEnd, dropEndWhile, List.isEmpty_iff] using h
  rw [trimEnd, dropEndWhile, List.reverse_append, List.dropWhile_append, if_neg hrest, List.reverse_append,
    List.reverse_reverse]
  rfl

theorem prefix_trimEnd (cs : List Char) : trimEnd cs <+: cs :=
  List.rdropWhile_prefix isBlank cs

theorem exists_trimEnd_append (cs : List Char) : ∃ g : Gap, trimEnd cs ++ g.blanks = cs := by
  refine ⟨⟨cs.rtakeWhile isBlank, fun c hc => List.mem_rtakeWhile_imp hc⟩, ?_⟩
  exact List.rdropWhile_append_rtakeWhile

/-- A trimmed text is trimmed at its start. -/
theorem trimStart_of_trim {cs : List Char} (h : trim cs = cs) : trimStart cs = cs := by
  have hsuffix : trimStart cs <:+ cs := List.dropWhile_suffix isBlank
  have hle : (trim cs).length ≤ (trimStart cs).length := (prefix_trimEnd _).length_le
  rw [h] at hle
  exact hsuffix.eq_of_length_le hle

theorem exists_cons_of_trim {cs : List Char} (h : trim cs = cs) (hne : cs ≠ []) :
    ∃ c rest, cs = c :: rest ∧ isBlank c = false := by
  obtain ⟨c, rest, rfl⟩ := List.exists_cons_of_ne_nil hne
  refine ⟨c, rest, rfl, ?_⟩
  have hstart := trimStart_of_trim h
  rw [trimStart, List.dropWhile_eq_self_iff] at hstart
  exact Bool.eq_false_iff.2 (hstart (by simp))

theorem trimEnd_of_trim {cs : List Char} (h : trim cs = cs) : trimEnd cs = cs := by
  have htrim := h
  rwa [trim, trimStart_of_trim h] at htrim

end Text

namespace Doc

/-! ## Tags as lines -/

/-- A text without blanks at its ends, on one line. -/
structure IsPhrase (cs : List Char) : Prop where
  nonempty : cs ≠ []
  trimmed : trim cs = cs
  oneLine : '\n' ∉ cs

instance (cs : List Char) : Decidable (IsPhrase cs) :=
  decidable_of_iff (cs ≠ [] ∧ trim cs = cs ∧ '\n' ∉ cs)
    ⟨fun ⟨hne, htrim, hline⟩ => ⟨hne, htrim, hline⟩, fun ⟨hne, htrim, hline⟩ => ⟨hne, htrim, hline⟩⟩

/-- A property that a line can document: no `$` in its type follows a blank, and its description ends in no
comment closing. -/
structure WritableProperty extends Property where
  typePhrase : IsPhrase type.toList
  typeChain : type.toList.IsChain fun c d => isBlank c → d ≠ '$'
  nameWord : IsWord name
  descriptionPhrase : ∀ d ∈ description, IsPhrase d.toList ∧ ¬ ['*', '/'] <:+ d.toList

/-- Blanks on one line. -/
structure LineGap extends Gap where
  oneLine : '\n' ∉ blanks

/-- Blanks that separate words on one line. -/
structure Separator extends LineGap where
  nonempty : blanks ≠ []

/-- How a tag is laid out on its line: openings and stars before it, blanks between its words, and perhaps a
comment closing. -/
structure Layout where
  indent : LineGap
  openings : Nat
  stars : Nat
  beforeTag : LineGap
  afterTag : Separator
  afterType : Separator
  afterName : Separator
  beforeClosing : LineGap
  closed : Bool
  trailing : LineGap

namespace Layout

/-- The openings and stars before a tag. -/
def marks (l : Layout) : List Char :=
  (List.replicate l.openings ['/', '*', '*']).flatten ++ List.replicate l.stars '*'

def closing (l : Layout) : List Char :=
  if l.closed then ['*', '/'] else []

/-- What stands behind a name. -/
def describe (l : Layout) (description : Option String) : List Char :=
  description.elim [] fun d => l.afterName.blanks ++ d.toList

/-- What stands behind a tag. -/
def fields (l : Layout) (p : Property) : List Char :=
  p.type.toList ++ l.afterType.blanks ++ '$' :: (p.name.toList ++ l.describe p.description)

/-- A tag with its type, name and description. -/
def words (l : Layout) (p : Property) : List Char :=
  p.tag.word.toList ++ l.afterTag.blanks ++ l.fields p

/-- The line of a text with its decoration. -/
def decorate (l : Layout) (cs : List Char) : List Char :=
  l.indent.blanks ++ l.marks ++ l.beforeTag.blanks ++ cs ++ l.beforeClosing.blanks ++ l.closing ++ l.trailing.blanks

end Layout

/-- The first word behind the decoration of a line. -/
def firstWord (line : List Char) : List Char :=
  (trimStart ((dropOpenings (trimStart line)).dropWhile (· == '*'))).takeWhile (!isBlank ·)

/-- A line whose first word is no tag. -/
structure OtherLine where
  chars : List Char
  oneLine : '\n' ∉ chars
  noTag : ∀ t : Tag, firstWord chars ≠ t.word.toList

/-- The lines of a documentation block. -/
inductive Line
  | tag (p : WritableProperty) (layout : Layout)
  | other (line : OtherLine)

namespace Line

def chars : Line → List Char
  | tag p layout => layout.decorate (layout.words p.toProperty)
  | other line => line.chars

/-- The property that a line is written for. -/
def property? : Line → Option Property
  | tag p _ => some p.toProperty
  | other _ => none

end Line

/-- The block of some lines. -/
def block (lines : List Line) : String :=
  String.ofList (['\n'].intercalate (lines.map Line.chars))

/-! ## Decoration -/

theorem dropOpenings_of_head {cs : List Char} (h : cs.head? ≠ some '/') : dropOpenings cs = cs := by
  rw [dropOpenings.eq_def]
  split
  · exact absurd rfl h
  · rfl

theorem dropOpenings_openings (n : Nat) (cs : List Char) :
    dropOpenings ((List.replicate n ['/', '*', '*']).flatten ++ cs) = dropOpenings cs := by
  induction n with
  | zero => rfl
  | succ n ih => rw [List.replicate_succ, List.flatten_cons, List.append_assoc, ← ih]; rfl

/-- Only a text that ends in a comment closing loses one. -/
theorem dropReversedClosings_reverse {cs : List Char} (h : ¬ ['*', '/'] <:+ cs) :
    dropReversedClosings cs.reverse = cs.reverse := by
  rw [dropReversedClosings.eq_def]
  split
  · rename_i rest hrest
    refine absurd ⟨rest.reverse, ?_⟩ h
    rw [← List.reverse_reverse cs, hrest]
    simp
  · rfl

theorem eq_slash_of_closed {cs : List Char} {c : Char} (h : ['*', '/'] <:+ cs ++ [c]) : c = '/' := by
  obtain ⟨front, hfront⟩ := h
  have hlast := congrArg List.getLast? hfront
  simpa using hlast.symm

/-- A comment closing is dropped once, whatever blanks stand before it. -/
theorem dropReversedClosings_closing {cs : List Char} (h : ¬ ['*', '/'] <:+ cs) (g : Gap) (closed : Bool) :
    (dropReversedClosings (cs ++ g.blanks ++ if closed then ['*', '/'] else []).reverse).reverse =
      cs ++ g.blanks := by
  have hgap : ¬ ['*', '/'] <:+ cs ++ g.blanks := by
    rcases List.eq_nil_or_concat' g.blanks with hnil | ⟨bs, b, hbs⟩
    · rwa [hnil, List.append_nil]
    · intro hclosed
      rw [hbs, ← List.append_assoc] at hclosed
      exact absurd (g.blank b (by simp [hbs])) (by rw [eq_slash_of_closed hclosed]; decide)
  cases closed with
  | false => rw [if_neg (by decide), List.append_nil, dropReversedClosings_reverse hgap, List.reverse_reverse]
  | true =>
    have hdrop : dropReversedClosings (cs ++ g.blanks ++ ['*', '/']).reverse =
        dropReversedClosings (cs ++ g.blanks).reverse := by
      rw [List.reverse_append]
      rfl
    rw [if_pos rfl, hdrop, dropReversedClosings_reverse hgap, List.reverse_reverse]

/-- A text that starts with an @ and ends in neither a blank nor a comment closing. -/
structure Bare (cs : List Char) : Prop where
  start : ∃ rest, cs = '@' :: rest
  trimmed : trimEnd cs = cs
  long : 2 ≤ cs.length
  unclosed : ¬ ['*', '/'] <:+ cs

namespace Layout

variable (l : Layout) {cs : List Char}

/-- Blanks before the tag may count as indentation. -/
theorem trimStart_decorate (rest : List Char) :
    ∃ g : Gap, trimStart (l.indent.blanks ++ (l.marks ++ (l.beforeTag.blanks ++ '@' :: rest))) =
      l.marks ++ (g.blanks ++ '@' :: rest) := by
  rw [Signal.trimStart_gap]
  rcases h : l.marks with - | ⟨m, ms⟩
  · refine ⟨⟨[], by simp⟩, ?_⟩
    rw [List.nil_append, Signal.trimStart_gap, Signal.trimStart_cons (by decide)]
    rfl
  · refine ⟨l.beforeTag.toGap, ?_⟩
    have hm : m ∈ l.marks := by simp [h]
    have hmark : isBlank m = false := by
      simp only [marks, List.mem_append, List.mem_flatten, List.mem_replicate] at hm
      rcases hm with ⟨_, ⟨-, rfl⟩, hm⟩ | ⟨-, rfl⟩
      · simp only [List.mem_cons, List.not_mem_nil, or_false, or_self] at hm
        rcases hm with rfl | rfl <;> decide
      · decide
    rw [List.cons_append, Signal.trimStart_cons hmark]

/-- Blanks behind the words may count as trailing. -/
theorem trimEnd_decorate (h : trimEnd cs = cs) :
    ∃ g : Gap, trimEnd (cs ++ l.beforeClosing.blanks ++ l.closing ++ l.trailing.blanks) =
      cs ++ g.blanks ++ l.closing := by
  rw [trimEnd_gap, closing]
  split
  · refine ⟨l.beforeClosing.toGap, ?_⟩
    rw [show ['*', '/'] = ['*'] ++ ['/'] from rfl, ← List.append_assoc, trimEnd_concat (by decide)]
  · refine ⟨⟨[], by simp⟩, ?_⟩
    rw [List.append_nil, List.append_nil, List.append_nil, trimEnd_gap, h]

end Layout

theorem head?_gap (g : Gap) {c d : Char} (hd : isBlank d = false) (hc : c ≠ d) (rest : List Char) :
    (g.blanks ++ c :: rest).head? ≠ some d := by
  cases h : g.blanks with
  | nil => simpa using hc
  | cons b bs =>
    have hb : isBlank b = true := g.blank b (by simp [h])
    intro hbd
    rw [List.cons_append, List.head?_cons, Option.some.injEq] at hbd
    rw [hbd, hd] at hb
    cases hb

theorem dropWhile_of_head? {d : Char} {cs : List Char} (h : cs.head? ≠ some d) : cs.dropWhile (· == d) = cs := by
  cases cs with
  | nil => rfl
  | cons c cs => exact List.dropWhile_cons_of_neg (by simpa using h)

/-- Without its decoration a line has its words. -/
theorem undecorate_decorate (l : Layout) {cs : List Char} (h : Bare cs) : undecorate (l.decorate cs) = cs := by
  obtain ⟨rest, hcs⟩ := h.start
  obtain ⟨before, hbefore⟩ := l.trimStart_decorate
    (rest ++ l.beforeClosing.blanks ++ l.closing ++ l.trailing.blanks)
  obtain ⟨after, hafter⟩ := l.trimEnd_decorate h.trimmed
  have htrim : trim (l.decorate cs) = l.marks ++ (before.blanks ++ cs ++ after.blanks ++ l.closing) := by
    have hstart : trimStart (l.decorate cs) =
        l.marks ++ before.blanks ++ (cs ++ l.beforeClosing.blanks ++ l.closing ++ l.trailing.blanks) := by
      simpa [Layout.decorate, hcs] using hbefore
    rw [trim, hstart, trimEnd_append (by rw [hafter, hcs]; simp), hafter]
    simp only [List.append_assoc]
  have hopen : dropOpenings (trim (l.decorate cs)) =
      List.replicate l.stars '*' ++ before.blanks ++ cs ++ after.blanks ++ l.closing := by
    rw [htrim, Layout.marks, List.append_assoc, dropOpenings_openings, dropOpenings_of_head]
    · simp only [List.append_assoc]
    · rw [hcs]
      cases l.stars with
      | zero => simpa using head?_gap before (by decide) (by decide) (rest ++ (after.blanks ++ l.closing))
      | succ n => simp [List.replicate_succ]
  -- The stars before a short text could complete a closing with it.
  have hclose : ¬ ['*', '/'] <:+ List.replicate l.stars '*' ++ before.blanks ++ cs := by
    intro hs
    exact h.unclosed (List.suffix_of_suffix_length_le hs (List.suffix_append _ _) h.long)
  have hstars : (List.replicate l.stars '*' ++ before.blanks ++ cs ++ after.blanks).dropWhile (· == '*') =
      before.blanks ++ (cs ++ after.blanks) := by
    rw [List.append_assoc, List.append_assoc, List.dropWhile_append_of_pos (by simp), hcs]
    exact dropWhile_of_head? (head?_gap before (by decide) (by decide) (rest ++ after.blanks))
  rw [undecorate, hopen, Layout.closing, dropReversedClosings_closing hclose, hstars, trim, Signal.trimStart_gap,
    hcs, List.cons_append, Signal.trimStart_cons (by decide), ← List.cons_append, ← hcs, trimEnd_gap, h.trimmed]

/-! ## Lines of other kinds -/

theorem dropOpenings_gap (cs : List Char) (g : Gap) :
    dropOpenings (cs ++ g.blanks) = dropOpenings cs ++ g.blanks := by
  induction cs using dropOpenings.induct with
  | case1 cs ih => exact ih
  | case2 cs hcs =>
    have hmore : ∀ rest, cs ++ g.blanks ≠ '/' :: '*' :: '*' :: rest := by
      intro rest hrest
      have hstar : ¬ '*' ∈ g.blanks := fun hm => absurd (g.blank _ hm) (by decide)
      have hslash : ¬ '/' ∈ g.blanks := fun hm => absurd (g.blank _ hm) (by decide)
      rcases cs with - | ⟨a, - | ⟨b, - | ⟨c, cs⟩⟩⟩
      all_goals simp_all
    rw [dropOpenings.eq_2 _ hmore, dropOpenings.eq_2 _ hcs]

theorem dropReversedClosings_suffix (cs : List Char) : dropReversedClosings cs <:+ cs := by
  induction cs using dropReversedClosings.induct with
  | case1 cs ih => exact ih.trans ⟨['/', '*'], rfl⟩
  | case2 cs hcs =>
    rw [dropReversedClosings.eq_def]
    split
    · exact absurd rfl (hcs _)
    · exact List.suffix_rfl

theorem prefix_dropWhile {p : Char → Bool} {as bs : List Char} (h : as <+: bs) :
    as.dropWhile p <+: bs.dropWhile p := by
  obtain ⟨cs, rfl⟩ := h
  rw [List.dropWhile_append]
  split
  · rename_i hnil
    rw [List.isEmpty_iff.1 hnil]
    exact List.nil_prefix
  · exact List.prefix_append _ _

/-- The trims at the end of a line only cut off its end. -/
theorem prefix_undecorate (line : List Char) :
    undecorate line <+: trimStart ((dropOpenings (trimStart line)).dropWhile (· == '*')) := by
  obtain ⟨g, hg⟩ := exists_trimEnd_append (trimStart line)
  have hopen : dropOpenings (trim line) <+: dropOpenings (trimStart line) := by
    rw [trim]
    nth_rewrite 2 [← hg]
    rw [dropOpenings_gap]
    exact List.prefix_append _ _
  have hclose : (dropReversedClosings (dropOpenings (trim line)).reverse).reverse <+: dropOpenings (trim line) := by
    have hreverse := List.reverse_prefix.2 (dropReversedClosings_suffix (dropOpenings (trim line)).reverse)
    rwa [List.reverse_reverse] at hreverse
  exact (prefix_trimEnd _).trans
    (prefix_dropWhile (prefix_dropWhile (hclose.trans hopen)))

theorem takeWhile_prefix_eq {p : Char → Bool} {as bs : List Char} (h : as <+: bs) (hd : as.dropWhile p ≠ []) :
    as.takeWhile p = bs.takeWhile p := by
  obtain ⟨cs, rfl⟩ := h
  rw [List.takeWhile_append, if_neg]
  intro hlength
  have hstart : as.takeWhile p <+: as := List.takeWhile_prefix p
  have hall : as.takeWhile p ++ as.dropWhile p = as.takeWhile p := by
    rw [List.takeWhile_append_dropWhile, hstart.eq_of_length hlength]
  exact hd (List.append_right_eq_self.1 hall)

theorem lineProperty?_other (line : OtherLine) : lineProperty? line.chars = none := by
  unfold lineProperty?
  dsimp only
  split
  · rfl
  · rename_i b rest hrest
    have hword : (undecorate line.chars).takeWhile (!isBlank ·) = firstWord line.chars :=
      takeWhile_prefix_eq (prefix_undecorate line.chars) (by rw [hrest]; exact List.cons_ne_nil _ _)
    have hnone : Tag.ofWord? (firstWord line.chars) = none := by
      refine List.find?_eq_none.2 fun t _ => ?_
      simpa using fun h => line.noTag t h.symm
    rw [hword, hnone, Option.bind_none]

/-! ## The words of a tag -/

theorem cutAtName?_cons {c : Char} {cs : List Char} (hne : cs ≠ [])
    (h : ∀ d ∈ cs.head?, isBlank c → d ≠ '$') :
    cutAtName? (c :: cs) = (cutAtName? cs).map fun (b, r) => (c :: b, r) := by
  obtain ⟨d, cs, rfl⟩ := List.exists_cons_of_ne_nil hne
  by_cases hd : d = '$'
  · subst hd
    rw [cutAtName?, if_neg fun hc => h '$' rfl hc rfl]
  · exact cutAtName?.eq_4 c d cs hd

/-- The name stands behind the first `$` that follows a blank. -/
theorem cutAtName?_append {c : Char} (hc : isBlank c = true) (after : List Char) {cs : List Char}
    (h : (cs ++ [c]).IsChain fun c d => isBlank c → d ≠ '$') :
    cutAtName? (cs ++ [c] ++ '$' :: after) = some (cs ++ [c], after) := by
  induction cs with
  | nil => exact if_pos hc
  | cons a cs ih =>
    rw [List.cons_append, List.isChain_cons] at h
    rw [List.cons_append, List.cons_append, cutAtName?_cons (by simp), ih h.2]
    · rfl
    · simpa [List.head?_append] using h.1

/-- Blanks behind a type hold no `$`. -/
theorem isChain_separated {type : List Char} (h : type.IsChain fun c d => isBlank c → d ≠ '$') (g : Gap) :
    (type ++ g.blanks).IsChain fun c d => isBlank c → d ≠ '$' := by
  have hblank : ∀ d ∈ g.blanks, d ≠ '$' := by
    rintro _ hd rfl
    exact absurd (g.blank _ hd) (by decide)
  refine h.append ?_ ?_
  · refine (List.pairwise_of_forall_mem_list (l := g.blanks) ?_).isChain
    intro _ _ d hd _
    exact hblank d hd
  · intro _ _ d hd _
    exact hblank d (List.mem_of_mem_head? hd)

theorem trim_phrase {cs : List Char} (h : IsPhrase cs) (before after : Gap) :
    trim (before.blanks ++ (cs ++ after.blanks)) = cs := by
  obtain ⟨c, rest, hcs, hc⟩ := exists_cons_of_trim h.trimmed h.nonempty
  rw [trim, Signal.trimStart_gap, hcs, List.cons_append, Signal.trimStart_cons hc, ← List.cons_append, ← hcs,
    trimEnd_gap, trimEnd_of_trim h.trimmed]

theorem nonempty?_phrase {s : String} (h : IsPhrase s.toList) : nonempty? s.toList = some s := by
  rw [nonempty?, if_neg (by simpa using h.nonempty), String.ofList_toList]

variable (l : Layout) (p : WritableProperty)

theorem cutAtName?_fields : cutAtName? (l.fields p.toProperty) =
    some (p.type.toList ++ l.afterType.blanks, p.name.toList ++ l.describe p.description) := by
  obtain ⟨bs, b, hbs⟩ := (List.eq_nil_or_concat' l.afterType.blanks).resolve_left l.afterType.nonempty
  have hchain := isChain_separated p.typeChain l.afterType.toGap
  have hblank : isBlank b = true := l.afterType.blank b (by simp [hbs])
  rw [hbs, ← List.append_assoc] at hchain ⊢
  rw [Layout.fields, hbs, ← List.append_assoc, cutAtName?_append hblank _ hchain]

/-- A name ends where its description starts. -/
theorem span_name : (p.name.toList ++ l.describe p.description).takeWhile isWordChar = p.name.toList ∧
    (p.name.toList ++ l.describe p.description).dropWhile isWordChar = l.describe p.description := by
  have hends : ∀ c ∈ (l.describe p.description).head?, isWordChar c = false := by
    cases p.description with
    | none => simp [Layout.describe]
    | some d =>
      obtain ⟨b, bs, hbs⟩ := List.exists_cons_of_ne_nil l.afterName.nonempty
      have hb : isWordChar b = false := by
        by_contra hb
        have hblank := l.afterName.blank b (by simp [hbs])
        rw [isBlank_of_wordChar (by simpa using hb)] at hblank
        cases hblank
      simpa [Layout.describe, hbs] using hb
  exact ⟨takeWhile_run p.nameWord.2 hends, dropWhile_run p.nameWord.2 hends⟩

theorem property?_fields (g : Gap) : property? p.tag (g.blanks ++ l.fields p.toProperty) = some p.toProperty := by
  obtain ⟨c, rest, htype, hc⟩ := exists_cons_of_trim p.typePhrase.trimmed p.typePhrase.nonempty
  have hstart : trimStart (g.blanks ++ l.fields p.toProperty) = l.fields p.toProperty := by
    rw [Signal.trimStart_gap, Layout.fields, htype]
    exact Signal.trimStart_cons hc _
  obtain ⟨hname, hdescription⟩ := span_name l p
  have hn : nonempty? p.name.toList = some p.name := by
    rw [nonempty?, if_neg (by simpa using p.nameWord.1), String.ofList_toList]
  have htrim : trim (p.type.toList ++ l.afterType.blanks) = p.type.toList :=
    trim_phrase p.typePhrase ⟨[], by simp⟩ l.afterType.toGap
  have hd : nonempty? (trim (l.describe p.description)) = p.description := by
    cases hp : p.description with
    | none => rfl
    | some d =>
      have hphrase := (p.descriptionPhrase d hp).1
      have hpart := trim_phrase hphrase l.afterName.toGap ⟨[], by simp⟩
      rw [List.append_nil] at hpart
      rw [Layout.describe, Option.elim_some, hpart, nonempty?_phrase hphrase]
  simp only [property?, hstart, cutAtName?_fields, htrim, nonempty?_phrase p.typePhrase, hname, hdescription, hn, hd,
    Option.bind_eq_bind, Option.bind_some, Option.pure_def]

/-- A comment closing does not reach over blanks. -/
theorem unclosed_separated {cs : List Char} (h : ¬ ['*', '/'] <:+ cs) (hne : cs ≠ []) (g : Separator)
    (front : List Char) : ¬ ['*', '/'] <:+ front ++ g.blanks ++ cs := by
  intro hs
  by_cases hlong : 2 ≤ cs.length
  · exact h (List.suffix_of_suffix_length_le hs (List.suffix_append _ _) hlong)
  · have hpos := List.length_pos_iff.2 hne
    obtain ⟨c, rfl⟩ : ∃ c, cs = [c] := List.length_eq_one_iff.1 (by omega)
    obtain ⟨bs, b, hbs⟩ := (List.eq_nil_or_concat' g.blanks).resolve_left g.nonempty
    obtain ⟨t, ht⟩ := hs
    have hb : b = '*' := by
      have hsecond := congrArg (·.reverse[1]?) ht
      simpa [hbs] using hsecond.symm
    exact absurd (g.blank b (by simp [hbs])) (by rw [hb]; decide)

theorem Tag.nonblank (t : Tag) : ∀ c ∈ t.word.toList, (!isBlank c) = true := by
  have hall : t.word.toList.all (!isBlank ·) = true := by cases t <;> decide
  exact List.all_eq_true.1 hall

theorem Tag.ofWord?_word (t : Tag) : ofWord? t.word.toList = some t := by
  cases t <;> decide

theorem bare_append {front cs : List Char} (hfront : ∃ rest, front = '@' :: rest) (hne : cs ≠ [])
    (h : trimEnd cs = cs) (hclosed : ¬ ['*', '/'] <:+ front ++ cs) : Bare (front ++ cs) := by
  obtain ⟨rest, rfl⟩ := hfront
  refine ⟨⟨rest ++ cs, rfl⟩, ?_, ?_, hclosed⟩
  · rw [trimEnd_append (by rwa [h]), h]
  · have hpos := List.length_pos_iff.2 hne
    simp only [List.length_append, List.length_cons]
    omega

/-- A line ends in its name or in its description. -/
theorem bare_words : Bare (l.words p.toProperty) := by
  obtain ⟨tag, htag⟩ : ∃ rest, p.tag.word.toList = '@' :: rest := by
    cases p.tag <;> exact ⟨_, rfl⟩
  cases hd : p.description with
  | none =>
    obtain ⟨rest, c, hname⟩ := (List.eq_nil_or_concat' p.name.toList).resolve_left (by simpa using p.nameWord.1)
    have hc : isWordChar c = true := p.nameWord.2 c (by simp [hname])
    have hwords : l.words p.toProperty =
        p.tag.word.toList ++ l.afterTag.blanks ++ (p.type.toList ++ l.afterType.blanks ++ ['$']) ++ p.name.toList := by
      simp [Layout.words, Layout.fields, Layout.describe, hd]
    rw [hwords]
    refine bare_append ⟨_, by rw [htag]; rfl⟩ (by simp [hname]) ?_ ?_
    · rw [hname, trimEnd_concat (isBlank_of_wordChar hc)]
    · intro hclosed
      rw [hname, ← List.append_assoc] at hclosed
      rw [eq_slash_of_closed hclosed] at hc
      exact absurd hc (by decide)
  | some d =>
    obtain ⟨hphrase, hclosed⟩ := p.descriptionPhrase d hd
    have hwords : l.words p.toProperty = p.tag.word.toList ++ l.afterTag.blanks ++
        (p.type.toList ++ l.afterType.blanks ++ '$' :: p.name.toList) ++ l.afterName.blanks ++ d.toList := by
      simp [Layout.words, Layout.fields, Layout.describe, hd]
    rw [hwords]
    exact bare_append ⟨_, by rw [htag]; rfl⟩ hphrase.nonempty (trimEnd_of_trim hphrase.trimmed)
      (unclosed_separated hclosed hphrase.nonempty l.afterName _)

theorem lineProperty?_decorate : lineProperty? (l.decorate (l.words p.toProperty)) = some p.toProperty := by
  obtain ⟨b, bs, hbs⟩ := List.exists_cons_of_ne_nil l.afterTag.nonempty
  have hb : isBlank b = true := l.afterTag.blank b (by simp [hbs])
  have hfields : property? p.tag (bs ++ l.fields p.toProperty) = some p.toProperty :=
    property?_fields l p ⟨bs, fun c hc => l.afterTag.blank c (by simp [hbs, hc])⟩
  have hstop : ∀ c ∈ (b :: (bs ++ l.fields p.toProperty)).head?, (!isBlank c) = false := by simpa using hb
  have hdrop : (l.words p.toProperty).dropWhile (!isBlank ·) = b :: (bs ++ l.fields p.toProperty) := by
    rw [Layout.words, List.append_assoc, hbs, List.cons_append]
    exact dropWhile_run p.tag.nonblank hstop
  have htake : (l.words p.toProperty).takeWhile (!isBlank ·) = p.tag.word.toList := by
    rw [Layout.words, List.append_assoc, hbs, List.cons_append]
    exact takeWhile_run p.tag.nonblank hstop
  simp only [lineProperty?, undecorate_decorate l (bare_words l p), hdrop, htake, Tag.ofWord?_word, Option.bind_some,
    hfields]

/-! ## Blocks -/

theorem lineProperty?_chars (line : Line) : lineProperty? line.chars = line.property? := by
  cases line with
  | tag p layout => exact lineProperty?_decorate layout p
  | other line => exact lineProperty?_other line

theorem oneLine_words : '\n' ∉ l.words p.toProperty := by
  have htag : '\n' ∉ p.tag.word.toList := fun h => absurd (p.tag.nonblank _ h) (by decide)
  have hname : '\n' ∉ p.name.toList := fun h => absurd (p.nameWord.2 _ h) (by decide)
  have hdescription : '\n' ∉ l.describe p.description := by
    cases hd : p.description with
    | none => exact List.not_mem_nil
    | some d => simp [Layout.describe, l.afterName.oneLine, (p.descriptionPhrase d hd).1.oneLine]
  simp [Layout.words, Layout.fields, htag, hname, hdescription, l.afterTag.oneLine, l.afterType.oneLine,
    p.typePhrase.oneLine]

theorem oneLine_chars (line : Line) : '\n' ∉ line.chars := by
  cases line with
  | tag p l =>
    have hmarks : '\n' ∉ l.marks := by
      simp [Layout.marks, List.mem_replicate]
    have hclosing : '\n' ∉ l.closing := by
      unfold Layout.closing
      split <;> decide
    simp [Line.chars, Layout.decorate, hmarks, hclosing, oneLine_words, l.indent.oneLine, l.beforeTag.oneLine,
      l.beforeClosing.oneLine, l.trailing.oneLine]
  | other line => exact line.oneLine

theorem lineProperty?_concat (cs : List Char) : lineProperty? (cs ++ ['\n']) = lineProperty? cs := by
  have htrim : trim (cs ++ ['\n']) = trim cs := by
    rw [trim, trimStart, List.dropWhile_append]
    split
    · rename_i hnil
      rw [trim, trimStart, List.isEmpty_iff.1 hnil]
      rfl
    · exact trimEnd_gap _ ⟨['\n'], List.forall_mem_singleton.2 (by decide)⟩
  rw [lineProperty?, lineProperty?, undecorate, undecorate, htrim]

/-- A block documents the properties that are written into it, in order. -/
theorem properties_block (lines : List Line) : properties (block lines) = lines.filterMap Line.property? := by
  rw [properties, block, String.toList_ofList]
  induction lines with
  | nil => rfl
  | cons line lines ih =>
    rw [List.filterMap_cons, ← lineProperty?_chars]
    cases lines with
    | nil =>
      rw [List.map_singleton, List.intercalate_singleton, List.filterMap_nil]
      by_cases hne : line.chars = []
      · rw [hne]
        rfl
      · rw [rawLines_of_not_mem (oneLine_chars line) hne, List.filterMap_cons, List.filterMap_nil]
    | cons next lines =>
      rw [List.map_cons] at ih
      rw [List.map_cons, List.map_cons, List.intercalate_cons_cons, List.append_assoc, List.singleton_append,
        rawLines_append (oneLine_chars line), List.filterMap_cons, lineProperty?_concat, ih]

/-- A heading, two tags, and a line between them. -/
def teamLines : List Line :=
  let tight : LineGap := ⟨⟨[], List.forall_mem_nil _⟩, by decide⟩
  let blank : LineGap := ⟨⟨[' '], List.forall_mem_singleton.2 (by decide)⟩, by decide⟩
  let tab : Separator := ⟨⟨⟨['\t'], List.forall_mem_singleton.2 (by decide)⟩, by decide⟩, by decide⟩
  let starred : Layout := ⟨blank, 0, 1, blank, tab, tab, tab, tight, false, tight⟩
  [.other ⟨"/** A team.".toList, by decide, by intro t; cases t <;> decide⟩,
    .tag ⟨⟨.readWrite, "array\x7bcost: US$, n: int\x7d", "price", some "in $ */ year"⟩, by decide, by decide,
      by decide, by simp; decide⟩ starred,
    .other ⟨" * @property-reader int $x".toList, by decide, by intro t; cases t <;> decide⟩,
    .tag ⟨⟨.override, "int|null", "_id", none⟩, by decide, by decide, by decide, by simp⟩
      { starred with closed := true }]

theorem properties_teamLines :
    block teamLines = "/** A team.\n * @property\tarray\x7bcost: US$, n: int\x7d\t$price\tin $ */ year\n" ++
      " * @property-reader int $x\n * @tswink-property\tint|null\t$_id*/" ∧
    properties (block teamLines) = [⟨.readWrite, "array\x7bcost: US$, n: int\x7d", "price", some "in $ */ year"⟩,
      ⟨.override, "int|null", "_id", none⟩] :=
  ⟨by decide +kernel, properties_block teamLines⟩

end Doc

end EntityScript
