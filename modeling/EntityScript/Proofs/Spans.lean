import Mathlib.Data.List.TakeWhile
import EntityScript.Input.Span
import EntityScript.Proofs.Bytes
/-!
# Spans of keys and values

A span is found by the place of its text, which is told by all that stands before it. The span of a key is that of the
first line that assigns to it, or else of the first header of that name; the span of a value that of its first
occurrence in double quotes, or else in single quotes. In the bytes of the source a span covers the text itself.
-/

namespace EntityScript

open Text

namespace Span

/-! ## Places -/

/-- The first of the places with a property, each of which is told by what stands before it. -/
def IsFirst (P : List Char → Prop) (before : List Char) : Prop :=
  P before ∧ ∀ other, P other → before.length ≤ other.length

/-- Whether a line starts with an assignment to a key behind an indentation: the key is the first in it that is no
blank, and only blanks stand between the key and `=`. -/
def Assigns (key indentation line : List Char) : Prop :=
  ∃ gap, indentation ++ (key ++ (gap ++ ['='])) <+: line ∧ '\n' ∉ indentation ++ (key ++ gap) ∧
    (∀ c ∈ indentation, isBlank c = true) ∧ (∀ c ∈ gap, isBlank c = true) ∧
    ∀ c ∈ (key ++ (gap ++ ['='])).head?, isBlank c = false

/-- The places at which a line of a text assigns to a key. -/
def AssignedBehind (key text before : List Char) : Prop :=
  ∃ lines line indentation, text = lines ++ line ∧ before = lines ++ indentation ∧
    (∀ c ∈ lines.getLast?, c = '\n') ∧ Assigns key indentation line

/-- The places at which a text has another one between two characters. -/
def EnclosedBehind (opening closing : Char) (inside text before : List Char) : Prop :=
  ∃ front rest, before = front ++ [opening] ∧ text = before ++ inside ++ closing :: rest

/-- What a search for the first place finds, in bytes. -/
inductive Finds (P : List Char → Prop) : Option Nat → Prop
  | first {before : List Char} (h : IsFirst P before) : Finds P (some (byteLength before))
  | missing (h : ∀ before, ¬ P before) : Finds P none

/-- What is found of a text that may be at places of two kinds: the first place of the preferred kind, or else of the
other kind. -/
inductive Locates (preferred other : List Char → Prop) (inside : List Char) : Option Span → Prop
  | preferred {before : List Char} (h : IsFirst preferred before) :
    Locates preferred other inside (some ⟨byteLength before, byteLength inside⟩)
  | other {before : List Char} (hpreferred : ∀ b, ¬ preferred b) (h : IsFirst other before) :
    Locates preferred other inside (some ⟨byteLength before, byteLength inside⟩)
  | missing (hpreferred : ∀ b, ¬ preferred b) (hother : ∀ b, ¬ other b) : Locates preferred other inside none

/-- A span covers a text in a source if it lies in the source, starts and ends between characters, and has the bytes of
the text. -/
structure Covers (span : Span) (src inside : String) : Prop where
  within : span.offset + span.length ≤ src.utf8ByteSize
  starts : (String.Pos.Raw.mk span.offset).IsValid src
  ends : (String.Pos.Raw.mk (span.offset + span.length)).IsValid src
  covered : ((bytes src).drop span.offset).take span.length = bytes inside

/-! ## Lines that assign -/

theorem blanks_append_trimStart (cs : List Char) :
    cs = cs.takeWhile isBlank ++ trimStart cs ∧ ∀ c ∈ (trimStart cs).head?, isBlank c = false := by
  refine ⟨List.takeWhile_append_dropWhile.symm, fun c hc => ?_⟩
  have hhead := List.head?_dropWhile_not isBlank cs
  rw [trimStart] at hc
  rwa [hc] at hhead

variable {key line rest before : List Char}

/-- The indentation of an assignment is all that is blank at the start of the line. -/
theorem Assigns.indentation_eq {indentation : List Char} (h : Assigns key indentation line) :
    indentation = line.takeWhile isBlank := by
  obtain ⟨gap, ⟨value, rfl⟩, -, hindentation, -, hhead⟩ := h
  rw [List.append_assoc]
  refine (takeWhile_run hindentation ?_).symm
  rwa [List.head?_append_of_ne_nil _ (by simp)]

theorem Assigns.mono {indentation line' : List Char} (h : Assigns key indentation line) (hline : line <+: line') :
    Assigns key indentation line' := by
  obtain ⟨gap, hprefix, hrest⟩ := h
  exact ⟨gap, hprefix.trans hline, hrest⟩

/-- An assignment is found in a line, which has no line feed but at its end. -/
theorem keyInLine?_eq_some (hline : '\n' ∉ line.dropLast) {n : Nat} :
    keyInLine? key line = some n ↔ ∃ indentation, Assigns key indentation line ∧ n = byteLength indentation := by
  constructor
  · intro h
    unfold keyInLine? at h
    split at h
    · cases h
    · rename_i tail htail
      obtain ⟨hequals, hn⟩ := Option.ite_none_right_eq_some.1 h
      obtain ⟨value, hvalue⟩ := List.head?_eq_some_iff.1 hequals
      obtain ⟨hsplit, hhead⟩ := blanks_append_trimStart line
      have htail : trimStart line = key ++ (tail.takeWhile isBlank ++ ['=']) ++ value := by
        rw [after?_eq_some.1 htail, List.append_assoc, List.append_assoc, List.singleton_append, ← hvalue,
          ← (blanks_append_trimStart tail).1]
      rw [htail] at hsplit hhead
      rw [List.head?_append_of_ne_nil _ (by simp)] at hhead
      refine ⟨line.takeWhile isBlank, ⟨tail.takeWhile isBlank, ⟨value, ?_⟩, ?_, ?_, ?_, hhead⟩,
        (Option.some.inj hn).symm⟩
      · rw [List.append_assoc, ← hsplit]
      · have hfront : line = line.takeWhile isBlank ++ (key ++ tail.takeWhile isBlank) ++ '=' :: value := by
          simpa only [List.append_assoc, List.singleton_append] using hsplit
        rw [hfront, List.dropLast_append_cons] at hline
        exact fun hmem => hline (List.mem_append_left _ hmem)
      · exact fun c hc => List.mem_takeWhile_imp hc
      · exact fun c hc => List.mem_takeWhile_imp hc
  · rintro ⟨indentation, h, rfl⟩
    have hindentation := h.indentation_eq
    obtain ⟨gap, ⟨value, rfl⟩, -, hblank, hgap, hhead⟩ := h
    have hrest : ∀ c ∈ (key ++ (gap ++ ['=']) ++ value).head?, isBlank c = false := by
      rwa [List.head?_append_of_ne_nil _ (by simp)]
    have hafter : after? key (trimStart (indentation ++ (key ++ (gap ++ ['='])) ++ value)) =
        some (gap ++ '=' :: value) := by
      rw [List.append_assoc, trimStart, dropWhile_run hblank hrest, after?_eq_some]
      simp
    have hequals : (trimStart (gap ++ '=' :: value)).head? = some '=' := by
      rw [trimStart, dropWhile_run hgap (by simp; decide)]
      rfl
    unfold keyInLine?
    rw [hafter]
    dsimp only
    rw [if_pos hequals, ← hindentation]

theorem keyInLine?_eq_none (hline : '\n' ∉ line.dropLast) (h : keyInLine? key line = none) (indentation : List Char) :
    ¬ Assigns key indentation line := by
  intro hassigns
  have hsome := (keyInLine?_eq_some hline).2 ⟨indentation, hassigns, rfl⟩
  rw [h] at hsome
  cases hsome

/-! ## Line by line -/

/-- A text that is not empty is a line, which has no line feed but at its end, and what follows that line. -/
theorem exists_line {text : List Char} (h : text ≠ []) : ∃ line rest, text = line ++ rest ∧ line ≠ [] ∧
    rawLines text = line :: rawLines rest ∧ '\n' ∉ line.dropLast ∧ (rest = [] ∨ line.getLast? = some '\n') := by
  by_cases hmem : '\n' ∈ text
  · obtain ⟨body, rest, rfl, hbody⟩ := List.eq_append_cons_of_mem hmem
    refine ⟨body ++ ['\n'], rest, by simp, by simp, rawLines_append hbody rest, ?_, .inr (by simp)⟩
    rwa [List.dropLast_concat]
  · refine ⟨text, [], by simp, h, rawLines_of_not_mem hmem h, ?_, .inl rfl⟩
    exact fun hdrop => hmem (List.dropLast_subset _ hdrop)

theorem not_assignedBehind_nil : ¬ AssignedBehind key [] before := by
  rintro ⟨lines, line, indentation, htext, -, -, gap, hprefix, -⟩
  rw [(List.append_eq_nil_iff.1 htext.symm).2] at hprefix
  simpa using List.prefix_nil.1 hprefix

/-- No line feed stands before the `=` of an assignment, so it is in the first line. -/
theorem Assigns.of_append {indentation : List Char} (hends : rest = [] ∨ line.getLast? = some '\n')
    (h : Assigns key indentation (line ++ rest)) : Assigns key indentation line := by
  obtain ⟨gap, hprefix, hfeed, hrest⟩ := h
  refine ⟨gap, ?_, hfeed, hrest⟩
  rcases hends with rfl | hends
  · rwa [List.append_nil] at hprefix
  · rcases List.prefix_or_prefix_of_prefix hprefix (List.prefix_append line rest) with h | h
    · exact h
    · have hmem := h.subset (List.mem_of_getLast? hends)
      rw [← List.append_assoc, ← List.append_assoc, List.mem_append, List.append_assoc] at hmem
      rcases hmem with hmem | hmem
      · exact absurd hmem hfeed
      · exact absurd hmem (by decide)

/-- Of some lines that end with a line feed the first is among them as a whole. -/
theorem prefix_of_lines {lines tail : List Char} (hline : '\n' ∉ line.dropLast) (h : line ++ rest = lines ++ tail)
    (hlast : lines.getLast? = some '\n') : line <+: lines := by
  rcases List.prefix_or_prefix_of_prefix (List.prefix_append line rest) ⟨tail, h.symm⟩ with h | ⟨more, rfl⟩
  · exact h
  · by_cases hmore : more = []
    · exact ⟨[], by simp [hmore]⟩
    · rw [List.dropLast_append_of_ne_nil hmore] at hline
      exact absurd (List.mem_append_left _ (List.mem_of_getLast? hlast)) hline

/-- A key is assigned in the first line, or in one of those behind it. -/
theorem assignedBehind_append (hline : '\n' ∉ line.dropLast) (hends : rest = [] ∨ line.getLast? = some '\n') :
    AssignedBehind key (line ++ rest) before ↔
      Assigns key before line ∨ ∃ later, before = line ++ later ∧ AssignedBehind key rest later := by
  constructor
  · rintro ⟨lines, tail, indentation, htext, rfl, hlines, hassigns⟩
    cases hlast : lines.getLast? with
    | none =>
      obtain rfl := List.getLast?_eq_none_iff.1 hlast
      rw [List.nil_append] at htext ⊢
      subst htext
      exact .inl (hassigns.of_append hends)
    | some c =>
      obtain rfl := hlines c hlast
      obtain ⟨later, rfl⟩ := prefix_of_lines hline htext hlast
      rw [List.append_assoc, List.append_cancel_left_eq] at htext
      refine .inr ⟨later ++ indentation, List.append_assoc _ _ _, later, tail, indentation, htext, rfl, ?_, hassigns⟩
      intro c hc
      refine hlines c ?_
      rw [List.getLast?_append, hc]
      rfl
  · rintro (hassigns | ⟨later, rfl, h⟩)
    · exact ⟨[], line ++ rest, before, rfl, rfl, by simp, hassigns.mono (List.prefix_append _ _)⟩
    · rcases hends with rfl | hends
      · exact absurd h not_assignedBehind_nil
      · obtain ⟨lines, tail, indentation, rfl, rfl, hlines, hassigns⟩ := h
        refine ⟨line ++ lines, tail, indentation, by simp, by simp, ?_, hassigns⟩
        intro c hc
        rw [List.getLast?_append, hends] at hc
        cases hlast : lines.getLast? with
        | none =>
          rw [hlast] at hc
          exact (Option.some.inj hc).symm
        | some d =>
          rw [hlast] at hc
          exact hlines c (hlast.trans hc)

/-! ## Searches -/

/-- Places behind a text are found where they are found in what follows it. -/
theorem Finds.behind {P Q : List Char → Prop} {front : List Char} {found : Option Nat}
    (hPQ : ∀ before, P before ↔ ∃ later, before = front ++ later ∧ Q later) (h : Finds Q found) :
    Finds P (found.map (byteLength front + ·)) := by
  cases h with
  | first hfirst =>
    rename_i later
    rw [Option.map_some, ← byteLength_append]
    refine .first ⟨(hPQ _).2 ⟨later, rfl, hfirst.1⟩, ?_⟩
    intro other hother
    obtain ⟨later', rfl, hQ⟩ := (hPQ other).1 hother
    rw [List.length_append, List.length_append]
    exact Nat.add_le_add_left (hfirst.2 later' hQ) _
  | missing hnone =>
    refine .missing fun before hP => ?_
    obtain ⟨later, -, hQ⟩ := (hPQ before).1 hP
    exact hnone later hQ

theorem keyInLines?_offset (key : List Char) (offset : Nat) (lines : List (List Char)) :
    keyInLines? key offset lines = (keyInLines? key 0 lines).map (offset + ·) := by
  induction lines generalizing offset with
  | nil => rfl
  | cons line lines ih =>
    rw [keyInLines?, keyInLines?]
    cases keyInLine? key line with
    | some indentation => simp
    | none =>
      simp only
      rw [ih (offset + byteLength line), ih (0 + byteLength line), Option.map_map]
      congr 1
      funext n
      simp [Nat.add_assoc]

/-- The search by lines finds the first assignment. -/
theorem keyInLines?_finds (key text : List Char) :
    Finds (AssignedBehind key text) (keyInLines? key 0 (rawLines text)) := by
  induction hlength : text.length using Nat.strong_induction_on generalizing text with
  | _ n ih =>
    by_cases hnil : text = []
    · subst hnil
      exact .missing fun _ => not_assignedBehind_nil
    · obtain ⟨line, rest, rfl, hne, hlines, hline, hends⟩ := exists_line hnil
      have hplaces (before : List Char) : AssignedBehind key (line ++ rest) before ↔
          Assigns key before line ∨ ∃ later, before = line ++ later ∧ AssignedBehind key rest later :=
        assignedBehind_append hline hends
      rw [hlines, keyInLines?]
      cases hkey : keyInLine? key line with
      | some m =>
        obtain ⟨indentation, hassigns, rfl⟩ := (keyInLine?_eq_some hline).1 hkey
        simp only [Nat.zero_add]
        refine .first ⟨(hplaces _).2 (.inl hassigns), ?_⟩
        intro other hother
        rcases (hplaces other).1 hother with h | ⟨later, rfl, -⟩
        · rw [hassigns.indentation_eq, h.indentation_eq]
        · have hlength : indentation.length ≤ line.length := by
            rw [hassigns.indentation_eq]
            exact (List.takeWhile_prefix _).length_le
          rw [List.length_append]
          omega
      | none =>
        have hrest : rest.length < n := by
          have hpos := List.length_pos_iff.2 hne
          rw [List.length_append] at hlength
          omega
        simp only [Nat.zero_add]
        rw [keyInLines?_offset]
        refine (ih rest.length hrest rest rfl).behind fun before => ?_
        rw [hplaces]
        exact or_iff_right (keyInLine?_eq_none hline hkey before)

/-- The search for an enclosed text finds its first place. -/
theorem enclosed?_finds {opening : Char} (h : opening.utf8Size = 1) (closing : Char) (inside text : List Char) :
    Finds (EnclosedBehind opening closing inside text) (enclosed? opening closing inside text) := by
  have hplaces {before : List Char} : EnclosedBehind opening closing inside text before ↔
      ∃ front tail, before = front ++ [opening] ∧ text = front ++ (opening :: (inside ++ [closing])) ++ tail := by
    unfold EnclosedBehind
    constructor
    · rintro ⟨front, tail, rfl, htext⟩
      exact ⟨front, tail, rfl, by simpa using htext⟩
    · rintro ⟨front, tail, rfl, htext⟩
      exact ⟨front, tail, rfl, by simpa using htext⟩
  unfold enclosed?
  cases hcut : cutAt? (opening :: (inside ++ [closing])) text with
  | none =>
    refine .missing fun before hbefore => ?_
    obtain ⟨front, tail, -, htext⟩ := hplaces.1 hbefore
    exact cutAt?_eq_none hcut front tail htext
  | some cut =>
    obtain ⟨front, tail⟩ := cut
    have hlength : byteLength front + 1 = byteLength (front ++ [opening]) := by
      rw [byteLength_append, byteLength, h, byteLength]
    rw [Option.map_some]
    dsimp only
    rw [hlength]
    refine .first ⟨hplaces.2 ⟨front, tail, rfl, cutAt?_eq_append hcut⟩, ?_⟩
    intro other hother
    obtain ⟨front', tail', rfl, htext⟩ := hplaces.1 hother
    rw [List.length_append, List.length_append]
    exact Nat.add_le_add_right (length_le_of_cutAt? hcut htext) _

/-! ## Spans -/

/-- A text that stands behind another is covered by its span. -/
theorem covers_of_place {src inside : String} {before rest : List Char}
    (h : src.toList = before ++ inside.toList ++ rest) :
    Covers ⟨byteLength before, byteLength inside.toList⟩ src inside := by
  obtain rfl : src = String.ofList (before ++ inside.toList ++ rest) := by rw [← h, String.ofList_toList]
  refine ⟨?_, ?_, ?_, ?_⟩
  · rw [utf8ByteSize_ofList, byteLength_append, byteLength_append]
    exact Nat.le_add_right _ _
  · rw [List.append_assoc]
    exact isValid_byteLength before (inside.toList ++ rest)
  · dsimp only
    rw [← byteLength_append]
    exact isValid_byteLength (before ++ inside.toList) rest
  · rw [String.ofList_append, String.ofList_append, String.ofList_toList, bytes_append, bytes_append, List.append_assoc,
      ← length_bytes_ofList before, List.drop_left, byteLength_toList, ← length_bytes, List.take_left]

theorem AssignedBehind.place {key text before : List Char} (h : AssignedBehind key text before) :
    ∃ rest, text = before ++ key ++ rest := by
  obtain ⟨lines, line, indentation, rfl, rfl, -, gap, ⟨value, rfl⟩, -⟩ := h
  exact ⟨gap ++ '=' :: value, by simp⟩

theorem EnclosedBehind.place {opening closing : Char} {inside text before : List Char}
    (h : EnclosedBehind opening closing inside text before) : ∃ rest, text = before ++ inside ++ rest := by
  obtain ⟨front, rest, -, htext⟩ := h
  exact ⟨closing :: rest, htext⟩

section Located

variable {preferred other : List Char → Prop}

theorem Finds.locates {inside : List Char} {found found' : Option Nat} (h : Finds preferred found)
    (h' : Finds other found') : Locates preferred other inside
      ((match found with
        | some offset => some offset
        | none => found').map fun offset => ⟨offset, byteLength inside⟩) := by
  cases h with
  | first h => exact .preferred h
  | missing hnone =>
    cases h' with
    | first h' => exact .other hnone h'
    | missing hnone' => exact .missing hnone hnone'

theorem Locates.eq_none_iff {inside : List Char} {span : Option Span} (h : Locates preferred other inside span) :
    span = none ↔ ∀ before, ¬ preferred before ∧ ¬ other before := by
  cases h with
  | preferred h => exact iff_of_false (by simp) fun hnone => (hnone _).1 h.1
  | other _ h => exact iff_of_false (by simp) fun hnone => (hnone _).2 h.1
  | missing hpreferred hother => exact iff_of_true rfl fun before => ⟨hpreferred before, hother before⟩

theorem Locates.covers {src inside : String} {span : Option Span} (h : Locates preferred other inside.toList span)
    (hpreferred : ∀ before, preferred before → ∃ rest, src.toList = before ++ inside.toList ++ rest)
    (hother : ∀ before, other before → ∃ rest, src.toList = before ++ inside.toList ++ rest) :
    ∀ s ∈ span, s.Covers src inside := by
  intro s hs
  cases h with
  | preferred h =>
    cases hs
    obtain ⟨rest, hrest⟩ := hpreferred _ h.1
    exact covers_of_place hrest
  | other _ h =>
    cases hs
    obtain ⟨rest, hrest⟩ := hother _ h.1
    exact covers_of_place hrest
  | missing => cases hs

end Located

theorem ofKey?_locates (src key : String) :
    Locates (AssignedBehind key.toList src.toList) (EnclosedBehind '[' ']' key.toList src.toList) key.toList
      (ofKey? src key) := by
  rw [ofKey?, ← byteLength_toList]
  exact (keyInLines?_finds _ _).locates (enclosed?_finds (by decide) _ _ _)

theorem ofValue?_locates (src value : String) :
    Locates (EnclosedBehind '"' '"' value.toList src.toList) (EnclosedBehind '\'' '\'' value.toList src.toList)
      value.toList (ofValue? src value) := by
  rw [ofValue?, ← byteLength_toList]
  exact (enclosed?_finds (by decide) _ _ _).locates (enclosed?_finds (by decide) _ _ _)

/-- A key is located at the first line that assigns to it, or else at its first header; a value at its first occurrence
in double quotes, or else in single quotes; and neither where there is none of the two. What is located is covered by
its span. -/
theorem located_and_covered (src inside : String) :
    Locates (AssignedBehind inside.toList src.toList) (EnclosedBehind '[' ']' inside.toList src.toList) inside.toList
      (ofKey? src inside) ∧
    (ofKey? src inside = none ↔ ∀ before, ¬ AssignedBehind inside.toList src.toList before ∧
      ¬ EnclosedBehind '[' ']' inside.toList src.toList before) ∧
    Locates (EnclosedBehind '"' '"' inside.toList src.toList) (EnclosedBehind '\'' '\'' inside.toList src.toList)
      inside.toList (ofValue? src inside) ∧
    (ofValue? src inside = none ↔ ∀ before, ¬ EnclosedBehind '"' '"' inside.toList src.toList before ∧
      ¬ EnclosedBehind '\'' '\'' inside.toList src.toList before) ∧
    ∀ span, span ∈ ofKey? src inside ∨ span ∈ ofValue? src inside → span.Covers src inside := by
  have hkey := ofKey?_locates src inside
  have hvalue := ofValue?_locates src inside
  refine ⟨hkey, hkey.eq_none_iff, hvalue, hvalue.eq_none_iff, ?_⟩
  rintro span (hspan | hspan)
  · exact hkey.covers (fun _ h => h.place) (fun _ h => h.place) span hspan
  · exact hvalue.covers (fun _ h => h.place) (fun _ h => h.place) span hspan

/-- A key of letters of several bytes, behind a header, a line that only starts like it and a wide blank, and a value
in single quotes. -/
theorem located_and_covered_wide :
    ofKey? "[größe]\r\ngrößer = 'ß'\r\n\u3000größe\t= 2\n" "größe" = some ⟨31, 7⟩ ∧
    Covers ⟨31, 7⟩ "[größe]\r\ngrößer = 'ß'\r\n\u3000größe\t= 2\n" "größe" ∧
    ofValue? "[größe]\r\ngrößer = 'ß'\r\n\u3000größe\t= 2\n" "ß" = some ⟨23, 2⟩ ∧
    Covers ⟨23, 2⟩ "[größe]\r\ngrößer = 'ß'\r\n\u3000größe\t= 2\n" "ß" := by
  have hkey : ofKey? "[größe]\r\ngrößer = 'ß'\r\n\u3000größe\t= 2\n" "größe" = some ⟨31, 7⟩ := by decide +kernel
  have hvalue : ofValue? "[größe]\r\ngrößer = 'ß'\r\n\u3000größe\t= 2\n" "ß" = some ⟨23, 2⟩ := by decide +kernel
  exact ⟨hkey, (located_and_covered _ _).2.2.2.2 _ (.inl hkey), hvalue,
    (located_and_covered _ _).2.2.2.2 _ (.inr hvalue)⟩

end Span

end EntityScript
