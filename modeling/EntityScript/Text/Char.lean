import EntityScript.Text.CaseTables
/-!
# Characters

The character classes and case maps that names and types are read by. ASCII is decided by
comparison, the rest by table.
-/

namespace EntityScript.Text

/-- Letters and numbers of any script. -/
def isAlphanumeric (c : Char) : Bool :=
  if c.toNat < 128 then c.isAlphanum
  else if c.toNat < 0x10000 then basicAlphanumeric.any (·.contains c.toNat)
  else supplementaryAlphanumeric.any (·.contains c.toNat)

/-- Capital letters of any script. -/
def isCapital (c : Char) : Bool :=
  if c.toNat < 128 then c.isUpper else capitals.any (·.contains c.toNat)

/-- Blanks of any script, line ends included. -/
def isBlank (c : Char) : Bool :=
  if c.toNat < 128 then c == ' ' || (9 ≤ c.toNat && c.toNat ≤ 13)
  else blanks.any (·.contains c.toNat)

/-- The characters that a table of runs and a table of expansions give for `c`. -/
def mapCase (expansions : List (Nat × List Nat)) (runs : List CaseRun) (c : Char) : List Char :=
  match expansions.lookup c.toNat with
  | some codes => codes.map Char.ofNat
  | none =>
    match runs.findSome? (·.map? c.toNat) with
    | some code => [Char.ofNat code]
    | none => [c]

/-- The upper case of one character, which may be several. -/
def upper (c : Char) : List Char :=
  if c.toNat < 128 then [c.toUpper] else mapCase upperExpansions upperRuns c

/-- The lower case of one character, which may be several. -/
def lower (c : Char) : List Char :=
  if c.toNat < 128 then [c.toLower] else mapCase lowerExpansions lowerRuns c

/-- Letters and digits of ASCII, and the underscore. -/
def isWordChar (c : Char) : Bool :=
  c.isAlphanum || c == '_'

/-- ASCII letters in lower case, all else as it is. -/
def lowerAscii (s : String) : String :=
  String.ofList (s.toList.map Char.toLower)

/-- A property of all characters of ASCII, checked one by one. -/
theorem forall_ascii {P : Char → Prop} (h : ∀ n < 128, P (Char.ofNat n)) {c : Char} (hc : c.toNat < 128) : P c := by
  have hn := h c.toNat hc
  rwa [Char.ofNat_toNat] at hn

theorem upper_of_ascii {c : Char} (h : c.toNat < 128) : upper c = [c.toUpper] := by
  simp [upper, h]

theorem lower_of_ascii {c : Char} (h : c.toNat < 128) : lower c = [c.toLower] := by
  simp [lower, h]

theorem toNat_lt_of_isAlphanum {c : Char} (h : c.isAlphanum = true) : c.toNat < 128 := by
  unfold Char.isAlphanum Char.isAlpha Char.isUpper Char.isLower Char.isDigit at h
  simp [UInt32.le_iff_toNat_le] at h
  omega

theorem toNat_lt_of_isWordChar {c : Char} (h : isWordChar c = true) : c.toNat < 128 := by
  rw [isWordChar, Bool.or_eq_true] at h
  rcases h with h | h
  · exact toNat_lt_of_isAlphanum h
  · rw [beq_iff_eq.1 h]
    decide

theorem ofNat_cases (n : Nat) : (Char.ofNat n).toNat = n ∨ Char.ofNat n = '\x00' := by
  by_cases h : n.isValidChar
  · rw [Char.ofNat, dif_pos h]
    exact .inl rfl
  · rw [Char.ofNat, dif_neg h]
    exact .inr rfl

/-- A character is mapped by the table of expansions, by a run, or to itself. -/
theorem mapCase_cases (expansions : List (Nat × List Nat)) (runs : List CaseRun) (c : Char) :
    (∃ codes, (c.toNat, codes) ∈ expansions ∧ mapCase expansions runs c = codes.map Char.ofNat) ∨
      (∃ r ∈ runs, r.source.contains c.toNat = true ∧
        mapCase expansions runs c = [Char.ofNat (c.toNat - r.source.first + r.target)]) ∨
      mapCase expansions runs c = [c] := by
  unfold mapCase
  split
  · rename_i codes hcodes
    obtain ⟨before, after, heq, -⟩ := List.lookup_eq_some_iff.1 hcodes
    exact .inl ⟨codes, by rw [heq]; simp, rfl⟩
  · split
    · rename_i code hcode
      obtain ⟨r, hr, hmap⟩ := List.exists_of_findSome?_eq_some hcode
      unfold CaseRun.map? at hmap
      split at hmap
      · rename_i hcontains
        cases hmap
        exact .inr (.inl ⟨r, hr, hcontains, rfl⟩)
      · cases hmap
    · exact .inr (.inr rfl)

end EntityScript.Text
