import Mathlib.Data.Set.Function
import EntityScript.Build.Model
/-!
# Names in snake case

Snake case parts a name of letters and digits before each capital behind the first character. Pascal and camel case
put the parts together again, so only the case of the first character is lost: names that agree in it have snake
cases of their own, and relations of such names have members of their own.
-/

namespace EntityScript

open Text

namespace Name

/-- Names of ASCII letters and digits that start with a small letter. -/
def IsCamel (s : String) : Prop :=
  (∀ c ∈ s.toList, c.isAlphanum = true) ∧ ∃ c ∈ s.toList.head?, c.isLower = true

/-- Names of ASCII letters and digits that start with a capital. -/
def IsPascal (s : String) : Prop :=
  (∀ c ∈ s.toList, c.isAlphanum = true) ∧ ∃ c ∈ s.toList.head?, c.isUpper = true

instance (s : String) : Decidable (IsCamel s) :=
  decidable_of_iff (s.toList.all (·.isAlphanum) = true ∧ s.toList.head?.any (·.isLower) = true)
    (and_congr List.all_eq_true (Option.any_eq_true _ _))

instance (s : String) : Decidable (IsPascal s) :=
  decidable_of_iff (s.toList.all (·.isAlphanum) = true ∧ s.toList.head?.any (·.isUpper) = true)
    (and_congr List.all_eq_true (Option.any_eq_true _ _))

/-! ## Letters and digits -/

section Characters

variable {c : Char} (h : c.isAlphanum = true)
include h

theorem isSeparator_of_isAlphanum : isSeparator c = false ∧ isSeparator c.toLower = false :=
  forall_ascii (P := fun c => c.isAlphanum = true → isSeparator c = false ∧ isSeparator c.toLower = false)
    (by decide +kernel) (toNat_lt_of_isAlphanum h) h

theorem upper_toLower : upper c.toLower = upper c :=
  forall_ascii (P := fun c => upper c.toLower = upper c) (by decide +kernel) (toNat_lt_of_isAlphanum h)

theorem snakeChar_of_isUpper (hupper : c.isUpper = true) :
    snakeChar c = ['_', c.toLower] ∧ upper c.toLower = [c] := by
  have hlt := toNat_lt_of_isAlphanum h
  refine ⟨by rw [snakeChar, isCapital, if_pos hlt, if_pos hupper, lower_of_ascii hlt], ?_⟩
  exact forall_ascii (P := fun c => c.isUpper = true → upper c.toLower = [c]) (by decide +kernel) hlt hupper

theorem snakeChar_of_not_isUpper (hupper : c.isUpper = false) : snakeChar c = [c] := by
  have hlt := toNat_lt_of_isAlphanum h
  have hsame : lower c = [c] :=
    forall_ascii (P := fun c => c.isUpper = false → lower c = [c]) (by decide +kernel) hlt hupper
  rw [snakeChar, isCapital, if_pos hlt, hupper, if_neg Bool.false_ne_true, hsame]

end Characters

/-! ## Parts -/

/-- Where no part starts behind the first, nothing is changed. -/
theorem flatMap_snakeChar_of_unparted {cs : List Char} (h : ∀ c ∈ cs, c.isAlphanum = true)
    (hsep : ∀ d ∈ cs.flatMap snakeChar, isSeparator d = false) : cs.flatMap snakeChar = cs := by
  induction cs with
  | nil => rfl
  | cons c cs ih =>
    obtain ⟨hc, hcs⟩ := List.forall_mem_cons.1 h
    rw [List.flatMap_cons] at hsep ⊢
    cases hupper : c.isUpper with
    | true =>
      rw [(snakeChar_of_isUpper hc hupper).1] at hsep
      exact absurd (hsep '_' (by simp)) (by decide)
    | false =>
      rw [snakeChar_of_not_isUpper hc hupper, ih hcs fun d hd => hsep d (List.mem_append_right _ hd)]
      rfl

/-- Behind a word, each part gets back the capital that it was parted at. -/
theorem flatMap_capitalize_splitWhere {word rest : List Char} (hword : ∀ c ∈ word, isSeparator c = false)
    (hne : word ≠ []) (hrest : ∀ c ∈ rest, c.isAlphanum = true) :
    (splitWhere isSeparator (word ++ rest.flatMap snakeChar)).flatMap capitalize = capitalize word ++ rest := by
  induction rest generalizing word with
  | nil => rw [List.flatMap_nil, List.append_nil, splitWhere_of_forall hword, List.flatMap_singleton, List.append_nil]
  | cons c rest ih =>
    obtain ⟨hc, hrest⟩ := List.forall_mem_cons.1 hrest
    obtain ⟨hsep, hsepLower⟩ := isSeparator_of_isAlphanum hc
    rw [List.flatMap_cons]
    cases hupper : c.isUpper with
    | true =>
      obtain ⟨hsnake, hback⟩ := snakeChar_of_isUpper hc hupper
      have hstart : ∀ d ∈ [c.toLower], isSeparator d = false := by simpa using hsepLower
      have hnext := ih hstart (List.cons_ne_nil _ _) hrest
      rw [capitalize, hback] at hnext
      rw [hsnake, List.cons_append, splitWhere_append (by decide), splitWhere_of_forall hword, List.flatMap_append,
        hnext]
      simp
    | false =>
      have hlonger : ∀ d ∈ word ++ [c], isSeparator d = false := by
        intro d hd
        rcases List.mem_append.1 hd with hd | hd
        · exact hword d hd
        · rwa [List.mem_singleton.1 hd]
      rw [snakeChar_of_not_isUpper hc hupper, ← List.append_assoc, ih hlonger (by simp) hrest]
      obtain ⟨first, word, rfl⟩ := List.exists_cons_of_ne_nil hne
      simp [capitalize]

section Chars

variable {cs : List Char} (h : ∀ c ∈ cs, c.isAlphanum = true)
include h

/-- Of a name of letters and digits no character is taken for a hyphen. -/
theorem snakeChars_eq {c : Char} (hc : c.isAlphanum = true) :
    snakeChars (c :: cs) = c.toLower :: cs.flatMap snakeChar := by
  rw [snakeChars, lower_of_ascii (toNat_lt_of_isAlphanum hc), List.singleton_append]
  have hkept : ∀ d ∈ c.toLower :: cs.flatMap snakeChar, (if d = '-' then '_' else d) = d := by
    intro d hd
    refine if_neg fun hdash => ?_
    subst hdash
    rcases List.mem_cons.1 hd with hd | hd
    · exact absurd (hd ▸ (isSeparator_of_isAlphanum hc).2) (by decide)
    · obtain ⟨b, hb, hd⟩ := List.mem_flatMap.1 hd
      obtain ⟨hsep, hsepLower⟩ := isSeparator_of_isAlphanum (h b hb)
      cases hupper : b.isUpper with
      | true =>
        rw [(snakeChar_of_isUpper (h b hb) hupper).1, List.mem_cons, List.mem_singleton] at hd
        rcases hd with hd | hd
        · exact absurd hd (by decide)
        · exact absurd (hd ▸ hsepLower) (by decide)
      | false =>
        rw [snakeChar_of_not_isUpper (h b hb) hupper, List.mem_singleton] at hd
        exact absurd (hd ▸ hsep) (by decide)
  rw [List.map_congr_left hkept, List.map_id']

theorem pascalChars_snakeChars : pascalChars (snakeChars cs) = capitalize cs := by
  cases cs with
  | nil => rfl
  | cons c cs =>
    obtain ⟨hc, hcs⟩ := List.forall_mem_cons.1 h
    have hstart : ∀ d ∈ [c.toLower], isSeparator d = false := by simpa using (isSeparator_of_isAlphanum hc).2
    have hparts := flatMap_capitalize_splitWhere hstart (List.cons_ne_nil _ _) hcs
    rw [capitalize, upper_toLower hc, List.append_nil] at hparts
    rw [snakeChars_eq hcs hc, pascalChars]
    exact hparts

theorem camelChars_snakeChars : camelChars (snakeChars cs) = uncapitalize cs := by
  have hpascal := pascalChars_snakeChars h
  cases cs with
  | nil => rfl
  | cons c rest =>
    obtain ⟨hc, hrest⟩ := List.forall_mem_cons.1 h
    have hlt := toNat_lt_of_isAlphanum hc
    have hlower : lower c.toLower = lower c ∧ lower c.toUpper = lower c :=
      forall_ascii (P := fun c => lower c.toLower = lower c ∧ lower c.toUpper = lower c) (by decide +kernel) hlt
    unfold camelChars
    split
    · rw [hpascal, capitalize, upper_of_ascii hlt, List.singleton_append, uncapitalize, hlower.2, uncapitalize]
    · rename_i hany
      rw [snakeChars_eq hrest hc] at hany ⊢
      have hsep : ∀ d ∈ rest.flatMap snakeChar, isSeparator d = false := by
        intro d hd
        rw [← Bool.not_eq_true]
        intro hd'
        exact hany (List.any_eq_true.2 ⟨d, List.mem_cons_of_mem _ hd, hd'⟩)
      rw [flatMap_snakeChar_of_unparted hrest hsep, uncapitalize, hlower.1, uncapitalize]

end Chars

/-! ## Names -/

theorem camel_snake {s : String} (h : IsCamel s) : camel (snake s) = s := by
  obtain ⟨halphanum, c, hhead, hlower⟩ := h
  obtain ⟨cs, hs⟩ := List.head?_eq_some_iff.1 hhead
  have hsame : lower c = [c] :=
    forall_ascii (P := fun c => c.isLower = true → lower c = [c]) (by decide +kernel)
      (toNat_lt_of_isAlphanum (halphanum c (by rw [hs]; exact List.mem_cons_self))) hlower
  rw [camel, snake, String.toList_ofList, camelChars_snakeChars halphanum, hs, uncapitalize, hsame, ← String.toList_inj,
    String.toList_ofList, hs, List.singleton_append]

theorem pascal_snake {s : String} (h : IsPascal s) : pascal (snake s) = s := by
  obtain ⟨halphanum, c, hhead, hupper⟩ := h
  obtain ⟨cs, hs⟩ := List.head?_eq_some_iff.1 hhead
  have hsame : upper c = [c] :=
    forall_ascii (P := fun c => c.isUpper = true → upper c = [c]) (by decide +kernel)
      (toNat_lt_of_isAlphanum (halphanum c (by rw [hs]; exact List.mem_cons_self))) hupper
  rw [pascal, snake, String.toList_ofList, pascalChars_snakeChars halphanum, hs, capitalize, hsame, ← String.toList_inj,
    String.toList_ofList, hs, List.singleton_append]

/-- Camel case undoes snake case on the names in camel case, and Pascal case on those in Pascal case. So no two names
of one kind have one snake case, and no two relations of different names in camel case have members of one name. -/
theorem snake_inverts :
    (∀ s, IsCamel s → camel (snake s) = s) ∧ (∀ s, IsPascal s → pascal (snake s) = s) ∧
    Set.InjOn snake {s | IsCamel s} ∧ Set.InjOn snake {s | IsPascal s} ∧
    ∀ r r' : RelationSource, IsCamel r.name → IsCamel r'.name → r.name ≠ r'.name →
      (ModelSource.relationMember r).name ≠ (ModelSource.relationMember r').name := by
  have hcamel : Set.LeftInvOn camel snake {s | IsCamel s} := fun s hs => camel_snake hs
  have hpascal : Set.LeftInvOn pascal snake {s | IsPascal s} := fun s hs => pascal_snake hs
  refine ⟨hcamel, hpascal, hcamel.injOn, hpascal.injOn, ?_⟩
  intro r r' hr hr' hne hmember
  exact hne (hcamel.injOn hr hr' hmember)

/-- A run of capitals, a digit before one, and two relations that differ in the case of one letter. -/
theorem snake_inverts_capitals :
    IsCamel "userID2Go" ∧ snake "userID2Go" = "user_i_d2_go" ∧ camel (snake "userID2Go") = "userID2Go" ∧
    IsPascal "ABTest" ∧ snake "ABTest" = "a_b_test" ∧ pascal (snake "ABTest") = "ABTest" ∧
    ∃ r r' : RelationSource, IsCamel r.name ∧ IsCamel r'.name ∧ r.name = "userID" ∧ r'.name = "userId" ∧
      (ModelSource.relationMember r).name ≠ (ModelSource.relationMember r').name := by
  obtain ⟨hcamel, hpascal, -, -, hmembers⟩ := snake_inverts
  have hr : IsCamel "userID" := by decide +kernel
  have hr' : IsCamel "userId" := by decide +kernel
  have hgo : IsCamel "userID2Go" := by decide +kernel
  have htest : IsPascal "ABTest" := by decide +kernel
  refine ⟨hgo, by decide, hcamel _ hgo, htest, by decide, hpascal _ htest,
    ⟨"userID", .hasOne, "User", none⟩, ⟨"userId", .hasOne, "User", none⟩, hr, hr', rfl, rfl, ?_⟩
  exact hmembers _ _ hr hr' (by decide)

end Name

end EntityScript
