import Mathlib.Data.List.Infix
import EntityScript.Text.Cut
/-!
# Occurrences

Where a text stands in another. Words that never overlap cut a text into pieces: every occurrence of
one of them is one of the cuts or lies inside a piece.
-/

namespace EntityScript.Text

/-- How often `needle` stands in a text. -/
def occurrences (needle : List Char) : List Char → Nat
  | [] => 0
  | c :: cs => (if needle.isPrefixOf (c :: cs) then 1 else 0) + occurrences needle cs

theorem occurrences_cons_eq_zero {needle cs : List Char} {c : Char} :
    occurrences needle (c :: cs) = 0 ↔ ¬ needle <+: c :: cs ∧ occurrences needle cs = 0 := by
  rw [occurrences, ← List.isPrefixOf_iff_prefix]
  split <;> simp_all

/-- A word does not stand where its first character does not. -/
theorem occurrences_eq_zero {w : Char} {ws cs : List Char} (h : w ∉ cs) : occurrences (w :: ws) cs = 0 := by
  induction cs with
  | nil => rfl
  | cons c cs ih =>
    simp only [List.mem_cons, not_or] at h
    refine occurrences_cons_eq_zero.2 ⟨fun hp => h.1 ?_, ih h.2⟩
    exact (List.cons_prefix_cons.1 hp).1

/-! ## Words that never overlap -/

/-- No word starts another, and no end of a word goes on as another. -/
structure Apart (words : List (List Char)) : Prop where
  ne_nil : ∀ s ∈ words, s ≠ []
  eq_of_prefix : ∀ s ∈ words, ∀ m ∈ words, s <+: m → s = m
  no_overlap : ∀ s ∈ words, ∀ m ∈ words, ∀ t, t <:+ s → t ≠ [] → t ≠ s → ¬ t <+: m ∧ ¬ m <+: t

namespace Apart

variable {words : List (List Char)} {s m a b : List Char}

/-- A word that starts before a cut ends before it. -/
theorem prefix_before (hw : Apart words) (hs : s ∈ words) (hm : m ∈ words) (ha : a ≠ [])
    (h : s <+: a ++ (m ++ b)) : s <+: a := by
  by_cases hl : s.length ≤ a.length
  · exact List.prefix_of_prefix_length_le h (List.prefix_append _ _) hl
  · obtain ⟨t, rfl⟩ := List.prefix_of_prefix_length_le (List.prefix_append a (m ++ b)) h (by omega)
    have ht : t <+: m ++ b := (List.prefix_append_right_inj a).1 h
    have hne : t ≠ [] := by rintro rfl; simp at hl
    obtain ⟨h1, h2⟩ := hw.no_overlap _ hs _ hm t (List.suffix_append _ _) hne (by simpa using ha)
    rcases List.prefix_or_prefix_of_prefix ht (List.prefix_append m b) with h | h
    · exact absurd h h1
    · exact absurd h h2

/-- A word that starts at a cut is the cut. -/
theorem prefix_at (hw : Apart words) (hs : s ∈ words) (hm : m ∈ words) (h : s <+: m ++ b) : s = m := by
  rcases List.prefix_or_prefix_of_prefix h (List.prefix_append m b) with h | h
  · exact hw.eq_of_prefix _ hs _ hm h
  · exact (hw.eq_of_prefix _ hm _ hs h).symm

/-- No word starts inside a cut. -/
theorem not_prefix_inside (hw : Apart words) (hs : s ∈ words) (hm : m ∈ words) {t : List Char}
    (ht : t <:+ m) (hne : t ≠ []) (hp : t ≠ m) : ¬ s <+: t ++ b := by
  intro h
  obtain ⟨h1, h2⟩ := hw.no_overlap _ hm _ hs t ht hne hp
  rcases List.prefix_or_prefix_of_prefix h (List.prefix_append t b) with h | h
  · exact h2 h
  · exact h1 h

theorem occurrences_inside (hw : Apart words) (hs : s ∈ words) (hm : m ∈ words) {t : List Char}
    (ht : t <:+ m) (hp : t ≠ m) : occurrences s (t ++ b) = occurrences s b := by
  induction t with
  | nil => rfl
  | cons c t ih =>
    have hn := hw.not_prefix_inside (b := b) hs hm ht (by simp) hp
    have hlt : t.length < m.length := ht.length_le
    rw [List.cons_append, occurrences, ih ((List.suffix_cons c t).trans ht) (by rintro rfl; omega)]
    simpa [List.isPrefixOf_iff_prefix] using hn

theorem occurrences_start (hw : Apart words) (hs : s ∈ words) (hm : m ∈ words) :
    occurrences s (m ++ b) = (if s = m then 1 else 0) + occurrences s b := by
  cases m with
  | nil => exact absurd rfl (hw.ne_nil _ hm)
  | cons c m =>
    have he : s <+: c :: m ++ b ↔ s = c :: m :=
      ⟨hw.prefix_at hs hm, fun h => h ▸ List.prefix_append _ _⟩
    have hin := hw.occurrences_inside (b := b) hs hm (List.suffix_cons c m) (by simp)
    simp only [List.cons_append] at he
    simp [occurrences, hin, List.isPrefixOf_iff_prefix, he]

/-- The occurrences in a text with a cut: those before it, the cut itself and those after it. -/
theorem occurrences_cut (hw : Apart words) (hs : s ∈ words) (hm : m ∈ words) :
    occurrences s (a ++ (m ++ b)) = occurrences s a + occurrences s (m ++ b) := by
  induction a with
  | nil => simp [occurrences]
  | cons c a ih =>
    have he : s <+: c :: a ++ (m ++ b) ↔ s <+: c :: a :=
      ⟨hw.prefix_before hs hm (by simp), fun h => h.trans (List.prefix_append _ _)⟩
    simp only [List.cons_append] at he
    simp only [List.cons_append, occurrences, ih, List.isPrefixOf_iff_prefix, he]
    omega

/-- The first occurrence of a word that does not stand before a cut is the cut. -/
theorem cutAt?_cut (hw : Apart words) (hs : s ∈ words) (ha : occurrences s a = 0) :
    cutAt? s (a ++ (s ++ b)) = some (a, b) := by
  induction a with
  | nil =>
    cases s with
    | nil => exact absurd rfl (hw.ne_nil _ hs)
    | cons c s => simp [cutAt?, after?, List.isPrefixOf_iff_prefix]
  | cons c a ih =>
    obtain ⟨hn, ha⟩ := occurrences_cons_eq_zero.1 ha
    have he : ¬ s <+: c :: (a ++ (s ++ b)) := fun h => hn (hw.prefix_before hs hs (by simp) h)
    simp [cutAt?, after?, List.isPrefixOf_iff_prefix, he, ih ha]

end Apart

/-! ## The first occurrence -/

theorem occurrences_of_cutAt? {needle cs before rest : List Char} (h : cutAt? needle cs = some (before, rest)) :
    occurrences needle before = 0 := by
  induction cs generalizing before with
  | nil =>
    simp only [cutAt?] at h
    split at h <;> simp_all [occurrences]
  | cons c cs ih =>
    have heq := cutAt?_eq_append h
    simp only [cutAt?] at h
    split at h
    · simp only [Option.some.injEq, Prod.mk.injEq] at h
      rw [← h.1]; rfl
    · rename_i hn
      simp only [Option.map_eq_some_iff, Prod.mk.injEq, Prod.exists] at h
      obtain ⟨b, r, hbr, rfl, rfl⟩ := h
      refine occurrences_cons_eq_zero.2 ⟨fun hp => ?_, ih hbr⟩
      have hp' : needle <+: c :: cs := by rw [heq, List.append_assoc]; exact hp.trans (List.prefix_append _ _)
      simp [after?, List.isPrefixOf_iff_prefix, hp'] at hn

end EntityScript.Text
