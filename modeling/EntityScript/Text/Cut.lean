import EntityScript.Text.Char
/-!
# Cutting text

Trimming, splitting and searching in lists of characters, and their length in bytes.
-/

namespace EntityScript.Text

/-- `cs` without its leading blanks. -/
def trimStart (cs : List Char) : List Char :=
  cs.dropWhile isBlank

/-- `xs` without the trailing elements that satisfy `p`. -/
def dropEndWhile {α : Type} (p : α → Bool) (xs : List α) : List α :=
  (xs.reverse.dropWhile p).reverse

/-- `cs` without its trailing blanks. -/
def trimEnd (cs : List Char) : List Char :=
  dropEndWhile isBlank cs

/-- `cs` without its outer blanks. -/
def trim (cs : List Char) : List Char :=
  trimEnd (trimStart cs)

/-- The pieces between the characters that satisfy `p`; there is always one. -/
def splitWhere (p : Char → Bool) : List Char → List (List Char)
  | [] => [[]]
  | c :: cs =>
    if p c then [] :: splitWhere p cs
    else
      match splitWhere p cs with
      | [] => [[c]]
      | piece :: pieces => (c :: piece) :: pieces

/-- The lines of a text, each with its line feed. -/
def rawLines : List Char → List (List Char)
  | [] => []
  | c :: cs =>
    if c = '\n' then [c] :: rawLines cs
    else
      match rawLines cs with
      | [] => [[c]]
      | line :: lines => (c :: line) :: lines

/-- The text after `pre`, if it starts with it. -/
def after? (pre cs : List Char) : Option (List Char) :=
  if pre.isPrefixOf cs then some (cs.drop pre.length) else none

/-- The text before and after the first `needle`. -/
def cutAt? (needle : List Char) : List Char → Option (List Char × List Char)
  | [] => if needle.isEmpty then some ([], []) else none
  | c :: cs =>
    match after? needle (c :: cs) with
    | some rest => some ([], rest)
    | none => (cutAt? needle cs).map fun (before, rest) => (c :: before, rest)

/-- Length in UTF-8 bytes. -/
def byteLength : List Char → Nat
  | [] => 0
  | c :: cs => c.utf8Size + byteLength cs

/-- Whether a text has nothing but blanks. -/
def isBlankText (s : String) : Bool :=
  s.toList.all isBlank

/-- The first of each group of equal elements, in order. -/
def distinct {α : Type} [BEq α] : List α → List α
  | [] => []
  | x :: xs => x :: (distinct xs).filter (fun y => !(y == x))

/-- The texts with `sep` between neighbours. -/
def join (sep : String) : List String → String
  | [] => ""
  | [s] => s
  | s :: rest => s ++ sep ++ join sep rest

/-- `count` copies of a text. -/
def copies (s : String) : Nat → String
  | 0 => ""
  | n + 1 => s ++ copies s n

section Distinct

variable {α : Type} [BEq α] [LawfulBEq α]

@[simp] theorem mem_distinct {x : α} {xs : List α} : x ∈ distinct xs ↔ x ∈ xs := by
  induction xs with
  | nil => simp [distinct]
  | cons y xs ih =>
    by_cases h : x = y
    · simp [distinct, h]
    · simp [distinct, h, ih]

theorem nodup_distinct (xs : List α) : (distinct xs).Nodup := by
  induction xs with
  | nil => exact List.nodup_nil
  | cons x xs ih => exact List.nodup_cons.2 ⟨by simp, ih.filter _⟩

/-- One more element counts only if it is new. -/
theorem distinct_concat (xs : List α) (x : α) :
    distinct (xs ++ [x]) = if x ∈ xs then distinct xs else distinct xs ++ [x] := by
  induction xs with
  | nil => simp [distinct]
  | cons y xs ih =>
    rw [List.cons_append, distinct, ih]
    by_cases hy : x = y
    · subst hy
      by_cases hx : x ∈ xs <;> simp [distinct, hx]
    · by_cases hx : x ∈ xs <;> simp [distinct, hx, hy]

theorem distinct_of_nodup {xs : List α} (h : xs.Nodup) : distinct xs = xs := by
  induction xs with
  | nil => rfl
  | cons x xs ih =>
    obtain ⟨hx, hxs⟩ := List.nodup_cons.1 h
    rw [distinct, ih hxs, List.filter_eq_self.2]
    rintro y hy
    have hne : y ≠ x := fun heq => hx (heq ▸ hy)
    simpa using hne

/-- Of what comes later only new elements count. -/
theorem distinct_append (xs ys : List α) :
    distinct (xs ++ ys) = distinct xs ++ (distinct ys).filter (!xs.contains ·) := by
  induction xs with
  | nil =>
    rw [List.nil_append, distinct, List.nil_append, List.filter_eq_self.2]
    simp
  | cons x xs ih =>
    rw [List.cons_append, distinct, ih, List.filter_append, List.filter_filter, distinct, List.cons_append]
    simp only [List.contains_cons, Bool.not_or]

theorem distinct_perm {xs ys : List α} (h : xs.Perm ys) : (distinct xs).Perm (distinct ys) := by
  rw [List.perm_ext_iff_of_nodup (nodup_distinct _) (nodup_distinct _)]
  intro x
  rw [mem_distinct, mem_distinct, h.mem_iff]

end Distinct

theorem join_empty_cons (s : String) (rest : List String) : join "" (s :: rest) = s ++ join "" rest := by
  cases rest <;> simp [join]

theorem join_empty_append (xs ys : List String) : join "" (xs ++ ys) = join "" xs ++ join "" ys := by
  induction xs with
  | nil => simp [join]
  | cons x xs ih => rw [List.cons_append, join_empty_cons, ih, join_empty_cons, String.append_assoc]

theorem splitWhere_ne_nil (p : Char → Bool) (cs : List Char) : splitWhere p cs ≠ [] := by
  cases cs with
  | nil => simp [splitWhere]
  | cons c cs =>
    unfold splitWhere
    split
    · simp
    · split <;> simp

theorem splitWhere_append {p : Char → Bool} {c : Char} (hc : p c) (a b : List Char) :
    splitWhere p (a ++ c :: b) = splitWhere p a ++ splitWhere p b := by
  induction a with
  | nil => simp [splitWhere, hc]
  | cons x a ih =>
    simp only [List.cons_append, splitWhere, ih]
    split
    · rfl
    · cases h : splitWhere p a with
      | nil => exact absurd h (splitWhere_ne_nil p a)
      | cons piece pieces => rfl

theorem splitWhere_of_forall {p : Char → Bool} {cs : List Char} (h : ∀ c ∈ cs, p c = false) :
    splitWhere p cs = [cs] := by
  induction cs with
  | nil => rfl
  | cons c cs ih =>
    rw [List.forall_mem_cons] at h
    simp [splitWhere, h.1, ih h.2]

theorem rawLines_of_not_mem {cs : List Char} (h : '\n' ∉ cs) (hne : cs ≠ []) : rawLines cs = [cs] := by
  induction cs with
  | nil => exact absurd rfl hne
  | cons c cs ih =>
    rw [List.mem_cons, not_or] at h
    rw [rawLines, if_neg (Ne.symm h.1)]
    cases cs with
    | nil => rfl
    | cons d cs => rw [ih h.2 (List.cons_ne_nil _ _)]

theorem rawLines_append {cs : List Char} (h : '\n' ∉ cs) (rest : List Char) :
    rawLines (cs ++ '\n' :: rest) = (cs ++ ['\n']) :: rawLines rest := by
  induction cs with
  | nil => exact if_pos rfl
  | cons c cs ih =>
    rw [List.mem_cons, not_or] at h
    rw [List.cons_append, rawLines, if_neg (Ne.symm h.1), ih h.2]
    rfl

theorem after?_eq_some {word cs rest : List Char} : after? word cs = some rest ↔ cs = word ++ rest := by
  unfold after?
  rw [Option.ite_none_right_eq_some, List.isPrefixOf_iff_prefix, Option.some.injEq]
  constructor
  · rintro ⟨⟨tail, rfl⟩, htail⟩
    rw [← htail, List.drop_left]
  · rintro rfl
    exact ⟨List.prefix_append _ _, List.drop_left⟩

theorem cutAt?_eq_append {needle cs before rest : List Char} (h : cutAt? needle cs = some (before, rest)) :
    cs = before ++ needle ++ rest := by
  induction cs generalizing before with
  | nil =>
    rw [cutAt?] at h
    split at h <;> simp_all
  | cons c cs ih =>
    rw [cutAt?] at h
    split at h
    · rename_i r hr
      cases h
      exact after?_eq_some.1 hr
    · simp only [Option.map_eq_some_iff, Prod.mk.injEq, Prod.exists] at h
      obtain ⟨b, r, hbr, rfl, rfl⟩ := h
      simp [ih hbr]

/-- The cut is at the first place. -/
theorem length_le_of_cutAt? {needle cs before rest : List Char} (h : cutAt? needle cs = some (before, rest))
    {front tail : List Char} (hcs : cs = front ++ needle ++ tail) : before.length ≤ front.length := by
  induction cs generalizing before front with
  | nil =>
    rw [cutAt?] at h
    split at h <;> simp_all
  | cons c cs ih =>
    rw [cutAt?] at h
    split at h
    · cases h
      exact Nat.zero_le _
    · rename_i hnone
      simp only [Option.map_eq_some_iff, Prod.mk.injEq, Prod.exists] at h
      obtain ⟨b, r, hbr, rfl, rfl⟩ := h
      cases front with
      | nil => exact nomatch (after?_eq_some.2 hcs).symm.trans hnone
      | cons d front => exact Nat.succ_le_succ (ih hbr (List.cons.inj hcs).2)

theorem cutAt?_eq_none {needle cs : List Char} (h : cutAt? needle cs = none) (front tail : List Char) :
    cs ≠ front ++ needle ++ tail := by
  induction cs generalizing front with
  | nil =>
    rw [cutAt?] at h
    split at h <;> simp_all
  | cons c cs ih =>
    intro hcs
    rw [cutAt?] at h
    split at h
    · cases h
    · rename_i hnone
      cases front with
      | nil => exact nomatch (after?_eq_some.2 hcs).symm.trans hnone
      | cons d front => exact ih (Option.map_eq_none_iff.1 h) front (List.cons.inj hcs).2

/-! ## Runs -/

section Runs

variable {α : Type} {p : α → Bool} {run rest : List α} (hrun : ∀ x ∈ run, p x = true)
  (hrest : ∀ x ∈ rest.head?, p x = false)
include hrun hrest

/-- A run of elements with a property ends before one without it. -/
theorem takeWhile_run : (run ++ rest).takeWhile p = run := by
  rw [List.takeWhile_append_of_pos hrun]
  cases rest with
  | nil => simp
  | cons x rest => simp [hrest x rfl]

theorem dropWhile_run : (run ++ rest).dropWhile p = rest := by
  rw [List.dropWhile_append_of_pos hrun]
  cases rest with
  | nil => rfl
  | cons x rest => simp [hrest x rfl]

end Runs

/-! ## Length in bytes -/

theorem byteLength_append (cs ds : List Char) : byteLength (cs ++ ds) = byteLength cs + byteLength ds := by
  induction cs with
  | nil => simp [byteLength]
  | cons c cs ih => simp [byteLength, ih, Nat.add_assoc]

theorem utf8ByteSize_ofList (cs : List Char) : (String.ofList cs).utf8ByteSize = byteLength cs := by
  induction cs with
  | nil => rfl
  | cons c cs ih => rw [String.ofList_cons, String.utf8ByteSize_append, String.utf8ByteSize_singleton, ih, byteLength]

theorem byteLength_toList (s : String) : byteLength s.toList = s.utf8ByteSize := by
  rw [← utf8ByteSize_ofList, String.ofList_toList]

/-- What stands before the end of a text ends between two of its characters. -/
theorem isValid_byteLength (cs rest : List Char) :
    (String.Pos.Raw.mk (byteLength cs)).IsValid (String.ofList (cs ++ rest)) := by
  rw [String.Pos.Raw.isValid_iff_exists_append]
  refine ⟨String.ofList cs, String.ofList rest, String.ofList_append, ?_⟩
  rw [← utf8ByteSize_ofList]
  rfl

end EntityScript.Text
