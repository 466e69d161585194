import EntityScript.Proofs.Grammar
import EntityScript.Proofs.Outcome
/-!
# Readers and their grammar

Reading succeeds on the texts that the grammar derives, with the signal of the derivation.
-/

namespace EntityScript.Signal

open Text

/-- The reader of a symbol. -/
abbrev Symbol.read : (k : Symbol) → Nat → List Char → Except Failure (k.Value × List Char)
  | union => readUnion
  | alternatives => readAlternatives
  | item => readItem
  | primary => readPrimary
  | arguments => readArguments
  | fields => readFields

/-! ## Tokens -/

theorem exists_gap (cs : List Char) : ∃ g : Gap, cs = g.blanks ++ trimStart cs :=
  ⟨⟨cs.takeWhile isBlank, fun _ hc => List.mem_takeWhile_imp hc⟩, List.takeWhile_append_dropWhile.symm⟩

theorem eat?_eq_some {c : Char} {cs rest : List Char} : eat? c cs = some rest ↔ trimStart cs = c :: rest := by
  unfold eat?
  split
  · simp_all
  · rename_i d rest' h
    rw [h]
    by_cases hd : d = c <;> simp [hd]

theorem eat?_congr {c : Char} {cs cs' : List Char} (h : trimStart cs = trimStart cs') : eat? c cs = eat? c cs' := by
  unfold eat?
  rw [h]

theorem eat?_mark {c : Char} (g : Gap) (h : isBlank c = false) (cs : List Char) : eat? c (g.mark c ++ cs) = some cs :=
  eat?_eq_some.2 (trimStart_mark g h cs)

theorem eat?_eq_none {c : Char} {cs : List Char} (h : next? cs ≠ some c) : eat? c cs = none := by
  rw [Option.eq_none_iff_forall_ne_some]
  intro rest hrest
  rw [eat?_eq_some] at hrest
  exact h (by simp [next?, hrest])

theorem exists_mark {c : Char} {cs rest : List Char} (h : eat? c cs = some rest) : ∃ g : Gap, cs = g.mark c ++ rest := by
  rw [eat?_eq_some] at h
  obtain ⟨g, hg⟩ := exists_gap cs
  exact ⟨g, by rw [Gap.mark, List.append_assoc, List.singleton_append, ← h]; exact hg⟩

theorem expect_eq_ok {c : Char} {r : Reason} {cs rest : List Char} :
    expect c r cs = .ok rest ↔ eat? c cs = some rest := by
  unfold expect
  split <;> simp_all

theorem readName_congr {cs cs' : List Char} (h : trimStart cs = trimStart cs') : readName cs = readName cs' := by
  unfold readName
  rw [h]

theorem exists_name {cs rest : List Char} {name : String} (h : readName cs = .ok (name, rest)) :
    ∃ (g : Gap) (n : NameText), name = n.word ∧ cs = g.blanks ++ (n.chars ++ rest) := by
  unfold readName at h
  simp only at h
  split at h
  · cases h
  · rename_i hne
    cases h
    obtain ⟨g, hg⟩ := exists_gap cs
    refine ⟨g, ⟨(trimStart cs).takeWhile isNameChar, by simpa using hne, fun _ hc => List.mem_takeWhile_imp hc⟩, rfl, ?_⟩
    simpa only [List.takeWhile_append_dropWhile] using hg

theorem readName_name (g : Gap) (n : NameText) {cs : List Char} (h : ∀ c ∈ cs.head?, isNameChar c = false) :
    readName (g.blanks ++ (n.chars ++ cs)) = .ok (n.word, cs) := by
  unfold readName
  simp only [trimStart_name, Text.takeWhile_run n.nameChar h, Text.dropWhile_run n.nameChar h, NameText.word]
  simp [n.nonempty]

/-! ## Blanks before a text -/

/-- What is read does not depend on the blanks before it. -/
theorem read_ok_congr (fuel : Nat) : ∀ {k : Symbol} {cs cs' : List Char} {r : k.Value × List Char},
    trimStart cs = trimStart cs' → k.read fuel cs = .ok r → k.read fuel cs' = .ok r := by
  induction fuel with
  | zero =>
    intro k cs cs' r _ hr
    cases k <;> cases hr
  | succ fuel ih =>
    intro k cs cs' r h hr
    cases k with
    | union =>
      simp only [Symbol.read, readUnion, bind_eq_ok] at hr ⊢
      obtain ⟨a, ha, hr⟩ := hr
      exact ⟨a, ih (k := .item) h ha, hr⟩
    | alternatives =>
      simpa only [Symbol.read, readAlternatives, eat?_congr h, h] using hr
    | item =>
      simp only [Symbol.read, readItem, eat?_congr h] at hr ⊢
      split at hr
      · exact hr
      · rw [bind_eq_ok] at hr ⊢
        obtain ⟨a, ha, hr⟩ := hr
        exact ⟨a, ih (k := .primary) h ha, hr⟩
    | primary =>
      simpa only [Symbol.read, readPrimary, eat?_congr h, readName_congr h] using hr
    | arguments =>
      simp only [Symbol.read, readArguments, bind_eq_ok] at hr ⊢
      obtain ⟨a, ha, hr⟩ := hr
      exact ⟨a, ih (k := .union) h ha, hr⟩
    | fields =>
      simpa only [Symbol.read, readFields, eat?_congr h, readName_congr h] using hr

/-! ## What is read is derived -/

/-- Whether a text starts with a phrase of this value, and goes on so behind perhaps some blanks. -/
def Accounts (k : Symbol) (cs : List Char) (v : k.Value) (rest : List Char) : Prop :=
  ∃ (d : Phrase k) (g : Gap), d.value = v ∧ cs = d.text ++ (g.blanks ++ rest)

theorem readSuffixes_spec (s : Signal) {cs cs' : List Char} (h : trimStart cs' = trimStart cs) :
    ∃ (gs : List Gap) (g : Gap), (readSuffixes s cs).1 = gs.foldl (fun s _ => .list s) s ∧
      cs' = bracketsText gs ++ (g.blanks ++ (readSuffixes s cs).2) := by
  induction s, cs using readSuffixes.induct generalizing cs' with
  | case1 s cs rest hcs ih =>
    obtain ⟨gs, g, hs, hrest⟩ := ih rfl
    obtain ⟨g', hg'⟩ := exists_gap cs'
    rw [readSuffixes_bracket hcs]
    refine ⟨g' :: gs, g, hs, ?_⟩
    rw [bracketsText_cons, ← hrest, Gap.mark, List.append_assoc]
    rw [h, hcs] at hg'
    exact hg'
  | case2 s cs hcs =>
    obtain ⟨g, hg⟩ := exists_gap cs'
    rw [readSuffixes_end hcs]
    exact ⟨[], g, rfl, by rw [h] at hg; exact hg⟩

/-- On this fuel, what a reader reads is a phrase of its symbol. -/
def ReadsPhrases (fuel : Nat) : Prop :=
  ∀ {k : Symbol} {cs : List Char} {v : k.Value} {rest : List Char}, k.read fuel cs = .ok (v, rest) →
    Accounts k cs v rest

namespace ReadsPhrases

variable {fuel : Nat} {cs rest : List Char}

/-- What is read behind a phrase starts with the blanks behind it. -/
theorem behind (ih : ReadsPhrases fuel) {k : Symbol} {v : k.Value} (g : Gap) (h : k.read fuel cs = .ok (v, rest)) :
    Accounts k (g.blanks ++ cs) v rest :=
  ih (read_ok_congr fuel (trimStart_gap g cs).symm h)

/-- A mark behind a phrase stands behind its blanks. -/
theorem mark_behind {c : Char} (g : Gap) (h : eat? c cs = some rest) : ∃ g' : Gap, g.blanks ++ cs = g'.mark c ++ rest :=
  exists_mark (by rw [eat?_congr (trimStart_gap g cs)]; exact h)

theorem union_succ (ih : ReadsPhrases fuel) {s : Signal} (h : readUnion (fuel + 1) cs = .ok (s, rest)) :
    Accounts .union cs s rest := by
  simp only [readUnion, bind_eq_ok, Prod.exists] at h
  obtain ⟨first, cs₁, hf, more, cs₂, hm, h⟩ := h
  cases h
  obtain ⟨d, g, rfl, rfl⟩ := ih (k := .item) hf
  obtain ⟨d', g', rfl, htext⟩ := ih.behind (k := .alternatives) g hm
  exact ⟨.union d d', g', rfl, by rw [htext, Phrase.text, List.append_assoc]⟩

theorem alternatives_succ (ih : ReadsPhrases fuel) {ss : List Signal}
    (h : readAlternatives (fuel + 1) cs = .ok (ss, rest)) : Accounts .alternatives cs ss rest := by
  unfold readAlternatives at h
  split at h
  · cases h
    obtain ⟨g, hg⟩ := exists_gap cs
    exact ⟨.noMore, g, rfl, hg⟩
  · rename_i heat
    simp only [bind_eq_ok, Prod.exists] at h
    obtain ⟨item, cs₁, hi, more, cs₂, hm, h⟩ := h
    cases h
    obtain ⟨gap, rfl⟩ := exists_mark heat
    obtain ⟨d, g, rfl, rfl⟩ := ih (k := .item) hi
    obtain ⟨d', g', rfl, htext⟩ := ih.behind (k := .alternatives) g hm
    exact ⟨.bar gap d d', g', rfl, by simp only [htext, Phrase.text, List.append_assoc]⟩

theorem item_succ (ih : ReadsPhrases fuel) {s : Signal} (h : readItem (fuel + 1) cs = .ok (s, rest)) :
    Accounts .item cs s rest := by
  unfold readItem at h
  split at h
  · rename_i heat
    simp only [bind_eq_ok, Prod.exists] at h
    obtain ⟨inner, cs₁, hi, h⟩ := h
    cases h
    obtain ⟨mark, rfl⟩ := exists_mark heat
    obtain ⟨d, g, rfl, rfl⟩ := ih (k := .item) hi
    exact ⟨.nullable mark d, g, rfl, by simp only [Phrase.text, List.append_assoc]⟩
  · simp only [bind_eq_ok, Prod.exists] at h
    obtain ⟨s', cs₁, hp, h⟩ := h
    obtain ⟨d, g, rfl, rfl⟩ := ih (k := .primary) hp
    obtain ⟨gs, g', hs, htext⟩ := readSuffixes_spec d.value (trimStart_gap g cs₁)
    rw [Except.ok.inj h] at hs htext
    refine ⟨.plain d gs, g', hs.symm, ?_⟩
    rw [htext, Phrase.text, List.append_assoc]

theorem value_arguments_ne_nil (d : Phrase .arguments) : d.value ≠ [] := by
  cases d <;> simp [Phrase.value]

/-- A name with arguments is a list, a map or a generic. -/
theorem exists_primary_of_arguments (before opening closing : Gap) (n : NameText) (d : Phrase .arguments) {s : Signal}
    (h : ofArguments? n.word d.value = some s) : ∃ p : Phrase .primary, p.value = s ∧
      p.text = before.blanks ++ n.chars ++ opening.mark '<' ++ d.text ++ closing.mark '>' := by
  unfold ofArguments? at h
  split at h
  · rename_i hlist
    cases d with
    | argument last =>
      cases h
      exact ⟨.list before ⟨n, hlist⟩ opening last closing, rfl, rfl⟩
    | comma first gap more =>
      cases more with
      | argument last =>
        cases h
        exact ⟨.map before ⟨n, hlist⟩ opening first gap last closing, rfl, by simp [Phrase.text]⟩
      | comma second gap' more' =>
        obtain ⟨third, others, hmore⟩ := List.exists_cons_of_ne_nil (value_arguments_ne_nil more')
        simp [Phrase.value, hmore] at h
  · rename_i hother
    cases h
    exact ⟨.generic before ⟨n, by simpa using hother⟩ opening d closing, rfl, rfl⟩

theorem primary_succ (ih : ReadsPhrases fuel) {s : Signal} (h : readPrimary (fuel + 1) cs = .ok (s, rest)) :
    Accounts .primary cs s rest := by
  unfold readPrimary at h
  split at h
  · rename_i heat
    simp only [bind_eq_ok, Prod.exists, expect_eq_ok] at h
    obtain ⟨inner, cs₁, hu, cs₂, hclose, h⟩ := h
    cases h
    obtain ⟨opening, rfl⟩ := exists_mark heat
    obtain ⟨d, g, rfl, rfl⟩ := ih (k := .union) hu
    obtain ⟨closing, hg⟩ := mark_behind g hclose
    exact ⟨.parenthesized opening d closing, ⟨[], by simp⟩, rfl, by simp [hg, Phrase.text]⟩
  · simp only [bind_eq_ok, Prod.exists] at h
    obtain ⟨name, cs₁, hname, h⟩ := h
    obtain ⟨before, n, rfl, rfl⟩ := exists_name hname
    split at h
    · rename_i heat
      obtain ⟨opening, rfl⟩ := exists_mark heat
      split at h
      · rename_i hlist
        simp only [bind_eq_ok, Prod.exists] at h
        obtain ⟨fields, cs₂, hf, h⟩ := h
        cases h
        obtain ⟨d, g, rfl, rfl⟩ := ih (k := .fields) hf
        exact ⟨.shape before ⟨n, hlist⟩ opening d, g, rfl, by simp [Phrase.text]⟩
      · cases h
    · split at h
      · rename_i heat
        simp only [bind_eq_ok, Prod.exists, expect_eq_ok] at h
        obtain ⟨args, cs₂, ha, cs₃, hclose, h⟩ := h
        split at h
        · rename_i signal hsignal
          cases h
          obtain ⟨opening, rfl⟩ := exists_mark heat
          obtain ⟨d, g, rfl, rfl⟩ := ih (k := .arguments) ha
          obtain ⟨closing, hg⟩ := mark_behind g hclose
          obtain ⟨p, hvalue, htext⟩ := exists_primary_of_arguments before opening closing n d hsignal
          exact ⟨p, ⟨[], by simp⟩, hvalue, by simp [htext, hg]⟩
        · cases h
      · cases h
        obtain ⟨g, hg⟩ := exists_gap cs₁
        exact ⟨.name before n, g, rfl, by rw [← hg, Phrase.text, List.append_assoc]⟩

theorem arguments_succ (ih : ReadsPhrases fuel) {ss : List Signal} (h : readArguments (fuel + 1) cs = .ok (ss, rest)) :
    Accounts .arguments cs ss rest := by
  simp only [readArguments, bind_eq_ok, Prod.exists] at h
  obtain ⟨first, cs₁, hf, h⟩ := h
  obtain ⟨d, g, rfl, rfl⟩ := ih (k := .union) hf
  split at h
  · cases h
    obtain ⟨g', hg⟩ := exists_gap (g.blanks ++ cs₁)
    rw [trimStart_gap] at hg
    exact ⟨.argument d, g', rfl, by rw [hg]; rfl⟩
  · rename_i heat
    simp only [bind_eq_ok, Prod.exists] at h
    obtain ⟨more, cs₂, hm, h⟩ := h
    cases h
    obtain ⟨gap, hg⟩ := mark_behind g heat
    obtain ⟨d', g', rfl, rfl⟩ := ih (k := .arguments) hm
    exact ⟨.comma d gap d', g', rfl, by rw [hg]; simp [Phrase.text]⟩

/-- A question mark behind a key, and the colon behind both. -/
theorem exists_head (before : Gap) (key : NameText) {p : Bool × List Char}
    (hp : p = ((eat? '?' cs).isSome, (eat? '?' cs).getD (trimStart cs))) (h : eat? ':' p.2 = some rest) :
    ∃ head : FieldHead, head.key = key ∧ head.mark.isSome = p.1 ∧
      before.blanks ++ (key.chars ++ cs) = head.text ++ rest := by
  subst hp
  cases hmark : eat? '?' cs with
  | none =>
    obtain ⟨g, hg⟩ := exists_gap cs
    rw [hmark, Option.getD_none] at h
    obtain ⟨colon, hcolon⟩ := mark_behind g h
    exact ⟨⟨before, key, none, colon⟩, rfl, rfl, by simp [FieldHead.text, hg.trans hcolon]⟩
  | some cs₂ =>
    rw [hmark, Option.getD_some] at h
    obtain ⟨mark, rfl⟩ := exists_mark hmark
    obtain ⟨colon, rfl⟩ := exists_mark h
    exact ⟨⟨before, key, some mark, colon⟩, rfl, rfl, by simp [FieldHead.text]⟩

theorem fields_succ (ih : ReadsPhrases fuel) {fields : List (ShapeField Signal)}
    (h : readFields (fuel + 1) cs = .ok (fields, rest)) : Accounts .fields cs fields rest := by
  unfold readFields at h
  split at h
  · rename_i heat
    cases h
    obtain ⟨closing, rfl⟩ := exists_mark heat
    exact ⟨.noField closing, ⟨[], by simp⟩, rfl, rfl⟩
  · simp only [bind_eq_ok, Prod.exists, expect_eq_ok] at h
    obtain ⟨key, cs₁, hname, cs₂, hcolon, type, cs₃, ht, h⟩ := h
    obtain ⟨before, n, rfl, rfl⟩ := exists_name hname
    obtain ⟨head, rfl, hopt, hg⟩ := exists_head before n (by cases eat? '?' cs₁ <;> rfl) hcolon
    obtain ⟨d, g, rfl, rfl⟩ := ih (k := .union) ht
    split at h
    · rename_i heat
      simp only [bind_eq_ok, Prod.exists] at h
      obtain ⟨more, cs₄, hm, h⟩ := h
      cases h
      obtain ⟨gap, hgap⟩ := mark_behind g heat
      obtain ⟨d', g', rfl, rfl⟩ := ih (k := .fields) hm
      refine ⟨.field head d gap d', g', by rw [← hopt]; rfl, ?_⟩
      rw [hg, hgap]
      simp only [Phrase.text, List.append_assoc]
    · simp only [bind_eq_ok, expect_eq_ok] at h
      obtain ⟨cs₄, hclose, h⟩ := h
      cases h
      obtain ⟨closing, hclosing⟩ := mark_behind g hclose
      refine ⟨.lastField head d closing, ⟨[], by simp⟩, by rw [← hopt]; rfl, ?_⟩
      rw [hg, hclosing]
      simp only [Phrase.text, List.append_assoc, List.nil_append]

theorem succ (ih : ReadsPhrases fuel) : ReadsPhrases (fuel + 1) := by
  intro k cs v rest h
  cases k with
  | union => exact ih.union_succ h
  | alternatives => exact ih.alternatives_succ h
  | item => exact ih.item_succ h
  | primary => exact ih.primary_succ h
  | arguments => exact ih.arguments_succ h
  | fields => exact ih.fields_succ h

end ReadsPhrases

theorem readsPhrases (fuel : Nat) : ReadsPhrases fuel := by
  induction fuel with
  | zero =>
    intro k cs v rest h
    cases k <;> cases h
  | succ fuel ih => exact ih.succ

end EntityScript.Signal
