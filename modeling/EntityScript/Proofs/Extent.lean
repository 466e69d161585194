import EntityScript.Proofs.Reading
/-!
# How far the readers read

What a reader leaves, and the text where it fails, end the text that it was given. So the readers call each
other on ever shorter texts: the bound on their depth is never spent, and a greater one changes no outcome.
-/

namespace EntityScript.Signal

open Text

/-! ## Within the text -/

/-- The text that an outcome leaves, or where it fails, ends `cs`. -/
def Stays {α : Type} (cs : List Char) : Except Failure (α × List Char) → Prop
  | .ok (_, rest) => rest <:+ cs
  | .error failure => failure.rest <:+ cs

theorem trimStart_suffix (cs : List Char) : trimStart cs <:+ cs :=
  List.dropWhile_suffix _

theorem suffix_of_eat {c : Char} {cs rest : List Char} (h : eat? c cs = some rest) : rest <:+ cs :=
  (List.suffix_cons c rest).trans (eat?_eq_some.1 h ▸ trimStart_suffix cs)

theorem length_of_eat {c : Char} {cs rest : List Char} (h : eat? c cs = some rest) : rest.length < cs.length := by
  have hle := (trimStart_suffix cs).length_le
  rw [eat?_eq_some.1 h] at hle
  exact hle

namespace Stays

variable {α β : Type} {cs : List Char}

theorem ok (a : α) {rest : List Char} (h : rest <:+ cs) : Stays cs (.ok (a, rest)) := h

theorem error (reason : Reason) {rest : List Char} (h : rest <:+ cs) :
    Stays cs (.error ⟨reason, rest⟩ : Except Failure (α × List Char)) := h

theorem bind {x : Except Failure (α × List Char)} {f : α × List Char → Except Failure (β × List Char)}
    (hx : Stays cs x) (hf : ∀ a rest, rest <:+ cs → Stays cs (f (a, rest))) : Stays cs (x >>= f) := by
  rcases x with failure | ⟨a, rest⟩
  · exact hx
  · exact hf a rest hx

theorem expect {c : Char} {reason : Reason} {cs' : List Char} {f : List Char → Except Failure (β × List Char)}
    (h : cs' <:+ cs) (hf : ∀ rest, rest <:+ cs → Stays cs (f rest)) : Stays cs (expect c reason cs' >>= f) := by
  unfold Signal.expect
  split
  · rename_i rest heat
    exact hf rest ((suffix_of_eat heat).trans h)
  · exact (trimStart_suffix cs').trans h

theorem mono {cs' : List Char} {x : Except Failure (α × List Char)} (hx : Stays cs' x) (h : cs' <:+ cs) :
    Stays cs x := by
  rcases x with failure | ⟨a, rest⟩ <;> exact List.IsSuffix.trans hx h

end Stays

theorem readName_stays (cs : List Char) : Stays cs (readName cs) := by
  unfold readName
  simp only
  split
  · exact .error _ (trimStart_suffix cs)
  · exact .ok _ ((List.dropWhile_suffix _).trans (trimStart_suffix cs))

theorem readSuffixes_suffix (s : Signal) (cs : List Char) : (readSuffixes s cs).2 <:+ cs := by
  obtain ⟨gs, g, _, h⟩ := readSuffixes_spec s (rfl : trimStart cs = trimStart cs)
  exact ⟨bracketsText gs ++ g.blanks, by rw [List.append_assoc]; exact h.symm⟩

/-- On this fuel, every reader stays within its text. -/
def ReadersStay (fuel : Nat) : Prop :=
  ∀ {k : Symbol} {cs rest : List Char}, rest <:+ cs → Stays cs (k.read fuel rest)

namespace ReadersStay

variable {fuel : Nat} {cs cs' : List Char}

theorem union_succ (ih : ReadersStay fuel) (h : cs' <:+ cs) : Stays cs (readUnion (fuel + 1) cs') := by
  rw [readUnion]
  refine .bind (ih (k := .item) h) fun first rest h => ?_
  exact .bind (ih (k := .alternatives) h) fun more rest h => .ok _ h

theorem alternatives_succ (ih : ReadersStay fuel) (h : cs' <:+ cs) : Stays cs (readAlternatives (fuel + 1) cs') := by
  rw [readAlternatives]
  split
  · exact .ok _ ((trimStart_suffix _).trans h)
  · rename_i heat
    refine .bind (ih (k := .item) ((suffix_of_eat heat).trans h)) fun item rest h => ?_
    exact .bind (ih (k := .alternatives) h) fun more rest h => .ok _ h

theorem item_succ (ih : ReadersStay fuel) (h : cs' <:+ cs) : Stays cs (readItem (fuel + 1) cs') := by
  rw [readItem]
  split
  · rename_i heat
    exact .bind (ih (k := .item) ((suffix_of_eat heat).trans h)) fun inner rest h => .ok _ h
  · exact .bind (ih (k := .primary) h) fun s rest h => .ok _ ((readSuffixes_suffix s rest).trans h)

theorem primary_succ (ih : ReadersStay fuel) (h : cs' <:+ cs) : Stays cs (readPrimary (fuel + 1) cs') := by
  rw [readPrimary]
  split
  · rename_i heat
    refine .bind (ih (k := .union) ((suffix_of_eat heat).trans h)) fun inner rest h => ?_
    exact .expect h fun rest h => .ok _ h
  · refine .bind ((readName_stays cs').mono h) fun name rest h => ?_
    dsimp only
    split
    · rename_i heat
      cases isListKeyword name with
      | true => exact .bind (ih (k := .fields) ((suffix_of_eat heat).trans h)) fun fields rest h => .ok _ h
      | false => exact .error _ ((suffix_of_eat heat).trans h)
    · split
      · rename_i heat
        refine .bind (ih (k := .arguments) ((suffix_of_eat heat).trans h)) fun args rest h => ?_
        refine .expect h fun rest h => ?_
        split
        · exact .ok _ h
        · exact .error _ h
      · exact .ok _ ((trimStart_suffix rest).trans h)

theorem arguments_succ (ih : ReadersStay fuel) (h : cs' <:+ cs) : Stays cs (readArguments (fuel + 1) cs') := by
  rw [readArguments]
  refine .bind (ih (k := .union) h) fun first rest h => ?_
  dsimp only
  split
  · exact .ok _ ((trimStart_suffix rest).trans h)
  · rename_i heat
    exact .bind (ih (k := .arguments) ((suffix_of_eat heat).trans h)) fun more rest h => .ok _ h

theorem fields_succ (ih : ReadersStay fuel) (h : cs' <:+ cs) : Stays cs (readFields (fuel + 1) cs') := by
  rw [readFields]
  split
  · rename_i heat
    exact .ok _ ((suffix_of_eat heat).trans h)
  · refine .bind ((readName_stays cs').mono h) fun key rest h => ?_
    refine .expect ?_ fun rest h => ?_
    · split
      · rename_i heat
        exact (suffix_of_eat heat).trans h
      · exact (trimStart_suffix rest).trans h
    refine .bind (ih (k := .union) h) fun type rest h => ?_
    dsimp only
    split
    · rename_i heat
      exact .bind (ih (k := .fields) ((suffix_of_eat heat).trans h)) fun more rest h => .ok _ h
    · exact .expect h fun rest h => .ok _ h

end ReadersStay

theorem readersStay (fuel : Nat) : ReadersStay fuel := by
  induction fuel with
  | zero =>
    intro k cs rest h
    cases k <;> exact h
  | succ fuel ih =>
    intro k cs rest h
    cases k with
    | union => exact ih.union_succ h
    | alternatives => exact ih.alternatives_succ h
    | item => exact ih.item_succ h
    | primary => exact ih.primary_succ h
    | arguments => exact ih.arguments_succ h
    | fields => exact ih.fields_succ h

theorem read_stays (fuel : Nat) {k : Symbol} (cs : List Char) : Stays cs (k.read fuel cs) :=
  readersStay fuel (List.suffix_refl cs)

/-! ## Within the bound -/

/-- How many readers may call each other before one of them takes a character. -/
def Symbol.rank : Symbol → Nat
  | arguments => 4
  | union => 3
  | item => 2
  | primary | alternatives | fields => 1

/-- A depth that is enough for a text. -/
def Symbol.depth (k : Symbol) (cs : List Char) : Nat :=
  4 * cs.length + k.rank

/-- The readers' outcomes are the same, and no failure comes from the bound on the depth. -/
structure Agree {α : Type} (x y : Except Failure α) : Prop where
  eq : x = y
  enough : ∀ failure, y = .error failure → failure.reason ≠ .tooDeep

namespace Agree

variable {α β : Type}

theorem ok (a : α) : Agree (.ok a) (.ok a) := ⟨rfl, fun _ h => nomatch h⟩

theorem error {failure : Failure} (h : failure.reason ≠ .tooDeep) :
    Agree (.error failure : Except Failure α) (.error failure) := by
  refine ⟨rfl, fun failure' heq => ?_⟩
  cases heq
  exact h

theorem bind {x y : Except Failure α} {f g : α → Except Failure β} (hx : Agree x y)
    (hf : ∀ a, y = .ok a → Agree (f a) (g a)) : Agree (x >>= f) (y >>= g) := by
  obtain ⟨rfl, henough⟩ := hx
  rcases x with failure | a
  · exact error (henough failure rfl)
  · exact hf a rfl

end Agree

theorem readName_agrees (cs : List Char) : Agree (readName cs) (readName cs) := by
  unfold readName
  dsimp only
  split
  · exact .error (by simp)
  · exact .ok _

theorem expect_agrees {c : Char} {reason : Reason} (hreason : reason ≠ .tooDeep) (cs : List Char) :
    Agree (expect c reason cs) (expect c reason cs) := by
  unfold expect
  split
  · exact .ok _
  · exact .error hreason

theorem length_of_read {k : Symbol} {fuel : Nat} {cs : List Char} {r : k.Value × List Char}
    (h : k.read fuel cs = .ok r) : r.2.length ≤ cs.length := by
  have hs := read_stays fuel (k := k) cs
  rw [h] at hs
  exact hs.length_le

theorem length_of_name {cs : List Char} {r : String × List Char} (h : readName cs = .ok r) :
    r.2.length ≤ cs.length := by
  have hs := readName_stays cs
  rw [h] at hs
  exact hs.length_le

/-- On every text that this fuel is enough for, it is not spent, and one unit more changes nothing. -/
def Settles (fuel : Nat) : Prop :=
  ∀ {k : Symbol} {cs : List Char}, k.depth cs ≤ fuel → Agree (k.read (fuel + 1) cs) (k.read fuel cs)

namespace Settles

variable {fuel : Nat} {cs : List Char}

theorem union (ih : Settles fuel) (h : 4 * cs.length + 3 ≤ fuel) :
    Agree (readUnion (fuel + 1) cs) (readUnion fuel cs) :=
  ih (k := .union) h

theorem alternatives (ih : Settles fuel) (h : 4 * cs.length + 1 ≤ fuel) :
    Agree (readAlternatives (fuel + 1) cs) (readAlternatives fuel cs) :=
  ih (k := .alternatives) h

theorem item (ih : Settles fuel) (h : 4 * cs.length + 2 ≤ fuel) : Agree (readItem (fuel + 1) cs) (readItem fuel cs) :=
  ih (k := .item) h

theorem primary (ih : Settles fuel) (h : 4 * cs.length + 1 ≤ fuel) :
    Agree (readPrimary (fuel + 1) cs) (readPrimary fuel cs) :=
  ih (k := .primary) h

theorem arguments (ih : Settles fuel) (h : 4 * cs.length + 4 ≤ fuel) :
    Agree (readArguments (fuel + 1) cs) (readArguments fuel cs) :=
  ih (k := .arguments) h

theorem fields (ih : Settles fuel) (h : 4 * cs.length + 1 ≤ fuel) :
    Agree (readFields (fuel + 1) cs) (readFields fuel cs) :=
  ih (k := .fields) h

theorem union_succ (ih : Settles fuel) (h : 4 * cs.length + 3 ≤ fuel + 1) :
    Agree (readUnion (fuel + 2) cs) (readUnion (fuel + 1) cs) := by
  rw [readUnion, readUnion]
  refine .bind (ih.item (by omega)) fun first hfirst => ?_
  have hle := length_of_read (k := .item) hfirst
  exact .bind (ih.alternatives (by omega)) fun _ _ => .ok _

theorem alternatives_succ (ih : Settles fuel) (h : 4 * cs.length + 1 ≤ fuel + 1) :
    Agree (readAlternatives (fuel + 2) cs) (readAlternatives (fuel + 1) cs) := by
  rw [readAlternatives, readAlternatives]
  cases heat : eat? '|' cs with
  | none => exact .ok _
  | some rest =>
    have hlt := length_of_eat heat
    refine .bind (ih.item (by omega)) fun item hitem => ?_
    have hle := length_of_read (k := .item) hitem
    exact .bind (ih.alternatives (by omega)) fun _ _ => .ok _

theorem item_succ (ih : Settles fuel) (h : 4 * cs.length + 2 ≤ fuel + 1) :
    Agree (readItem (fuel + 2) cs) (readItem (fuel + 1) cs) := by
  rw [readItem, readItem]
  cases heat : eat? '?' cs with
  | none => exact .bind (ih.primary (by omega)) fun _ _ => .ok _
  | some rest =>
    have hlt := length_of_eat heat
    exact .bind (ih.item (by omega)) fun _ _ => .ok _

theorem primary_succ (ih : Settles fuel) (h : 4 * cs.length + 1 ≤ fuel + 1) :
    Agree (readPrimary (fuel + 2) cs) (readPrimary (fuel + 1) cs) := by
  rw [readPrimary, readPrimary]
  cases hopen : eat? '(' cs with
  | some rest =>
    have hlt := length_of_eat hopen
    exact .bind (ih.union (by omega)) fun _ _ => .bind (expect_agrees (by decide) _) fun _ _ => .ok _
  | none =>
    refine .bind (readName_agrees cs) fun name hname => ?_
    have hle := length_of_name hname
    dsimp only
    cases hbrace : eat? '{' name.2 with
    | some rest =>
      have hlt := length_of_eat hbrace
      cases isListKeyword name.1 with
      | false => exact .error (by simp)
      | true => exact .bind (ih.fields (by omega)) fun _ _ => .ok _
    | none =>
      cases hangle : eat? '<' name.2 with
      | none => exact .ok _
      | some rest =>
        have hlt := length_of_eat hangle
        refine .bind (ih.arguments (by omega)) fun args _ => .bind (expect_agrees (by decide) _) fun rest' _ => ?_
        cases ofArguments? name.1 args.1 with
        | none => exact .error (by simp)
        | some signal => exact .ok _

theorem arguments_succ (ih : Settles fuel) (h : 4 * cs.length + 4 ≤ fuel + 1) :
    Agree (readArguments (fuel + 2) cs) (readArguments (fuel + 1) cs) := by
  rw [readArguments, readArguments]
  refine .bind (ih.union (by omega)) fun first hfirst => ?_
  have hle := length_of_read (k := .union) hfirst
  dsimp only
  cases heat : eat? ',' first.2 with
  | none => exact .ok _
  | some rest =>
    have hlt := length_of_eat heat
    exact .bind (ih.arguments (by omega)) fun _ _ => .ok _

theorem fields_succ (ih : Settles fuel) (h : 4 * cs.length + 1 ≤ fuel + 1) :
    Agree (readFields (fuel + 2) cs) (readFields (fuel + 1) cs) := by
  rw [readFields, readFields]
  cases hclose : eat? '}' cs with
  | some rest => exact .ok _
  | none =>
    refine .bind (readName_agrees cs) fun key hkey => .bind (expect_agrees (by decide) _) fun rest hcolon => ?_
    have hle := length_of_name hkey
    rw [expect_eq_ok] at hcolon
    have hlt : rest.length < key.2.length := by
      split at hcolon
      · rename_i hmark
        exact (length_of_eat hcolon).trans (length_of_eat hmark)
      · exact (length_of_eat hcolon).trans_le (trimStart_suffix _).length_le
    refine .bind (ih.union (by omega)) fun type htype => ?_
    have hle' := length_of_read (k := .union) htype
    dsimp only
    cases hcomma : eat? ',' type.2 with
    | none => exact .bind (expect_agrees (by decide) _) fun _ _ => .ok _
    | some rest' =>
      have hlt' := length_of_eat hcomma
      exact .bind (ih.fields (by omega)) fun _ _ => .ok _

end Settles

theorem read_settles (fuel : Nat) : Settles fuel := by
  induction fuel with
  | zero =>
    intro k cs h
    cases k <;> cases h
  | succ fuel ih =>
    intro k cs h
    cases k with
    | union => exact ih.union_succ h
    | alternatives => exact ih.alternatives_succ h
    | item => exact ih.item_succ h
    | primary => exact ih.primary_succ h
    | arguments => exact ih.arguments_succ h
    | fields => exact ih.fields_succ h

/-- A greater bound on the depth changes no outcome. -/
theorem read_eq_of_depth_le {k : Symbol} {cs : List Char} {fuel : Nat} (h : k.depth cs ≤ fuel) :
    k.read fuel cs = k.read (k.depth cs) cs := by
  induction fuel, h using Nat.le_induction with
  | base => rfl
  | succ fuel h ih => exact (read_settles fuel h).eq.trans ih

/-- A depth that is enough is not what a reader fails by. -/
theorem reason_ne_tooDeep {k : Symbol} {cs : List Char} {fuel : Nat} {failure : Failure} (h : k.depth cs ≤ fuel)
    (hread : k.read fuel cs = .error failure) : failure.reason ≠ .tooDeep :=
  (read_settles fuel h).enough failure hread

end EntityScript.Signal
