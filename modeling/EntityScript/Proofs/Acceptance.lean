import Mathlib.Data.List.DropRight
import EntityScript.Proofs.Extent
import EntityScript.Proofs.Unambiguity
/-!
# The signals that are read

The readers accept every phrase of their symbol, where something follows that leaves the phrase as it is. With
what `Reading` and `Extent` say, a text is read as a signal just if it derives the signal.
-/

namespace EntityScript.Signal

open Text

theorem length_mark (g : Gap) (c : Char) : (g.mark c).length = g.blanks.length + 1 := by
  simp [Gap.mark]

theorem trimStart_trimStart (cs : List Char) : trimStart (trimStart cs) = trimStart cs :=
  List.dropWhile_idempotent isBlank cs

theorem eat?_of_mark {c : Char} {g : Gap} {cs cs' : List Char} (hb : isBlank c = false)
    (h : trimStart cs = trimStart (g.mark c ++ cs')) : eat? c cs = some cs' :=
  (eat?_congr h).trans (eat?_mark g hb cs')

theorem eat?_of_ne {c : Char} {cs cs' : List Char} (h : trimStart cs = trimStart cs')
    (hne : ∀ (g : Gap) (rest : List Char), g.mark c ++ rest ≠ cs') : eat? c cs = none := by
  rw [eat?_congr h, Option.eq_none_iff_forall_ne_some]
  intro rest heat
  obtain ⟨g, hg⟩ := exists_mark heat
  exact hne g rest hg.symm

theorem eat?_of_other {c d : Char} {cs rest : List Char} (h : eat? c cs = some rest) (hne : d ≠ c) : eat? d cs = none := by
  refine eat?_eq_none fun hd => ?_
  rw [next?, eat?_eq_some.1 h] at hd
  exact hne (Option.some.inj hd).symm

/-- What leaves a phrase as it is starts with no mark that would go on with it. -/
theorem eat?_of_ends {k : Symbol} {c : Char} {cs cs' : List Char} (h : trimStart cs = trimStart cs') (hend : Ends k cs')
    (hk : k ≠ .fields) (hb : isBlank c = false) (hc : c ∉ k.followers) : eat? c cs = none :=
  eat?_of_ne h fun _ _ heq => not_ends_mark hk hb hc (heq.symm ▸ hend)

theorem readName_of_name {g : Gap} {n : NameText} {cs cs' : List Char} (hname : ∀ c ∈ cs'.head?, isNameChar c = false)
    (h : trimStart cs = trimStart (g.blanks ++ (n.chars ++ cs'))) : readName cs = .ok (n.word, cs') :=
  (readName_congr h).trans (readName_name g n hname)

theorem readSuffixes_brackets (gs : List Gap) {s : Signal} {cs rest : List Char} (hend : Ends .item rest)
    (h : trimStart cs = trimStart (bracketsText gs ++ rest)) :
    readSuffixes s cs = (gs.foldl (fun s _ => .list s) s, trimStart rest) := by
  induction gs generalizing s cs with
  | nil =>
    have hnone := eat?_of_ends (c := '[') h hend (by simp) (by decide) (by decide)
    rw [readSuffixes_end fun rest' h' => ?_, h]
    · rfl
    · rw [eat?_eq_some.2 h'] at hnone
      cases hnone
  | cons g gs ih =>
    rw [bracketsText_cons, trimStart_mark g (by decide)] at h
    rw [readSuffixes_bracket h]
    exact ih rfl

namespace Phrase

/-- Whether a phrase is read wherever something follows that leaves it as it is. -/
def Readable {k : Symbol} (d : Phrase k) : Prop :=
  ∀ {fuel : Nat} {cs rest : List Char}, k.depth d.text ≤ fuel → Ends k rest → trimStart cs = trimStart (d.text ++ rest) →
    ∃ rest', k.read fuel cs = .ok (d.value, rest') ∧ trimStart rest' = trimStart rest

namespace Readable

theorem of_succ {k : Symbol} {d : Phrase k} (h : ∀ {fuel : Nat} {cs rest : List Char}, k.depth d.text ≤ fuel + 1 →
    Ends k rest → trimStart cs = trimStart (d.text ++ rest) →
      ∃ rest', k.read (fuel + 1) cs = .ok (d.value, rest') ∧ trimStart rest' = trimStart rest) : d.Readable := by
  intro fuel cs rest hfuel
  cases fuel with
  | zero => cases k <;> cases hfuel
  | succ fuel => exact h hfuel

/-- A phrase before a mark is read with the mark. -/
theorem marked {k : Symbol} {d : Phrase k} (hd : d.Readable) (g : Gap) {c : Char} (hc : c ∈ k.followers) {fuel : Nat}
    (hfuel : k.depth d.text ≤ fuel) {cs rest : List Char} (h : trimStart cs = trimStart (d.text ++ (g.mark c ++ rest))) :
    ∃ rest', k.read fuel cs = .ok (d.value, rest') ∧ eat? c rest' = some rest := by
  have hblank := k.isBlank_of_follower c hc
  obtain ⟨rest', hread, hrest⟩ := hd hfuel (ends_mark g hblank hc rest) h
  exact ⟨rest', hread, eat?_of_mark hblank hrest⟩

variable {first item inner : Phrase .item} {more : Phrase .alternatives} {unit type : Phrase .union}
  {args : Phrase .arguments} {fields : Phrase .fields} {primary : Phrase .primary} {before opening gap closing : Gap}

theorem union (hf : first.Readable) (hm : more.Readable) : (Phrase.union first more).Readable := by
  refine of_succ fun {fuel cs rest} hfuel hend hcs => ?_
  simp only [Symbol.depth, Symbol.rank, text, List.length_append] at hfuel
  simp only [text, List.append_assoc] at hcs
  have hend' : Ends .alternatives rest := hend.of_subset (by simp) (by decide)
  obtain ⟨rest₁, hfirst, hrest₁⟩ := hf (show 4 * first.text.length + 2 ≤ fuel by omega)
    (ends_alternatives more hend') hcs
  obtain ⟨rest₂, hmore, hrest₂⟩ := hm (show 4 * more.text.length + 1 ≤ fuel by omega) hend' hrest₁
  refine ⟨rest₂, ?_, hrest₂⟩
  rw [Symbol.read, readUnion]
  exact bind_eq_ok.2 ⟨_, hfirst, bind_eq_ok.2 ⟨_, hmore, rfl⟩⟩

theorem noMore : Phrase.noMore.Readable := by
  refine of_succ fun {fuel cs rest} hfuel hend hcs => ?_
  refine ⟨trimStart cs, ?_, (trimStart_trimStart cs).trans hcs⟩
  rw [Symbol.read, readAlternatives, eat?_of_ends hcs hend (by simp) (by decide) (by decide)]
  rfl

theorem bar (hi : item.Readable) (hm : more.Readable) : (Phrase.bar gap item more).Readable := by
  refine of_succ fun {fuel cs rest} hfuel hend hcs => ?_
  simp only [Symbol.depth, Symbol.rank, text, List.length_append, length_mark] at hfuel
  simp only [text, List.append_assoc] at hcs
  obtain ⟨rest₁, hitem, hrest₁⟩ := hi (show 4 * item.text.length + 2 ≤ fuel by omega)
    (ends_alternatives more hend) rfl
  obtain ⟨rest₂, hmore, hrest₂⟩ := hm (show 4 * more.text.length + 1 ≤ fuel by omega) hend hrest₁
  refine ⟨rest₂, ?_, hrest₂⟩
  rw [Symbol.read, readAlternatives, eat?_of_mark (by decide) hcs]
  exact bind_eq_ok.2 ⟨_, hitem, bind_eq_ok.2 ⟨_, hmore, rfl⟩⟩

theorem nullable (hi : inner.Readable) : (Phrase.nullable gap inner).Readable := by
  refine of_succ fun {fuel cs rest} hfuel hend hcs => ?_
  simp only [Symbol.depth, Symbol.rank, text, List.length_append, length_mark] at hfuel
  simp only [text, List.append_assoc] at hcs
  obtain ⟨rest₁, hinner, hrest₁⟩ := hi (show 4 * inner.text.length + 2 ≤ fuel by omega) hend rfl
  refine ⟨rest₁, ?_, hrest₁⟩
  rw [Symbol.read, readItem, eat?_of_mark (by decide) hcs]
  exact bind_eq_ok.2 ⟨_, hinner, rfl⟩

theorem plain (hp : primary.Readable) (brackets : List Gap) : (Phrase.plain primary brackets).Readable := by
  refine of_succ fun {fuel cs rest} hfuel hend hcs => ?_
  simp only [Symbol.depth, Symbol.rank, text, List.length_append] at hfuel
  simp only [text, List.append_assoc] at hcs
  obtain ⟨rest₁, hprimary, hrest₁⟩ := hp (show 4 * primary.text.length + 1 ≤ fuel by omega)
    (ends_brackets brackets hend) hcs
  refine ⟨trimStart rest, ?_, trimStart_trimStart rest⟩
  rw [Symbol.read, readItem, eat?_of_ne hcs fun _ _ => nullable_ne_plain]
  refine bind_eq_ok.2 ⟨_, hprimary, ?_⟩
  dsimp only
  rw [readSuffixes_brackets brackets hend hrest₁]
  rfl

theorem parenthesized (hu : unit.Readable) : (Phrase.parenthesized opening unit closing).Readable := by
  refine of_succ fun {fuel cs rest} hfuel hend hcs => ?_
  simp only [Symbol.depth, Symbol.rank, text, List.length_append, length_mark] at hfuel
  simp only [text, List.append_assoc] at hcs
  obtain ⟨rest₁, hunit, hclose⟩ := hu.marked closing (c := ')') (by decide)
    (show 4 * unit.text.length + 3 ≤ fuel by omega) rfl
  refine ⟨rest, ?_, rfl⟩
  rw [Symbol.read, readPrimary, eat?_of_mark (by decide) hcs]
  exact bind_eq_ok.2 ⟨_, hunit, bind_eq_ok.2 ⟨_, expect_eq_ok.2 hclose, rfl⟩⟩

theorem argument (hl : unit.Readable) : (Phrase.argument unit).Readable := by
  refine of_succ fun {fuel cs rest} hfuel hend hcs => ?_
  simp only [Symbol.depth, Symbol.rank, text] at hfuel
  simp only [text] at hcs
  have hend' : Ends .union rest := hend.of_subset (by simp) (by decide)
  obtain ⟨rest₁, hlast, hrest₁⟩ := hl (show 4 * unit.text.length + 3 ≤ fuel by omega) hend' hcs
  refine ⟨trimStart rest₁, ?_, (trimStart_trimStart rest₁).trans hrest₁⟩
  rw [Symbol.read, readArguments]
  refine bind_eq_ok.2 ⟨_, hlast, ?_⟩
  dsimp only
  rw [eat?_of_ends hrest₁ hend (by simp) (by decide) (by decide)]
  rfl

theorem comma (hf : unit.Readable) (hm : args.Readable) : (Phrase.comma unit gap args).Readable := by
  refine of_succ fun {fuel cs rest} hfuel hend hcs => ?_
  simp only [Symbol.depth, Symbol.rank, text, List.length_append, length_mark] at hfuel
  simp only [text, List.append_assoc] at hcs
  obtain ⟨rest₁, hfirst, hcomma⟩ := hf.marked gap (by decide) (show 4 * unit.text.length + 3 ≤ fuel by omega) hcs
  obtain ⟨rest₂, hmore, hrest₂⟩ := hm (show 4 * args.text.length + 4 ≤ fuel by omega) hend rfl
  refine ⟨rest₂, ?_, hrest₂⟩
  rw [Symbol.read, readArguments]
  refine bind_eq_ok.2 ⟨_, hfirst, ?_⟩
  dsimp only
  rw [hcomma]
  exact bind_eq_ok.2 ⟨_, hmore, rfl⟩

theorem no_parenthesis {n : NameText} {cs rest : List Char}
    (h : trimStart cs = trimStart (before.blanks ++ (n.chars ++ rest))) : eat? '(' cs = none :=
  eat?_of_ne h fun _ _ => mark_ne_name (by decide) (by decide)

theorem name (n : NameText) : (Phrase.name before n).Readable := by
  refine of_succ fun {fuel cs rest} hfuel hend hcs => ?_
  simp only [text, List.append_assoc] at hcs
  refine ⟨trimStart rest, ?_, trimStart_trimStart rest⟩
  rw [Symbol.read, readPrimary, no_parenthesis hcs]
  refine bind_eq_ok.2 ⟨_, readName_of_name (head_of_ends hend) hcs, ?_⟩
  dsimp only
  rw [eat?_of_ends rfl hend (by simp) (by decide) (by decide), eat?_of_ends rfl hend (by simp) (by decide) (by decide)]
  rfl

theorem shape (n : ListName) (hf : fields.Readable) : (Phrase.shape before n opening fields).Readable := by
  refine of_succ fun {fuel cs rest} hfuel hend hcs => ?_
  simp only [Symbol.depth, Symbol.rank, text, List.length_append, length_mark] at hfuel
  simp only [text, List.append_assoc] at hcs
  obtain ⟨rest₁, hfields, hrest₁⟩ := hf (show 4 * fields.text.length + 1 ≤ fuel by omega) (.inl rfl) rfl
  refine ⟨rest₁, ?_, hrest₁⟩
  rw [Symbol.read, readPrimary, no_parenthesis hcs]
  refine bind_eq_ok.2 ⟨_, readName_of_name (head_of_mark opening (by decide) _) hcs, ?_⟩
  dsimp only
  rw [eat?_mark opening (by decide), n.isList]
  exact bind_eq_ok.2 ⟨_, hfields, rfl⟩

/-- A name with arguments is read as what it makes of them. -/
theorem applied (ha : args.Readable) {n : NameText} {s : Signal} (hs : ofArguments? n.word args.value = some s)
    {fuel : Nat} {cs rest : List Char} (hfuel : 4 * args.text.length + 4 ≤ fuel) (before opening closing : Gap)
    (hcs : trimStart cs = trimStart (before.blanks ++ n.chars ++ opening.mark '<' ++ args.text ++ closing.mark '>' ++ rest)) :
    readPrimary (fuel + 1) cs = .ok (s, rest) := by
  simp only [List.append_assoc] at hcs
  obtain ⟨rest₁, hargs, hclose⟩ := ha.marked closing (c := '>') (by decide) hfuel rfl
  have hopen : eat? '<' (opening.mark '<' ++ (args.text ++ (closing.mark '>' ++ rest))) = some _ :=
    eat?_mark opening (by decide) _
  rw [readPrimary, no_parenthesis hcs]
  refine bind_eq_ok.2 ⟨_, readName_of_name (head_of_mark opening (by decide) _) hcs, ?_⟩
  dsimp only
  rw [eat?_of_other hopen (by decide), hopen]
  refine bind_eq_ok.2 ⟨_, hargs, bind_eq_ok.2 ⟨_, expect_eq_ok.2 hclose, ?_⟩⟩
  dsimp only
  rw [hs]
  rfl

theorem list (n : ListName) (hv : unit.Readable) : (Phrase.list before n opening unit closing).Readable := by
  refine of_succ fun {fuel cs rest} hfuel hend hcs => ?_
  simp only [Symbol.depth, Symbol.rank, text, List.length_append, length_mark] at hfuel
  have hs : ofArguments? n.word (Phrase.argument unit).value = some (.list unit.value) := by
    simp [ofArguments?, n.isList, value]
  exact ⟨rest, applied (argument hv) hs (by simp only [text]; omega) before opening closing hcs, rfl⟩

theorem map (n : ListName) (hk : unit.Readable) (hv : type.Readable) :
    (Phrase.map before n opening unit gap type closing).Readable := by
  refine of_succ fun {fuel cs rest} hfuel hend hcs => ?_
  simp only [Symbol.depth, Symbol.rank, text, List.length_append, length_mark] at hfuel
  have hs : ofArguments? n.word (Phrase.comma unit gap (.argument type)).value = some (.map unit.value type.value) := by
    simp [ofArguments?, n.isList, value]
  refine ⟨rest, applied (comma hk (argument hv)) hs ?_ before opening closing ?_, rfl⟩
  · simp only [text, List.length_append, length_mark]
    omega
  · simpa only [text, List.append_assoc] using hcs

theorem generic (n : OtherName) (ha : args.Readable) : (Phrase.generic before n opening args closing).Readable := by
  refine of_succ fun {fuel cs rest} hfuel hend hcs => ?_
  simp only [Symbol.depth, Symbol.rank, text, List.length_append, length_mark] at hfuel
  have hs : ofArguments? n.word args.value = some (.generic n.word args.value) := by
    simp [ofArguments?, n.isOther]
  exact ⟨rest, applied ha hs (by omega) before opening closing hcs, rfl⟩

theorem noField : (Phrase.noField closing).Readable := by
  refine of_succ fun {fuel cs rest} hfuel hend hcs => ?_
  refine ⟨rest, ?_, rfl⟩
  rw [Symbol.read, readFields, eat?_of_mark (by decide) hcs]
  rfl

/-- What is read behind the head of a field. -/
theorem readFields_head {fuel : Nat} {key : String} {optional : Bool} {cs cs₁ cs₂ : List Char}
    (hclose : eat? '\x7d' cs = none) (hname : readName cs = .ok (key, cs₁)) (hmark : (eat? '?' cs₁).isSome = optional)
    (hcolon : eat? ':' ((eat? '?' cs₁).getD (trimStart cs₁)) = some cs₂) :
    readFields (fuel + 1) cs = do
      let (type, cs) ← readUnion fuel cs₂
      match eat? ',' cs with
      | some cs => do
        let (more, cs) ← readFields fuel cs
        return (⟨key, optional, type⟩ :: more, cs)
      | none => do
        let cs ← expect '\x7d' .openShape cs
        return ([⟨key, optional, type⟩], cs) := by
  subst hmark
  replace hcolon := (expect_eq_ok (r := .missingColon)).2 hcolon
  rw [readFields, hclose]
  dsimp only
  rw [hname]
  cases hmark : eat? '?' cs₁ with
  | none =>
    rw [hmark, Option.getD_none] at hcolon
    simp only [bind, Except.bind, hmark, hcolon]
    rfl
  | some cs₃ =>
    rw [hmark, Option.getD_some] at hcolon
    simp only [bind, Except.bind, hmark, hcolon]
    rfl

/-- The readers take the head of a field. -/
theorem exists_head_read (head : FieldHead) {cs rest : List Char} (hcs : trimStart cs = trimStart (head.text ++ rest)) :
    eat? '\x7d' cs = none ∧ ∃ cs₁, readName cs = .ok (head.key.word, cs₁) ∧
      (eat? '?' cs₁).isSome = head.mark.isSome ∧ eat? ':' ((eat? '?' cs₁).getD (trimStart cs₁)) = some rest := by
  obtain ⟨before, key, mark, colon⟩ := head
  simp only [FieldHead.text, List.append_assoc] at hcs
  refine ⟨eat?_of_ne hcs fun _ _ => mark_ne_name (by decide) (by decide), ?_⟩
  cases mark with
  | none =>
    refine ⟨_, readName_of_name (head_of_mark colon (by decide) rest) hcs, ?_⟩
    have hcolon : eat? ':' (colon.mark ':' ++ rest) = some rest := eat?_mark colon (by decide) rest
    dsimp only [Option.elim]
    rw [eat?_of_other hcolon (by decide)]
    exact ⟨rfl, eat?_of_mark (by decide) (trimStart_trimStart _)⟩
  | some g =>
    refine ⟨_, readName_of_name (head_of_mark g (by decide) _) hcs, ?_⟩
    have hsome : eat? '?' (g.mark '?' ++ (colon.mark ':' ++ rest)) = some (colon.mark ':' ++ rest) :=
      eat?_mark g (by decide) _
    dsimp only [Option.elim]
    rw [hsome]
    exact ⟨rfl, eat?_mark colon (by decide) rest⟩

theorem lastField (head : FieldHead) (ht : type.Readable) : (Phrase.lastField head type closing).Readable := by
  refine of_succ fun {fuel cs rest} hfuel hend hcs => ?_
  simp only [Symbol.depth, Symbol.rank, text, List.length_append, length_mark] at hfuel
  simp only [text, List.append_assoc] at hcs
  obtain ⟨hopen, cs₁, hname, hmark, hcolon⟩ := exists_head_read head hcs
  obtain ⟨rest₁, htype, hclose⟩ := ht.marked closing (c := '\x7d') (by decide)
    (show 4 * type.text.length + 3 ≤ fuel by omega) rfl
  refine ⟨rest, ?_, rfl⟩
  rw [Symbol.read, readFields_head hopen hname hmark hcolon]
  refine bind_eq_ok.2 ⟨_, htype, ?_⟩
  dsimp only
  rw [eat?_of_other hclose (by decide)]
  exact bind_eq_ok.2 ⟨_, expect_eq_ok.2 hclose, rfl⟩

theorem field (head : FieldHead) (ht : type.Readable) (hm : fields.Readable) :
    (Phrase.field head type gap fields).Readable := by
  refine of_succ fun {fuel cs rest} hfuel hend hcs => ?_
  simp only [Symbol.depth, Symbol.rank, text, List.length_append, length_mark] at hfuel
  simp only [text, List.append_assoc] at hcs
  obtain ⟨hopen, cs₁, hname, hmark, hcolon⟩ := exists_head_read head hcs
  obtain ⟨rest₁, htype, hcomma⟩ := ht.marked gap (c := ',') (by decide)
    (show 4 * type.text.length + 3 ≤ fuel by omega) rfl
  obtain ⟨rest₂, hmore, hrest₂⟩ := hm (show 4 * fields.text.length + 1 ≤ fuel by omega) (.inl rfl) rfl
  refine ⟨rest₂, ?_, hrest₂⟩
  rw [Symbol.read, readFields_head hopen hname hmark hcolon]
  refine bind_eq_ok.2 ⟨_, htype, ?_⟩
  dsimp only
  rw [hcomma]
  exact bind_eq_ok.2 ⟨_, hmore, rfl⟩

end Readable

theorem readable {k : Symbol} (d : Phrase k) : d.Readable := by
  induction d with
  | union _ _ hf hm => exact Readable.union hf hm
  | noMore => exact Readable.noMore
  | bar _ _ _ hi hm => exact Readable.bar hi hm
  | nullable _ _ hi => exact Readable.nullable hi
  | plain _ brackets hp => exact Readable.plain hp brackets
  | parenthesized _ _ _ hu => exact Readable.parenthesized hu
  | name _ n => exact Readable.name n
  | shape _ n _ _ hf => exact Readable.shape n hf
  | list _ n _ _ _ hv => exact Readable.list n hv
  | map _ n _ _ _ _ _ hk hv => exact Readable.map n hk hv
  | generic _ n _ _ _ ha => exact Readable.generic n ha
  | argument _ hl => exact Readable.argument hl
  | comma _ _ _ hf hm => exact Readable.comma hf hm
  | noField => exact Readable.noField
  | lastField head _ _ ht => exact Readable.lastField head ht
  | field head _ _ _ ht hm => exact Readable.field head ht hm

end Phrase

/-! ## Whole texts -/

theorem read_eq_ok {cs : List Char} {s : Signal} : read cs = .ok s ↔ ∃ d : Derivation, d.text = cs ∧ d.signal = s := by
  unfold read
  constructor
  · intro h
    simp only [bind_eq_ok, Prod.exists] at h
    obtain ⟨s', rest, hread, h⟩ := h
    split at h
    · rename_i hrest
      cases h
      obtain ⟨d, g, rfl, rfl⟩ := readsPhrases _ (k := .union) hread
      obtain ⟨g', hg'⟩ := exists_gap rest
      rw [hrest, List.append_nil] at hg'
      refine ⟨⟨d, ⟨g.blanks ++ g'.blanks, fun c hc => ?_⟩⟩, by rw [hg']; rfl, rfl⟩
      exact (List.mem_append.1 hc).elim (g.blank c) (g'.blank c)
    · cases h
  · rintro ⟨⟨d, g⟩, rfl, rfl⟩
    have hfuel : 4 * d.text.length + 3 ≤ 4 * (d.text ++ g.blanks).length + 4 := by
      rw [List.length_append]
      omega
    obtain ⟨rest, hread, hrest⟩ := d.readable (k := .union) hfuel (ends_gap _ g) rfl
    refine bind_eq_ok.2 ⟨_, hread, ?_⟩
    have hnil : trimStart rest = [] := by
      rw [hrest, ← List.append_nil g.blanks, trimStart_gap]
      rfl
    dsimp only
    rw [hnil]
    rfl

theorem suffix_of_read_error {cs : List Char} {failure : Failure} (h : read cs = .error failure) :
    failure.rest <:+ cs := by
  have hs := read_stays (4 * cs.length + 4) (k := .union) cs
  rw [Symbol.read] at hs
  unfold read at h
  rcases bind_eq_error.1 h with hread | ⟨⟨s, rest⟩, hread, hrest⟩ <;> rw [hread] at hs
  · exact hs
  · dsimp only at hrest
    split at hrest
    · cases hrest
    · cases hrest
      exact (trimStart_suffix rest).trans hs

/-- The depth that the readers are given. -/
theorem depth_union_le (cs : List Char) : Symbol.union.depth cs ≤ 4 * cs.length + 4 :=
  Nat.add_le_add_left (by decide) _

theorem reason_of_read_error {cs : List Char} {failure : Failure} (h : read cs = .error failure) :
    failure.reason ≠ .tooDeep := by
  unfold read at h
  rcases bind_eq_error.1 h with hread | ⟨⟨s, rest⟩, -, hrest⟩
  · exact reason_ne_tooDeep (k := .union) (depth_union_le cs) hread
  · dsimp only at hrest
    split at hrest
    · cases hrest
    · cases hrest
      simp

theorem parse_eq_ok {input : String} {s : Signal} : parse input = .ok s ↔ read input.toList = .ok s := by
  unfold parse
  split <;> simp_all

theorem parse_eq_error {input : String} {e : ParseError} (h : parse input = .error e) :
    ∃ failure, read input.toList = .error failure ∧ e.reason = failure.reason ∧
      e.offset = byteLength input.toList - byteLength failure.rest := by
  unfold parse at h
  split at h
  · cases h
  · rename_i failure hread
    cases h
    exact ⟨failure, hread, rfl, rfl⟩

theorem offset_of_parse_error {input : String} {e : ParseError} (h : parse input = .error e) :
    e.offset ≤ input.utf8ByteSize ∧ (String.Pos.Raw.mk e.offset).IsValid input := by
  obtain ⟨failure, hread, -, hoffset⟩ := parse_eq_error h
  obtain ⟨before, hbefore⟩ := suffix_of_read_error hread
  rw [← hbefore, byteLength_append, Nat.add_sub_cancel] at hoffset
  have hinput : String.ofList (before ++ failure.rest) = input := by rw [hbefore, String.ofList_toList]
  rw [hoffset, ← hinput]
  refine ⟨?_, isValid_byteLength before failure.rest⟩
  rw [utf8ByteSize_ofList, byteLength_append]
  exact Nat.le_add_right _ _

theorem reason_of_parse_error {input : String} {e : ParseError} (h : parse input = .error e) : e.reason ≠ .tooDeep := by
  obtain ⟨failure, hread, hreason, -⟩ := parse_eq_error h
  rw [hreason]
  exact reason_of_read_error hread

/-- A text is read as a signal just if it derives the signal; it has one derivation at most. Where reading fails, it
is by the text, between two characters of it, and never by the bound on the depth of the readers: that bound is not
spent, and a greater one changes nothing, so that reading ends of itself. -/
theorem parse_iff_derives (input : String) :
    (∀ s, parse input = .ok s ↔ ∃ d : Derivation, d.text = input.toList ∧ d.signal = s) ∧
      (∀ d d' : Derivation, d.text = input.toList → d'.text = input.toList → d = d') ∧
      (∀ e, parse input = .error e →
        e.reason ≠ .tooDeep ∧ e.offset ≤ input.utf8ByteSize ∧ (String.Pos.Raw.mk e.offset).IsValid input) ∧
      (∀ fuel ≥ 4 * input.toList.length + 4,
        readUnion fuel input.toList = readUnion (4 * input.toList.length + 4) input.toList) := by
  refine ⟨fun s => parse_eq_ok.trans read_eq_ok, fun d d' hd hd' => Derivation.text_injective (hd.trans hd'.symm),
    fun e he => ⟨reason_of_parse_error he, offset_of_parse_error he⟩, fun fuel hfuel => ?_⟩
  have hdepth := depth_union_le input.toList
  exact (read_eq_of_depth_le (k := .union) (hdepth.trans hfuel)).trans (read_eq_of_depth_le (k := .union) hdepth).symm

/-- A nullable name is read behind a blank. Arguments that do not come are missed behind the two bytes of a letter
and the one of the angle. -/
theorem parse_nullable_and_open_arguments :
    parse " ?a" = .ok (.nullable (.named "a")) ∧
      ∃ e, parse "é<" = .error e ∧ e.offset = 3 ∧ (String.Pos.Raw.mk e.offset).IsValid "é<" := by
  have hopen : parse "é<" = .error ⟨"é<", 3, .missingName⟩ := by rfl
  refine ⟨((parse_iff_derives " ?a").1 _).2 ?_, _, hopen, rfl, ((parse_iff_derives "é<").2.2.1 _ hopen).2.2⟩
  have hblank : ∀ c ∈ [' '], isBlank c = true := by simp [isBlank]
  have hname : ∀ c ∈ ['a'], isNameChar c = true := by simp [isNameChar, isAlphanumeric]
  refine ⟨⟨.union (.nullable ⟨[' '], hblank⟩ (.plain (.name ⟨[], by simp⟩ ⟨['a'], by simp, hname⟩) [])) .noMore,
    ⟨[], by simp⟩⟩, ?_, ?_⟩ <;> rfl

end EntityScript.Signal
