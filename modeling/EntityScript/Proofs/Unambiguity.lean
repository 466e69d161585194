import EntityScript.Proofs.Grammar
/-!
# One derivation at most

A text has one derivation at most: what stands first in a phrase decides its production, and what follows a phrase
never continues it.
-/

namespace EntityScript.Signal

open Text

theorem mark_inj {g g' : Gap} {c c' : Char} {cs cs' : List Char} (hc : isBlank c = false) (hc' : isBlank c' = false)
    (h : g.mark c ++ cs = g'.mark c' ++ cs') : g = g' ∧ c = c' ∧ cs = cs' := by
  have hrest := congrArg trimStart h
  rw [trimStart_mark g hc, trimStart_mark g' hc', List.cons.injEq] at hrest
  obtain ⟨rfl, rfl⟩ := hrest
  simp only [Gap.mark, List.append_assoc, List.append_cancel_right_eq] at h
  exact ⟨Gap.ext h, rfl, rfl⟩

theorem name_inj {g g' : Gap} {n n' : NameText} {cs cs' : List Char} (hc : ∀ c ∈ cs.head?, isNameChar c = false)
    (hc' : ∀ c ∈ cs'.head?, isNameChar c = false)
    (h : g.blanks ++ (n.chars ++ cs) = g'.blanks ++ (n'.chars ++ cs')) : g = g' ∧ n = n' ∧ cs = cs' := by
  have hname := congrArg trimStart h
  rw [trimStart_name, trimStart_name] at hname
  have htake := congrArg (List.takeWhile isNameChar) hname
  have hdrop := congrArg (List.dropWhile isNameChar) hname
  rw [Text.takeWhile_run n.nameChar hc, Text.takeWhile_run n'.nameChar hc'] at htake
  rw [Text.dropWhile_run n.nameChar hc, Text.dropWhile_run n'.nameChar hc'] at hdrop
  obtain rfl := NameText.ext htake
  subst hdrop
  simp only [List.append_cancel_right_eq] at h
  exact ⟨Gap.ext h, rfl, rfl⟩

theorem head_of_mark {c : Char} (g : Gap) (h : isNameChar c = false) (cs : List Char) :
    ∀ d ∈ (g.mark c ++ cs).head?, isNameChar d = false := by
  intro d hd
  cases hg : g.blanks with
  | nil =>
    obtain rfl : c = d := by simpa [Gap.mark, hg] using hd
    exact h
  | cons b bs =>
    obtain rfl : b = d := by simpa [Gap.mark, hg] using hd
    by_contra hn
    rw [Bool.not_eq_false] at hn
    have hb := g.blank b (by simp [hg])
    rw [isBlank_of_nameChar hn] at hb
    cases hb

theorem mark_ne_name {g g' : Gap} {c : Char} {n : NameText} {cs cs' : List Char} (hb : isBlank c = false)
    (hc : isNameChar c = false) : g.mark c ++ cs ≠ g'.blanks ++ (n.chars ++ cs') := by
  intro h
  have hname := congrArg trimStart h
  rw [trimStart_mark g hb, trimStart_name] at hname
  obtain ⟨d, chars, hn⟩ := List.exists_cons_of_ne_nil n.nonempty
  rw [hn, List.cons_append, List.cons.injEq] at hname
  have hd := n.nameChar d (by simp [hn])
  rw [← hname.1, hc] at hd
  cases hd

theorem not_ends_mark {k : Symbol} {g : Gap} {c : Char} {cs : List Char} (hk : k ≠ .fields) (hb : isBlank c = false)
    (hc : c ∉ k.followers) : ¬ Ends k (g.mark c ++ cs) := by
  intro h
  refine hc (h.resolve_left hk c ?_)
  rw [next?, trimStart_mark g hb]
  rfl

theorem brackets_inj {gs gs' : List Gap} {rest rest' : List Char} (h : Ends .item rest) (h' : Ends .item rest')
    (heq : bracketsText gs ++ rest = bracketsText gs' ++ rest') : gs = gs' ∧ rest = rest' := by
  induction gs generalizing gs' with
  | nil =>
    cases gs' with
    | nil => exact ⟨rfl, heq⟩
    | cons g' gs' =>
      rw [bracketsText_cons] at heq
      obtain rfl : rest = _ := heq
      exact absurd h (not_ends_mark (by simp) (by decide) (by decide))
  | cons g gs ih =>
    cases gs' with
    | nil =>
      rw [bracketsText_cons] at heq
      obtain rfl : _ = rest' := heq
      exact absurd h' (not_ends_mark (by simp) (by decide) (by decide))
    | cons g' gs' =>
      rw [bracketsText_cons, bracketsText_cons] at heq
      obtain ⟨rfl, -, htail⟩ := mark_inj (by decide) (by decide) heq
      obtain ⟨rfl, rfl⟩ := ih (List.cons.inj htail).2
      exact ⟨rfl, rfl⟩

theorem ListName.ext_chars {n n' : ListName} (h : n.toNameText = n'.toNameText) : n = n' := by
  cases n
  cases n'
  simpa using h

theorem ListName.ne_other (n : ListName) (n' : OtherName) : n.toNameText ≠ n'.toNameText := by
  intro h
  have hlist := n.isList
  rw [h, n'.isOther] at hlist
  cases hlist

theorem OtherName.ext_chars {n n' : OtherName} (h : n.toNameText = n'.toNameText) : n = n' := by
  cases n
  cases n'
  simpa using h

theorem head_inj {d d' : FieldHead} {cs cs' : List Char} (heq : d.text ++ cs = d'.text ++ cs') :
    d = d' ∧ cs = cs' := by
  obtain ⟨before, key, mark, colon⟩ := d
  obtain ⟨before', key', mark', colon'⟩ := d'
  simp only [FieldHead.text, List.append_assoc] at heq
  have hend (mark : Option Gap) (colon : Gap) (cs : List Char) :
      ∀ c ∈ (mark.elim [] (·.mark '?') ++ (colon.mark ':' ++ cs)).head?, isNameChar c = false := by
    cases mark with
    | none => exact head_of_mark colon (by decide) cs
    | some g => exact head_of_mark g (by decide) _
  obtain ⟨rfl, rfl, hmark⟩ := name_inj (hend mark colon cs) (hend mark' colon' cs') heq
  cases mark <;> cases mark' <;> simp only [Option.elim, List.nil_append] at hmark
  · obtain ⟨rfl, -, rfl⟩ := mark_inj (by decide) (by decide) hmark
    exact ⟨rfl, rfl⟩
  · obtain ⟨-, hc, -⟩ := mark_inj (by decide) (by decide) hmark
    exact absurd hc (by decide)
  · obtain ⟨-, hc, -⟩ := mark_inj (by decide) (by decide) hmark
    exact absurd hc (by decide)
  · obtain ⟨rfl, -, hcolon⟩ := mark_inj (by decide) (by decide) hmark
    obtain ⟨rfl, -, rfl⟩ := mark_inj (by decide) (by decide) hcolon
    exact ⟨rfl, rfl⟩

/-- What stands in front of a primary and decides its production, but for the arguments of a list. -/
inductive Front
  | parenthesis (opening : Gap)
  | bare (before : Gap) (n : NameText)
  | opened (before : Gap) (n : NameText) (opening : Gap) (mark : Char)

namespace Front

def text : Front → List Char
  | parenthesis opening => opening.mark '('
  | bare before n => before.blanks ++ n.chars
  | opened before n opening mark => before.blanks ++ n.chars ++ opening.mark mark

/-- Whether a front is that of a primary that goes on so. -/
def Fits (rest : List Char) : Front → Prop
  | parenthesis _ => True
  | bare _ _ => Ends .primary rest
  | opened _ _ _ mark => mark = '\x7b' ∨ mark = '<'

theorem inj {f f' : Front} {cs cs' : List Char} (h : f.Fits cs) (h' : f'.Fits cs') (heq : f.text ++ cs = f'.text ++ cs') :
    f = f' ∧ cs = cs' := by
  have hopening {c : Char} (hc : c = '\x7b' ∨ c = '<') :
      isBlank c = false ∧ isNameChar c = false ∧ c ∉ Symbol.primary.followers := by
    rcases hc with rfl | rfl <;> decide
  cases f <;> cases f' <;> simp only [text, List.append_assoc] at heq
  case parenthesis.parenthesis =>
    obtain ⟨rfl, -, rfl⟩ := mark_inj (by decide) (by decide) heq
    exact ⟨rfl, rfl⟩
  case bare.bare =>
    obtain ⟨rfl, rfl, rfl⟩ := name_inj (head_of_ends h) (head_of_ends h') heq
    exact ⟨rfl, rfl⟩
  case opened.opened =>
    obtain ⟨rfl, rfl, hmark⟩ := name_inj (head_of_mark _ (hopening h).2.1 _) (head_of_mark _ (hopening h').2.1 _) heq
    obtain ⟨rfl, rfl, rfl⟩ := mark_inj (hopening h).1 (hopening h').1 hmark
    exact ⟨rfl, rfl⟩
  case bare.opened =>
    obtain ⟨-, -, rfl⟩ := name_inj (head_of_ends h) (head_of_mark _ (hopening h').2.1 _) heq
    exact absurd h (not_ends_mark (by simp) (hopening h').1 (hopening h').2.2)
  case opened.bare =>
    obtain ⟨-, -, rfl⟩ := name_inj (head_of_mark _ (hopening h).2.1 _) (head_of_ends h') heq
    exact absurd h' (not_ends_mark (by simp) (hopening h).1 (hopening h).2.2)
  case parenthesis.bare | parenthesis.opened =>
    exact absurd heq (mark_ne_name (by decide) (by decide))
  case bare.parenthesis | opened.parenthesis =>
    exact absurd heq.symm (mark_ne_name (by decide) (by decide))

end Front

namespace Phrase

def front : Phrase .primary → Front
  | parenthesized opening _ _ => .parenthesis opening
  | name before n => .bare before n
  | shape before n opening _ => .opened before n.toNameText opening '\x7b'
  | list before n opening _ _ => .opened before n.toNameText opening '<'
  | map before n opening _ _ _ _ => .opened before n.toNameText opening '<'
  | generic before n opening _ _ => .opened before n.toNameText opening '<'

/-- The text of a primary behind its front. -/
def inside : Phrase .primary → List Char
  | parenthesized _ inner closing => inner.text ++ closing.mark ')'
  | name _ _ => []
  | shape _ _ _ fields => fields.text
  | list _ _ _ value closing => value.text ++ closing.mark '>'
  | map _ _ _ key gap value closing => key.text ++ gap.mark ',' ++ value.text ++ closing.mark '>'
  | generic _ _ _ args closing => args.text ++ closing.mark '>'

theorem text_front (d : Phrase .primary) : d.text = d.front.text ++ d.inside := by
  cases d <;> simp [text, front, inside, Front.text]

theorem fits_front (d : Phrase .primary) {rest : List Char} (h : Ends .primary rest) :
    d.front.Fits (d.inside ++ rest) := by
  cases d with
  | parenthesized => trivial
  | name => exact h
  | shape => exact .inl rfl
  | list | map | generic => exact .inr rfl

theorem front_inj {d d' : Phrase .primary} {rest rest' : List Char} (h : Ends .primary rest) (h' : Ends .primary rest')
    (heq : d.text ++ rest = d'.text ++ rest') : d.front = d'.front ∧ d.inside ++ rest = d'.inside ++ rest' := by
  rw [text_front d, text_front d', List.append_assoc, List.append_assoc] at heq
  exact Front.inj (d.fits_front h) (d'.fits_front h') heq

theorem nullable_ne_plain {g : Gap} {cs rest : List Char} {primary : Phrase .primary} :
    g.mark '?' ++ cs ≠ primary.text ++ rest := by
  intro heq
  rw [text_front, List.append_assoc] at heq
  cases hf : primary.front <;> simp only [hf, Front.text, List.append_assoc] at heq
  case parenthesis =>
    obtain ⟨-, hc, -⟩ := mark_inj (by decide) (by decide) heq
    exact absurd hc (by decide)
  case bare | opened => exact mark_ne_name (by decide) (by decide) heq

/-- Whether a text that starts with this phrase, and goes on with what leaves it as it is, starts with no other
phrase of its symbol. -/
def Determined {k : Symbol} (d : Phrase k) : Prop :=
  ∀ (d' : Phrase k) {rest rest' : List Char}, Ends k rest → Ends k rest' → d.text ++ rest = d'.text ++ rest' →
    d = d' ∧ rest = rest'

namespace Determined

/-- A phrase before a mark is determined, and so is the mark. -/
theorem marked {k : Symbol} {d d' : Phrase k} (h : d.Determined) {g g' : Gap} {c c' : Char} {cs cs' : List Char}
    (hc : c ∈ k.followers) (hc' : c' ∈ k.followers)
    (heq : d.text ++ (g.mark c ++ cs) = d'.text ++ (g'.mark c' ++ cs')) : d = d' ∧ g = g' ∧ c = c' ∧ cs = cs' := by
  obtain ⟨hd, hrest⟩ := h d' (ends_mark g (k.isBlank_of_follower c hc) hc _)
    (ends_mark g' (k.isBlank_of_follower c' hc') hc' _) heq
  exact ⟨hd, mark_inj (k.isBlank_of_follower c hc) (k.isBlank_of_follower c' hc') hrest⟩

variable {first item inner : Phrase .item} {more : Phrase .alternatives} {unit type : Phrase .union}
  {args : Phrase .arguments} {fields : Phrase .fields} {primary : Phrase .primary} {before opening gap closing : Gap}

theorem union (hf : first.Determined) (hm : more.Determined) : (Phrase.union first more).Determined := by
  intro d' rest rest' h h' heq
  cases d' with
  | union first' more' =>
    simp only [text, List.append_assoc] at heq
    have hr : Ends .alternatives rest := h.of_subset (by simp) (by decide)
    have hr' : Ends .alternatives rest' := h'.of_subset (by simp) (by decide)
    obtain ⟨rfl, htail⟩ := hf first' (ends_alternatives more hr) (ends_alternatives more' hr') heq
    obtain ⟨rfl, rfl⟩ := hm more' hr hr' htail
    exact ⟨rfl, rfl⟩

theorem noMore : Phrase.noMore.Determined := by
  intro d' rest rest' h h' heq
  cases d' with
  | noMore => exact ⟨rfl, heq⟩
  | bar gap' item' more' =>
    simp only [text, List.append_assoc, List.nil_append] at heq
    subst heq
    exact absurd h (not_ends_mark (by simp) (by decide) (by decide))

theorem bar (hi : item.Determined) (hm : more.Determined) : (Phrase.bar gap item more).Determined := by
  intro d' rest rest' h h' heq
  cases d' with
  | noMore =>
    simp only [text, List.append_assoc, List.nil_append] at heq
    subst heq
    exact absurd h' (not_ends_mark (by simp) (by decide) (by decide))
  | bar gap' item' more' =>
    simp only [text, List.append_assoc] at heq
    obtain ⟨rfl, -, hitem⟩ := mark_inj (by decide) (by decide) heq
    obtain ⟨rfl, htail⟩ := hi item' (ends_alternatives more h) (ends_alternatives more' h') hitem
    obtain ⟨rfl, rfl⟩ := hm more' h h' htail
    exact ⟨rfl, rfl⟩

theorem nullable (hi : inner.Determined) : (Phrase.nullable gap inner).Determined := by
  intro d' rest rest' h h' heq
  cases d' with
  | nullable mark' inner' =>
    simp only [text, List.append_assoc] at heq
    obtain ⟨rfl, -, hinner⟩ := mark_inj (by decide) (by decide) heq
    obtain ⟨rfl, rfl⟩ := hi inner' h h' hinner
    exact ⟨rfl, rfl⟩
  | plain primary' brackets' =>
    simp only [text, List.append_assoc] at heq
    exact absurd heq nullable_ne_plain

theorem plain (hp : primary.Determined) (brackets : List Gap) : (Phrase.plain primary brackets).Determined := by
  intro d' rest rest' h h' heq
  simp only [text, List.append_assoc] at heq
  cases d' with
  | nullable mark' inner' =>
    simp only [text, List.append_assoc] at heq
    exact absurd heq.symm nullable_ne_plain
  | plain primary' brackets' =>
    simp only [text, List.append_assoc] at heq
    obtain ⟨rfl, htail⟩ := hp primary' (ends_brackets brackets h) (ends_brackets brackets' h') heq
    obtain ⟨rfl, rfl⟩ := brackets_inj h h' htail
    exact ⟨rfl, rfl⟩

theorem parenthesized (hu : unit.Determined) : (Phrase.parenthesized opening unit closing).Determined := by
  intro d' rest rest' h h' heq
  obtain ⟨hfront, hinside⟩ := front_inj h h' heq
  cases d' with
  | parenthesized opening' inner' closing' =>
    obtain rfl := Front.parenthesis.inj hfront
    simp only [inside, List.append_assoc] at hinside
    obtain ⟨rfl, rfl, -, rfl⟩ := hu.marked (by decide) (by decide) hinside
    exact ⟨rfl, rfl⟩
  | _ => cases hfront

theorem name (n : NameText) : (Phrase.name before n).Determined := by
  intro d' rest rest' h h' heq
  obtain ⟨hfront, hinside⟩ := front_inj h h' heq
  cases d' with
  | name before' n' =>
    obtain ⟨rfl, rfl⟩ := Front.bare.inj hfront
    exact ⟨rfl, hinside⟩
  | _ => cases hfront

theorem shape (n : ListName) (hf : fields.Determined) : (Phrase.shape before n opening fields).Determined := by
  intro d' rest rest' h h' heq
  obtain ⟨hfront, hinside⟩ := front_inj h h' heq
  cases d' with
  | shape before' n' opening' fields' =>
    obtain ⟨rfl, hn, rfl, -⟩ := Front.opened.inj hfront
    obtain rfl := ListName.ext_chars hn
    obtain ⟨rfl, rfl⟩ := hf fields' (.inl rfl) (.inl rfl) hinside
    exact ⟨rfl, rfl⟩
  | _ => simp [front] at hfront

theorem list (n : ListName) (hv : unit.Determined) : (Phrase.list before n opening unit closing).Determined := by
  intro d' rest rest' h h' heq
  obtain ⟨hfront, hinside⟩ := front_inj h h' heq
  cases d' with
  | list before' n' opening' value' closing' =>
    obtain ⟨rfl, hn, rfl, -⟩ := Front.opened.inj hfront
    obtain rfl := ListName.ext_chars hn
    simp only [inside, List.append_assoc] at hinside
    obtain ⟨rfl, rfl, -, rfl⟩ := hv.marked (by decide) (by decide) hinside
    exact ⟨rfl, rfl⟩
  | map before' n' opening' key' gap' value' closing' =>
    simp only [inside, List.append_assoc] at hinside
    obtain ⟨-, -, hc, -⟩ := hv.marked (by decide) (by decide) hinside
    exact absurd hc (by decide)
  | generic before' n' => exact absurd (Front.opened.inj hfront).2.1 (ListName.ne_other n n')
  | _ => simp [front] at hfront

theorem map (n : ListName) (hk : unit.Determined) (hv : type.Determined) :
    (Phrase.map before n opening unit gap type closing).Determined := by
  intro d' rest rest' h h' heq
  obtain ⟨hfront, hinside⟩ := front_inj h h' heq
  cases d' with
  | list before' n' opening' value' closing' =>
    simp only [inside, List.append_assoc] at hinside
    obtain ⟨-, -, hc, -⟩ := hk.marked (by decide) (by decide) hinside
    exact absurd hc (by decide)
  | map before' n' opening' key' gap' value' closing' =>
    obtain ⟨rfl, hn, rfl, -⟩ := Front.opened.inj hfront
    obtain rfl := ListName.ext_chars hn
    simp only [inside, List.append_assoc] at hinside
    obtain ⟨rfl, rfl, -, hvalue⟩ := hk.marked (by decide) (by decide) hinside
    obtain ⟨rfl, rfl, -, rfl⟩ := hv.marked (by decide) (by decide) hvalue
    exact ⟨rfl, rfl⟩
  | generic before' n' => exact absurd (Front.opened.inj hfront).2.1 (ListName.ne_other n n')
  | _ => simp [front] at hfront

theorem generic (n : OtherName) (ha : args.Determined) : (Phrase.generic before n opening args closing).Determined := by
  intro d' rest rest' h h' heq
  obtain ⟨hfront, hinside⟩ := front_inj h h' heq
  cases d' with
  | list before' n' | map before' n' =>
    exact absurd (Front.opened.inj hfront).2.1.symm (ListName.ne_other n' n)
  | generic before' n' opening' args' closing' =>
    obtain ⟨rfl, hn, rfl, -⟩ := Front.opened.inj hfront
    obtain rfl := OtherName.ext_chars hn
    simp only [inside, List.append_assoc] at hinside
    obtain ⟨rfl, rfl, -, rfl⟩ := ha.marked (by decide) (by decide) hinside
    exact ⟨rfl, rfl⟩
  | _ => simp [front] at hfront

theorem argument (hl : unit.Determined) : (Phrase.argument unit).Determined := by
  intro d' rest rest' h h' heq
  have hr : Ends .union rest := h.of_subset (by simp) (by decide)
  cases d' with
  | argument last' =>
    obtain ⟨rfl, rfl⟩ := hl last' hr (h'.of_subset (by simp) (by decide)) heq
    exact ⟨rfl, rfl⟩
  | comma first' gap' more' =>
    simp only [text, List.append_assoc] at heq
    obtain ⟨-, rfl⟩ := hl first' hr (ends_mark gap' (by decide) (by decide) _) heq
    exact absurd h (not_ends_mark (by simp) (by decide) (by decide))

theorem comma (hf : unit.Determined) (hm : args.Determined) : (Phrase.comma unit gap args).Determined := by
  intro d' rest rest' h h' heq
  simp only [text, List.append_assoc] at heq
  cases d' with
  | argument last' =>
    obtain ⟨-, rfl⟩ := hf last' (ends_mark gap (by decide) (by decide) _) (h'.of_subset (by simp) (by decide)) heq
    exact absurd h' (not_ends_mark (by simp) (by decide) (by decide))
  | comma first' gap' more' =>
    simp only [text, List.append_assoc] at heq
    obtain ⟨rfl, rfl, -, hmore⟩ := hf.marked (by decide) (by decide) heq
    obtain ⟨rfl, rfl⟩ := hm more' h h' hmore
    exact ⟨rfl, rfl⟩

theorem noField : (Phrase.noField closing).Determined := by
  intro d' rest rest' h h' heq
  cases d' with
  | noField closing' =>
    obtain ⟨rfl, -, rfl⟩ := mark_inj (by decide) (by decide) heq
    exact ⟨rfl, rfl⟩
  | lastField | field =>
    simp only [text, FieldHead.text, List.append_assoc] at heq
    exact absurd heq (mark_ne_name (by decide) (by decide))

theorem lastField (head : FieldHead) (ht : type.Determined) : (Phrase.lastField head type closing).Determined := by
  intro d' rest rest' h h' heq
  simp only [text, List.append_assoc] at heq
  cases d' with
  | noField closing' =>
    simp only [text, FieldHead.text, List.append_assoc] at heq
    exact absurd heq.symm (mark_ne_name (by decide) (by decide))
  | lastField head' type' closing' =>
    simp only [text, List.append_assoc] at heq
    obtain ⟨rfl, htype⟩ := head_inj heq
    obtain ⟨rfl, rfl, -, rfl⟩ := ht.marked (by decide) (by decide) htype
    exact ⟨rfl, rfl⟩
  | field head' type' gap' more' =>
    simp only [text, List.append_assoc] at heq
    obtain ⟨-, -, hc, -⟩ := ht.marked (by decide) (by decide) (head_inj heq).2
    exact absurd hc (by decide)

theorem field (head : FieldHead) (ht : type.Determined) (hm : fields.Determined) :
    (Phrase.field head type gap fields).Determined := by
  intro d' rest rest' h h' heq
  simp only [text, List.append_assoc] at heq
  cases d' with
  | noField closing' =>
    simp only [text, FieldHead.text, List.append_assoc] at heq
    exact absurd heq.symm (mark_ne_name (by decide) (by decide))
  | lastField head' type' closing' =>
    simp only [text, List.append_assoc] at heq
    obtain ⟨-, -, hc, -⟩ := ht.marked (by decide) (by decide) (head_inj heq).2
    exact absurd hc (by decide)
  | field head' type' gap' more' =>
    simp only [text, List.append_assoc] at heq
    obtain ⟨rfl, htype⟩ := head_inj heq
    obtain ⟨rfl, rfl, -, hmore⟩ := ht.marked (by decide) (by decide) htype
    obtain ⟨rfl, rfl⟩ := hm more' (.inl rfl) (.inl rfl) hmore
    exact ⟨rfl, rfl⟩

end Determined

theorem determined {k : Symbol} (d : Phrase k) : d.Determined := by
  induction d with
  | union _ _ hf hm => exact hf.union hm
  | noMore => exact .noMore
  | bar _ _ _ hi hm => exact hi.bar hm
  | nullable _ _ hi => exact hi.nullable
  | plain _ brackets hp => exact hp.plain brackets
  | parenthesized _ _ _ hu => exact hu.parenthesized
  | name _ n => exact .name n
  | shape _ n _ _ hf => exact hf.shape n
  | list _ n _ _ _ hv => exact hv.list n
  | map _ n _ _ _ _ _ hk hv => exact hk.map n hv
  | generic _ n _ _ _ ha => exact ha.generic n
  | argument _ hl => exact hl.argument
  | comma _ _ _ hf hm => exact hf.comma hm
  | noField => exact .noField
  | lastField head _ _ ht => exact ht.lastField head
  | field head _ _ _ ht hm => exact ht.field head hm

end Phrase

/-- A text has one derivation at most. -/
theorem Derivation.text_injective : Function.Injective Derivation.text := by
  intro d d' heq
  obtain ⟨hu, ht⟩ := d.union.determined d'.union (ends_gap _ _) (ends_gap _ _) heq
  exact Derivation.ext hu (Gap.ext ht)

end EntityScript.Signal
