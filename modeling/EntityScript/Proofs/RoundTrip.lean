import Mathlib.Algebra.GroupWithZero.Nat
import Mathlib.Logic.Function.Iterate
import EntityScript.Proofs.Layout
import EntityScript.Proofs.Occurrence
/-!
# Hand-written regions survive

The comments of regions never overlap, so a comment that appears in a file stands in what is
generated or in what is hand-written, never across the edge of a slot. Where neither has one of its
own, each region is read back as it was written, and writing it again changes nothing.
-/

namespace EntityScript

open Text

/-! ## Comments -/

namespace Region

/-- The comments that open and close a region. -/
def comments (r : Region) : List (List Char) :=
  [r.opening.toList, r.closing.toList]

/-- The comments of every region. -/
def sentinels : List (List Char) :=
  all.flatMap comments

theorem opening_mem (r : Region) : r.opening.toList ∈ r.comments := by simp [comments]

theorem closing_mem (r : Region) : r.closing.toList ∈ r.comments := by simp [comments]

theorem mem_sentinels {r : Region} {s : List Char} (h : s ∈ r.comments) : s ∈ sentinels :=
  List.mem_flatMap.2 ⟨r, by cases r <;> simp [all], h⟩

/-- A comment starts with two slashes. After its first character no two slashes stand together, and
the last character is none. -/
theorem slashes {s : List Char} (hs : s ∈ sentinels) :
    (∃ u, s = '/' :: '/' :: u) ∧ ∀ t, t <:+ s.tail → ¬ ['/', '/'] <+: t ∧ t ≠ ['/'] := by
  have h : ∀ s ∈ sentinels, s = '/' :: '/' :: s.drop 2 ∧ ∀ t ∈ s.tail.tails, ¬ ['/', '/'] <+: t ∧ t ≠ ['/'] := by
    decide +kernel
  exact ⟨⟨_, (h s hs).1⟩, fun t ht => (h s hs).2 t ((List.mem_tails t _).2 ht)⟩

theorem apart_sentinels : Apart sentinels where
  ne_nil s hs := by obtain ⟨⟨u, rfl⟩, -⟩ := slashes hs; simp
  eq_of_prefix := by decide +kernel
  no_overlap s hs m hm t ht hne hp := by
    obtain ⟨⟨u, rfl⟩, hs⟩ := slashes hs
    obtain ⟨⟨v, rfl⟩, -⟩ := slashes hm
    obtain ⟨h2, h1⟩ := hs t ((List.suffix_cons_iff.1 ht).resolve_left hp)
    refine ⟨fun h => ?_, fun h => h2 (List.IsPrefix.trans ⟨v, rfl⟩ h)⟩
    obtain ⟨c, t, rfl⟩ := List.exists_cons_of_ne_nil hne
    obtain ⟨rfl, htail⟩ := List.cons_prefix_cons.1 h
    cases t with
    | nil => exact h1 rfl
    | cons d t =>
      obtain ⟨rfl, -⟩ := List.cons_prefix_cons.1 htail
      exact h2 ⟨t, rfl⟩

/-- A comment is that of one region. -/
theorem count_comments (r q : Region) {s : List Char} (hs : s ∈ r.comments) :
    q.comments.count s = if q = r then 1 else 0 := by
  have h : ∀ r ∈ all, ∀ q ∈ all, ∀ s ∈ r.comments, q.comments.count s = if q = r then 1 else 0 := by
    decide +kernel
  exact h r (by cases r <;> simp [all]) q (by cases q <;> simp [all]) s hs

theorem slash_not_mem_copies {s : String} (h : '/' ∉ s.toList) (n : Nat) : '/' ∉ (copies s n).toList := by
  induction n with
  | zero => simp [copies]
  | succ n ih => simp [copies, h, ih]

/-- An empty region holds no comment. -/
theorem occurrences_blank (r : Region) (ctx : Context) {s : List Char} (hs : s ∈ sentinels) :
    occurrences s (r.blank ctx).toList = 0 := by
  obtain ⟨⟨u, rfl⟩, -⟩ := slashes hs
  have hu : '/' ∉ ctx.options.indent.unit.toList := by
    cases ctx.options.indent with
    | spaces n => exact slash_not_mem_copies (by decide) n
    | tab => decide
  refine occurrences_eq_zero ?_
  cases r <;> simp [blank, closeIndent, hu]

end Region

/-! ## Comments in a layout -/

namespace Layout

variable {r : Region} {s : List Char} {fill : Region → List Char}

/-- No comment stands across what comes before a slot and its opening. -/
theorem occurrences_append_fillSlots (hs : s ∈ Region.sentinels) (before : List Char)
    (slots : List (Region × List Char)) :
    occurrences s (before ++ fillSlots fill slots) = occurrences s before + occurrences s (fillSlots fill slots) := by
  cases slots with
  | nil => simp [fillSlots, occurrences]
  | cons p slots => exact Region.apart_sentinels.occurrences_cut hs (Region.mem_sentinels p.1.opening_mem)

/-- A comment stands in filled slots where it opens or closes one, in what fills them and in what
stands after them. -/
theorem occurrences_fillSlots (hs : s ∈ r.comments) (slots : List (Region × List Char)) :
    occurrences s (fillSlots fill slots) = (slots.map (·.1)).count r +
      (slots.map fun p => occurrences s (fill p.1) + occurrences s p.2).sum := by
  induction slots with
  | nil => rfl
  | cons p slots ih =>
    obtain ⟨q, after⟩ := p
    have hw := Region.apart_sentinels
    have hm := Region.mem_sentinels hs
    have hc := Region.count_comments r q hs
    rw [fillSlots, hw.occurrences_start hm (Region.mem_sentinels q.opening_mem),
      hw.occurrences_cut hm (Region.mem_sentinels q.closing_mem),
      hw.occurrences_start hm (Region.mem_sentinels q.closing_mem), occurrences_append_fillSlots hm, ih]
    simp only [Region.comments, List.count_cons, List.count_nil, beq_iff_eq, Nat.zero_add] at hc
    simp only [List.map_cons, List.count_cons, List.sum_cons, beq_iff_eq, eq_comm (a := s)]
    omega

/-! ## Layouts without comments of their own -/

/-- What is generated around the slots holds no comment. -/
def Clean (l : Layout) : Prop :=
  ∀ s ∈ Region.sentinels, occurrences s l.head = 0 ∧ ∀ p ∈ l.slots, occurrences s p.2 = 0

theorem clean_of_occurrences {l : Layout} (fill : Region → List Char)
    (h : ∀ r, ∀ s ∈ r.comments, occurrences s (l.text fill) = l.regions.count r) : l.Clean := by
  intro s hm
  obtain ⟨r, -, hs⟩ := List.mem_flatMap.1 hm
  have heq := h r s hs
  rw [text, occurrences_append_fillSlots hm, occurrences_fillSlots hs, regions] at heq
  have hz : (l.slots.map fun p => occurrences s (fill p.1) + occurrences s p.2).sum = 0 := by omega
  refine ⟨by omega, fun p hp => ?_⟩
  have := List.sum_eq_zero_iff_forall_eq_nat.1 hz _ (List.mem_map_of_mem hp)
  omega

theorem fillSlots_append (fill : Region → List Char) (slots more : List (Region × List Char)) :
    fillSlots fill (slots ++ more) = fillSlots fill slots ++ fillSlots fill more := by
  induction slots with
  | nil => rfl
  | cons p slots ih => simp [fillSlots, ih]

/-- A region that stands once in a clean layout is read back from it. -/
theorem extract?_text {l : Layout} (hl : l.Clean) (hn : l.regions.Nodup) (hr : r ∈ l.regions)
    (hf : ∀ q ∈ l.regions, ∀ s ∈ Region.sentinels, occurrences s (fill q) = 0) {text : String}
    (ht : text.toList = l.text fill) : r.extract? text = some (String.ofList (fill r)) := by
  obtain ⟨p, hp, rfl⟩ := List.mem_map.1 hr
  obtain ⟨pre, post, hsplit⟩ := List.append_of_mem hp
  obtain ⟨r, after⟩ := p
  have hw := Region.apart_sentinels
  have ho := Region.mem_sentinels r.opening_mem
  have hc := Region.mem_sentinels r.closing_mem
  rw [Layout.text, hsplit, fillSlots_append, ← List.append_assoc, fillSlots] at ht
  -- The region stands once, so no slot before it has its opening comment.
  have hbefore : occurrences r.opening.toList (l.head ++ fillSlots fill pre) = 0 := by
    have hpre : (pre.map (·.1)).count r = 0 := by
      simp only [regions, hsplit, List.map_append, List.map_cons] at hn
      exact List.count_eq_zero.2 fun h => (List.nodup_append.1 hn).2.2 r h r (by simp) rfl
    have hsum : (pre.map fun p => occurrences r.opening.toList (fill p.1) + occurrences r.opening.toList p.2).sum = 0 := by
      refine List.sum_eq_zero_iff_forall_eq_nat.2 fun n hn => ?_
      obtain ⟨p, hp, rfl⟩ := List.mem_map.1 hn
      have hp' : p ∈ l.slots := hsplit ▸ List.mem_append_left _ hp
      simp [hf p.1 (List.mem_map_of_mem hp') _ ho, (hl _ ho).2 p hp']
    rw [occurrences_append_fillSlots ho, (hl _ ho).1, occurrences_fillSlots r.opening_mem, hpre, hsum]
  rw [Region.extract?, ht, hw.cutAt?_cut ho hbefore]
  simp [hw.cutAt?_cut hc (hf r hr _ hc)]

end Layout

/-! ## Reading files back -/

namespace KeptRegions

theorem get?_set (k : KeptRegions) (r r' : Region) (content : String) :
    (k.set r content).get? r' = if r = r' then some content else k.get? r' := by
  cases r <;> cases r' <;> rfl

theorem get?_extract (text : String) (r : Region) : (extract text).get? r = r.extract? text := by
  have hstep (k : KeptRegions) (r' : Region) : (((r'.extract? text).map (k.set r')).getD k).get? r =
      if r' = r then (r.extract? text).or (k.get? r) else k.get? r := by
    by_cases heq : r' = r
    · subst heq
      cases r'.extract? text <;> simp [get?_set]
    · cases r'.extract? text <;> simp [get?_set, heq]
  have hempty : empty.get? r = none := by cases r <;> rfl
  simp only [extract, Region.all, List.foldl_cons, List.foldl_nil, hstep, hempty]
  cases r <;> simp

end KeptRegions

namespace Entity

theorem regions_nodup (e : Entity) : e.regions.Nodup := by
  unfold regions
  split <;> decide

/-- The file that takes over what is hand-written in a text. -/
def rewrite (e : Entity) (ctx : Context) (text : String) : String :=
  (e.withKept (.extract text)).render ctx

/-- Files with the same texts in their slots are the same. -/
theorem render_congr (e : Entity) (ctx : Context) {k k' : KeptRegions}
    (h : ∀ r ∈ e.regions, k.slot ctx r = k'.slot ctx r) :
    (e.withKept k).render ctx = (e.withKept k').render ctx := by
  apply String.toList_injective
  rw [toList_render, toList_render, layout_withKept, layout_withKept]
  unfold Layout.text
  congr 1
  refine Layout.fillSlots_congr fun r hr => congrArg _ (h r ?_)
  rwa [← layout_regions e ctx]

/-- Writing a file again with the regions that are read back from it changes nothing. -/
theorem rewrite_render {e : Entity} {ctx : Context}
    (h : ∀ r ∈ e.regions, r.extract? (e.render ctx) = some (e.kept.slot ctx r)) :
    e.rewrite ctx (e.render ctx) = e.render ctx := by
  show (e.withKept _).render ctx = (e.withKept e.kept).render ctx
  refine e.render_congr ctx fun r hr => ?_
  rw [KeptRegions.slot, KeptRegions.get?_extract, h r hr]
  rfl

/-- If the comments of the regions stand in the file with empty regions just where it opens and
closes them, and nothing hand-written holds one, then each region is read back as it was written, and
however often the file is written again from what is read back, it stays the same. -/
theorem regions_round_trip (e : Entity) (ctx : Context)
    (hkept : ∀ r content, e.kept.get? r = some content → ∀ s ∈ Region.sentinels, occurrences s content.toList = 0)
    (hblank : ∀ r, ∀ s ∈ r.comments, occurrences s ((e.withKept .empty).render ctx).toList =
      if r ∈ e.regions then 1 else 0) :
    (∀ r ∈ e.regions, (KeptRegions.extract (e.render ctx)).get? r =
      some ((e.kept.get? r).getD ("\n\n" ++ r.closeIndent ctx))) ∧
    ∀ n, (e.rewrite ctx)^[n] (e.render ctx) = e.render ctx := by
  have hclean : (e.layout ctx).Clean := by
    refine Layout.clean_of_occurrences (fun r => (KeptRegions.empty.slot ctx r).toList) fun r s hs => ?_
    have h := hblank r s hs
    rw [toList_render, layout_withKept] at h
    rw [layout_regions, e.regions_nodup.count]
    exact h
  have hread : ∀ r ∈ e.regions, r.extract? (e.render ctx) = some (e.kept.slot ctx r) := by
    intro r hr
    rw [← layout_regions e ctx] at hr
    have hn : (e.layout ctx).regions.Nodup := by rw [layout_regions]; exact e.regions_nodup
    rw [Layout.extract?_text hclean hn hr ?_ (e.toList_render ctx), String.ofList_toList]
    intro q _ s hs
    unfold KeptRegions.slot
    cases hq : e.kept.get? q with
    | some content => exact hkept q content hq s hs
    | none => exact q.occurrences_blank ctx hs
  refine ⟨fun r hr => ?_, fun n => Function.iterate_fixed (rewrite_render hread) n⟩
  rw [KeptRegions.get?_extract, hread r hr]
  rfl

/-- An enum with a hand-written text that ends in a comment which is not finished. -/
def unfinished : Entity :=
  ((bare "App" "Status" (.enumeration [])).insertMember (.constant "OPEN" "1")).withKept
    { code := some "\n// </non-auto-generated-code" }

theorem unfinished_round_trip :
    (KeptRegions.extract (unfinished.render (.regular {}))).get? .code = some "\n// </non-auto-generated-code" ∧
    (unfinished.rewrite (.regular {}))^[3] (unfinished.render (.regular {})) = unfinished.render (.regular {}) := by
  have h := regions_round_trip unfinished (.regular {})
    (by
      intro r content h
      cases r <;> simp only [unfinished, withKept, KeptRegions.get?, Option.some.injEq, reduceCtorEq] at h
      subst h
      decide +kernel)
    (by intro r; cases r <;> decide +kernel)
  exact ⟨h.1 .code (by decide), h.2 3⟩

end Entity

end EntityScript
