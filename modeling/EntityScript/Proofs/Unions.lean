import EntityScript.Proofs.PlainSignals
/-!
# Laws of unions

A union has the alternatives of its items, each where it first occurs, unless one of them is `any`, which then stands
alone. So it does not matter how items are grouped or how often one is repeated, and their order only shows in the
order of the alternatives.
-/

namespace EntityScript

open Text

namespace Text

variable {α : Type} [BEq α] [LawfulBEq α]

/-- Repetitions may be left out of any part first. -/
theorem distinct_append_distinct (front inner back : List α) :
    distinct (front ++ distinct inner ++ back) = distinct (front ++ inner ++ back) := by
  have hinner : distinct (front ++ distinct inner) = distinct (front ++ inner) := by
    rw [distinct_append, distinct_append, distinct_of_nodup (nodup_distinct inner)]
  have hsame (x : α) : (front ++ distinct inner).contains x = (front ++ inner).contains x := by
    rw [Bool.eq_iff_iff]
    simp
  rw [distinct_append (front ++ distinct inner), distinct_append (front ++ inner), hinner]
  simp only [hsame]

/-- What occurred before does not count. -/
theorem distinct_append_of_subset {front again : List α} (h : again ⊆ front) (back : List α) :
    distinct (front ++ again ++ back) = distinct (front ++ back) := by
  have hagain : distinct (front ++ again) = distinct front := by
    rw [distinct_append, List.filter_eq_nil_iff.2, List.append_nil]
    intro x hx
    simpa using h (mem_distinct.1 hx)
  have hsame (x : α) : (front ++ again).contains x = front.contains x := by
    rw [Bool.eq_iff_iff]
    simpa using @h x
  rw [distinct_append (front ++ again), hagain, distinct_append front]
  simp only [hsame]

end Text

namespace Signal

/-! ## United alternatives -/

section Unite

variable {ds ds' : List Descriptor}

/-- A descriptor named `any` absorbs the rest. -/
theorem uniteDescriptors_any (h : ∃ d ∈ ds, d.isAny = true) : uniteDescriptors ds = [.any] :=
  if_pos (List.any_eq_true.2 h)

theorem uniteDescriptors_distinct (h : ¬ ∃ d ∈ ds, d.isAny = true) : uniteDescriptors ds = distinct ds :=
  if_neg (List.any_eq_true.not.2 h)

theorem uniteDescriptors_congr (h : distinct ds = distinct ds') : uniteDescriptors ds = uniteDescriptors ds' := by
  have hmem (d : Descriptor) : d ∈ ds ↔ d ∈ ds' := by rw [← mem_distinct, h, mem_distinct]
  by_cases hany : ∃ d ∈ ds, d.isAny = true
  · rw [uniteDescriptors_any hany, uniteDescriptors_any (by simpa only [hmem] using hany)]
  · rw [uniteDescriptors_distinct hany, uniteDescriptors_distinct (by simpa only [hmem] using hany), h]

theorem uniteDescriptors_perm (h : ds.Perm ds') : (uniteDescriptors ds).Perm (uniteDescriptors ds') := by
  by_cases hany : ∃ d ∈ ds, d.isAny = true
  · rw [uniteDescriptors_any hany, uniteDescriptors_any (by simpa only [← h.mem_iff] using hany)]
  · rw [uniteDescriptors_distinct hany, uniteDescriptors_distinct (by simpa only [← h.mem_iff] using hany)]
    exact distinct_perm h

/-- Some alternatives may be united before the others come in. -/
theorem uniteDescriptors_append_unite (front inner back : List Descriptor) :
    uniteDescriptors (front ++ uniteDescriptors inner ++ back) = uniteDescriptors (front ++ inner ++ back) := by
  by_cases hany : ∃ d ∈ inner, d.isAny = true
  · obtain ⟨d, hd, hdany⟩ := hany
    rw [uniteDescriptors_any ⟨d, hd, hdany⟩, uniteDescriptors_any ⟨.any, by simp, rfl⟩,
      uniteDescriptors_any ⟨d, by simp [hd], hdany⟩]
  · rw [uniteDescriptors_distinct hany]
    exact uniteDescriptors_congr (distinct_append_distinct front inner back)

theorem uniteDescriptors_ne_nil (h : ds ≠ []) : uniteDescriptors ds ≠ [] := by
  unfold uniteDescriptors
  split
  · simp
  · obtain ⟨d, rest, rfl⟩ := List.exists_cons_of_ne_nil h
    simp [distinct]

/-- United alternatives have one named `any` only alone. -/
theorem uniteDescriptors_eq_singleton {d : Descriptor} (hd : d ∈ uniteDescriptors ds) (hany : d.isAny = true) :
    uniteDescriptors ds = [d] := by
  by_cases h : ∃ d ∈ ds, d.isAny = true
  · rw [uniteDescriptors_any h] at hd ⊢
    rw [List.mem_singleton.1 hd]
  · rw [uniteDescriptors_distinct h] at hd
    exact absurd ⟨d, mem_distinct.1 hd, hany⟩ h

end Unite

/-! ## Unions -/

variable (known : List String)

theorem resolve_union (items : List Signal) :
    resolve known (.union items) = uniteDescriptors (items.flatMap (resolve known)) := by
  rw [resolve, resolveAll_eq, List.flatMap_def]

theorem resolve_null : resolve known (.named "null") = [.undefined] := by
  have hscalar : scalars.lookup (lowerAscii (Name.base "null")) = some "undefined" := by decide +kernel
  simp only [resolve, nameType, hscalar]
  rfl

/-- A nullable is a union with null. -/
theorem resolve_nullable (s : Signal) : resolve known (.nullable s) = resolve known (.union [s, .named "null"]) := by
  rw [resolve, resolve_union, List.flatMap_cons, List.flatMap_singleton, resolve_null]

/-- A union in a union is its items. -/
theorem resolve_splice (front items back : List Signal) :
    resolve known (.union (front ++ .union items :: back)) = resolve known (.union (front ++ items ++ back)) := by
  simp only [resolve_union, List.flatMap_append, List.flatMap_cons]
  rw [← List.append_assoc, uniteDescriptors_append_unite]

/-- An item that is repeated later on adds nothing. -/
theorem resolve_repeat (front middle back : List Signal) (s : Signal) :
    resolve known (.union (front ++ s :: (middle ++ s :: back))) =
      resolve known (.union (front ++ s :: (middle ++ back))) := by
  have hsubset : resolve known s ⊆ (front ++ s :: middle).flatMap (resolve known) := by
    intro d hd
    exact List.mem_flatMap.2 ⟨s, by simp, hd⟩
  have h := distinct_append_of_subset hsubset (back.flatMap (resolve known))
  simp only [resolve_union]
  refine uniteDescriptors_congr ?_
  simpa [List.flatMap_append, List.flatMap_cons, List.append_assoc] using h

theorem resolve_nullable_nullable (s : Signal) :
    resolve known (.nullable (.nullable s)) = resolve known (.nullable s) := by
  have hsplice := resolve_splice known [] [s, .named "null"] [.named "null"]
  have hrepeat := resolve_repeat known [s] [] [] (.named "null")
  have hunion : resolve known (.union [.nullable s, .named "null"]) =
      resolve known (.union [.union [s, .named "null"], .named "null"]) := by
    simp only [resolve_union, List.flatMap_cons, resolve_nullable]
  rw [resolve_nullable, hunion, resolve_nullable]
  exact hsplice.trans hrepeat

variable {known}

/-- Where an alternative is named `any`, it is the only one. -/
theorem resolve_eq_singleton {s : Signal} (h : s.IsPlain) {d : Descriptor} (hd : d ∈ resolve known s)
    (hany : d.isAny = true) : resolve known s = [d] := by
  induction h generalizing d with
  | named | list | map | shape =>
    rw [resolve] at hd ⊢
    rw [List.mem_singleton.1 hd]
  | nullable | union =>
    rw [resolve] at hd ⊢
    exact uniteDescriptors_eq_singleton hd hany
  | @generic name args _ _ ih =>
    rw [resolve] at hd ⊢
    split
    · rename_i hc
      rw [if_pos hc, resolveAll_eq, List.getLast?_map] at hd
      rw [resolveAll_eq, List.getLast?_map]
      cases hlast : args.getLast? with
      | none =>
        rw [hlast] at hd
        rw [List.mem_singleton.1 hd]
        rfl
      | some element =>
        rw [hlast] at hd
        obtain ⟨d', hd', rfl⟩ := List.mem_map.1 hd
        show (resolve known element).map _ = _
        rw [ih element (List.mem_of_getLast? hlast) hd' hany]
        rfl
    · rename_i hc
      rw [if_neg hc] at hd
      rw [List.mem_singleton.1 hd]

theorem resolve_ne_nil {s : Signal} (h : s.IsPlain) : resolve known s ≠ [] := by
  induction h with
  | named | list | map | shape =>
    rw [resolve]
    simp
  | nullable =>
    rw [resolve]
    exact uniteDescriptors_ne_nil (by simp)
  | @union items hne _ ih =>
    rw [resolve_union]
    obtain ⟨s, rest, rfl⟩ := List.exists_cons_of_ne_nil hne
    exact uniteDescriptors_ne_nil (by simp [ih s List.mem_cons_self])
  | @generic name args _ _ ih =>
    rw [resolve]
    split
    · rw [resolveAll_eq, List.getLast?_map]
      cases hlast : args.getLast? with
      | none => simp
      | some element => simpa using ih element (List.mem_of_getLast? hlast)
    · simp

/-- The laws of unions. Items may be grouped, permuted and repeated, a nullable is a union with null, and `any` absorbs
the rest. What was read has alternatives, and one named `any` only alone. -/
theorem union_laws (known : List String) :
    (∀ front items back, resolve known (.union (front ++ .union items :: back)) =
      resolve known (.union (front ++ items ++ back))) ∧
    (∀ items items' : List Signal, items.Perm items' →
      (resolve known (.union items)).Perm (resolve known (.union items'))) ∧
    (∀ front middle back s, resolve known (.union (front ++ s :: (middle ++ s :: back))) =
      resolve known (.union (front ++ s :: (middle ++ back)))) ∧
    (∀ s, resolve known (.nullable s) = resolve known (.union [s, .named "null"])) ∧
    (∀ s, resolve known (.nullable (.nullable s)) = resolve known (.nullable s)) ∧
    (∀ items, (∃ s ∈ items, ∃ d ∈ resolve known s, d.name = "any") → resolve known (.union items) = [.any]) ∧
    ∀ input s, parse input = .ok s →
      resolve known s ≠ [] ∧ ∀ d ∈ resolve known s, d.name = "any" → resolve known s = [d] := by
  refine ⟨resolve_splice known, fun items items' h => ?_, resolve_repeat known, resolve_nullable known,
    resolve_nullable_nullable known, ?_, fun input s h => ?_⟩
  · rw [resolve_union, resolve_union]
    exact uniteDescriptors_perm (h.flatMap_right _)
  · rintro items ⟨s, hs, d, hd, hname⟩
    rw [resolve_union]
    exact uniteDescriptors_any ⟨d, List.mem_flatMap.2 ⟨s, hs, hd⟩, beq_iff_eq.2 hname⟩
  · have hplain := isPlain_parse h
    exact ⟨resolve_ne_nil hplain, fun d hd hname => resolve_eq_singleton hplain hd (beq_iff_eq.2 hname)⟩

/-- A collection of anything absorbs an entity, stands alone, and the order of two items shows. -/
theorem collection_absorbs :
    (∃ s d, parse "Collection<mixed>" = .ok s ∧ d ∈ resolve ["Tag"] s ∧ d.name = "any" ∧ d.collection = true ∧
      resolve ["Tag"] s = [d] ∧ resolve ["Tag"] (.union [.named "Tag", s]) = [.any]) ∧
    resolve ["Tag"] (.union [.named "Tag", .named "null"]) = [.named "Tag", .undefined] ∧
    (resolve ["Tag"] (.union [.named "Tag", .named "null"])).Perm
      (resolve ["Tag"] (.union [.named "null", .named "Tag"])) := by
  obtain ⟨-, hperm, -, -, -, habsorb, hread⟩ := union_laws ["Tag"]
  have hcollection : (parse "Collection<mixed>").toOption.map (resolve ["Tag"]) = some [Descriptor.any.asCollection] := by
    decide +kernel
  obtain ⟨s, hs, hresolve⟩ := Option.map_eq_some_iff.1 hcollection
  have hd : Descriptor.any.asCollection ∈ resolve ["Tag"] s := by
    rw [hresolve]
    exact List.mem_cons_self
  refine ⟨⟨s, _, toOption_eq_some.1 hs, hd, rfl, rfl, ?_, ?_⟩, by decide +kernel, hperm _ _ (.swap _ _ [])⟩
  · exact (hread _ s (toOption_eq_some.1 hs)).2 _ hd rfl
  · exact habsorb _ ⟨s, by simp, _, hd, rfl⟩

end Signal

end EntityScript
