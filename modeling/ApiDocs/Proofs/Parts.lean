import ApiDocs.Text.Blank

/-!
# Parts of a text

The parts of a text between its separators hold no separator, and spell the text when they are joined.
-/

namespace ApiDocs.Text

theorem partsBy_ne_nil (p : Char → Bool) : ∀ cs : List Char, partsBy p cs ≠ []
  | [] => by simp [partsBy]
  | c :: cs => by
    unfold partsBy
    split
    · simp
    · split <;> simp

theorem partsBy_append (p : Char → Bool) {sep : Char} (hsep : p sep = true) (ds : List Char) :
    ∀ cs : List Char, partsBy p (cs ++ sep :: ds) = partsBy p cs ++ partsBy p ds
  | [] => by simp [partsBy, hsep]
  | c :: cs => by
    rw [List.cons_append, partsBy, partsBy, partsBy_append p hsep ds cs]
    by_cases hc : p c = true
    · simp [hc]
    · cases hcs : partsBy p cs with
      | nil => exact absurd hcs (partsBy_ne_nil p cs)
      | cons w ws => simp [hc]

theorem partsBy_of_forall (p : Char → Bool) :
    ∀ {cs : List Char}, (∀ c ∈ cs, p c = false) → partsBy p cs = [cs]
  | [], _ => rfl
  | c :: cs, h => by
    have hc : p c = false := h c (List.mem_cons_self ..)
    rw [partsBy, partsBy_of_forall p fun x hx => h x (List.mem_cons_of_mem _ hx)]
    simp [hc]

theorem intercalate_partsBy (sep : Char) (cs : List Char) :
    [sep].intercalate (partsBy (· == sep) cs) = cs := by
  induction cs with
  | nil => rfl
  | cons c cs ih =>
    obtain ⟨w, ws, hw⟩ := List.exists_cons_of_ne_nil (partsBy_ne_nil (· == sep) cs)
    rw [hw] at ih
    rw [partsBy, hw]
    by_cases hc : c = sep
    · simp [hc, List.intercalate_cons_cons, ih]
    · cases ws with
      | nil => simpa [hc] using ih
      | cons v vs =>
        rw [List.intercalate_cons_cons] at ih
        simp [hc, List.intercalate_cons_cons, ← ih]

theorem not_mem_of_mem_partsBy {sep : Char} {cs w : List Char} (h : w ∈ partsBy (· == sep) cs) :
    sep ∉ w := by
  induction cs generalizing w with
  | nil =>
    have hw : w = [] := by simpa [partsBy] using h
    simp [hw]
  | cons c cs ih =>
    rw [partsBy] at h
    by_cases hc : c = sep
    · simp only [hc, beq_self_eq_true, if_true, List.mem_cons] at h
      rcases h with h | h
      · simp [h]
      · exact ih h
    · obtain ⟨v, vs, hv⟩ := List.exists_cons_of_ne_nil (partsBy_ne_nil (· == sep) cs)
      simp only [hc, beq_iff_eq, if_false, hv, List.mem_cons] at h
      rcases h with h | h
      · rw [h, List.mem_cons]
        intro hsep
        rcases hsep with hsep | hsep
        · exact hc hsep.symm
        · exact ih (w := v) (by simp [hv]) hsep
      · exact ih (by simp [hv, h])

theorem parts_ne_nil (sep : Char) (s : String) : parts sep s ≠ [] := by
  rw [parts, Ne, List.map_eq_nil_iff]
  exact partsBy_ne_nil _ _

theorem intercalate_parts (sep : Char) (s : String) : (String.singleton sep).intercalate (parts sep s) = s := by
  apply String.toList_inj.mp
  rw [String.toList_intercalate, parts, List.map_map]
  simpa [Function.comp_def] using intercalate_partsBy sep s.toList

theorem not_mem_of_mem_parts {sep : Char} {s c : String} (h : c ∈ parts sep s) : sep ∉ c.toList := by
  obtain ⟨w, hw, hc⟩ := List.mem_map.mp h
  rw [← hc, String.toList_ofList]
  exact not_mem_of_mem_partsBy hw

theorem parts_of_not_mem {sep : Char} {c : String} (h : sep ∉ c.toList) : parts sep c = [c] := by
  have hfree : partsBy (· == sep) c.toList = [c.toList] := by
    apply partsBy_of_forall
    intro x hx
    rw [beq_eq_false_iff_ne]
    intro hsep
    exact h (hsep ▸ hx)
  rw [parts, hfree]
  simp

theorem parts_intercalate {sep : Char} {cs : List String} (hne : cs ≠ []) (h : ∀ c ∈ cs, sep ∉ c.toList) :
    parts sep ((String.singleton sep).intercalate cs) = cs := by
  induction cs with
  | nil => exact absurd rfl hne
  | cons c cs ih =>
    have hc := parts_of_not_mem (h c (by simp))
    cases cs with
    | nil => simpa using hc
    | cons d ds =>
      have hrest := ih (by simp) fun x hx => h x (by simp [hx])
      rw [String.intercalate_cons_cons]
      unfold parts at hc hrest ⊢
      have htext : (c ++ String.singleton sep ++ (String.singleton sep).intercalate (d :: ds)).toList =
          c.toList ++ sep :: ((String.singleton sep).intercalate (d :: ds)).toList := by simp
      rw [htext, partsBy_append _ (by simp), List.map_append, hc, hrest]
      rfl

theorem parts_slash (path : String) {name : String} (hn : '/' ∉ name.toList) :
    parts '/' (path ++ "/" ++ name) = parts '/' path ++ [name] := by
  have htl : (path ++ "/" ++ name).toList = path.toList ++ '/' :: name.toList := by
    simp [String.toList_append]
  have hname := parts_of_not_mem hn
  unfold parts at hname ⊢
  rw [htl, partsBy_append _ (by rfl), List.map_append, hname]

theorem eq_of_parts_blank {path : String} {ps : List String} (hne : ps ≠ []) (h : parts '/' path = ps ++ [""]) :
    path = "/".intercalate ps ++ "/" := by
  have hfree : ∀ p ∈ ps, '/' ∉ p.toList := fun p hp => not_mem_of_mem_parts (h ▸ List.mem_append_left _ hp)
  have hparts : parts '/' ("/".intercalate ps ++ "/" ++ "") = parts '/' path := by
    rw [parts_slash _ (by simp), h, show "/".intercalate ps = (String.singleton '/').intercalate ps from rfl,
      parts_intercalate hne hfree]
  rw [← intercalate_parts '/' path, ← hparts, intercalate_parts, String.append_empty]

end ApiDocs.Text
