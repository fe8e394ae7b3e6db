import ApiDocs.Proofs.SlotBinding
import ApiDocs.Proofs.YamlText

/-!
# Operation ids

An id is a first segment in upper case with a verb behind it and nothing between the two. Since no verb
ends in another, an id can be taken apart in one way only, and two operations have the same id exactly
if they have the same method and the same segment up to the case of its first letter.
-/

namespace ApiDocs

open Text

namespace Text

theorem head?_partsBy (p : Char → Bool) (cs : List Char) :
    (partsBy p cs).head? = some (cs.takeWhile fun c => !p c) := by
  induction cs with
  | nil => rfl
  | cons c cs ih =>
    rw [partsBy]
    by_cases hc : p c = true
    · simp [hc]
    · cases hparts : partsBy p cs with
      | nil => simp [hparts] at ih
      | cons w ws =>
        have hw : w = cs.takeWhile fun c => !p c := by simpa [hparts] using ih
        simp [hc, hw]

/-- The first part that is not empty stands behind the separators at the start. -/
theorem find?_partsBy (p : Char → Bool) (cs : List Char) :
    ((partsBy p cs).find? (!·.isEmpty)).getD [] = (cs.dropWhile p).takeWhile fun c => !p c := by
  induction cs with
  | nil => rfl
  | cons c cs ih =>
    rw [partsBy]
    by_cases hc : p c = true
    · simpa [hc] using ih
    · have hhead := head?_partsBy p cs
      cases hparts : partsBy p cs with
      | nil => simp [hparts] at hhead
      | cons w ws =>
        have hw : w = cs.takeWhile fun c => !p c := by simpa [hparts] using hhead
        simp [hc, hw]

end Text

/-- The first segment is what stands between the slashes at the start and the next one. -/
theorem firstSegment_eq (path : String) : firstSegment path =
    String.ofList ((path.toList.dropWhile (· == '/')).takeWhile (· != '/')) := by
  have hempty : (fun s : String => !s.isEmpty) ∘ String.ofList = fun cs : List Char => !cs.isEmpty := by
    funext cs
    cases cs <;> simp
  have hchars := find?_partsBy (· == '/') path.toList
  rw [firstSegment, parts, List.find?_map, hempty]
  cases hfind : (partsBy (· == '/') path.toList).find? (!·.isEmpty) with
  | none =>
    rw [hfind] at hchars
    exact congrArg String.ofList hchars
  | some cs =>
    rw [hfind] at hchars
    exact congrArg String.ofList hchars

/-! ## Verbs -/

theorem eq_of_action_suffix {m n : Method} (h : m.action.toList <:+ n.action.toList) : m = n := by
  revert h
  cases m <;> cases n <;> decide

theorem append_action_inj {a b : String} {m n : Method} (h : a ++ m.action = b ++ n.action) :
    m = n ∧ a = b := by
  have hm : m.action.toList <:+ (a ++ m.action).toList := ⟨a.toList, String.toList_append.symm⟩
  have hn : n.action.toList <:+ (a ++ m.action).toList := ⟨b.toList, by rw [h, String.toList_append]⟩
  have hmn : m = n := by
    rcases List.suffix_or_suffix_of_suffix hm hn with hs | hs
    · exact eq_of_action_suffix hs
    · exact (eq_of_action_suffix hs).symm
  subst hmn
  have hchars := congrArg String.toList h
  rw [String.toList_append, String.toList_append] at hchars
  exact ⟨rfl, String.toList_inj.mp (List.append_cancel_right hchars)⟩

theorem operationId_eq_iff (p q : String) (m n : Method) : operationId p m = operationId q n ↔
    m = n ∧ capitalize (firstSegment p) = capitalize (firstSegment q) := by
  constructor
  · exact append_action_inj
  · rintro ⟨rfl, h⟩
    rw [operationId, operationId, h]

-- a letter may become two in upper case
example : operationId "/ßa" .get = operationId "//SSa/{id}" .get := by decide +kernel

/-! ## Assembled operations -/

theorem PathRegistry.operationId_of_assemble {ctx : RouteContext} {records : List Record} {m : Method}
    {path : String} {o : Operation} (h : operation? (assemble ctx records) (m, path) = some o) :
    o.operationId = some (ApiDocs.operationId path m) := by
  rw [operation?_assemble] at h
  obtain ⟨r, _, hr⟩ := List.exists_of_findSome?_eq_some h
  obtain ⟨_, rfl⟩ := (r.operationAt_eq ctx m path o).mp hr
  rfl

open PathRegistry in
/-- Two operations have the same id exactly if they have the same method and first segments that agree
once their first letters are in upper case. So of a document with assembled paths an id is reported
exactly if it is that of one method under two paths with such segments. -/
theorem operationIds_clash :
    (∀ path, firstSegment path =
      String.ofList ((path.toList.dropWhile (· == '/')).takeWhile (· != '/'))) ∧
    (∀ p q m n, operationId p m = operationId q n ↔
      m = n ∧ capitalize (firstSegment p) = capitalize (firstSegment q)) ∧
    ∀ (d : Document) (ctx : RouteContext) (records : List Record) (i : String),
      .duplicateOperationId i ∈ validate ({ d with paths := assemble ctx records }.render .yaml) ↔
        ∃ m p q, p ≠ q ∧ (operation? (assemble ctx records) (m, p)).isSome ∧
          (operation? (assemble ctx records) (m, q)).isSome ∧
          capitalize (firstSegment p) = capitalize (firstSegment q) ∧ i = operationId p m := by
  refine ⟨firstSegment_eq, operationId_eq_iff, fun d ctx records i => ?_⟩
  rw [Document.mem_validate_iff (recovers_render_yaml _)]
  constructor
  · rintro ⟨⟨m, p⟩, ⟨n, q⟩, o, o', hne, ho, ho', hi, hi'⟩
    have hp : i = operationId p m := Option.some.inj (hi.symm.trans (operationId_of_assemble ho))
    have hq : i = operationId q n := Option.some.inj (hi'.symm.trans (operationId_of_assemble ho'))
    obtain ⟨rfl, hsegments⟩ := (operationId_eq_iff p q m n).mp (hp.symm.trans hq)
    have hpq : p ≠ q := fun e => hne (e ▸ rfl)
    exact ⟨m, p, q, hpq, Option.isSome_of_eq_some ho, Option.isSome_of_eq_some ho', hsegments, hp⟩
  · rintro ⟨m, p, q, hpq, hp, hq, hsegments, rfl⟩
    obtain ⟨o, ho⟩ := Option.isSome_iff_exists.mp hp
    obtain ⟨o', ho'⟩ := Option.isSome_iff_exists.mp hq
    have hid : operationId q m = operationId p m := (operationId_eq_iff q p m m).mpr ⟨rfl, hsegments.symm⟩
    have hid' : o'.operationId = some (operationId p m) := by rw [operationId_of_assemble ho', hid]
    have hne : (m, p) ≠ (m, q) := fun e => hpq (Prod.mk.inj e).2
    exact ⟨(m, p), (m, q), o, o', hne, ho, ho', operationId_of_assemble ho, hid'⟩

end ApiDocs
