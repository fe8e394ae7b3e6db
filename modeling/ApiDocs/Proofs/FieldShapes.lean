import ApiDocs.FieldType
import Mathlib.Logic.ExistsUnique
import Mathlib.Logic.Relation

/-!
# Shapes of field types

A type is described by what is left of it without the layers that a schema does not show, and a sequence
by its element, again without layers. A reference that the field names itself replaces the description
but for the difference between one value and a sequence.
-/

namespace ApiDocs

open Source

namespace Source.TypeExpr

/-! ## Layers and sequences -/

/-- The first type is the second one with a layer around it that a schema does not show. -/
inductive Layer : TypeExpr → TypeExpr → Prop
  | reference (t : TypeExpr) : Layer (.reference t) t
  | paren (t : TypeExpr) : Layer (.paren t) t
  | pointer {name : String} (h : name ∈ ["Option", "Box", "Rc", "Arc"]) (q a : Bool) (t : TypeExpr)
      (ts : List TypeExpr) : Layer (.named q name a (t :: ts)) t

inductive SequenceOf : TypeExpr → TypeExpr → Prop
  | slice (t : TypeExpr) : SequenceOf (.slice t) t
  | array (t : TypeExpr) : SequenceOf (.array t) t
  | collection {name : String} (h : name ∈ ["Vec", "VecDeque", "HashSet", "BTreeSet"]) (q a : Bool)
      (t : TypeExpr) (ts : List TypeExpr) : SequenceOf (.named q name a (t :: ts)) t

/-- The second type is left when all layers around the first one are taken away. -/
def Strips (t u : TypeExpr) : Prop := Relation.ReflTransGen Layer t u ∧ ∀ v, ¬Layer u v

def IsSequence (t : TypeExpr) : Prop := ∃ u e, Strips t u ∧ SequenceOf u e

/-- One layer is taken away, around the type or around the element of a sequence at any depth. -/
inductive Sheds : TypeExpr → TypeExpr → Prop
  | layer {t u : TypeExpr} (h : Layer t u) : Sheds t u
  | slice {t u : TypeExpr} (h : Sheds t u) : Sheds (.slice t) (.slice u)
  | array {t u : TypeExpr} (h : Sheds t u) : Sheds (.array t) (.array u)
  | collection {name : String} (hname : name ∈ ["Vec", "VecDeque", "HashSet", "BTreeSet"]) (q a : Bool)
      {t u : TypeExpr} (h : Sheds t u) (ts : List TypeExpr) :
      Sheds (.named q name a (t :: ts)) (.named q name a (u :: ts))

/-- The types differ in layers only, be they added or taken away. -/
def SameInside : TypeExpr → TypeExpr → Prop := Relation.EqvGen Sheds

end Source.TypeExpr

open TypeExpr

/-! ## Stripping -/

theorem unwrap_of_layer {t u : TypeExpr} (h : Layer t u) : unwrap t = unwrap u := by
  cases h with
  | reference => rw [unwrap]
  | paren => rw [unwrap]
  | pointer hname => simp [unwrap, transparentNames, hname]

theorem reflTransGen_unwrap (t : TypeExpr) : Relation.ReflTransGen Layer t (unwrap t) := by
  fun_induction unwrap t with
  | case1 t ih => exact .head (.reference t) ih
  | case2 t ih => exact .head (.paren t) ih
  | case3 q name a t ts hname ih =>
    exact .head (.pointer (List.contains_iff_mem.mp hname) q a t ts) ih
  | case4 => exact .refl
  | case5 => exact .refl

theorem not_layer_unwrap (t v : TypeExpr) : ¬Layer (unwrap t) v := by
  fun_induction unwrap t with
  | case1 t ih => exact ih
  | case2 t ih => exact ih
  | case3 q name a t ts hname ih => exact ih
  | case4 q name a t ts hname =>
    intro h
    cases h with
    | pointer hmem => exact hname (List.contains_iff_mem.mpr hmem)
  | case5 t hreference hparen hnamed =>
    intro h
    cases h with
    | reference => exact hreference _ rfl
    | paren => exact hparen _ rfl
    | pointer => exact hnamed _ _ _ _ _ rfl

theorem strips_unwrap (t : TypeExpr) : Strips t (unwrap t) :=
  ⟨reflTransGen_unwrap t, not_layer_unwrap t⟩

theorem unwrap_of_reflTransGen {t u : TypeExpr} (h : Relation.ReflTransGen Layer t u) :
    unwrap t = unwrap u := by
  induction h with
  | refl => rfl
  | tail _ hstep ih => exact ih.trans (unwrap_of_layer hstep)

/-- Where there is no layer, nothing is taken away. -/
theorem unwrap_of_not_layer {u : TypeExpr} (h : ∀ v, ¬Layer u v) : unwrap u = u := by
  rcases Relation.ReflTransGen.cases_head_iff.mp (reflTransGen_unwrap u) with heq | ⟨v, hv, -⟩
  · exact heq.symm
  · exact absurd hv (h v)

theorem strips_iff {t u : TypeExpr} : Strips t u ↔ u = unwrap t := by
  constructor
  · intro h
    rw [unwrap_of_reflTransGen h.1, unwrap_of_not_layer h.2]
  · intro h
    rw [h]
    exact strips_unwrap t

theorem unwrap_unwrap (t : TypeExpr) : unwrap (unwrap t) = unwrap t :=
  unwrap_of_not_layer (not_layer_unwrap t)

/-! ## Elements -/

theorem unwrap_of_sequenceOf {s e : TypeExpr} (h : SequenceOf s e) : unwrap s = s := by
  apply unwrap_of_not_layer
  intro v hv
  cases h with
  | slice => cases hv
  | array => cases hv
  | collection hname =>
    cases hv with
    | pointer hpointer => simp at hname hpointer; grind

theorem element?_of_sequenceOf {s e : TypeExpr} (h : SequenceOf s e) :
    ∃ e', element? s = some e' ∧ unwrap e' = unwrap e := by
  cases h with
  | slice => exact ⟨e, rfl, rfl⟩
  | array => exact ⟨e, rfl, rfl⟩
  | collection hname =>
    refine ⟨unwrap e, ?_, unwrap_unwrap e⟩
    simp [element?, sequenceNames, hname]

theorem isSome_element? (t : TypeExpr) : (element? t).isSome = true ↔ ∃ e, SequenceOf t e := by
  constructor
  · intro h
    unfold element? at h
    split at h
    · exact ⟨_, .slice _⟩
    · exact ⟨_, .array _⟩
    · split at h
      · rename_i hname
        exact ⟨_, .collection (List.contains_iff_mem.mp hname) _ _ _ _⟩
      · cases h
    · cases h
  · intro h
    obtain ⟨e, he⟩ := h
    obtain ⟨e', he', -⟩ := element?_of_sequenceOf he
    rw [he']
    rfl

theorem isSequence_iff (t : TypeExpr) : t.IsSequence ↔ (element? (unwrap t)).isSome = true := by
  rw [isSome_element?]
  constructor
  · intro h
    obtain ⟨u, e, hu, he⟩ := h
    exact ⟨e, strips_iff.mp hu ▸ he⟩
  · intro h
    obtain ⟨e, he⟩ := h
    exact ⟨unwrap t, e, strips_unwrap t, he⟩

/-! ## Descriptions -/

def FieldType.repeated? : FieldType → Option FieldType
  | .primitive name => some (.primitive ("Vec<" ++ name ++ ">"))
  | .reference name => some (.arrayOfReference name)
  | .arrayOfReference _ => none

theorem classify_unwrap (t : TypeExpr) (r : String) : classify (unwrap t) r = classify t r := by
  unfold classify
  rw [unwrap_unwrap]

theorem classify_of_strips {t u : TypeExpr} (h : Strips t u) (r : String) : classify t r = classify u r := by
  rw [strips_iff.mp h, classify_unwrap]

theorem classify_of_reference (t : TypeExpr) {r : String} (hr : r ≠ "") :
    classify t r = if (element? (unwrap t)).isSome then some (.arrayOfReference r) else some (.reference r) := by
  have hr' : (!r.isEmpty) = true := by simpa using hr
  unfold classify
  simp only [hr', if_true]

theorem classify_of_single {t : TypeExpr} (h : ¬t.IsSequence) : classify t "" = classifySingle (unwrap t) := by
  rw [isSequence_iff, Option.not_isSome_iff_eq_none] at h
  unfold classify
  simp [h]

theorem classifySingle_ne_arrayOfReference (t : TypeExpr) (name : String) :
    classifySingle t ≠ some (.arrayOfReference name) := by
  unfold classifySingle
  split
  · split
    · simp
    · split <;> simp
  · simp

theorem classify_of_sequenceOf {s e : TypeExpr} (h : SequenceOf s e) :
    (e.IsSequence → classify s "" = none) ∧
    (¬e.IsSequence → classify s "" = (classify e "").bind FieldType.repeated?) := by
  obtain ⟨e', he', hunwrap⟩ := element?_of_sequenceOf h
  have hclassify : classify s "" = if (element? (unwrap e)).isSome then none
      else (classifySingle (unwrap e)).bind FieldType.repeated? := by
    unfold classify
    simp only [unwrap_of_sequenceOf h, he', hunwrap]
    cases hsingle : classifySingle (unwrap e) with
    | none => simp
    | some f => cases f <;> simp [FieldType.repeated?]
  constructor
  · intro hsequence
    rw [hclassify, if_pos ((isSequence_iff e).mp hsequence)]
  · intro hsingle
    rw [hclassify, if_neg fun h => hsingle ((isSequence_iff e).mpr h), classify_of_single hsingle]

/-! ## Layers do not count -/

theorem isSequence_of_sequenceOf {s e : TypeExpr} (h : SequenceOf s e) : s.IsSequence :=
  ⟨s, e, strips_iff.mpr (unwrap_of_sequenceOf h).symm, h⟩

/-- Sequences of elements with the same description have the same description. -/
theorem classify_congr_sequence {s s' e e' : TypeExpr} (hs : SequenceOf s e) (hs' : SequenceOf s' e')
    (hsequence : e.IsSequence ↔ e'.IsSequence) (h : ∀ r, classify e r = classify e' r) (r : String) :
    classify s r = classify s' r := by
  by_cases hr : r = ""
  · subst hr
    by_cases he : e.IsSequence
    · rw [(classify_of_sequenceOf hs).1 he, (classify_of_sequenceOf hs').1 (hsequence.mp he)]
    · rw [(classify_of_sequenceOf hs).2 he, (classify_of_sequenceOf hs').2 fun h => he (hsequence.mpr h), h]
  · have hisSome := (isSequence_iff s).mp (isSequence_of_sequenceOf hs)
    have hisSome' := (isSequence_iff s').mp (isSequence_of_sequenceOf hs')
    rw [classify_of_reference s hr, classify_of_reference s' hr, if_pos hisSome, if_pos hisSome']

theorem Source.TypeExpr.Sheds.classify {t u : TypeExpr} (h : Sheds t u) :
    (t.IsSequence ↔ u.IsSequence) ∧ ∀ r, ApiDocs.classify t r = ApiDocs.classify u r := by
  have hboth : ∀ {s s' e e' : TypeExpr}, SequenceOf s e → SequenceOf s' e' →
      ((e.IsSequence ↔ e'.IsSequence) ∧ ∀ r, ApiDocs.classify e r = ApiDocs.classify e' r) →
      (s.IsSequence ↔ s'.IsSequence) ∧ ∀ r, ApiDocs.classify s r = ApiDocs.classify s' r :=
    fun hs hs' ih => ⟨iff_of_true (isSequence_of_sequenceOf hs) (isSequence_of_sequenceOf hs'),
      classify_congr_sequence hs hs' ih.1 ih.2⟩
  induction h with
  | layer h =>
    rw [isSequence_iff, isSequence_iff, unwrap_of_layer h]
    refine ⟨Iff.rfl, fun r => ?_⟩
    rw [← classify_unwrap, unwrap_of_layer h, classify_unwrap]
  | slice _ ih => exact hboth (.slice _) (.slice _) ih
  | array _ ih => exact hboth (.array _) (.array _) ih
  | collection hname q a _ ts ih => exact hboth (.collection hname q a _ ts) (.collection hname q a _ ts) ih

theorem classify_of_sameInside {t u : TypeExpr} (h : SameInside t u) (r : String) :
    classify t r = classify u r := by
  induction h with
  | rel _ _ h => exact h.classify.2 r
  | refl => rfl
  | symm _ _ _ ih => exact ih.symm
  | trans _ _ _ _ _ ih₁ ih₂ => exact ih₁.trans ih₂

/-! ## The description of every type -/

theorem primitive_repeated?_iff {f : Option FieldType} {name : String} :
    f.bind FieldType.repeated? = some (.primitive ("Vec<" ++ name ++ ">")) ↔ f = some (.primitive name) := by
  cases f with
  | none => simp
  | some f => cases f <;> simp [FieldType.repeated?]

theorem arrayOfReference_repeated?_iff {f : Option FieldType} {name : String} :
    f.bind FieldType.repeated? = some (.arrayOfReference name) ↔ f = some (.reference name) := by
  cases f with
  | none => simp
  | some f => cases f <;> simp [FieldType.repeated?]

theorem repeated?_eq_none_iff {t : TypeExpr} (h : ¬t.IsSequence) :
    (classify t "").bind FieldType.repeated? = none ↔ classify t "" = none := by
  rw [classify_of_single h]
  cases hf : classifySingle (unwrap t) with
  | none => simp
  | some f =>
    cases f with
    | primitive name => simp [FieldType.repeated?]
    | reference name => simp [FieldType.repeated?]
    | arrayOfReference name => exact absurd hf (classifySingle_ne_arrayOfReference _ name)

theorem elementName?_repeated (name : String) :
    elementName? ("Vec<" ++ name ++ ">").toList = some name.toList := by
  simp [elementName?]

theorem openApiType_repeated (name : String) : openApiType ("Vec<" ++ name ++ ">") = "array" := by
  unfold openApiType
  rw [elementName?_repeated]
  rfl

theorem openApiFormat_repeated (name : String) :
    openApiFormat ("Vec<" ++ name ++ ">") = openApiFormat name := by
  unfold openApiFormat
  rw [formatOfChars]
  split
  · rename_i element h
    rw [elementName?_repeated] at h
    cases h
    rfl
  · rename_i h
    rw [elementName?_repeated] at h
    cases h

theorem classifySingle_named (name : String) (a : Bool) (ts : List TypeExpr) :
    let f := classifySingle (.named false name a ts)
    (f = some (.primitive name) ↔ isKnownPrimitive name = true) ∧
    (f = some (.reference name) ↔ isKnownPrimitive name = false ∧ a = false) ∧
    (f = none ↔ isKnownPrimitive name = false ∧ a = true) := by
  intro f
  by_cases hknown : isKnownPrimitive name = true
  · simp [f, classifySingle, hknown]
  · cases a <;> simp [f, classifySingle, hknown]

/-- What a type is described by. Layers around it or around the element of a sequence do not count. With a
reference of the field's own, only whether the type is a sequence does. Without one, a sequence takes its
description from its element and sequences of sequences have none, and a single type is described by its
last name if that is known or nothing follows it. -/
theorem classify_by_shape :
    (∀ t u r, SameInside t u → classify t r = classify u r) ∧
    (∀ t, ∃! u, Strips t u) ∧
    (∀ t u r, Strips t u → r ≠ "" →
      ((∃ e, SequenceOf u e) → classify t r = some (.arrayOfReference r)) ∧
      ((¬∃ e, SequenceOf u e) → classify t r = some (.reference r))) ∧
    (∀ t u e, Strips t u → SequenceOf u e →
      (e.IsSequence → classify t "" = none) ∧
      (¬e.IsSequence →
        (∀ name, classify t "" = some (.primitive ("Vec<" ++ name ++ ">")) ↔
          classify e "" = some (.primitive name)) ∧
        (∀ name, classify t "" = some (.arrayOfReference name) ↔ classify e "" = some (.reference name)) ∧
        (classify t "" = none ↔ classify e "" = none))) ∧
    (∀ t u, Strips t u → (¬∃ e, SequenceOf u e) →
      (∀ name a ts, u = .named false name a ts →
        (classify t "" = some (.primitive name) ↔ isKnownPrimitive name = true) ∧
        (classify t "" = some (.reference name) ↔ isKnownPrimitive name = false ∧ a = false) ∧
        (classify t "" = none ↔ isKnownPrimitive name = false ∧ a = true)) ∧
      ((∀ name a ts, u ≠ .named false name a ts) → classify t "" = none)) ∧
    ∀ name, openApiType ("Vec<" ++ name ++ ">") = "array" ∧
      openApiFormat ("Vec<" ++ name ++ ">") = openApiFormat name := by
  refine ⟨fun t u r h => classify_of_sameInside h r, ?_, ?_, ?_, ?_, ?_⟩
  · intro t
    exact ⟨unwrap t, strips_unwrap t, fun u h => strips_iff.mp h⟩
  · intro t u r h hr
    rw [classify_of_reference t hr, ← strips_iff.mp h, ← isSome_element?]
    exact ⟨fun hu => if_pos hu, fun hu => if_neg hu⟩
  · intro t u e h he
    rw [classify_of_strips h]
    refine ⟨(classify_of_sequenceOf he).1, fun hsingle => ?_⟩
    rw [(classify_of_sequenceOf he).2 hsingle]
    exact ⟨fun name => primitive_repeated?_iff, fun name => arrayOfReference_repeated?_iff,
      repeated?_eq_none_iff hsingle⟩
  · intro t u h hu
    have hsingle : ¬t.IsSequence := by
      rw [isSequence_iff, isSome_element?, ← strips_iff.mp h]
      exact hu
    rw [classify_of_single hsingle, ← strips_iff.mp h]
    constructor
    · intro name a ts hname
      rw [hname]
      exact classifySingle_named name a ts
    · intro hname
      unfold classifySingle
      split
      · exact absurd rfl (hname _ _ _)
      · rfl
  · exact fun name => ⟨openApiType_repeated name, openApiFormat_repeated name⟩

/-- The name under the layers of `&Option<Vec<Box<u32>>>`. -/
def numberType : TypeExpr := .named false "u32" false []

def numbersType (element : TypeExpr) : TypeExpr := .named false "Vec" true [element]

def boxedType (t : TypeExpr) : TypeExpr := .named false "Box" true [t]

def layeredType : TypeExpr :=
  .reference (.named false "Option" true [numbersType (boxedType numberType)])

theorem strips_layeredType : Strips layeredType (numbersType (boxedType numberType)) :=
  strips_iff.mpr rfl

theorem sameInside_layeredType : SameInside layeredType (numbersType numberType) := by
  have houter : SameInside layeredType (numbersType (boxedType numberType)) :=
    .trans _ _ _ (.rel _ _ (.layer (.reference _))) (.rel _ _ (.layer (.pointer (by simp) _ _ _ _)))
  have hinner : SameInside (numbersType (boxedType numberType)) (numbersType numberType) :=
    .rel _ _ (.collection (by simp) _ _ (.layer (.pointer (by simp) _ _ _ _)) _)
  exact .trans _ _ _ houter hinner

theorem sequenceOf_numbersType (element : TypeExpr) : SequenceOf (numbersType element) element :=
  .collection (by simp) _ _ _ _

theorem not_isSequence_boxedType : ¬(boxedType numberType).IsSequence := by
  rw [isSequence_iff]
  decide

theorem classify_by_shape_layers :
    (SameInside layeredType (numbersType numberType) ∧
      classify layeredType "" = classify (numbersType numberType) "") ∧
    (Strips layeredType (numbersType (boxedType numberType)) ∧ "Page" ≠ "" ∧
      classify layeredType "Page" = some (.arrayOfReference "Page")) ∧
    (¬(boxedType numberType).IsSequence ∧ classify layeredType "" = some (.primitive "Vec<u32>")) ∧
    ((numbersType numberType).IsSequence ∧ classify (numbersType (numbersType numberType)) "" = none) ∧
    (¬(∃ e, SequenceOf numberType e) ∧ classify (boxedType numberType) "" = some (.primitive "u32")) := by
  obtain ⟨hlayers, -, hreference, hsequence, hsingle, -⟩ := classify_by_shape
  have hnumber : ¬∃ e, SequenceOf numberType e := by
    rw [← isSome_element?]
    decide
  have hnamed := (hsingle (boxedType numberType) numberType (strips_iff.mpr rfl) hnumber).1 "u32" false [] rfl
  have hboxed := hnamed.1.mpr (by decide)
  have hrepeated := (hsequence _ _ _ strips_layeredType (sequenceOf_numbersType _)).2 not_isSequence_boxedType
  have hinner := isSequence_of_sequenceOf (sequenceOf_numbersType numberType)
  have hnested := hsequence (numbersType (numbersType numberType)) _ _ (strips_iff.mpr rfl) (sequenceOf_numbersType _)
  refine ⟨⟨sameInside_layeredType, hlayers _ _ _ sameInside_layeredType⟩,
    ⟨strips_layeredType, by decide, ?_⟩, ⟨not_isSequence_boxedType, (hrepeated.1 "u32").mpr hboxed⟩,
    ⟨hinner, hnested.1 hinner⟩, ⟨hnumber, hboxed⟩⟩
  exact (hreference _ _ "Page" strips_layeredType (by decide)).1 ⟨_, sequenceOf_numbersType _⟩

end ApiDocs
