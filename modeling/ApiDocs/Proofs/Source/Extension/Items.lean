import ApiDocs.Proofs.Source.Extension.Expressions

/-!
# Items in a deeper grammar
-/

namespace ApiDocs.Source.Rules

open Reader

variable {g g' : Grammar} {s : ReaderState}

/-! ## Functions -/

theorem receiver_extends (hg : g.Extends g') : Extends .none s (receiver g) (receiver g') := by
  have htyped : ∀ (reference : Bool) s, Extends .none s
      (do if !reference then if ← op? ":" then discard <| g.type true)
      (do if !reference then if ← op? ":" then discard <| g'.type true) :=
    fun _ _ => .ite (fun _ => .bind (.refl _) fun _ _ => .ite (fun _ => .discard (hg.type true)) fun _ => .refl _)
      fun _ => .refl _
  refine .bind (.refl _) fun reference _ => .ite (fun _ => .bind (.refl _) fun _ _ => .ite
    (fun _ => .bind (.refl _) fun _ _ => ?_) fun _ => ?_) fun _ => ?_
  all_goals exact .bind (.refl _) fun _ _ => .bind (.refl _) fun _ s => htyped reference s

def referencedSelf : Reader Unit := do
  if ← look Look.lifetime then lifetime
  let _ ← word? "mut"
  word "self"

def plainSelf (g : Grammar) : Reader Unit := do
  let _ ← word? "mut"
  word "self"
  if ← op? ":" then discard <| g.type true

def typedArgument (g : Grammar) : Reader (Option Bool) := do
  if ← look fun ts => Look.ident ts && Look.second (Look.op "<") ts then
    let _ ← g.type true
    return some false
  let _ ← g.pattern
  op ":"
  if ← op? "..." then return none
  let _ ← g.type true
  return some false

theorem receiver_eq (g : Grammar) : receiver g =
    op? "&" >>= fun reference => if reference then referencedSelf else plainSelf g := by
  unfold receiver referencedSelf plainSelf
  refine bind_congr fun reference => ?_
  cases reference with
  | true =>
    refine bind_congr fun b => ?_
    cases b <;> simp
  | false => rfl

theorem fnArgument_eq (g : Grammar) : fnArgument g =
    attempt (receiver g) >>= fun r => if r.isSome then pure (some true) else typedArgument g := rfl

/-- Two grammars disagree on `self` only if they disagree on a type behind it. -/
theorem plainSelf_cases {r} (h : plainSelf g s = none) (h' : plainSelf g' s = some r) :
    ∃ before joint ts found, (before = [] ∨ before = [.word "mut"]) ∧
      s = ⟨before ++ .word "self" :: .punct ':' joint :: ts, found⟩ ∧
      g.type true ⟨ts, found⟩ = none ∧ ∃ t, g'.type true ⟨ts, found⟩ = some t := by
  unfold plainSelf at h h'
  obtain ⟨b, s₁, hmut, h'⟩ := bind_eq_some_iff.mp h'
  obtain ⟨u, s₂, hself, h'⟩ := bind_eq_some_iff.mp h'
  obtain ⟨c, s₃, hcolon, h'⟩ := bind_eq_some_iff.mp h'
  rw [bind_apply_of hmut, bind_apply_of hself, bind_apply_of hcolon] at h
  obtain ⟨hc, hs₃⟩ := op?_eq_some hcolon
  cases c with
  | false => cases h
  | true =>
    obtain ⟨joint, ts, hts⟩ := Look.exists_of_colon hc.symm
    have hs₃ : s₃ = ⟨ts, s₂.found⟩ := by rw [hs₃, hts]; rfl
    subst hs₃
    rw [if_pos rfl, discard_apply, Option.map_eq_none_iff] at h
    rw [if_pos rfl, discard_apply, Option.map_eq_some_iff] at h'
    obtain ⟨t, ht, -⟩ := h'
    obtain rfl | rfl := word?_eq_some hmut
    · exact ⟨[], joint, ts, s₂.found, .inl rfl, by rw [word_eq_some hself, hts]; rfl, h, t, ht⟩
    · refine ⟨[.word "mut"], joint, ts, s₂.found, .inr rfl, ?_, h, t, ht⟩
      rw [word_eq_some hself, hts]
      rfl

theorem receiver_cases {r} (h : receiver g s = none) (h' : receiver g' s = some r) :
    ∃ before joint ts found, (before = [] ∨ before = [.word "mut"]) ∧
      s = ⟨before ++ .word "self" :: .punct ':' joint :: ts, found⟩ ∧
      g.type true ⟨ts, found⟩ = none ∧ ∃ t, g'.type true ⟨ts, found⟩ = some t := by
  rw [receiver_eq] at h h'
  obtain ⟨reference, s', hreference, hself⟩ := bind_eq_some_iff.mp h'
  rw [bind_apply_of hreference] at h
  cases reference with
  | true =>
    rw [if_pos rfl] at h hself
    rw [h] at hself
    cases hself
  | false =>
    have hs' : s' = s := (op?_eq_some hreference).2
    rw [hs'] at h hself
    exact plainSelf_cases h hself

/-- Where `self` has a type that cannot be read, the argument cannot be read with a pattern. -/
theorem typedArgument_self (hg : g.Extends g') {before joint ts found}
    (hbefore : before = [] ∨ before = [.word "mut"]) (hpoint : ∀ joint us, ts ≠ .punct '.' joint :: us)
    (hcolon : ∀ joint name us, ts ≠ .punct ':' joint :: .word name :: us)
    (htype : g.type true ⟨ts, found⟩ = none) :
    typedArgument g ⟨before ++ .word "self" :: .punct ':' joint :: ts, found⟩ = none := by
  have hident : (Look.ident (before ++ .word "self" :: .punct ':' joint :: ts) &&
      Look.second (Look.op "<") (before ++ .word "self" :: .punct ':' joint :: ts)) = false := by
    obtain rfl | rfl := hbefore <;> rfl
  have hdots : op? "..." ⟨ts, found⟩ = some (false, ⟨ts, found⟩) := by
    unfold op?
    rw [bind_apply, look_apply, Option.bind_some, Look.op_dots_eq_false hpoint]
    rfl
  have hop : op ":" ⟨.punct ':' joint :: ts, found⟩ = some ((), ⟨ts, found⟩) := rfl
  unfold typedArgument
  rw [bind_apply, look_apply, Option.bind_some, if_neg (by simp [hident]), bind_apply]
  cases hpattern : g.pattern ⟨before ++ .word "self" :: .punct ':' joint :: ts, found⟩ with
  | none => rfl
  | some r =>
    rw [Option.bind_some, hg.pattern_self hbefore hcolon hpattern, bind_apply_of hop, bind_apply_of hdots,
      if_neg (by simp), bind_apply, htype]
    rfl

theorem typedArgument_extends (hg : g.Extends g') : Extends .none s (typedArgument g) (typedArgument g') := by
  refine .bind (.refl _) fun _ _ => .ite (fun _ => .bind (hg.type true) fun _ _ => .pure) fun _ => ?_
  refine .bind hg.pattern fun _ _ => .bind (.refl _) fun _ _ => .bind (.refl _) fun _ _ => ?_
  exact .ite (fun _ => .refl _) fun _ => .bind (hg.type true) fun _ _ => .pure

theorem fnArgument_extends (hg : g.Extends g') : Extends .none s (fnArgument g) (fnArgument g') := by
  rw [fnArgument_eq, fnArgument_eq]
  intro a s' ha
  rw [ReaderState.before_none, ReaderState.before_none]
  cases h : receiver g s with
  | some r =>
    have h' := receiver_extends hg r.1 r.2 h
    rw [ReaderState.before_none, ReaderState.before_none] at h'
    rw [bind_apply_of (attempt_of_some h)] at ha
    rw [bind_apply_of (attempt_of_some h')]
    exact ha
  | none =>
    rw [bind_apply_of (attempt_of_none h)] at ha
    cases h' : receiver g' s with
    | none =>
      rw [bind_apply_of (attempt_of_none h')]
      have hrest := typedArgument_extends hg a s' ha
      rwa [ReaderState.before_none, ReaderState.before_none] at hrest
    | some r =>
      obtain ⟨before, joint, ts, found, hbefore, rfl, htype, t, ht⟩ := receiver_cases h h'
      have hpoint : ∀ joint us, ts ≠ .punct '.' joint :: us := by
        intro _ _ hts
        rw [hts, hg.type_point] at ht
        cases ht
      have hcolon : ∀ joint name us, ts ≠ .punct ':' joint :: .word name :: us := by
        intro _ _ _ hts
        rw [hts, hg.type_colon] at ht
        cases ht
      rw [if_neg (by simp), typedArgument_self hg hbefore hpoint hcolon htype] at ha
      cases ha

theorem generics_extends (hg : g.Extends g') : Extends .none s (generics g) (generics g') := by
  refine .bind (.refl _) fun _ _ => .ite (fun _ => ?_) fun _ => .refl _
  exact .bind (.separated (by simp) fun _ => hg.parameter) fun _ _ => .refl _

theorem wherePredicate_extends (hg : g.Extends g') : Extends .none s (wherePredicate g) (wherePredicate g') := by
  refine .bind (.refl _) fun _ _ => .ite (fun _ => .refl _) fun _ => .bind (lifetimeBinder?_extends hg) fun _ _ => ?_
  refine .bind (hg.type true) fun _ _ => .bind (.refl _) fun _ _ => boundsUntil_extends hg (by simp)

theorem whereClause?_extends (hg : g.Extends g') : Extends .none s (whereClause? g) (whereClause? g') := by
  refine .bind (.refl _) fun _ _ => .ite (fun _ => .bind ?_ fun _ _ => .refl _) fun _ => .refl _
  exact .joined (fun _ => .refl _) (by simp) (by simp) fun _ => wherePredicate_extends hg

theorem beforeWhere_extends (hg : g.Extends g') {α : Type} {p q : Reader α} (hp : ∀ s, Extends .none s p q) :
    Extends .none s (beforeWhere g p) (beforeWhere g' q) :=
  .bind (.collecting (hp _)) fun _ _ => .bind (whereClause?_extends hg) fun _ _ => .refl _

theorem fnArguments_extends (hg : g.Extends g') : Extends .none s (fnArguments g) (fnArguments g') := by
  refine .within fun _ => .bind (.repeated fun _ => .bind (.refl _) fun _ _ => .ite (fun _ => .refl _) fun _ => ?_)
    fun _ _ => .refl _
  refine .bind (outerAttributes_extends hg) fun _ _ => .bind (.refl _) fun _ _ => .ite (fun _ => .refl _) fun _ => ?_
  exact .bind (fnArgument_extends hg) fun _ _ => .refl _

theorem signature_extends (hg : g.Extends g') (safe : Bool) :
    Extends .none s (signature g safe) (signature g' safe) := by
  refine .bind (.refl _) fun _ _ => .bind (.refl _) fun _ _ => .bind (.refl _) fun _ _ =>
    .bind (generics_extends hg) fun _ _ => beforeWhere_extends hg fun _ => .bind (fnArguments_extends hg) fun _ _ => ?_
  exact .bind (.refl _) fun _ _ => .ite (fun _ => .discard (hg.type true)) fun _ => .refl _

theorem function_extends (hg : g.Extends g') : Extends .none s (function g) (function g') := by
  refine .bind (.collecting (signature_extends hg false)) fun _ _ => .bind (.refl _) fun _ _ =>
    .ite (fun _ => .refl _) fun _ => .bind (attributedBlock_extends hg _) fun _ _ => .pure

/-! ## Types of items -/

theorem typeAlias_extends (hg : g.Extends g') (whereFirst whereLast : Bool) :
    Extends .none s (typeAlias g whereFirst whereLast) (typeAlias g' whereFirst whereLast) := by
  refine .bind (.refl _) fun _ _ => .bind (.refl _) fun _ _ => .bind (generics_extends hg) fun _ _ =>
    .bind (.collecting ?_) fun _ _ => ?_
  · refine .bind (.refl _) fun _ _ => .ite (fun _ => .bind (.separated (by simp) fun _ => ?_) fun _ _ => ?_) fun _ => ?_
    · exact bound_extends hg false
    all_goals refine .ite (fun _ => .bind (whereClause?_extends hg) fun _ _ => ?_) fun _ => .bind (.refl _) fun _ _ => ?_
    all_goals
      exact .bind (.refl _) fun _ _ => .ite (fun _ => .bind (.discard (hg.type true)) fun _ _ => .pure) fun _ => .pure
  · exact .ite (fun _ => .bind (.discard (whereClause?_extends hg)) fun _ _ => .refl _) fun _ => .refl _

theorem plainAlias_extends (hg : g.Extends g') (whereFirst whereLast : Bool) :
    Extends .none s (plainAlias g whereFirst whereLast) (plainAlias g' whereFirst whereLast) :=
  .bind (typeAlias_extends hg whereFirst whereLast) fun _ _ => .pure

theorem constant_extends (hg : g.Extends g') : Extends .none s (constant g) (constant g') := by
  refine .bind (.refl _) fun _ _ => .bind (.refl _) fun _ _ => .ite (fun _ => .bind (.refl _) fun _ _ => ?_) fun _ => ?_
  all_goals
    refine .bind (generics_extends hg) fun _ _ => .bind (.refl _) fun _ _ => .bind (hg.type true) fun _ _ =>
      .bind (.refl _) fun _ _ => .ite (fun _ => .bind (.discard (hg.expr true)) fun _ _ => ?_) fun _ => ?_
    all_goals exact .bind (whereClause?_extends hg) fun _ _ => .refl _

/-! ## Structures and enumerations -/

theorem namedField_extends (hg : g.Extends g') : Extends .none s (namedField g) (namedField g') := by
  refine .bind (outerAttributes_extends hg) fun _ _ => .bind (.refl _) fun _ _ => .bind (.refl _) fun _ _ =>
    .ite (fun _ => .bind (.refl _) fun _ _ => ?_) fun _ => .bind (.refl _) fun _ _ => ?_
  all_goals exact .bind (.refl _) fun _ _ => .bind (hg.type true) fun _ _ => .pure

theorem namedFields_extends (hg : g.Extends g') : Extends .none s (namedFields g) (namedFields g') :=
  .within fun _ => .terminated fun _ => namedField_extends hg

theorem unnamedFields_extends (hg : g.Extends g') : Extends .none s (unnamedFields g) (unnamedFields g') := by
  refine .within fun _ => .discard (.terminated fun _ => .bind (outerAttributes_extends hg) fun _ _ => ?_)
  exact .bind (.refl _) fun _ _ => hg.type true

theorem structItem_extends (hg : g.Extends g') : Extends .none s (structItem g) (structItem g') := by
  refine .bind (.refl _) fun _ _ => .bind (.refl _) fun _ _ => .bind (generics_extends hg) fun _ _ =>
    .bind (whereClause?_extends hg) fun _ _ => .bind (.refl _) fun _ _ => .ite (fun _ => ?_) fun _ => ?_
  · exact .bind (beforeWhere_extends hg fun _ => unnamedFields_extends hg) fun _ _ => .refl _
  · refine .bind (.refl _) fun _ _ => .ite (fun _ => ?_) fun _ => .refl _
    exact .bind (namedFields_extends hg) fun _ _ => .refl _

theorem variant_extends (hg : g.Extends g') : Extends .none s (variant g) (variant g') := by
  refine .bind (outerAttributes_extends hg) fun _ _ => .bind (.refl _) fun _ _ => .bind (.refl _) fun _ _ =>
    .bind (.refl _) fun _ _ => .ite (fun _ => .bind (.discard (namedFields_extends hg)) fun _ _ => ?_) fun _ =>
    .bind (.refl _) fun _ _ => .ite (fun _ => .bind (unnamedFields_extends hg) fun _ _ => ?_) fun _ => ?_
  all_goals
    refine .bind (.refl _) fun _ _ => .ite (fun _ => ?_) fun _ => .refl _
    exact .bind (.discard (hg.expr true)) fun _ _ => .pure

theorem enumItem_extends (hg : g.Extends g') : Extends .none s (enumItem g) (enumItem g') := by
  refine .bind (.refl _) fun _ _ => .bind (.refl _) fun _ _ => .bind (generics_extends hg) fun _ _ =>
    .bind (whereClause?_extends hg) fun _ _ => .bind (.within fun _ => ?_) fun _ _ => .refl _
  exact .terminated fun _ => variant_extends hg

/-! ## Traits and implementations -/

theorem method_extends (hg : g.Extends g') (attributes : List Attribute × List Item) (inTrait : Bool) :
    Extends .none s (method g attributes inTrait) (method g' attributes inTrait) :=
  .bind (.collecting (.bind (.refl _) fun _ _ => function_extends hg)) fun _ _ => .refl _

theorem plainMember_extends (attributes : List Attribute × List Item) {p q : Reader Bool}
    (hp : ∀ s, Extends .none s p q) : Extends .none s (plainMember attributes p) (plainMember attributes q) :=
  .keepingIf (.bind (.refl _) fun _ s => hp s)

theorem traitMember_extends (hg : g.Extends g') : Extends .none s (traitMember g) (traitMember g') := by
  refine .bind (itemAttributes_extends hg) fun attributes _ => .bind (.refl _) fun _ _ => .bind (.refl _) fun _ _ =>
    .keepingIf (.bind (.refl _) fun _ _ => .bind (.refl _) fun _ _ => .ite (fun _ => ?_) fun _ =>
      .bind (.refl _) fun _ _ => .ite (fun _ => ?_) fun _ =>
      .bind (.refl _) fun _ _ => .ite (fun _ => ?_) fun _ => .refl _)
  · exact .bind (method_extends hg attributes true) fun _ _ => .refl _
  · refine .bind (plainMember_extends attributes fun _ => ?_) fun _ _ => .refl _
    exact .bind (constant_extends hg) fun _ _ => .refl _
  · refine .bind (plainMember_extends attributes fun _ => ?_) fun _ _ => .refl _
    exact .bind (typeAlias_extends hg false true) fun _ _ => .refl _

theorem implMember_extends (hg : g.Extends g') : Extends .none s (implMember g) (implMember g') := by
  refine .bind (itemAttributes_extends hg) fun attributes _ => .bind (.refl _) fun _ _ => .bind (.refl _) fun _ _ =>
    .ite (fun _ => .bind (.refl _) fun _ _ => ?_) fun _ => ?_
  all_goals
    refine .bind (.refl _) fun _ _ => .bind (.refl _) fun _ _ => .ite (fun _ => method_extends hg attributes false)
      fun _ => .bind (.refl _) fun _ _ => .ite (fun _ => ?_) fun _ => .bind (.refl _) fun _ _ =>
      .ite (fun _ => plainMember_extends attributes fun _ => plainAlias_extends hg false true) fun _ => .refl _
    exact plainMember_extends attributes fun _ => .bind (constant_extends hg) fun _ _ => .refl _

theorem members_extends (hg : g.Extends g') (before : List Item) {p q : Reader Unit}
    (hp : ∀ s, Extends .none s p q) : Extends .none s (members g before p) (members g' before q) := by
  refine .within fun _ => .bind (innerAttributes_extends hg) fun _ _ => .bind (.refl _) fun _ _ => ?_
  exact .bind (.many (by simp) hp) fun _ _ => .pure

theorem implementationHead_extends (hg : g.Extends g') :
    Extends .none s (implementationHead g) (implementationHead g') := by
  refine .bind (.refl _) fun _ _ => .bind (.refl _) fun _ _ => .bind (.refl _) fun _ _ => .bind (.refl _) fun _ _ =>
    .bind (.refl _) fun _ _ => .ite (fun _ => .bind (.discard (generics_extends hg)) fun _ _ => ?_) fun _ => ?_
  all_goals
    refine .bind (.refl _) fun _ _ => .ite (fun _ => .bind (.refl _) fun _ _ => .bind (.refl _) fun _ _ => ?_)
      fun _ => ?_
  all_goals
    refine .bind (.refl _) fun _ _ => .ite (fun _ => .bind (.refl _) fun _ _ => ?_) fun _ => ?_
  all_goals
    refine .bind (beforeWhere_extends hg fun _ => ?_) fun _ _ => .refl _
    refine .bind (hg.type true) fun _ _ => .bind (.refl _) fun _ _ => .ite (fun _ => .pure) fun _ => ?_
    exact .bind (hg.type true) fun _ _ => .pure

theorem implementation_extends (hg : g.Extends g') : Extends .none s (implementation g) (implementation g') := by
  refine .bind (.collecting (implementationHead_extends hg)) fun _ _ => ?_
  exact .bind (members_extends hg _ fun _ => implMember_extends hg) fun _ _ => .pure

theorem traitHead_extends (hg : g.Extends g') : Extends .none s (traitHead g) (traitHead g') := by
  have hbounds : ∀ stop s, Extends .none s
      (separated "+" stop (bound g false)) (separated "+" stop (bound g' false)) :=
    fun _ _ => .separated (by simp) fun _ => bound_extends hg false
  refine .bind (.refl _) fun _ _ => .bind (generics_extends hg) fun _ _ => .bind (.refl _) fun _ _ => .ite (fun _ => ?_)
    fun _ => .bind (.refl _) fun _ _ => .bind (beforeWhere_extends hg fun _ => ?_) fun _ _ => .refl _
  · exact .bind (beforeWhere_extends hg fun _ => hbounds _ _) fun _ _ => .refl _
  · exact .ite (fun _ => .bind (hbounds _ _) fun _ _ => .refl _) fun _ => .refl _

theorem traitRest_extends (hg : g.Extends g') : Extends .none s (traitRest g) (traitRest g') := by
  refine .bind (.collecting (traitHead_extends hg)) fun _ _ => .ite (fun _ => .refl _) fun _ => ?_
  exact .bind (members_extends hg _ fun _ => traitMember_extends hg) fun _ _ => .pure

/-! ## Foreign blocks -/

theorem foreignMember_extends (hg : g.Extends g') : Extends .none s (foreignMember g) (foreignMember g') := by
  refine .bind (itemAttributes_extends hg) fun attributes _ => .bind (.refl _) fun _ _ => .bind (.refl _) fun _ _ =>
    .bind (.refl _) fun _ _ => .ite (fun _ => ?_) fun _ => .bind (.refl _) fun _ _ => .ite (fun _ => ?_) fun _ =>
    .bind (.refl _) fun _ _ => .ite (fun _ => ?_) fun _ => .refl _
  · refine .bind (.refl _) fun _ _ => plainMember_extends attributes fun _ =>
      .bind (signature_extends hg true) fun _ _ => ?_
    refine .bind (.refl _) fun _ _ => .ite (fun _ => ?_) fun _ => .refl _
    exact .bind (attributedBlock_extends hg []) fun _ _ => .pure
  · refine plainMember_extends attributes fun _ => .bind (.refl _) fun _ _ =>
      .ite (fun _ => .bind (.refl _) fun _ _ => ?_) fun _ => ?_
    all_goals
      refine .bind (.refl _) fun _ _ => .bind (.refl _) fun _ _ => .bind (.refl _) fun _ _ => .bind (.refl _) fun _ _ =>
        .bind (hg.type true) fun _ _ => .bind (.refl _) fun _ _ => .ite (fun _ => ?_) fun _ => .refl _
      exact .bind (.discard (hg.expr true)) fun _ _ => .refl _
  · exact plainMember_extends attributes fun _ => .bind (typeAlias_extends hg true true) fun _ _ => .refl _

/-! ## Imports -/

theorem useTree_extends (hg : g.Extends g') (crateRoot : Bool) :
    Extends .none s (useTree g crateRoot) (useTree g' crateRoot) := by
  refine .bind (.refl _) fun _ _ => .ite (fun _ => ?_) fun _ => .bind (.refl _) fun _ _ => .ite (fun _ => .refl _)
    fun _ => .bind (.within fun _ => .terminated fun _ => ?_) fun _ _ => .refl _
  · refine .bind (.refl _) fun _ _ => .bind (.refl _) fun _ _ => .ite (fun _ => hg.useTree false) fun _ => .refl _
  · refine .ite (fun _ => .bind (.refl _) fun _ _ => ?_) fun _ => .bind (.refl _) fun _ _ => ?_
    all_goals exact .bind (hg.useTree _) fun _ _ => .refl _

theorem useItem_extends (hg : g.Extends g') : Extends .none s (useItem g) (useItem g') :=
  .bind (.refl _) fun _ _ => .bind (.refl _) fun _ _ => .bind (hg.useTree _) fun _ _ => .refl _

/-! ## Items -/

theorem staticItem_extends (hg : g.Extends g') : Extends .none s (staticItem g) (staticItem g') := by
  refine .bind (.refl _) fun _ _ => .bind (.refl _) fun _ _ => .bind (.refl _) fun _ _ => .bind (.refl _) fun _ _ =>
    .ite (fun _ => .bind (.discard (hg.type true)) fun _ _ => ?_) fun _ => ?_
  all_goals
    refine .bind (.refl _) fun _ _ => .ite (fun _ => .refl _) fun _ => .bind (.refl _) fun _ _ => ?_
    exact .bind (hg.expr true) fun _ _ => .refl _

theorem documentable_extends (hg : g.Extends g') (attributes : List Attribute) :
    Extends .none s (documentable g attributes) (documentable g' attributes) := by
  refine .bind (.refl _) fun start _ => .bind (.refl _) fun visible _ => .bind (.refl _) fun t _ =>
    .bind (.refl _) fun _ _ => .ite (fun _ => ?_) fun _ => .ite (fun _ => ?_) fun _ => .ite (fun _ => ?_) fun _ =>
    .ite (fun _ => ?_) fun _ => .ite (fun _ => ?_) fun _ => .ite (fun _ => ?_) fun _ => .ite (fun _ => ?_) fun _ =>
    .ite (fun _ => ?_) fun _ => .ite (fun _ => ?_) fun _ => .ite (fun _ => ?_) fun _ => .ite (fun _ => ?_) fun _ =>
    .ite (fun _ => .refl _) fun _ => .ite (fun _ => .refl _) fun _ => .ite (fun _ => ?_) fun _ => .refl _
  · exact .bind (function_extends hg) fun _ _ => .pure
  · exact .bind (useItem_extends hg) fun _ _ => .pure
  · exact .bind (staticItem_extends hg) fun _ _ => .pure
  · exact .bind (constant_extends hg) fun _ _ => .pure
  · exact .bind (plainAlias_extends hg true false) fun _ _ => .pure
  · exact .bind (structItem_extends hg) fun _ _ => .pure
  · exact .bind (enumItem_extends hg) fun _ _ => .pure
  · refine .bind (.refl _) fun _ _ => .bind (generics_extends hg) fun _ _ => ?_
    exact .bind (whereClause?_extends hg) fun _ _ => .bind (namedFields_extends hg) fun _ _ => .refl _
  · have hmember : ∀ s, Extends .none s (do note (← g.item (← itemAttributes g)))
        (do note (← g'.item (← itemAttributes g'))) :=
      fun _ => .bind (itemAttributes_extends hg) fun _ _ => .bind (hg.item _) fun _ _ => .refl _
    refine .bind (.refl _) fun _ _ => .bind (.refl _) fun _ _ => .bind (.refl _) fun _ _ =>
      .ite (fun _ => .bind (.refl _) fun _ _ => ?_) fun _ => ?_
    all_goals
      refine .bind (.refl _) fun _ _ => .ite (fun _ => .refl _) fun _ => ?_
      exact .bind (members_extends hg [] hmember) fun _ _ => .pure
  · refine .bind (.refl _) fun _ _ => .bind (.refl _) fun _ _ => .bind (.refl _) fun _ _ => ?_
    exact .bind (traitRest_extends hg) fun _ _ => .refl _
  · exact .bind (.refl _) fun _ _ => .bind (.refl _) fun _ _ => .bind (implementation_extends hg) fun _ _ => .refl _
  · refine .bind (.refl _) fun _ _ => .bind (.refl _) fun _ _ => ?_
    exact .bind (members_extends hg [] fun _ => foreignMember_extends hg) fun _ _ => .refl _

theorem item_extends (hg : g.Extends g') (attributes : List Attribute × List Item) :
    Extends .none s (item g attributes) (item g' attributes) :=
  .bind (.collecting (.bind (.refl _) fun _ _ => documentable_extends hg attributes.1)) fun _ _ => .refl _

end ApiDocs.Source.Rules
