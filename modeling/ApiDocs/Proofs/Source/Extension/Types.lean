import ApiDocs.Proofs.Source.Extension

/-!
# Types and patterns before a comma
-/

namespace ApiDocs.Source.Rules

open Reader

variable {g g' : Grammar} {tail : Tail} {s : ReaderState}

/-! ## Attributes and blocks -/

theorem attributeValue_extends (hg : g.Extends g') : Extends .none s (attributeValue g) (attributeValue g') := by
  refine .get ?_
  rw [ReaderState.before_none]
  split
  · exact .refl _
  · refine .look (by simp) (.ite (fun _ => .failure_bind) fun _ => ?_)
    exact .bind (hg.expr true) fun _ _ => .pure

theorem attributeBody_extends (hg : g.Extends g') (inner : Bool) :
    Extends .none s (attributeBody g inner) (attributeBody g' inner) := by
  refine .bind (.refl _) fun _ _ => .ite (fun _ => .bind (.refl _) fun _ _ => ?_) fun _ =>
    .bind (.refl _) fun _ _ => ?_
  all_goals
    refine .get ?_
    rw [ReaderState.before_none]
    split
    · exact .refl _
    · refine .bind (.refl _) fun _ _ => .ite (fun _ => ?_) fun _ => .refl _
      exact .bind (attributeValue_extends hg) fun _ _ => .pure

theorem outerAttributes_extends (hg : g.Extends g') : Extends tail s (outerAttributes g) (outerAttributes g') :=
  .aside (.many (by simp) fun _ => .bind (.op "#") fun _ _ => .within fun _ => attributeBody_extends hg false)

theorem innerAttributes_extends (hg : g.Extends g') : Extends .none s (innerAttributes g) (innerAttributes g') :=
  .aside (.many (by simp) fun _ => .bind (.refl _) fun _ _ => .within fun _ => attributeBody_extends hg true)

theorem itemAttributes_extends (hg : g.Extends g') : Extends tail s (itemAttributes g) (itemAttributes g') :=
  .collecting (outerAttributes_extends hg)

theorem block_extends (hg : g.Extends g') : Extends tail s (block g) (block g') :=
  .within fun _ => hg.statements

theorem attributedBlock_extends (hg : g.Extends g') (before : List Item) :
    Extends tail s (attributedBlock g before) (attributedBlock g' before) :=
  .within fun _ => .bind (innerAttributes_extends hg) fun _ _ => .bind (.noteAll before) fun _ _ =>
    .bind hg.statements fun _ _ => .pure

theorem constArgument_extends (hg : g.Extends g') : Extends tail s (constArgument g) (constArgument g') := by
  refine .look (by simp) (.ite (fun _ => .literal) fun _ => .look (by simp) (.ite (fun h => ?_) fun _ => ?_))
  · exact .skip (Look.one_le_length (by simp) h)
  · exact .discard (attributedBlock_extends hg [])

/-! ## Bounds -/

@[simp] theorem colon_append (ts : List Token) : colon (ts ++ tail.tokens) = colon ts := by
  simp [colon]

@[simp] theorem colon_nil : colon [] = false := rfl

@[simp] theorem callFollows_append (ts : List Token) : callFollows (ts ++ tail.tokens) = callFollows ts := by
  simp [callFollows]

@[simp] theorem boundStart_append (ts : List Token) : boundStart (ts ++ tail.tokens) = boundStart ts := by
  simp [boundStart]

theorem lifetimeBounds_extends : Extends tail s lifetimeBounds lifetimeBounds :=
  .discard (.joined (fun _ => .op? (by simp)) (by simp) (by simp) fun _ => .lifetime)

theorem callArguments_extends (hg : g.Extends g') : Extends tail s (callArguments g) (callArguments g') := by
  refine .bind (.within fun _ => .discard (.terminated fun _ => hg.type true)) fun _ _ => ?_
  exact .bind (.op? (by simp)) fun _ _ => .ite (fun _ => .discard (hg.type false)) fun _ => .pure

theorem lifetimeBinder?_extends (hg : g.Extends g') : Extends tail s (lifetimeBinder? g) (lifetimeBinder? g') := by
  refine .bind (.word? _) fun _ _ => .ite (fun _ => .bind (.op _) fun _ _ => ?_) fun _ => .pure
  exact .bind (.separated (by simp) fun _ => hg.parameter) fun _ _ => .bind (.op _) fun _ _ => .pure

theorem traitBound_extends (hg : g.Extends g') : Extends tail s (traitBound g) (traitBound g') := by
  refine .bind (lifetimeBinder?_extends hg) fun _ _ => .look (by simp) (.ite
    (fun _ => .bind (.within fun _ => .refl _) fun _ _ => ?_) fun _ => .bind (.op? (by simp)) fun _ _ => .ite
    (fun _ => .bind (.word _) fun _ _ => ?_) fun _ => .bind (.discard (.word? _)) fun _ _ => ?_)
  all_goals
    refine .bind (.op? (by simp)) fun _ _ => .ite (fun _ => .bind (lifetimeBinder?_extends hg) fun _ _ => ?_)
      fun _ => .bind .pure fun _ _ => ?_
    all_goals
      refine .bind (hg.path false) fun _ _ => .look (by simp) (.ite (fun _ => ?_) fun _ => ?_)
      · refine .bind (.op? (by simp)) fun _ _ => .bind (callArguments_extends hg) fun _ _ => ?_
        exact .ite (fun _ => .failure) fun _ => .pure
      · exact .ite (fun _ => .failure) fun _ => .pure

theorem bound_extends (hg : g.Extends g') (captures : Bool) :
    Extends tail s (bound g captures) (bound g' captures) := by
  refine .look (by simp) (.ite (fun _ => .bind .lifetime fun _ _ => .pure) fun _ => ?_)
  refine .look (by simp) (.ite (fun huse => .ite (fun _ => .failure_bind) fun _ => ?_) fun _ => ?_)
  · refine .bind (.skip (Look.one_le_length (by simp) huse)) fun _ _ => .bind (.op _) fun _ _ => ?_
    refine .bind (.separated (by simp) fun _ => ?_) fun _ _ => .bind (.op _) fun _ _ => .pure
    refine .look (by simp) (.ite (fun _ => .lifetime) fun _ => .look (by simp) (.ite (fun hself => ?_) fun _ => ?_))
    · exact .skip (Look.one_le_length (by simp) hself)
    · exact .discard .ident
  · refine .look (by simp) (.ite (fun _ => ?_) fun _ => .bind (traitBound_extends hg) fun _ _ => .pure)
    exact .bind (.within fun _ => traitBound_extends hg) fun _ _ => .pure

theorem traitBound_nil (hg : g.Extends g') (found : List Item) : traitBound g ⟨[], found⟩ = none := by
  have hword : ∀ w, word? w ⟨[], found⟩ = some (false, ⟨[], found⟩) := fun _ => rfl
  have hop : ∀ {w : String}, w.toList ≠ [] → op? w ⟨[], found⟩ = some (false, ⟨[], found⟩) := by
    intro w hw
    unfold op?
    rw [bind_apply, look_apply, Look.op_nil hw]
    rfl
  have hconst : discard (word? "const") ⟨[], found⟩ = some ((), ⟨[], found⟩) := rfl
  have htilde := hop (w := "~") (by simp)
  have hmaybe := hop (w := "?") (by simp)
  simp only [traitBound, lifetimeBinder?, bind_apply, Reader.ite_apply, look_apply, pure_apply, hword, htilde, hmaybe,
    hconst, hg.path_nil, Look.group_nil, Option.bind_some, Option.bind_none, Bool.false_eq_true, if_false,
    Bool.false_and]

/-- A bound is not empty, as no path is. -/
theorem rest_ne_nil_of_bound (hg : g.Extends g') {captures : Bool} {r : BoundKind × ReaderState}
    (h : bound g captures s = some r) : s.rest ≠ [] := by
  intro hs
  obtain ⟨rest, found⟩ := s
  subst hs
  simp only [bound, bind_apply, Reader.ite_apply, look_apply, Look.lifetime_nil, Look.word_nil, Look.group_nil,
    traitBound_nil hg, Option.bind_some, Option.bind_none, Bool.false_eq_true, if_false] at h
  cases h

/-- Bounds up to punctuation, be it a comma. -/
theorem boundsUntil_extends (hg : g.Extends g') {stop : Look}
    (hstop : ∀ ts, stop (ts ++ tail.tokens) = (stop ts || ts.isEmpty && !tail.tokens.isEmpty)) :
    Extends tail s (boundsUntil g stop) (boundsUntil g' stop) := by
  refine .discard (.joined (fun _ => .op? (by simp)) (fun ts h => ?_) (fun s r hr => ?_) fun _ =>
    bound_extends hg false)
  · rw [hstop, h, Bool.true_or]
  · have hs := rest_ne_nil_of_bound hg hr
    simp [hstop, hs]

theorem objectBounds_extends (hg : g.Extends g') (plus captures : Bool) :
    Extends tail s (objectBounds g plus captures) (objectBounds g' plus captures) := by
  refine .bind (.repeated fun _ => .bind (bound_extends hg captures) fun _ _ => ?_) fun _ _ =>
    .ite (fun _ => .failure) fun _ => .pure
  refine .bind (.op? (by simp)) fun _ _ => .ite (fun _ => ?_) fun _ => .pure
  exact .look (by simp) (.ite (fun _ => .pure) fun _ => .pure)

/-! ## Generic parameters -/

theorem parameter_extends (hg : g.Extends g') : Extends tail s (parameter g) (parameter g') := by
  refine .bind (outerAttributes_extends hg) fun _ _ => .look (by simp) (.ite (fun _ => ?_) fun _ => ?_)
  · refine .bind .lifetime fun _ _ => .look (by simp) (.ite (fun hcolon => ?_) fun _ => .pure)
    exact .bind (.skip (Look.one_le_length (by simp) hcolon)) fun _ _ => lifetimeBounds_extends
  · refine .bind (.word? _) fun _ _ => .ite (fun _ => ?_) fun _ => ?_
    · refine .bind .ident fun _ _ => .bind (.op _) fun _ _ => .bind (hg.type true) fun _ _ => ?_
      exact .bind (.op? (by simp)) fun _ _ => .ite (fun _ => constArgument_extends hg) fun _ => .pure
    · have hdefault : ∀ s, Extends tail s
          (do if ← op? "=" then discard <| g.type true) (do if ← op? "=" then discard <| g'.type true) :=
        fun s => .bind (.op? (by simp)) fun _ _ => .ite (fun _ => .discard (hg.type true)) fun _ => .pure
      refine .bind (.word? _) fun _ _ => .ite (fun _ => .bind (.discard .ident) fun _ _ => ?_) fun _ => ?_
      all_goals
        refine .look (by simp) (.ite (fun hcolon => ?_) fun _ => hdefault _)
        refine .bind (.skip (Look.one_le_length (by simp) hcolon)) fun _ _ => .bind ?_ fun _ s => hdefault s
        exact boundsUntil_extends hg (by simp [Bool.or_assoc, Bool.or_comm, Bool.or_left_comm])

/-! ## Paths -/

theorem genericArgument_extends (hg : g.Extends g') : Extends tail s (genericArgument g) (genericArgument g') := by
  refine .look ?_ (.ite (fun h => ?_) fun _ => .look (by simp) (.ite (fun _ => ?_) fun _ => ?_))
  · cases h : Look.lifetime s.rest with
    | false => simp [h]
    | true => simp [h, Look.second_append (Look.ne_nil (by simp) h)]
  · exact .bind (.skip (Look.one_le_length (by simp) (Bool.and_eq_true_iff.mp h).1)) fun _ _ => .pure
  · exact .bind (constArgument_extends hg) fun _ _ => .pure
  · refine .bind (hg.type true) fun _ _ => .ite (fun _ => ?_) fun _ => .pure
    refine .bind (.op? (by simp)) fun _ _ => .ite (fun _ => ?_) fun _ => ?_
    · refine .look (by simp) (.ite (fun _ => .bind (constArgument_extends hg) fun _ _ => .pure) fun _ => ?_)
      exact .bind (.discard (hg.type true)) fun _ _ => .pure
    · refine .bind (.op? (by simp)) fun _ _ => .ite (fun _ => ?_) fun _ => .pure
      exact .bind (boundsUntil_extends hg (by simp [Bool.or_right_comm])) fun _ _ => .pure

theorem angleArguments_extends (hg : g.Extends g') : Extends tail s (angleArguments g) (angleArguments g') := by
  refine .bind (.op? (by simp)) fun _ _ => .bind (.op _) fun _ _ => ?_
  refine .bind (.separated (by simp) fun _ => genericArgument_extends hg) fun _ _ => ?_
  exact .bind (.op _) fun _ _ => .pure

theorem pathSegment_extends (hg : g.Extends g') (exprStyle : Bool) :
    Extends tail s (pathSegment g exprStyle) (pathSegment g' exprStyle) := by
  refine .look (by simp) (.ite (fun _ => .bind .anyWord fun _ _ => .pure) fun _ => ?_)
  refine .look (by simp) (.ite (fun _ => .bind .anyWord fun _ _ => ?_) fun _ => .bind .ident fun _ _ => ?_)
  all_goals
    exact .look (by simp) (.ite (fun _ => .bind (angleArguments_extends hg) fun _ _ => .pure) fun _ => .pure)

/-- A path goes on behind `::`, but not with a list of arguments in parentheses. -/
theorem pathGoesOn_append (ts : List Token) :
    (Look.op "::" (ts ++ tail.tokens) && !Look.third (Look.group .paren) (ts ++ tail.tokens)) =
      (Look.op "::" ts && !Look.third (Look.group .paren) ts) := by
  cases h : Look.op "::" ts with
  | false => simp [h]
  | true => simp [h, Look.third_append (Look.length_le_of_op h)]

theorem path_extends (hg : g.Extends g') (exprStyle : Bool) :
    Extends tail s (path g exprStyle) (path g' exprStyle) := by
  refine .bind (.op? (by simp)) fun _ _ => .bind (pathSegment_extends hg exprStyle) fun _ _ => ?_
  refine .bind (.many pathGoesOn_append fun _ => ?_) fun _ _ => .pure
  exact .bind (.op _) fun _ _ => pathSegment_extends hg exprStyle

theorem qualifiedPath_extends (hg : g.Extends g') (exprStyle : Bool) :
    Extends tail s (qualifiedPath g exprStyle) (qualifiedPath g' exprStyle) := by
  have hsegment : ∀ s, Extends tail s (pathSegment g exprStyle) (pathSegment g' exprStyle) :=
    fun _ => pathSegment_extends hg exprStyle
  refine .bind (.op? (by simp)) fun _ _ => .ite (fun _ => .bind (hg.type true) fun _ _ => ?_)
    fun _ => path_extends hg exprStyle
  refine .bind (.word? _) fun _ _ => .ite (fun _ => .bind (.discard (hg.path false)) fun _ _ => ?_) fun _ => ?_
  all_goals
    refine .bind (.op _) fun _ _ => .bind (.op _) fun _ _ => .bind (hsegment _) fun _ _ => ?_
    exact .bind (.many (by simp) fun _ => .bind (.op _) fun _ _ => hsegment _) fun _ _ => .pure

@[simp] theorem bang_append (ts : List Token) : bang (ts ++ tail.tokens) = bang ts := by
  simp [bang]

@[simp] theorem bang_nil : bang [] = false := rfl

/-! ## Types -/

theorem abi?_extends : Extends tail s abi? abi? := by
  refine .bind (.word? _) fun _ _ => .ite (fun _ => .look (by simp) (.ite (fun htext => ?_) fun _ => .pure))
    fun _ => .pure
  exact .skip (Look.one_le_length (by simp) htext)

theorem fnTypeArgument_extends (hg : g.Extends g') (first : Bool) :
    Extends .none s (fnTypeArgument g first) (fnTypeArgument g' first) := by
  refine .bind (.refl _) fun _ _ => .ite (fun _ => .bind (.refl _) fun _ _ => ?_) fun _ => ?_
  all_goals
    refine .bind (.refl _) fun _ _ => .bind (.refl _) fun _ _ => .ite (fun _ => .bind (.refl _) fun _ _ => ?_)
      fun _ => ?_
    all_goals
      refine .bind (.refl _) fun _ _ => .ite (fun _ => .refl _) fun _ => .ite (fun _ => .refl _) fun _ => ?_
      exact .discard (hg.type true)

theorem fnType_extends (hg : g.Extends g') : Extends tail s (fnType g) (fnType g') := by
  refine .bind (.word? _) fun _ _ => .bind abi?_extends fun _ _ => .bind (.word _) fun _ _ =>
    .bind (.within fun _ => ?_) fun _ _ => .bind (.op? (by simp)) fun _ _ =>
    .ite (fun _ => .discard (hg.type false)) fun _ => .pure
  refine .bind (.refl _) fun _ _ => .bind (.repeated fun _ => ?_) fun _ _ => .pure
  refine .look (by simp) (.ite (fun _ => .pure) fun _ => .bind (.refl _) fun _ _ => ?_)
  refine .bind (outerAttributes_extends hg) fun _ _ => .bind (.refl _) fun _ _ => .ite (fun _ => .refl _) fun _ => ?_
  exact .bind (fnTypeArgument_extends hg _) fun _ _ => .refl _

theorem parenType_extends (hg : g.Extends g') (plus : Bool) :
    Extends tail s (parenType g plus) (parenType g' plus) := by
  have hmore : ∀ s, Extends tail s (discard (many (Look.op "+") do op "+"; bound g false))
      (discard (many (Look.op "+") do op "+"; bound g' false)) :=
    fun _ => .discard (.many (by simp) fun _ => .bind (.op _) fun _ _ => bound_extends hg false)
  refine .look ?_ (.ite (fun _ => ?_) fun _ => ?_)
  · cases s.rest with
    | nil => cases tail <;> rfl
    | cons t ts =>
      cases t with
      | group d body => cases d <;> rfl
      | _ => rfl
  · exact .bind (.within fun _ => traitBound_extends hg) fun _ _ => .bind (hmore _) fun _ _ => .pure
  · refine .bind (.within fun _ => .look (by simp) (.ite (fun _ => .pure) fun _ => ?_)) fun inside _ => ?_
    · refine .look (by simp) (.ite (fun _ => ?_) fun _ => .bind (hg.type true) fun _ _ => ?_)
      · exact .bind (objectBounds_extends hg true false) fun _ _ => .pure
      · refine .bind (.refl _) fun _ _ => .ite (fun _ => ?_) fun _ => .pure
        exact .bind (.terminated fun _ => hg.type true) fun _ _ => .pure
    · cases inside with
      | none => exact .pure
      | some shape =>
        refine .look (by simp) (.ite (fun _ => ?_) fun _ => .pure)
        split
        · exact .bind (hmore _) fun _ _ => .pure
        · exact .pure

theorem pathType_extends (hg : g.Extends g') (plus binder : Bool) :
    Extends tail s (pathType g plus binder) (pathType g' plus binder) := by
  refine .bind (qualifiedPath_extends hg false) fun _ _ => .ite (fun _ => .pure) fun _ =>
    .look (by simp) (.ite (fun hbang => ?_) fun _ => .look (by simp) (.ite (fun _ => ?_) fun _ => .pure))
  · exact .bind (.skip (Look.one_le_length (by simp) (Bool.and_eq_true_iff.mp hbang).1)) fun _ _ =>
      .bind .anyGroup fun _ _ => .pure
  · refine .ite (fun _ => .bind (.repeated fun _ => ?_) fun _ _ => .pure) fun _ => .pure
    refine .bind (.op? (by simp)) fun _ _ => .ite (fun _ => .pure) fun _ => .look (by simp) (.ite (fun _ => .pure)
      fun _ => .bind (bound_extends hg false) fun _ _ => .pure)

theorem type_extends (hg : g.Extends g') (plus : Bool) : Extends tail s (type g plus) (type g' plus) := by
  refine .bind (lifetimeBinder?_extends hg) fun _ _ => .look (by simp) (.ite (fun _ => .failure_bind) fun _ => ?_)
  refine .look (by simp) (.ite (fun _ => parenType_extends hg plus) fun _ => ?_)
  refine .look (by simp) (.ite (fun _ => .bind (fnType_extends hg) fun _ _ => .pure) fun _ => ?_)
  refine .look (by simp) (.ite (fun _ => pathType_extends hg plus _) fun _ => ?_)
  refine .bind (.word? _) fun _ _ => .ite (fun _ => ?_) fun _ => .look (by simp) (.ite (fun _ => ?_) fun _ => ?_)
  · exact .bind (.op? (by simp)) fun _ _ => .bind (objectBounds_extends hg plus false) fun _ _ => .pure
  · refine .within fun _ => .bind (hg.type true) fun _ _ => .bind (.refl _) fun _ _ => ?_
    exact .ite (fun _ => .bind (hg.expr true) fun _ _ => .pure) fun _ => .pure
  refine .bind (.op? (by simp)) fun _ _ => .ite (fun _ => ?_) fun _ => .bind (.op? (by simp)) fun _ _ =>
    .ite (fun _ => ?_) fun _ => .bind (.op? (by simp)) fun _ _ => .ite (fun _ => .pure) fun _ => ?_
  · have htype : ∀ s, Extends tail s (do let _ ← g.type false; return ({} : TypeForm))
        (do let _ ← g'.type false; return {}) := fun _ => .bind (hg.type false) fun _ _ => .pure
    exact .bind (.word? _) fun _ _ => .ite (fun _ => .bind (.word _) fun _ s => htype s) fun _ => htype _
  · have hinner : ∀ s, Extends tail s
        (do let _ ← word? "mut"; return ({ shape := .reference (← g.type false).shape } : TypeForm))
        (do let _ ← word? "mut"; return { shape := .reference (← g'.type false).shape }) :=
      fun _ => .bind (.word? _) fun _ _ => .bind (hg.type false) fun _ _ => .pure
    exact .look (by simp) (.ite (fun _ => .bind .lifetime fun _ s => hinner s) fun _ => hinner _)
  · refine .bind (.word? _) fun _ _ => .ite (fun _ => .bind (objectBounds_extends hg plus true) fun _ _ => .pure)
      fun _ => .bind (.word? _) fun _ _ => .ite (fun _ => .pure) fun _ => ?_
    refine .look (by simp) (.ite (fun _ => ?_) fun _ => .failure)
    exact .bind (objectBounds_extends hg true false) fun _ _ => .pure

/-! ## Patterns -/

@[simp] theorem bar_append (ts : List Token) : bar (ts ++ tail.tokens) = bar ts := by
  simp [bar]

theorem patterns_extends (hg : g.Extends g') : Extends tail s (patterns g) (patterns g') := by
  refine .bind (.op? (by simp)) fun _ _ => .bind hg.pattern fun _ _ => ?_
  exact .bind (.many (by simp) fun _ => .bind (.op _) fun _ _ => hg.pattern) fun _ _ => .pure

theorem rangeLimits_extends (obsolete : Bool) : Extends tail s (rangeLimits obsolete) (rangeLimits obsolete) := by
  refine .bind (.op? (by simp)) fun _ _ => .ite (fun _ => .pure) fun _ => .look (by simp) (.ite (fun hdots => ?_)
    fun _ => .bind (.op _) fun _ _ => .pure)
  refine .ite (fun _ => .failure_bind) fun _ => .bind (.skip ?_) fun _ _ => .pure
  exact (show "...".length = 3 by decide) ▸ Look.length_le_of_op hdots

theorem rangeBound_extends (hg : g.Extends g') : Extends tail s (rangeBound g) (rangeBound g') := by
  refine .look ?_ (.ite (fun _ => .pure) fun _ => .look (by simp) (.ite (fun _ => ?_) fun _ => ?_))
  · have hend : Look.atEnd s.rest = s.rest.isEmpty := rfl
    simp only [Look.atEnd_append, Look.comma_append, hend]
    cases s.rest.isEmpty <;> cases tail.tokens.isEmpty <;> simp
  · exact .bind .literal fun _ _ => .pure
  · refine .bind (.word? _) fun _ _ => .ite (fun _ => ?_) fun _ => .look (by simp) (.ite (fun _ => ?_) fun _ => ?_)
    · exact .bind (.discard (attributedBlock_extends hg [])) fun _ _ => .pure
    · exact .bind (.discard (qualifiedPath_extends hg true)) fun _ _ => .pure
    · exact .failure_bind

theorem rangeRest_extends (hg : g.Extends g') : Extends tail s (rangeRest g) (rangeRest g') := by
  refine .bind (rangeLimits_extends true) fun _ _ => .bind (rangeBound_extends hg) fun _ _ => ?_
  exact .ite (fun _ => .failure_bind) fun _ => .pure

theorem member_extends : Extends tail s member member := by
  have hident : ∀ s, Extends tail s (do let _ ← ident; return true) (do let _ ← ident; return true) :=
    fun _ => .bind .ident fun _ _ => .pure
  refine .get ?_
  match s with
  | ⟨[], found⟩ => cases tail <;> exact hident _
  | ⟨t :: ts, found⟩ =>
    cases t with
    | literal l =>
      cases l with
      | integer digits => exact .ite (fun _ => .failure_bind) fun _ => .bind (.skip (by simp)) fun _ _ => .pure
      | _ => exact hident _
    | _ => exact hident _

theorem fieldPattern_extends (hg : g.Extends g') : Extends .none s (fieldPattern g) (fieldPattern g') := by
  refine .bind (.refl _) fun _ _ => .bind (.refl _) fun _ _ => .bind (.refl _) fun _ _ => .ite (fun _ => .refl _)
    fun _ => .bind (.refl _) fun _ _ => .look (by simp) (.ite (fun _ => .bind (.refl _) fun _ _ => ?_) fun _ => .pure)
  exact .bind (patterns_extends hg) fun _ _ => .pure

theorem structPattern_extends (hg : g.Extends g') : Extends tail s (structPattern g) (structPattern g') := by
  refine .within fun _ => .bind (.repeated fun _ => .look (by simp) (.ite (fun _ => .pure) fun _ => ?_))
    fun _ _ => .pure
  refine .bind (outerAttributes_extends hg) fun _ _ => .bind (.refl _) fun _ _ => .ite (fun _ => .pure) fun _ => ?_
  exact .bind (fieldPattern_extends hg) fun _ _ => .refl _

theorem pathPattern_extends (hg : g.Extends g') : Extends tail s (pathPattern g) (pathPattern g') := by
  refine .bind (qualifiedPath_extends hg true) fun _ _ => .look (by simp) (.ite (fun hbang => ?_) fun _ => ?_)
  · exact .bind (.skip (Look.one_le_length (by simp) (Bool.and_eq_true_iff.mp hbang).2)) fun _ _ =>
      .bind .anyGroup fun _ _ => .pure
  · refine .look (by simp) (.ite (fun _ => .bind (structPattern_extends hg) fun _ _ => .pure) fun _ =>
      .look (by simp) (.ite (fun _ => .bind (.within fun _ => ?_) fun _ _ => .pure) fun _ =>
      .look (by simp) (.ite (fun _ => rangeRest_extends hg) fun _ => .pure)))
    exact .discard (.terminated fun _ => patterns_extends hg)

theorem slicePattern_extends (hg : g.Extends g') : Extends tail s (slicePattern g) (slicePattern g') :=
  .within fun _ => .bind (.terminated fun _ => patterns_extends hg) fun _ _ =>
    .ite (fun _ => .failure) fun _ => .pure

theorem pattern_extends (hg : g.Extends g') : Extends tail s (pattern g) (pattern g') := by
  refine .look ?_ (.ite (fun _ => pathPattern_extends hg) fun _ => .bind (.word? _) fun _ _ => .ite (fun _ => .pure)
    fun _ => .bind (.word? _) fun _ _ => .ite (fun _ => .bind hg.pattern fun _ _ => .pure) fun _ => ?_)
  · simp [Look.and_second_append (Look.ne_nil Look.ident_nil),
      Look.and_second_append (Look.ne_nil (Look.word_nil "self"))]
  refine .look (by simp) (.ite (fun _ => .bind (rangeBound_extends hg) fun _ _ => .ite (fun _ => .failure_bind)
    fun _ => ?_) fun _ => .look (by simp) (.ite (fun _ => ?_) fun _ => .bind (.op? (by simp)) fun _ _ =>
    .ite (fun _ => ?_) fun _ => .look (by simp) (.ite (fun _ => ?_) fun _ => .look (by simp) (.ite (fun _ => ?_)
    fun _ => .look (by simp) (.ite (fun _ => ?_) fun _ => .failure)))))
  · exact .look (by simp) (.ite (fun _ => rangeRest_extends hg) fun _ => .pure)
  · refine .bind (.word? _) fun _ _ => .bind (.word? _) fun _ _ => .bind (.word? _) fun _ _ =>
      .ite (fun _ => .bind (.discard .ident) fun _ _ => ?_) fun _ => ?_
    all_goals
      refine .bind (.op? (by simp)) fun _ _ => .ite (fun _ => ?_) fun _ => .pure
      exact .bind (.discard hg.pattern) fun _ _ => .pure
  · exact .bind (.word? _) fun _ _ => .bind hg.pattern fun _ _ => .pure
  · exact .bind (.within fun _ => .discard (.terminated fun _ => patterns_extends hg)) fun _ _ => .pure
  · exact .bind (slicePattern_extends hg) fun _ _ => .pure
  · refine .bind (rangeLimits_extends false) fun _ _ => .bind (rangeBound_extends hg) fun _ _ => ?_
    exact .ite (fun _ => .pure) fun _ => .ite (fun _ => .failure_bind) fun _ => .pure

end ApiDocs.Source.Rules
