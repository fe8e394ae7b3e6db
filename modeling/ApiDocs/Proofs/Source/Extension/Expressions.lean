import ApiDocs.Proofs.Source.Extension.Types
import Mathlib.Data.List.Find

/-!
# Expressions before a comma
-/

namespace ApiDocs.Source.Rules

open Reader

variable {g g' : Grammar} {tail : Tail} {s : ReaderState}

/-! ## Operators -/

theorem binaryOperator?_append (ts : List Token) : binaryOperator? (ts ++ tail.tokens) = binaryOperator? ts := by
  have hall : ∀ o ∈ binaryOperators, o.1.toList ≠ [] ∧ ',' ∉ o.1.toList := by decide
  exact List.find?_congr fun o ho => Look.op_append (hall o ho).1 (hall o ho).2

@[simp] theorem equals_append (ts : List Token) : equals (ts ++ tail.tokens) = equals ts := by
  simp [equals]

@[simp] theorem equals_nil : equals [] = false := rfl

@[simp] theorem nextPrecedence_append (ts : List Token) : nextPrecedence (ts ++ tail.tokens) = nextPrecedence ts := by
  simp [nextPrecedence, binaryOperator?_append]

@[simp] theorem rangeStops_append (structs : Bool) (ts : List Token) :
    rangeStops structs (ts ++ tail.tokens) = rangeStops structs ts := by
  have hend : Look.atEnd ts = ts.isEmpty := rfl
  simp only [rangeStops, Look.atEnd_append, Look.comma_append, hend]
  cases ts.isEmpty <;> cases tail.tokens.isEmpty <;> simp

@[simp] theorem castStops_append (ts : List Token) : castStops (ts ++ tail.tokens) = castStops ts := by
  simp [castStops]

theorem operand_extends (hg : g.Extends g') (structs : Bool) (p : Precedence) :
    Extends tail s (operand g structs p) (operand g' structs p) := by
  refine .bind (hg.unary structs) fun _ _ => .iterate fun rhs s => .get (.iteIff (by simp) (fun _ => ?_) fun _ => .pure)
  rw [ReaderState.rest_before, nextPrecedence_append]
  refine .bind (hg.binary rhs structs _) fun _ s' => .get (.iteIff (by simp) (fun _ => .pure) fun _ => .pure)

theorem rangeTail_extends (hg : g.Extends g') (structs : Bool) :
    Extends tail s (rangeTail g structs) (rangeTail g' structs) := by
  refine .bind (rangeLimits_extends false) fun _ _ => .look (by simp) (.ite (fun _ => .pure) fun _ => ?_)
  exact .bind (operand_extends hg structs .range) fun _ _ => .pure

theorem binary_extends (hg : g.Extends g') (lhs : Expr) (structs : Bool) (base : Precedence) :
    Extends tail s (binary g lhs structs base) (binary g' lhs structs base) := by
  refine .iterate fun lhs s => .ite (fun _ => .pure) fun _ => .get ?_
  simp only [ReaderState.rest_before, binaryOperator?_append]
  cases hoperator : binaryOperator? s.rest with
  | some o =>
    have ho : Look.op o.1 s.rest = true :=
      List.find?_some (p := fun o : String × Precedence => Look.op o.1 s.rest) hoperator
    refine .ite (fun _ => .pure) fun _ => .ite (fun _ => .failure_bind) fun _ => ?_
    refine .bind (.skip (Look.length_le_of_op ho)) fun _ _ => ?_
    exact .bind (operand_extends hg structs _) fun _ _ => .pure
  | none =>
    refine .iteIff (by simp) (fun hequals => ?_) fun _ => ?_
    · refine .bind (.skip (Look.one_le_length (by simp) (Bool.and_eq_true_iff.mp hequals).2)) fun _ _ => ?_
      exact .bind (operand_extends hg structs _) fun _ _ => .pure
    refine .iteIff (by simp) (fun _ => .bind (rangeTail_extends hg structs) fun _ _ => .pure) fun _ => ?_
    refine .iteIff (by simp) (fun hcast => ?_) fun _ => .pure
    refine .bind (.skip (Look.one_le_length (by simp) (Bool.and_eq_true_iff.mp hcast).2)) fun _ _ => ?_
    exact .bind (hg.type false) fun _ _ => .bind (.require (by simp)) fun _ _ => .pure

/-! ## Calls, fields and indices -/

theorem arguments_extends (hg : g.Extends g') : Extends tail s (arguments g) (arguments g') :=
  .within fun _ => .discard (.terminated fun _ => hg.expr true)

theorem memberAccess_extends (hg : g.Extends g') : Extends tail s (memberAccess g) (memberAccess g') := by
  refine .bind (.word? _) fun _ _ => .ite (fun _ => .pure) fun _ => .bind member_extends fun _ _ =>
    .look (by simp) (.ite (fun _ => .bind (.require (Look.third_op_append_of _)) fun _ _ => ?_) fun _ => ?_)
  · refine .bind (angleArguments_extends hg) fun _ _ => .look (by simp) (.ite (fun _ => ?_) fun _ => .pure)
    exact arguments_extends hg
  · exact .look (by simp) (.ite (fun _ => arguments_extends hg) fun _ => .pure)

theorem trailers_extends (hg : g.Extends g') (e : Expr) : Extends tail s (trailers g e) (trailers g' e) := by
  have hmember : ∀ s, Extends tail s
      (do memberAccess g; return some ({} : Expr)) (do memberAccess g'; return some {}) :=
    fun _ => .bind (memberAccess_extends hg) fun _ _ => .pure
  refine .iterate fun e s => .get ?_
  refine .iteIff (by simp) (fun _ => .bind (arguments_extends hg) fun _ _ => .pure) fun _ => ?_
  refine .iteIff (by simp) (fun hpoint => ?_) fun _ => ?_
  · simp only [Bool.and_eq_true] at hpoint
    refine .bind (.skip (Look.one_le_length (by simp) hpoint.1.2)) fun _ s => .get ?_
    match s with
    | ⟨[], found⟩ => cases tail <;> exact hmember _
    | ⟨t :: ts, found⟩ =>
      cases t with
      | literal l =>
        cases l with
        | float spelling =>
          refine .bind (.skip (by simp)) fun _ _ => ?_
          cases tupleIndices spelling with
          | none => exact .failure
          | some complete =>
            cases complete with
            | true => exact .pure
            | false => exact hmember _
        | _ => exact hmember _
      | _ => exact hmember _
  refine .iteIff (by simp) (fun _ => .bind (.within fun _ => hg.expr true) fun _ _ => .pure) fun _ => ?_
  refine .iteIff (by simp) (fun hmark => ?_) fun _ => .pure
  exact .bind (.skip (Look.one_le_length (by simp) (Bool.and_eq_true_iff.mp hmark).2)) fun _ _ => .pure

/-! ## Atoms -/

@[simp] theorem exprStart_append (ts : List Token) : exprStart (ts ++ tail.tokens) = exprStart ts := by
  simp [exprStart]

theorem structBody_extends (hg : g.Extends g') : Extends tail s (structBody g) (structBody g') := by
  refine .within fun _ => .bind (.repeated fun _ => .look (by simp) (.ite (fun _ => .pure) fun _ => ?_))
    fun _ _ => .pure
  refine .bind (.refl _) fun _ _ => .ite (fun _ => .look (by simp) (.ite (fun _ => ?_) fun _ => .pure)) fun _ => ?_
  · exact .bind (.discard (hg.expr true)) fun _ _ => .pure
  · refine .bind (outerAttributes_extends hg) fun _ _ => .bind (.refl _) fun _ _ => .bind (.refl _) fun _ _ =>
      .ite (fun _ => .bind (.refl _) fun _ _ => .bind (hg.expr true) fun _ _ => .refl _) fun _ => .refl _

theorem pathExpr_extends (hg : g.Extends g') (structs : Bool) :
    Extends tail s (pathExpr g structs) (pathExpr g' structs) := by
  refine .bind (qualifiedPath_extends hg true) fun _ _ => .look (by simp) (.ite (fun hbang => ?_) fun _ =>
    .look (by simp) (.ite (fun _ => ?_) fun _ => .pure))
  · refine .bind (.skip (Look.one_le_length (by simp) (Bool.and_eq_true_iff.mp hbang).2)) fun _ _ => ?_
    exact .bind .anyGroup fun _ _ => .pure
  · exact .bind (structBody_extends hg) fun _ _ => .pure

theorem parenExpr_extends (hg : g.Extends g') : Extends tail s (parenExpr g) (parenExpr g') :=
  .bind (.within fun _ => .discard (.terminated fun _ => hg.expr true)) fun _ _ => .pure

theorem arrayExpr_extends (hg : g.Extends g') : Extends tail s (arrayExpr g) (arrayExpr g') := by
  refine .within fun _ => .look (by simp) (.ite (fun _ => .pure) fun _ => .bind (hg.expr true) fun _ _ => ?_)
  refine .bind (.refl _) fun _ _ => .ite (fun _ => .bind (hg.expr true) fun _ _ => .pure) fun _ => ?_
  refine .look (by simp) (.ite (fun _ => .bind (.refl _) fun _ _ => ?_) fun _ => .pure)
  exact .bind (.terminated fun _ => hg.expr true) fun _ _ => .pure

@[simp] theorem binderStart_append (ts : List Token) : binderStart (ts ++ tail.tokens) = binderStart ts := by
  unfold binderStart
  cases h : Look.word "for" ts with
  | false => simp [h]
  | true => simp [h, Look.second_append (Look.ne_nil (by simp) h)]

@[simp] theorem closureStart_append (ts : List Token) : closureStart (ts ++ tail.tokens) = closureStart ts := by
  unfold closureStart
  cases h : Look.word "const" ts with
  | false => simp [h, Look.and_second_append (Look.ne_nil (Look.word_nil "async"))]
  | true => simp [h, Look.second_append (Look.ne_nil (by simp) h)]

theorem closure_extends (hg : g.Extends g') (structs : Bool) :
    Extends tail s (closure g structs) (closure g' structs) := by
  refine .bind (lifetimeBinder?_extends hg) fun _ _ => .bind (.word? _) fun _ _ => .bind (.word? _) fun _ _ =>
    .bind (.word? _) fun _ _ => .bind (.word? _) fun _ _ => .bind (.op _) fun _ _ =>
    .bind (.separated (by simp) fun _ => ?_) fun _ _ => .bind (.op _) fun _ _ => .bind (.op? (by simp)) fun _ _ =>
    .ite (fun _ => ?_) fun _ => .bind (hg.expr structs) fun _ _ => .pure
  · refine .bind (outerAttributes_extends hg) fun _ _ => .bind hg.pattern fun _ _ => ?_
    refine .bind (.op? (by simp)) fun _ _ => ?_
    exact .ite (fun _ => .discard (hg.type true)) fun _ => .pure
  · exact .bind (hg.type true) fun _ _ => .bind (block_extends hg) fun _ _ => .pure

/-! ## Control flow -/

theorem blockExpr_extends (hg : g.Extends g') (before : List Item) :
    Extends tail s (blockExpr g before) (blockExpr g' before) :=
  .bind (attributedBlock_extends hg before) fun _ _ => .pure

theorem ifExpr_extends (hg : g.Extends g') : Extends tail s (ifExpr g) (ifExpr g') := by
  refine .bind (.repeated fun _ => .bind (.word _) fun _ _ => .bind (hg.expr false) fun _ _ => ?_) fun _ _ => .pure
  refine .bind (block_extends hg) fun _ _ => .bind (.word? _) fun _ _ => .ite (fun _ => ?_) fun _ => .pure
  exact .look (by simp) (.ite (fun _ => .pure) fun _ => .bind (block_extends hg) fun _ _ => .pure)

theorem loopExpr_extends (hg : g.Extends g') : Extends tail s (loopExpr g) (loopExpr g') := by
  refine .bind (.collecting (.bind (.word? _) fun _ _ => .ite (fun _ => .discard (hg.expr false)) fun _ =>
    .bind (.word? _) fun _ _ => .ite (fun _ => .bind (patterns_extends hg) fun _ _ => ?_) fun _ => .word _))
    fun _ _ => blockExpr_extends hg _
  exact .bind (.word _) fun _ _ => .discard (hg.expr false)

theorem arm_extends (hg : g.Extends g') : Extends .none s (arm g) (arm g') := by
  refine .bind (outerAttributes_extends hg) fun _ _ => .bind (patterns_extends hg) fun _ _ => .bind (.refl _) fun _ _ =>
    .ite (fun _ => .bind (.discard (hg.expr true)) fun _ _ => ?_) fun _ => ?_
  all_goals exact .bind (.refl _) fun _ _ => .bind hg.statementExpr fun _ _ => .refl _

theorem matchExpr_extends (hg : g.Extends g') : Extends tail s (matchExpr g) (matchExpr g') := by
  refine .bind (.word _) fun _ _ => .bind (.collecting (hg.expr false)) fun _ _ => .bind (.within fun _ => ?_)
    fun _ _ => .pure
  refine .bind (innerAttributes_extends hg) fun _ _ => .bind (.noteAll _) fun _ _ => ?_
  exact .bind (.many (by simp) fun _ => arm_extends hg) fun _ _ => .pure

theorem labeled_extends (hg : g.Extends g') : Extends tail s (labeled g) (labeled g') := by
  refine .bind .lifetime fun _ _ => .bind (.op _) fun _ _ => .look (by simp) ?_
  exact .ite (fun _ => loopExpr_extends hg) fun _ => blockExpr_extends hg []

theorem letExpr_extends (hg : g.Extends g') (structs : Bool) :
    Extends tail s (letExpr g structs) (letExpr g' structs) := by
  refine .bind (.word _) fun _ _ => .bind (patterns_extends hg) fun _ _ => .bind (.op _) fun _ _ => ?_
  exact .bind (hg.unary structs) fun lhs _ => .bind (hg.binary lhs structs .compare) fun _ _ => .pure

theorem breakExpr_extends (hg : g.Extends g') (structs : Bool) :
    Extends tail s (breakExpr g structs) (breakExpr g' structs) := by
  have hvalue : ∀ s, Extends tail s (do
        if ← look fun ts => exprStart ts && (structs || !Look.group .brace ts) then
          return { endsInBrace := (← g.expr true).endsInBrace }
        return ({} : Expr)) (do
        if ← look fun ts => exprStart ts && (structs || !Look.group .brace ts) then
          return { endsInBrace := (← g'.expr true).endsInBrace }
        return {}) :=
    fun _ => .look (by simp) (.ite (fun _ => .bind (hg.expr true) fun _ _ => .pure) fun _ => .pure)
  refine .bind (.word _) fun _ _ => .look (by simp) (.ite (fun hlabel => .look ?_ (.ite (fun _ => .failure_bind)
    fun _ => .bind .lifetime fun _ s => hvalue s)) fun _ => hvalue _)
  exact Look.second_append (Look.ne_nil (by simp) hlabel) (by simp)

theorem jumpValue_extends (hg : g.Extends g') : Extends tail s (jumpValue g) (jumpValue g') :=
  .look (by simp) (.ite (fun _ => .bind (hg.expr true) fun _ _ => .pure) fun _ => .pure)

theorem keywordExpr_extends (hg : g.Extends g') (structs : Bool) :
    Extends tail s (keywordExpr g structs) (keywordExpr g' structs) := by
  refine .get (.iteIff (by simp) (fun _ => breakExpr_extends hg structs) fun _ => ?_)
  refine .iteIff (by simp) (fun hcontinue => ?_) fun _ => ?_
  · refine .bind (.skip (Look.one_le_length (by simp) hcontinue)) fun _ _ => ?_
    exact .look (by simp) (.ite (fun _ => .bind .lifetime fun _ _ => .pure) fun _ => .pure)
  refine .iteIff (by simp) (fun hjump => ?_) fun _ => ?_
  · exact .bind (.skip (Look.one_le_length (by simp) hjump)) fun _ _ => jumpValue_extends hg
  refine .iteIff (by simp) (fun _ => letExpr_extends hg structs) fun _ => ?_
  refine .iteIff (by simp) (fun _ => ifExpr_extends hg) fun _ => ?_
  refine .iteIff (by simp) (fun _ => loopExpr_extends hg) fun _ => ?_
  refine .iteIff (by simp) (fun _ => matchExpr_extends hg) fun _ => ?_
  refine .iteIff (by simp) (fun hblock => ?_) fun _ => .failure
  exact .bind (.skip (Look.one_le_length (by simp) hblock)) fun _ _ => blockExpr_extends hg []

theorem asyncBlock_append (ts : List Token) :
    (Look.word "async" (ts ++ tail.tokens) && (Look.second (Look.group .brace) (ts ++ tail.tokens) ||
        (Look.second (Look.word "move") (ts ++ tail.tokens) && Look.third (Look.group .brace) (ts ++ tail.tokens)))) =
      (Look.word "async" ts && (Look.second (Look.group .brace) ts ||
        (Look.second (Look.word "move") ts && Look.third (Look.group .brace) ts))) := by
  cases h : Look.word "async" ts with
  | false => simp [h]
  | true =>
    simp [h, Look.second_append (Look.ne_nil (by simp) h), Look.second_and_third_append (Look.word_nil "move")]

theorem atom_extends (hg : g.Extends g') (structs : Bool) : Extends tail s (atom g structs) (atom g' structs) := by
  have hsecond {w : String} {p : Look} (hp : ∀ us, p (us ++ tail.tokens) = p us) (ts : List Token) :
      (Look.word w ts && Look.second p (ts ++ tail.tokens)) = (Look.word w ts && Look.second p ts) :=
    Look.and_second_append (Look.ne_nil (Look.word_nil w)) hp
  refine .get (.iteIff (by simp) (fun _ => .bind .literal fun _ _ => .pure) fun _ => ?_)
  refine .iteIff (by rw [ReaderState.rest_before, asyncBlock_append]) (fun hasync => ?_) fun _ => ?_
  · refine .bind (.skip (Look.one_le_length (by simp) (Bool.and_eq_true_iff.mp hasync).1)) fun _ _ => ?_
    exact .bind (.word? _) fun _ _ => .bind (block_extends hg) fun _ _ => .pure
  refine .iteIff (by simp [hsecond]) (fun hblock => ?_) fun _ => ?_
  · refine .bind (.skip (Look.one_le_length (by simp) (Bool.and_eq_true_iff.mp hblock).1)) fun _ _ => ?_
    exact .bind (block_extends hg) fun _ _ => .pure
  refine .iteIff (by simp) (fun _ => closure_extends hg structs) fun _ => ?_
  refine .iteIff (by simp [hsecond]) (fun hhash => ?_) fun _ => ?_
  · refine .bind (.skip (Look.two_le_length_of_second (by simp) (Bool.and_eq_true_iff.mp hhash).2)) fun _ _ => ?_
    refine .bind .ident fun _ _ => .require_bind (by simp) fun hgroup => ?_
    exact .bind (.skip (Look.one_le_length (by simp) hgroup)) fun _ _ => .pure
  refine .iteIff (by simp [hsecond]) (fun _ => pathExpr_extends hg structs) fun _ => ?_
  refine .iteIff (by simp) (fun _ => parenExpr_extends hg) fun _ => ?_
  refine .iteIff (by simp) (fun _ => arrayExpr_extends hg) fun _ => ?_
  refine .iteIff (by simp) (fun _ => blockExpr_extends hg []) fun _ => ?_
  refine .iteIff (by simp) (fun _ => rangeTail_extends hg structs) fun _ => ?_
  refine .iteIff (by simp) (fun hhole => ?_) fun _ => ?_
  · exact .bind (.skip (Look.one_le_length (by simp) hhole)) fun _ _ => .pure
  exact .iteIff (by simp) (fun _ => labeled_extends hg) fun _ => keywordExpr_extends hg structs

/-! ## Expressions -/

theorem unary_extends (hg : g.Extends g') (structs : Bool) : Extends tail s (unary g structs) (unary g' structs) := by
  refine .bind (outerAttributes_extends hg) fun attributes s => .get ?_
  refine .iteIff (by simp) (fun hand => ?_) fun _ => .iteIff (by simp) (fun hop => ?_) fun _ => ?_
  · have hinner : ∀ s, Extends tail s (do return ({ endsInBrace := (← g.unary structs).endsInBrace } : Expr))
        (do return { endsInBrace := (← g'.unary structs).endsInBrace }) :=
      fun _ => .bind (hg.unary structs) fun _ _ => .pure
    refine .bind (.skip (Look.one_le_length (by simp) hand)) fun _ _ => .look ?_ (.ite (fun hraw => ?_) fun _ => ?_)
    · simp [Look.and_second_append (Look.ne_nil (Look.word_nil "raw"))]
    · refine .bind (.skip ?_) fun _ s => hinner s
      exact Look.two_le_length_of_second (by simp) (Bool.and_eq_true_iff.mp hraw).2
    · exact .bind (.discard (.word? _)) fun _ s => hinner s
  · refine .bind (.skip ?_) fun _ _ => .bind (hg.unary structs) fun _ _ => .pure
    exact Look.one_le_length (p := fun ts => Look.op "*" ts || Look.op "!" ts || Look.op "-" ts) (by simp) hop
  · refine .bind (atom_extends hg structs) fun e _ => .bind (trailers_extends hg e) fun _ _ => ?_
    exact .ite (fun _ => .failure_bind) fun _ => .pure

theorem expr_extends (hg : g.Extends g') (structs : Bool) : Extends tail s (expr g structs) (expr g' structs) :=
  .bind (hg.unary structs) fun lhs _ => hg.binary lhs structs .weakest

theorem statementExpr_extends (hg : g.Extends g') : Extends .none s (statementExpr g) (statementExpr g') := by
  refine .bind (outerAttributes_extends hg) fun _ s => .get ?_
  rw [ReaderState.before_none]
  refine .ite (fun _ => .bind (atom_extends hg true) fun e _ => .look (by simp) (.ite (fun _ => ?_) fun _ => .pure))
    fun _ => ?_
  · exact .bind (trailers_extends hg e) fun e _ => hg.binary e true .weakest
  · exact .bind (hg.unary true) fun lhs _ => hg.binary lhs true .weakest

/-! ## Statements -/

theorem localStatement_extends (hg : g.Extends g') : Extends .none s (localStatement g) (localStatement g') := by
  have hvalue : ∀ s, Extends .none s
      (do
        if ← op? "=" then
          let value ← g.expr true
          if !value.endsInBrace && (← look (Look.word "else")) then
            skip 1
            block g
        op ";")
      (do
        if ← op? "=" then
          let value ← g'.expr true
          if !value.endsInBrace && (← look (Look.word "else")) then
            skip 1
            block g'
        op ";") := by
    refine fun _ => .bind (.refl _) fun _ _ => .ite (fun _ => .bind (hg.expr true) fun _ _ => ?_) fun _ => .refl _
    refine .look (by simp) (.ite (fun _ => ?_) fun _ => .refl _)
    exact .bind (.refl _) fun _ _ => .bind (block_extends hg) fun _ _ => .refl _
  refine .bind (.refl _) fun _ _ => .bind hg.pattern fun _ _ => .bind (.refl _) fun _ _ => .ite (fun _ => ?_)
    fun _ => hvalue _
  exact .bind (.discard (hg.type true)) fun _ s => hvalue s

theorem statement_extends (hg : g.Extends g') : Extends .none s (statement g) (statement g') := by
  refine .bind (itemAttributes_extends hg) fun attributes _ => .bind (.refl _) fun opening _ => ?_
  cases opening with
  | statement count => exact .refl _
  | _ =>
    refine .look (by simp) (.ite (fun _ => .bind (.refl _) fun _ _ => .bind (localStatement_extends hg) fun _ _ => .pure)
      fun _ => .look (by simp) (.ite (fun _ => .bind (hg.item attributes) fun _ _ => .refl _)
      fun _ => .bind (.refl _) fun _ _ => .bind hg.statementExpr fun _ _ => .refl _))

theorem statements_extends (hg : g.Extends g') : Extends .none s (statements g) (statements g') := by
  refine .bind (.repeated fun _ => .look (by simp) (.ite (fun _ => .pure) fun _ => .bind (.refl _) fun _ _ => ?_))
    fun _ _ => .pure
  exact .ite (fun _ => .pure) fun _ => .bind (statement_extends hg) fun _ _ => .refl _

end ApiDocs.Source.Rules
