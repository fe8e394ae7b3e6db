import ApiDocs.Proofs.Source.Extension.Items

/-!
# Deeper grammars

A grammar reads all that a less deep one reads, so what can be read at all is read the same at every depth
that is large enough for it.
-/

namespace ApiDocs.Source

open Reader

namespace Rules
variable {g : Grammar} {s : ReaderState}

/-! ## First tokens -/

theorem path_nil (g : Grammar) (exprStyle : Bool) (found : List Item) : path g exprStyle ⟨[], found⟩ = none := rfl

theorem type_point (g : Grammar) (plus joint : Bool) (ts : List Token) (found : List Item) :
    type g plus ⟨.punct '.' joint :: ts, found⟩ = none := rfl

theorem type_colon (g : Grammar) (plus joint : Bool) (name : String) (ts : List Token) (found : List Item) :
    type g plus ⟨.punct ':' joint :: .word name :: ts, found⟩ = none := by
  cases joint <;> rfl

theorem pattern_self {before : List Token} {joint : Bool} {ts : List Token} {found : List Item}
    {r : PatternKind × ReaderState} (hbefore : before = [] ∨ before = [.word "mut"])
    (hts : ∀ joint name us, ts ≠ .punct ':' joint :: .word name :: us)
    (h : pattern g ⟨before ++ .word "self" :: .punct ':' joint :: ts, found⟩ = some r) :
    r.2 = ⟨.punct ':' joint :: ts, found⟩ := by
  obtain rfl | rfl := hbefore
  · by_cases hpath : joint = true ∧ Look.op ":" ts = true
    · obtain ⟨rfl, hcolon⟩ := hpath
      obtain ⟨joint, us, rfl⟩ := Look.exists_of_colon hcolon
      change pathPattern g ⟨.word "self" :: .punct ':' true :: .punct ':' joint :: us, found⟩ = some r at h
      match us with
      | .word name :: us => exact absurd rfl (hts joint name us)
      | [] | .lifetime _ :: _ | .punct .. :: _ | .literal _ :: _ => cases h
      | .group d body :: _ =>
        cases d <;> cases h
        rfl
    · unfold pattern at h
      rw [look_bind_apply, if_neg] at h
      · cases h
        rfl
      · intro hstart
        change (false || true && (true && joint && Look.op ":" ts) || false || false || false) = true at hstart
        simp only [Bool.true_and, Bool.false_or, Bool.or_false, Bool.and_eq_true] at hstart
        exact hpath hstart
  · cases h
    rfl

end Rules

theorem grammar_type_point (depth : Nat) (plus joint : Bool) (ts : List Token) (found : List Item) :
    (grammar depth).type plus ⟨.punct '.' joint :: ts, found⟩ = none := by
  cases depth with
  | zero => rfl
  | succ depth => exact Rules.type_point ..

theorem grammar_type_colon (depth : Nat) (plus joint : Bool) (name : String) (ts : List Token) (found : List Item) :
    (grammar depth).type plus ⟨.punct ':' joint :: .word name :: ts, found⟩ = none := by
  cases depth with
  | zero => rfl
  | succ depth => exact Rules.type_colon ..

/-! ## The knot -/

/-- A deeper grammar reads what a grammar reads. -/
theorem grammar_extends {d d' : Nat} (h : d ≤ d') : (grammar d).Extends (grammar d') := by
  induction d generalizing d' with
  | zero =>
    exact {
      path_nil := fun _ _ => rfl
      path := fun _ => .failure
      parameter := .failure
      type_point := grammar_type_point d'
      type_colon := grammar_type_colon d'
      type := fun _ => .failure
      expr := fun _ => .failure
      unary := fun _ => .failure
      binary := fun _ _ _ => .failure
      statementExpr := .failure
      pattern_self := fun _ _ h => by cases h
      pattern := .failure
      statements := .failure
      item := fun _ => .failure
      useTree := fun _ => .failure }
  | succ d ih =>
    obtain ⟨d', rfl⟩ := Nat.exists_eq_add_of_le' h
    have hg := ih (Nat.le_of_succ_le_succ h)
    exact {
      path_nil := Rules.path_nil _
      path := Rules.path_extends hg
      parameter := Rules.parameter_extends hg
      type_point := grammar_type_point _
      type_colon := grammar_type_colon _
      type := Rules.type_extends hg
      expr := Rules.expr_extends hg
      unary := Rules.unary_extends hg
      binary := Rules.binary_extends hg
      statementExpr := Rules.statementExpr_extends hg
      pattern_self := Rules.pattern_self
      pattern := Rules.pattern_extends hg
      statements := Rules.statements_extends hg
      item := Rules.item_extends hg
      useTree := Rules.useTree_extends hg }

def IsExpression (ts : List Token) : Prop := (readAll (fun g => g.expr true) ts).isSome = true

/-- An expression ends before a comma, in every grammar that is deep enough for it. -/
theorem IsExpression.read {ts : List Token} (h : IsExpression ts) {d : Nat} (hd : 4 * Token.weights ts + 16 ≤ d)
    (tail : Tail) :
    ∃ e found, (grammar d).expr true ⟨ts ++ tail.tokens, []⟩ = some (e, ⟨tail.tokens, found⟩) := by
  unfold IsExpression readAll at h
  split at h
  · rename_i e s hread
    split at h
    · rename_i hempty
      have hlong : (grammar d).expr true (ReaderState.before ⟨ts, []⟩ tail) = some (e, s.before tail) :=
        (grammar_extends hd).expr true e s hread
      refine ⟨e, s.found, hlong.trans ?_⟩
      rw [ReaderState.before, List.isEmpty_iff.mp hempty, List.nil_append]
    · cases h
  · cases h

end ApiDocs.Source
