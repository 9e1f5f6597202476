/-
# Proofs.TermForm -- which expressions have a vector term, and which

A vector term is the tree of its expression: parentheses drop out, a minus becomes a difference from
zero, and everything else stays in its order and its nesting (`LaneForm`).

Nothing but its parts can speak against an expression: a name that the loop changes, a subscript
that is not by the iterator, an operation that the target lacks, a form that no vector has
(`LoopPattern.refusal?`).  The first such part, in the order of the source and outer ones first, is
the one that is told (`term_eq_findSome?`); with none there is a term.  Its loads are the arrays
that the expression reads, one for one (`loads_term`).
-/
import Retarget.Proofs.VectorElements

namespace Retarget

open Retarget.Source (Node Mark BinaryOp UnaryOp)

set_option autoImplicit false
set_option linter.dupNamespace false

/-! ## Parts of an expression -/

namespace Source.Node

/-- What an expression is computed from: itself and, below parentheses and operators, operands. -/
def arithmeticParts : Node → List Node
  | paren m x => paren m x :: arithmeticParts x
  | unary m op x => unary m op x :: arithmeticParts x
  | binary m op x y => binary m op x y :: (arithmeticParts x ++ arithmeticParts y)
  | n => [n]

theorem self_mem_arithmeticParts (n : Node) : n ∈ n.arithmeticParts := by
  cases n <;> exact List.mem_cons_self

theorem arithmeticParts_subset {n x : Node} (part : x ∈ n.arithmeticParts) :
    x.arithmeticParts ⊆ n.arithmeticParts := by
  fun_induction arithmeticParts n with
  | case1 m y ih =>
      rcases List.mem_cons.mp part with rfl | below
      · exact List.Subset.refl _
      · exact List.subset_cons_of_subset _ (ih below)
  | case2 m op y ih =>
      rcases List.mem_cons.mp part with rfl | below
      · exact List.Subset.refl _
      · exact List.subset_cons_of_subset _ (ih below)
  | case3 m op y z ihy ihz =>
      rcases List.mem_cons.mp part with rfl | below
      · exact List.Subset.refl _
      · refine List.subset_cons_of_subset _ ?_
        rcases List.mem_append.mp below with left | right
        · exact List.subset_append_of_subset_left _ (ihy left)
        · exact List.subset_append_of_subset_right _ (ihz right)
  | case4 n h1 h2 h3 =>
      obtain rfl := List.mem_singleton.mp part
      rw [arithmeticParts.eq_4 x h1 h2 h3]
      exact List.Subset.refl _

/-- The arrays that an expression reads, in the order of the source. -/
def arraysRead (n : Node) : List String :=
  n.preorder.filterMap fun
    | index _ (name _ array) _ => some array
    | _ => none

end Source.Node

/-! ## The tree of a term -/

/-- A term is the tree of an expression: its parentheses are gone, and a minus is a difference from
zero. -/
inductive LaneForm (iterator : String) : Node → VecTerm → Prop where
  | paren (m : Mark) {x : Node} {t : VecTerm} (inner : LaneForm iterator x t) :
      LaneForm iterator (.paren m x) t
  | load (m m₁ m₂ : Mark) (array : String) :
      LaneForm iterator (.index m (.name m₁ array) (.name m₂ iterator)) (.load array)
  | scalar (m : Mark) (x : String) : LaneForm iterator (.name m x) (.scalar x)
  | literal (m : Mark) (kind : Source.LiteralKind) (text : String) :
      LaneForm iterator (.literal m kind text) (.literal text)
  | minus (m : Mark) {x : Node} {t : VecTerm} (inner : LaneForm iterator x t) :
      LaneForm iterator (.unary m .minus x) (.arith .sub (.literal "0") t)
  | binary (m : Mark) {op : BinaryOp} {o : VecOp} {x y : Node} {s t : VecTerm}
      (known : LoopPattern.vecOp? op = some o) (left : LaneForm iterator x s)
      (right : LaneForm iterator y t) : LaneForm iterator (.binary m op x y) (.arith o s t)

namespace LoopPattern

variable (p : LoopPattern) (u : SourceUnit) (prof : Profile)

/-- What speaks against a part of an expression, its operands apart. -/
def refusal? : Node → Option LoopError
  | .paren .. | .literal .. | .unary _ .minus _ => none
  | .name m x => if p.isReserved x then some (.noVectorForm (u.print (.name m x))) else none
  | .index m (.name m₁ array) (.name m₂ i) =>
    if i = p.iterator then none
    else some (.noVectorForm (u.print (.index m (.name m₁ array) (.name m₂ i))))
  | .binary _ op _ _ =>
    match vecOp? op with
    | none => some (.unknownOperator op.text)
    | some o =>
      if prof.arithmeticFn o = "" then some (.noInstruction prof.target o.symbol prof.elemType)
      else none
  | n => some (.noVectorForm (u.print n))

variable {p u prof}

theorem vecOp?_of_arithmetic {op : BinaryOp} {o : VecOp} (ok : arithmetic prof op = .ok o) :
    vecOp? op = some o ∧ prof.arithmeticFn o ≠ "" := by
  unfold arithmetic supported at ok
  split at ok
  · rename_i o' known
    split at ok
    · cases ok
    · rename_i some
      cases ok
      exact ⟨known, fun empty => some (beq_iff_eq.mpr empty)⟩
  · cases ok

theorem term_minus (m : Mark) {x : Node} {t : VecTerm}
    (ok : p.term u prof (.unary m .minus x) = .ok t) :
    ∃ s, p.term u prof x = .ok s ∧ t = .arith .sub (.literal "0") s := by
  obtain ⟨s, inner, made⟩ := ok_of_bind ok
  cases made
  exact ⟨s, inner, rfl⟩

theorem term_binary (m : Mark) {op : BinaryOp} {x y : Node} {t : VecTerm}
    (ok : p.term u prof (.binary m op x y) = .ok t) :
    ∃ o l r, vecOp? op = some o ∧ prof.arithmeticFn o ≠ "" ∧ p.term u prof x = .ok l ∧
      p.term u prof y = .ok r ∧ t = .arith o l r := by
  obtain ⟨o, arithmetic, ok⟩ := ok_of_bind ok
  obtain ⟨l, left, ok⟩ := ok_of_bind ok
  obtain ⟨r, right, made⟩ := ok_of_bind ok
  cases made
  obtain ⟨known, some⟩ := vecOp?_of_arithmetic arithmetic
  exact ⟨o, l, r, known, some, left, right, rfl⟩

/-- The term of an expression is its tree. -/
theorem laneForm_term {n : Node} {t : VecTerm} (ok : p.term u prof n = .ok t) :
    LaneForm p.iterator n t := by
  fun_induction LoopPattern.term p u prof n generalizing t with
  | case1 m x ih => exact .paren m (ih ok)
  | case2 m x i array found =>
      cases ok
      obtain ⟨_, _, _, shape⟩ := sequential?_eq_some found
      cases shape
      exact .load ..
  | case3 => cases ok
  | case4 => cases ok
  | case5 m x free =>
      cases ok
      exact .scalar m x
  | case6 m kind text =>
      cases ok
      exact .literal m kind text
  | case7 m x ih =>
      obtain ⟨s, inner, rfl⟩ := term_minus m ok
      exact .minus m (ih inner)
  | case8 m op x y ihx ihy =>
      obtain ⟨o, l, r, known, -, left, right, rfl⟩ := term_binary m ok
      exact .binary m known (ihx left) (ihy right)
  | case9 => cases ok

theorem refusal?_index (m : Mark) (x i : Node) : p.refusal? u prof (.index m x i) =
    if (p.sequential? (.index m x i)).isSome then none
    else some (.noVectorForm (u.print (.index m x i))) := by
  cases x with
  | name m₁ array =>
      cases i with
      | name m₂ j =>
          by_cases same : j = p.iterator <;> simp [refusal?, sequential?, Node.unparen, same]
      | _ => rfl
  | _ => rfl

variable (p u prof) in
theorem refusal?_binary (m : Mark) (op : BinaryOp) (x y : Node) :
    match p.refusal? u prof (.binary m op x y) with
    | some e => arithmetic prof op = .error e
    | none => ∃ o, arithmetic prof op = .ok o := by
  cases known : vecOp? op with
  | none => simp [refusal?, arithmetic, known]
  | some o =>
      by_cases empty : prof.arithmeticFn o = "" <;>
        simp [refusal?, arithmetic, known, supported, empty]

variable (p u prof) in
/-- An expression has a term unless something speaks against one of its parts; the first such
part is told. -/
theorem term_eq_findSome? (n : Node) :
    match n.arithmeticParts.findSome? (p.refusal? u prof) with
    | some e => p.term u prof n = .error e
    | none => ∃ t, p.term u prof n = .ok t := by
  fun_induction LoopPattern.term p u prof n with
  | case1 m x ih => exact ih
  | case2 m x i array found =>
      obtain ⟨_, _, _, shape⟩ := sequential?_eq_some found
      cases shape
      simp [Node.arithmeticParts, refusal?]
  | case3 m x i missed =>
      simp [Node.arithmeticParts, refusal?_index, missed]
  | case4 m x reserved => simp [Node.arithmeticParts, refusal?, reserved]
  | case5 m x free => simp [Node.arithmeticParts, refusal?, free]
  | case6 m kind text => simp [Node.arithmeticParts, refusal?]
  | case7 m x ih =>
      simp only [Node.arithmeticParts, List.findSome?_cons, refusal?]
      split at ih
      · rename_i e first
        simp [first, ih, bind, Except.bind]
      · rename_i first
        obtain ⟨t, ok⟩ := ih
        simp [first, ok, bind, Except.bind, pure, Except.pure]
  | case8 m op x y ihx ihy =>
      have here := refusal?_binary p u prof m op x y
      simp only [Node.arithmeticParts, List.findSome?_cons, List.findSome?_append]
      split at here
      · rename_i e first
        simp [first, here, bind, Except.bind]
      · rename_i first
        obtain ⟨o, known⟩ := here
        split at ihx
        · rename_i e firstX
          simp [first, known, firstX, ihx, bind, Except.bind]
        · rename_i firstX
          obtain ⟨l, left⟩ := ihx
          split at ihy
          · rename_i e firstY
            simp [first, known, firstX, firstY, left, ihy, bind, Except.bind]
          · rename_i firstY
            obtain ⟨r, right⟩ := ihy
            simp [first, known, firstX, firstY, left, right, bind, Except.bind, pure, Except.pure]
  | case9 n notParen notIndex notName notLiteral notMinus notBinary =>
      have told : p.refusal? u prof n = some (.noVectorForm (u.print n)) := by
        cases n with
        | paren m x => exact absurd rfl (notParen m x)
        | name m x => exact absurd rfl (notName m x)
        | literal m kind text => exact absurd rfl (notLiteral m kind text)
        | index m x i => exact absurd rfl (notIndex m x i)
        | binary m op x y => exact absurd rfl (notBinary m op x y)
        | unary m op x =>
            cases op with
            | minus => exact absurd rfl (notMinus m x)
            | _ => rfl
        | _ => rfl
      obtain ⟨rest, parts⟩ : ∃ rest, n.arithmeticParts = n :: rest := by
        cases n <;> exact ⟨_, rfl⟩
      rw [parts, List.findSome?_cons, told]

/-- What an expression with a term is computed from has terms. -/
theorem term_part {n x : Node} {t : VecTerm} (ok : p.term u prof n = .ok t)
    (part : x ∈ n.arithmeticParts) : ∃ s, p.term u prof x = .ok s := by
  have whole := term_eq_findSome? p u prof n
  have below := term_eq_findSome? p u prof x
  split at whole
  · rw [ok] at whole
    cases whole
  · rename_i none
    rw [List.findSome?_eq_none_iff] at none
    rw [List.findSome?_eq_none_iff.mpr fun y member =>
      none y (Node.arithmeticParts_subset part member)] at below
    exact below

/-- The loads of a term are the arrays that its expression reads, in the order of the source. -/
theorem loads_term {n : Node} {t : VecTerm} (ok : p.term u prof n = .ok t) :
    t.loads = n.arraysRead := by
  have form := laneForm_term ok
  clear ok
  unfold Node.arraysRead
  induction form with
  | paren m inner ih =>
      rw [ih, Node.preorder_eq (.paren ..)]
      show _ = List.filterMap _ (_ ++ [])
      rw [List.append_nil]
  | load | scalar | literal => rfl
  | minus m inner ih =>
      rw [Node.preorder_eq (.unary ..)]
      show _ = List.filterMap _ (_ ++ [])
      rw [List.append_nil, ← ih]
      rfl
  | binary m known left right ihx ihy =>
      rw [VecTerm.loads, ihx, ihy, Node.preorder_eq (.binary ..), ← List.filterMap_append]
      exact congrArg (fun parts => List.filterMap _ (_ ++ parts)) (List.append_nil _).symm

end LoopPattern

end Retarget
