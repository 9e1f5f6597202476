/-
# Proofs.StoringText -- texts that store a value
-/
import Retarget.Emission.Line
import Mathlib.Data.List.DropRight

namespace Retarget

set_option autoImplicit false
set_option linter.dupNamespace false

open Retarget.Source (Node Mark)
open Retarget.Kernel (cType declare)
open Retarget.Text (contains trimEnd endsWith)

/-! ## Trimming -/

namespace Text

variable (set : List Char)

theorem dropEndWhile_append (p : Char → Bool) (a b : List Char) :
    dropEndWhile p (a ++ b) =
      if dropEndWhile p b = [] then dropEndWhile p a else a ++ dropEndWhile p b := by
  simp only [dropEndWhile, List.reverse_append, List.dropWhile_append, List.reverse_eq_nil_iff,
    List.isEmpty_iff]
  split
  · rfl
  · rw [List.reverse_append, List.reverse_reverse]

/-- Of two texts the second is trimmed and, if nothing is left of it, the first. -/
theorem trimEnd_append (s t : String) :
    trimEnd set (s ++ t) = if trimEnd set t = "" then trimEnd set s else s ++ trimEnd set t := by
  simp only [trimEnd, String.toList_append, dropEndWhile_append, String.ofList_eq_empty_iff]
  split
  · rfl
  · rw [String.ofList_append, String.ofList_toList]

theorem trimEnd_trimEnd (s : String) : trimEnd set (trimEnd set s) = trimEnd set s := by
  simp [trimEnd, dropEndWhile, List.dropWhile_idempotent]

theorem length_trimEnd_le (s : String) : (trimEnd set s).length ≤ s.length := by
  have sub := (List.dropWhile_sublist (p := set.contains) (l := s.toList.reverse)).length_le
  simpa [trimEnd, dropEndWhile, ← String.length_toList] using sub

end Text

namespace Emitter

/-- A text without what separates it from the next. -/
def trimmed (text : String) : String := trimEnd [';', ' ', '\n'] text

theorem trimmed_append (s t : String) :
    trimmed (s ++ t) = if trimmed t = "" then trimmed s else s ++ trimmed t :=
  Text.trimEnd_append _ s t

@[simp] theorem trimmed_trimmed (s : String) : trimmed (trimmed s) = trimmed s :=
  Text.trimEnd_trimEnd _ s

@[simp] theorem trimmed_empty : trimmed "" = "" := rfl

/-! ## A target and a value -/

/-- What follows the target of a store. -/
def storeTail (value : String) : String := if value = "" then " =" else " = " ++ value

theorem trimmed_store (target value : String) :
    trimmed (target ++ " = " ++ value) = target ++ storeTail (trimmed value) := by
  have sign : trimmed " = " = " =" := by decide
  have tail : trimmed (" = " ++ value) = storeTail (trimmed value) := by
    rw [trimmed_append, sign, storeTail]
  have some : storeTail (trimmed value) ≠ "" := by
    unfold storeTail
    split <;> simp
  rw [String.append_assoc, trimmed_append, tail, if_neg some]

theorem storeTail_inj {a b : String} (same : storeTail a = storeTail b) : a = b := by
  unfold storeTail at same
  have signs (c : String) : " =" ≠ " = " ++ c := fun h => by
    have lengths := congrArg String.length h
    have two : " =".length = 2 := by decide
    have three : " = ".length = 3 := by decide
    rw [String.length_append] at lengths
    omega
  split at same <;> split at same
  · rename_i noA noB
    rw [noA, noB]
  · exact absurd same (signs b)
  · exact absurd same.symm (signs a)
  · exact (String.append_right_inj _).mp same

/-- Stores to one target agree exactly if their values do. -/
theorem trimmed_store_iff {target a b : String} :
    trimmed (target ++ " = " ++ a) = trimmed (target ++ " = " ++ b) ↔ trimmed a = trimmed b := by
  rw [trimmed_store, trimmed_store, String.append_right_inj]
  exact ⟨storeTail_inj, congrArg storeTail⟩

/-! ## Declarations -/

/-- The spelling of a constant before its declaration. -/
def constMark (isConst : Bool) : String := if isConst then "const " else ""

/-- A text never stays the same behind a mark of constants. -/
theorem no_const_shift (d x y : List Char) :
    d ++ ' ' :: '=' :: x ≠ 'c' :: 'o' :: 'n' :: 's' :: 't' :: ' ' :: (d ++ y) := by
  intro same
  match d with
  | [] => simp at same
  | [_] => simp at same
  | [_, _] => simp at same
  | [_, _, _] => simp at same
  | [_, _, _, _] => simp at same
  | [_, _, _, _, _] => grind
  | a :: b :: c :: f :: g :: h :: rest =>
      simp only [List.cons_append, List.cons.injEq] at same
      obtain ⟨rfl, rfl, rfl, rfl, rfl, rfl, same⟩ := same
      exact no_const_shift rest x y same

/-- The mark of constants is written unless the type spells it. -/
def marks (isConst : Bool) (type : String) : Bool := isConst && !contains type "const"

theorem declaration_eq (type name value : String) (isConst : Bool) :
    declaration type name isConst value = constMark (marks isConst type) ++
      (if value = "" then declare type name else declare type name ++ " = " ++ value) := by
  unfold declaration constMark marks
  by_cases marked : (isConst && !contains type "const") = true <;> by_cases empty : value = "" <;>
    simp [marked, empty, String.append_assoc]

theorem storeTail_toList (value : String) :
    ∃ x, (storeTail value).toList = ' ' :: '=' :: x := by
  unfold storeTail
  split
  · exact ⟨[], by simp⟩
  · exact ⟨' ' :: value.toList, by simp⟩

/-- What a store adds cannot be trimmed off. -/
theorem trimmed_ne_store {s t : String} (shorter : s.length ≤ t.length) (value : String) :
    trimmed s ≠ t ++ storeTail value := by
  intro same
  obtain ⟨x, tail⟩ := storeTail_toList value
  have kept : (trimmed s).length ≤ s.length := Text.length_trimEnd_le _ s
  have lengths := congrArg String.length same
  rw [String.length_append, ← String.length_toList (s := storeTail value), tail] at lengths
  simp only [List.length_cons] at lengths
  omega

theorem length_constMark_marks (isConst : Bool) (type : String) :
    (constMark (marks isConst type)).length ≤ (constMark isConst).length := by
  unfold marks
  cases isConst
  · exact Nat.le_refl _
  · cases contains type "const"
    · exact Nat.le_refl _
    · exact Nat.zero_le _

theorem marks_eq_false_of_ne {isConst : Bool} {type : String} (differ : marks isConst type ≠ isConst) :
    isConst = true ∧ marks isConst type = false := by
  unfold marks at differ ⊢
  cases isConst <;> simp_all

/-- A declaration with a value agrees with its print exactly if a constant is marked and there is a
value, the same on both sides. -/
theorem declared_iff {type name a value : String} {isConst : Bool} (neat : trimmed a = a) :
    trimmed (declaration type name isConst a) =
        trimmed (constMark isConst ++ declare type name ++ " = " ++ value) ↔
      marks isConst type = isConst ∧ trimmed value ≠ "" ∧ a = trimmed value := by
  rw [declaration_eq, trimmed_store]
  by_cases empty : a = ""
  · have shorter : (constMark (marks isConst type) ++ declare type name).length ≤
        (constMark isConst ++ declare type name).length := by
      have mark := length_constMark_marks isConst type
      simp only [String.length_append]
      omega
    rw [if_pos empty]
    refine iff_of_false (trimmed_ne_store shorter _) ?_
    rintro ⟨-, some, same⟩
    exact some (same.symm.trans empty)
  · rw [if_neg empty, ← String.append_assoc, ← String.append_assoc, trimmed_store, neat]
    by_cases differ : marks isConst type = isConst
    · rw [differ, String.append_right_inj]
      constructor
      · intro same
        obtain rfl := storeTail_inj same
        exact ⟨rfl, empty, rfl⟩
      · rintro ⟨-, -, rfl⟩
        rfl
    · refine iff_of_false (fun same => ?_) fun all => differ all.1
      obtain ⟨rfl, unmarked⟩ := marks_eq_false_of_ne differ
      obtain ⟨x, tail⟩ := storeTail_toList a
      have chars := congrArg String.toList same
      simp only [unmarked, constMark, String.toList_append, tail] at chars
      refine no_const_shift (declare type name).toList x (storeTail (trimmed value)).toList ?_
      simpa using chars

/-- A declaration without a value agrees with its print exactly if a constant is marked. -/
theorem declared_bare_iff {type name : String} {isConst : Bool} :
    trimmed (declaration type name isConst "") = trimmed (constMark isConst ++ declare type name) ↔
      marks isConst type = isConst := by
  rw [declaration_eq, if_pos rfl]
  by_cases differ : marks isConst type = isConst
  · rw [differ]
    simp
  · refine iff_of_false (fun same => ?_) differ
    obtain ⟨rfl, unmarked⟩ := marks_eq_false_of_ne differ
    have mark : trimmed "const " = "const" := by decide
    have six : "const ".length = 6 := by decide
    have five : "const".length = 5 := by decide
    simp only [unmarked, constMark, Bool.false_eq_true, if_false, if_true, String.empty_append]
      at same
    have lengths := congrArg String.length same
    rw [trimmed_append "const ", mark] at lengths
    split at lengths
    · rename_i blank
      rw [blank, String.length_empty] at lengths
      omega
    · rw [String.length_append] at lengths
      omega

/-! ## Names -/

/-- A name as it is printed. -/
def spelled (name : String) : String := if name == "nil" then "NULL" else name

theorem spelled_eq {name : String} (other : name ≠ "nil") : spelled name = name := by
  simp [spelled, other]

theorem declare_eq (type name : String) : declare type name = declare type "" ++ name := by
  unfold declare
  split <;> simp

/-- The name that is printed otherwise is never the beginning of how it is printed. -/
theorem nil_append_ne (s x y : String) : s ++ "nil" ++ x ≠ s ++ "NULL" ++ y := by
  intro same
  rw [String.append_assoc, String.append_assoc, String.append_right_inj] at same
  have chars := congrArg (·.toList.head?) same
  simp at chars

/-- A variable that is declared by its value agrees with its print exactly if its name does and
there is a value, the same on both sides. -/
theorem defined_iff {type name a value : String} (neat : trimmed a = a) :
    trimmed (declaration type name false a) =
        trimmed (declare type (spelled name) ++ " = " ++ value) ↔
      name ≠ "nil" ∧ trimmed value ≠ "" ∧ a = trimmed value := by
  by_cases other : name = "nil"
  · refine iff_of_false (fun same => ?_) fun all => all.1 other
    have kept : trimmed "nil" = "nil" := by decide
    have text : ∃ x, trimmed (declaration type "nil" false a) = declare type "" ++ "nil" ++ x := by
      rw [declaration_eq, show marks false type = false from rfl, constMark, if_neg nofun,
        String.empty_append, declare_eq type "nil"]
      by_cases empty : a = ""
      · refine ⟨"", ?_⟩
        rw [if_pos empty, trimmed_append, kept, if_neg (by simp), String.append_empty]
      · refine ⟨storeTail a, ?_⟩
        rw [if_neg empty, trimmed_store, neat]
    obtain ⟨x, text⟩ := text
    rw [other, text, trimmed_store, declare_eq type (spelled "nil")] at same
    exact nil_append_ne (declare type "") x (storeTail (trimmed value)) same
  · rw [spelled_eq other]
    have plain := @declared_iff type name a value false neat
    simpa [constMark, marks, other] using plain

/-- An assignment agrees with its print exactly if the name of its target and its value do. -/
theorem assigned_iff {name a value : String} :
    trimmed (name ++ " = " ++ a) = trimmed (spelled name ++ " = " ++ value) ↔
      name ≠ "nil" ∧ trimmed a = trimmed value := by
  by_cases other : name = "nil"
  · refine iff_of_false (fun same => ?_) fun all => all.1 other
    rw [trimmed_store, trimmed_store, other] at same
    have names : spelled "nil" = "NULL" := rfl
    refine nil_append_ne "" (storeTail (trimmed a)) (storeTail (trimmed value)) ?_
    simpa [names] using same
  · rw [spelled_eq other, trimmed_store_iff]
    simp [other]

end Emitter

/-! ## Expressions are printed alike in all kernels -/

namespace CPrinter

variable {p q : CPrinter}

mutual

theorem expr_congr (same : p.scope = q.scope) (n : Node) : p.expr n = q.expr n := by
  cases n with
  | paren _ x | deref _ x | keyValue _ _ x | select _ x _ =>
      dsimp only [expr]
      rw [expr_congr same x]
  | unary _ op x => cases op <;> (dsimp only [expr]; rw [expr_congr same x])
  | binary _ op x y =>
      cases op <;> (dsimp only [expr]; rw [expr_congr same x, expr_congr same y])
  | index _ x i =>
      dsimp only [expr]
      rw [expr_congr same x, expr_congr same i]
  | call _ callee args _ =>
      dsimp only [expr]
      rw [same, expr_congr same callee, exprs_congr same args]
  | slice _ x low _ _ =>
      cases low with
      | none => exact expr_congr same x
      | some i =>
          dsimp only [expr]
          rw [expr_congr same x, expr_congr same i]
  | composite _ _ elems =>
      dsimp only [expr]
      rw [exprs_congr same elems]
  | _ => rfl

theorem exprs_congr (same : p.scope = q.scope) (ns : List Node) : p.exprs ns = q.exprs ns := by
  cases ns with
  | nil => rfl
  | cons n ns => exact congrArg₂ List.cons (expr_congr same n) (exprs_congr same ns)

end

theorem print_of_isExpr {n : Node} (isExpr : n.isExpr = true) : p.print n = p.expr n := by
  cases n <;> first | contradiction | rfl

/-- The type a declaration of a variable is written with. -/
def typeText (vars : List (String × String)) (name : String) : Option Node → String
  | some t => cType t
  | none => inferred ((vars.lookup name).getD "")

/-- The value of a declaration of one variable. -/
def valueText (p : CPrinter) : List Node → String
  | v :: _ => " = " ++ p.expr v
  | [] => ""

/-- A declaration of one variable, where the types of variables are known. -/
theorem print_declaration {vars : List (String × String)} (known : p.vars = some vars)
    {m dm sm : Mark} {kind : Source.DeclKind} {isConst : Bool} {x : Node} {type : Option Node}
    {values : List Node} :
    p.print (.declStmt m (.decl dm kind [.valueSpec sm isConst [x] type values])) =
      Emitter.constMark isConst ++
        declare (typeText vars (x.name?.getD "") type) (x.name?.getD "") ++ p.valueText values := by
  have text : p.print (.declStmt m (.decl dm kind [.valueSpec sm isConst [x] type values])) =
      Text.join "; " [p.valueSpec isConst [x] type values] := rfl
  rw [text]
  unfold valueSpec typeText valueText
  rw [known]
  cases values <;> cases type <;> simp [Text.join, Emitter.constMark, String.append_assoc]

theorem print_define {vars : List (String × String)} (known : p.vars = some vars) {m mx : Mark}
    {var : String} {v : Node} : p.print (.assign m .define [.name mx var] [v]) =
      declare (inferred (p.scope.typeOf vars v)) (Emitter.spelled var) ++ " = " ++ p.expr v := by
  have text : p.print (.assign m .define [.name mx var] [v]) =
      Text.join ", " [p.assignPart .define (.name mx var) v] := rfl
  rw [text, assignPart, known, Text.join, String.intercalate_singleton]
  rfl

theorem print_set {m mx : Mark} {var : String} {v : Node} :
    p.print (.assign m .set [.name mx var] [v]) = Emitter.spelled var ++ " = " ++ p.expr v := by
  have text : p.print (.assign m .set [.name mx var] [v]) =
      Text.join ", " [p.assignPart .set (.name mx var) v] := rfl
  have part : p.assignPart .set (.name mx var) v =
      Emitter.spelled var ++ " " ++ "=" ++ " " ++ p.expr v := rfl
  have sign : " " ++ "=" ++ " " = " = " := by decide
  rw [text, part, Text.join, String.intercalate_singleton, ← sign]
  simp only [String.append_assoc]

end CPrinter

namespace Emitter

variable {e : Emitter}

/-! ## Prints of statements -/

theorem print_value {v : Node} (isExpr : v.isExpr = true) (s : Node) :
    e.print v = trimmed ((e.unit.printer s).expr v) := by
  have text : e.unit.print v = (e.unit.printer s).expr v := by
    rw [SourceUnit.print, CPrinter.print_of_isExpr isExpr]
    exact CPrinter.expr_congr (show (e.unit.printer v).scope = (e.unit.printer s).scope from rfl) v
  exact congrArg trimmed text

@[simp] theorem trimmed_print (n : Node) : trimmed (e.print n) = e.print n := trimmed_trimmed _

/-- A statement that is an expression is printed as that. -/
theorem print_exprStmt {m : Mark} {x : Node} (isExpr : x.isExpr = true) :
    e.print (.exprStmt m x) = e.print x := by
  rw [print_value isExpr (.exprStmt m x)]
  rfl

/-- In the kernel that is written the types of its variables are known. -/
theorem printer_vars {s : Node} (inside : e.unit.enclosing? s = some e.kernel) :
    (e.unit.printer s).vars = some e.kernel.vars := by
  rw [SourceUnit.printer, inside]
  rfl

theorem print_declaration {s : Node} (inside : e.unit.enclosing? s = some e.kernel) {md dm sm : Mark}
    {kind : Source.DeclKind} {isConst : Bool} {x : Node} {type : Option Node} {values : List Node}
    (shape : s = .declStmt md (.decl dm kind [.valueSpec sm isConst [x] type values])) :
    e.print s = trimmed (constMark isConst ++ declare (CPrinter.typeText e.kernel.vars
      (x.name?.getD "") type) (x.name?.getD "") ++ (e.unit.printer s).valueText values) := by
  subst shape
  exact congrArg trimmed (CPrinter.print_declaration (printer_vars inside))

theorem print_define {s : Node} (inside : e.unit.enclosing? s = some e.kernel) {ms mx : Mark}
    {var : String} {v : Node} (shape : s = .assign ms .define [.name mx var] [v]) :
    e.print s = trimmed (declare (CPrinter.inferred (e.unit.typeOf e.kernel v)) (spelled var) ++
      " = " ++ (e.unit.printer s).expr v) := by
  subst shape
  exact congrArg trimmed (CPrinter.print_define (printer_vars inside))

theorem print_set {s : Node} {ms mx : Mark} {var : String} {v : Node}
    (shape : s = .assign ms .set [.name mx var] [v]) :
    e.print s = trimmed (spelled var ++ " = " ++ (e.unit.printer s).expr v) := by
  subst shape
  exact congrArg trimmed CPrinter.print_set

end Emitter

end Retarget
