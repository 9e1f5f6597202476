/-
# Proofs.VectorElements -- the element types of a vector body

The intrinsics of a generated loop are those of one element type, the type of the first array of
the body that is known.  What the lines of the body load and store are the subscripts of the loop,
one for one and in order (`subscripts_vecBody`), so the type is that of the first of these arrays
(`elemType_eq`).

The others are not compared with it.  Every array of the body has the type of the intrinsics, as far
as its type is known, exactly if no two of these types differ (`vector_elements_agree`); two
spellings of one type count as one.  A loop over a `float` and a `double` array is not refused
(`vector_elements_mixed`).
-/
import Retarget.Proofs.SyntaxNumbers
import Retarget.Proofs.VectorBody

namespace Retarget

open Retarget.Source (Node)

set_option autoImplicit false
set_option linter.dupNamespace false

/-! ## Subscripts -/

namespace Source.Node

def isIndex : Node → Bool
  | index .. => true
  | _ => false

/-- The subscripts below a node, in source order. -/
def subscripts (n : Node) : List Node := n.preorder.filter isIndex

theorem subscripts_eq (n : Node) :
    n.subscripts = (if n.isIndex then [n] else []) ++ n.children.flatMap subscripts := by
  rw [subscripts, preorder_eq, List.filter_cons, List.filter_flatMap]
  by_cases here : n.isIndex = true <;> simp [here] <;> rfl

@[simp] theorem subscripts_name (m : Mark) (text : String) : (name m text).subscripts = [] := by
  simp [subscripts_eq, children, isIndex]

@[simp] theorem subscripts_paren (m : Mark) (x : Node) :
    (paren m x).subscripts = x.subscripts := by
  rw [subscripts_eq]
  simp [children, isIndex]

theorem subscripts_unparen (n : Node) : n.unparen.subscripts = n.subscripts := by
  fun_induction unparen n with
  | case1 m x ih => rw [ih, subscripts_paren]
  | case2 => rfl

end Source.Node

namespace VecStmt

/-- The arrays of a statement in the order of the source. -/
def arrays : VecStmt → List String
  | accumulate x => x.loads
  | store array x => array :: x.loads
  | update _ array x => array :: x.loads

end VecStmt

namespace LoopPattern

variable {p : LoopPattern} {u : SourceUnit} {prof : Profile}

/-- The loads of a term are the subscripts of its expression. -/
theorem subscripts_term {n : Node} {t : VecTerm} (ok : p.term u prof n = .ok t) :
    n.subscripts.map p.sequential? = t.loads.map some := by
  fun_induction LoopPattern.term p u prof n generalizing t with
  | case1 m x ih =>
      rw [Node.subscripts_paren]
      exact ih ok
  | case2 m x i array found =>
      cases ok
      obtain ⟨_, _, _, shape⟩ := sequential?_eq_some found
      cases shape
      simp [Node.subscripts_eq, Node.children, Node.isIndex, found, VecTerm.loads]
  | case3 => cases ok
  | case4 => cases ok
  | case5 m text free =>
      cases ok
      simp [VecTerm.loads]
  | case6 m kind text =>
      cases ok
      simp [Node.subscripts_eq, Node.children, Node.isIndex, VecTerm.loads]
  | case7 m x ih =>
      obtain ⟨t, inner, made⟩ := ok_of_bind ok
      cases made
      rw [Node.subscripts_eq]
      simpa [Node.children, Node.isIndex, VecTerm.loads] using ih inner
  | case8 m op x y ihx ihy =>
      obtain ⟨o, -, ok⟩ := ok_of_bind ok
      obtain ⟨l, left, ok⟩ := ok_of_bind ok
      obtain ⟨r, right, made⟩ := ok_of_bind ok
      cases made
      rw [Node.subscripts_eq]
      simp [Node.children, Node.isIndex, VecTerm.loads, ihx left, ihy right]
  | case9 => cases ok

/-- What a reduction adds holds all its subscripts. -/
theorem subscripts_reduction {n x : Node} {v : String} (found : Loop.reductionOf? n = some (v, x)) :
    n.subscripts = x.subscripts := by
  unfold Loop.reductionOf? at found
  split at found
  · cases found
    rw [Node.subscripts_eq]
    simp [Node.children, Node.isIndex]
  · rename_i value
    split at found
    · rename_i shape
      split at found
      · cases found
        have sum := congrArg Node.subscripts shape
        rw [Node.subscripts_unparen, Node.subscripts_eq (.binary ..)] at sum
        rw [Node.subscripts_eq]
        simpa [Node.children, Node.isIndex] using sum
      · cases found
    · cases found
  · cases found

/-- The arrays of a vector statement are the subscripts of the statement. -/
theorem subscripts_vecStmt {n : Node} {t : VecStmt} (ok : p.vecStmt u prof n = .ok t) :
    n.subscripts.map p.sequential? = t.arrays.map some := by
  rcases vecStmt_cases ok with ⟨v, x, y, found, -, term, rfl⟩ |
    ⟨m, op, target, x, a, y, rfl, found, term, form⟩
  · rw [subscripts_reduction found]
    exact subscripts_term term
  · have stored : target.subscripts.map p.sequential? = [some a] := by
      obtain ⟨m, m', m'', shape⟩ := sequential?_eq_some found
      have same : p.sequential? target.unparen = some a := by
        rw [shape]
        rw [sequential?, shape] at found
        exact found
      rw [← Node.subscripts_unparen, shape, Node.subscripts_eq]
      rw [shape] at same
      simp [Node.children, Node.isIndex, same]
    have all : (Node.assign m op [target] [x]).subscripts.map p.sequential? =
        (a :: y.loads).map some := by
      rw [Node.subscripts_eq]
      simp [Node.children, Node.isIndex, stored, subscripts_term term]
    rcases form with ⟨-, rfl⟩ | ⟨b, o, -, -, rfl⟩ <;> exact all

/-- The arrays of a vector body are the subscripts of the loop, one for one. -/
theorem subscripts_vecBody {body : List Node} {stmts : List VecStmt}
    (ok : body.mapM (p.vecStmt u prof) = .ok stmts) :
    (body.flatMap Node.subscripts).map p.sequential? = (stmts.flatMap (·.arrays)).map some := by
  induction body generalizing stmts with
  | nil =>
      cases ok
      rfl
  | cons n body ih =>
      obtain ⟨t, rest, first, others, rfl⟩ := vecBody_cons ok
      simp [subscripts_vecStmt first, ih others]

end LoopPattern

/-! ## Types -/

/-- The type of the elements of an array; empty when it is unknown. -/
def KernelFn.elementType (k : KernelFn) (array : String) : String :=
  Kernel.pointee (k.declaredType array)

theorem Profile.elemType_of_find? {target elem : String} {prof : Profile}
    (found : Profile.find? target elem = some prof) : prof.elemType = canonicalElem elem := by
  have fits := List.find?_some found
  simp only [Bool.and_eq_true, beq_iff_eq] at fits
  exact fits.2

/-- Only two spellings share the intrinsics of their type. -/
theorem Profile.canonicalElem_eq_iff {target elem t : String} {prof : Profile}
    (found : Profile.find? target elem = some prof) :
    canonicalElem t = prof.elemType ↔
      t = prof.elemType ∨ (t = "int32_t" ∧ prof.elemType = "int") := by
  have listed : ∀ q ∈ Profile.all, q.elemType ≠ "int32_t" := by decide
  have other := listed prof (List.mem_of_find?_eq_some found)
  unfold canonicalElem
  split
  · rename_i spelled
    rw [beq_iff_eq.mp spelled]
    grind
  · rename_i plain
    simp only [beq_iff_eq] at plain
    simp [plain]

namespace Loop

variable {u : SourceUnit} {k : KernelFn}

theorem accessesOf_types (iterator : String) (body : Node) :
    (accessesOf u k iterator body).map (·.elemType) = body.subscripts.map (u.typeOf k) := by
  simp only [accessesOf, Node.subscripts, List.map_filterMap]
  generalize body.preorder.flatMap writtenBy = written
  induction body.preorder with
  | nil => simp
  | cons n nodes ih =>
      cases n with
      | index m x i =>
          refine (List.filterMap_cons_some (by rfl)).trans ?_
          rw [ih, List.filter_cons_of_pos rfl, List.map_cons]
      | _ =>
          refine (List.filterMap_cons_none (by rfl)).trans ?_
          rw [ih, List.filter_cons_of_neg Bool.false_ne_true]

end Loop

namespace LoopPattern

variable {p : LoopPattern} {u : SourceUnit} {k : KernelFn} {prof : Profile}

theorem typeOf_sequential {n : Node} {a : String} (found : p.sequential? n = some a) :
    u.typeOf k n = k.elementType a := by
  have unparen : u.typeOf k n.unparen = u.typeOf k n := by
    fun_induction Node.unparen n with
    | case1 m x ih => exact ih found
    | case2 => rfl
  obtain ⟨m, m', m'', shape⟩ := sequential?_eq_some found
  rw [← unparen, shape]
  rfl

/-- A pattern takes its element type from the accesses of the body. -/
theorem body_of_ofLoop? {loop : Node} (found : ofLoop? u k loop = some p) :
    ∃ body, p.body = Loop.statementsOf body ∧
      p.elemType = Loop.elemTypeOf (Loop.accessesOf u k p.iterator body) := by
  unfold ofLoop? at found
  obtain ⟨⟨h, body⟩, -, same⟩ := Option.bind_eq_some_iff.mp found
  cases same
  exact ⟨body, rfl, rfl⟩

/-- The element type is that of the first array of the body whose type is known. -/
theorem elemType_eq {loop : Node} (found : ofLoop? u k loop = some p) {stmts : List VecStmt}
    (ok : p.vecBody u prof = .ok stmts) (some : stmts.flatMap (·.arrays) ≠ []) :
    p.elemType =
      (((stmts.flatMap (·.arrays)).map k.elementType).find? (· != "")).getD "int" := by
  obtain ⟨body, statements, elemType⟩ := body_of_ofLoop? found
  have arrays := subscripts_vecBody ok
  -- a body that is no block has no statements, and so no arrays
  have whole : body.subscripts = p.body.flatMap Node.subscripts := by
    rw [statements] at arrays ⊢
    cases body with
    | block m list =>
        rw [Node.subscripts_eq]
        rfl
    | _ => exact absurd (List.map_eq_nil_iff.mp arrays.symm) some
  have types : (p.body.flatMap Node.subscripts).map (u.typeOf k) =
      (stmts.flatMap (·.arrays)).map k.elementType := by
    have each : ∀ n ∈ p.body.flatMap Node.subscripts,
        u.typeOf k n = ((p.sequential? n).map k.elementType).getD "" := by
      intro n member
      have listed := arrays ▸ List.mem_map_of_mem member
      obtain ⟨a, -, sequential⟩ := List.mem_map.mp listed
      rw [typeOf_sequential sequential.symm, ← sequential, Option.map_some, Option.getD_some]
    calc (p.body.flatMap Node.subscripts).map (u.typeOf k)
        = ((p.body.flatMap Node.subscripts).map p.sequential?).map
            fun a => (a.map k.elementType).getD "" := by
          rw [List.map_map]
          exact List.map_congr_left each
      _ = (stmts.flatMap (·.arrays)).map k.elementType := by
          rw [arrays, List.map_map]
          simp only [Function.comp_def, Option.map_some, Option.getD_some]
  rw [elemType, Loop.elemTypeOf, Loop.accessesOf_types, whole, types]

end LoopPattern

/-! ## Vector bodies -/

/-- The arrays that a line loads or stores. -/
def VecLine.accessed : VecLine → List String
  | load array => [array]
  | accumulate _ => []
  | store array _ => [array]

/-- The lines of a body access the arrays of its statements. -/
theorem mem_accessed {stmts : List VecStmt} {a : String} :
    a ∈ (linesOf stmts).flatMap VecLine.accessed ↔ a ∈ stmts.flatMap (·.arrays) := by
  have statement (t : VecStmt) : a ∈ t.arrays ↔ a ∈ t.loads ∨ a ∈ t.line.accessed := by
    cases t <;> simp [VecStmt.arrays, VecStmt.loads, VecStmt.line, VecLine.accessed] <;> grind
  simp only [linesOf, List.flatMap_append, List.mem_append, List.mem_flatMap, List.mem_map]
  constructor
  · rintro (⟨_, ⟨b, loaded, rfl⟩, here⟩ | ⟨_, ⟨t, member, rfl⟩, here⟩)
    · obtain rfl : a = b := by simpa [VecLine.accessed] using here
      obtain ⟨t, member, read⟩ := mem_loadedBy.mp loaded
      exact ⟨t, member, (statement t).mpr (Or.inl read)⟩
    · exact ⟨t, member, (statement t).mpr (Or.inr here)⟩
  · rintro ⟨t, member, listed⟩
    rcases (statement t).mp listed with read | here
    · exact Or.inl ⟨_, ⟨a, mem_loadedBy.mpr ⟨t, member, read⟩, rfl⟩, by simp [VecLine.accessed]⟩
    · exact Or.inr ⟨_, ⟨t, member, rfl⟩, here⟩

namespace VectorBody

/-- A kernel whose variables `a` and `b` have these types. -/
def declaring (a b : String) : KernelFn :=
  { (default : KernelFn) with vars := [("a", a), ("b", b)] }

/-- The body `a[i] = b[i]`. -/
def copying : List Node :=
  [.assign ⟨14, 0, 0⟩ .set [element "a"]
    [.index ⟨15, 0, 0⟩ (.name ⟨16, 0, 0⟩ "b") (.name ⟨17, 0, 0⟩ "i")]]

/-- What the loop around `copying` is read as. -/
def copied (a b : String) : LoopPattern :=
  (LoopPattern.ofLoop? default (declaring a b) (counting copying)).getD default

def floats : Profile := Profile.neon ⟨"float", "f32", "float32", 32⟩

end VectorBody

open Profile (canonicalElem) in
/-- The arrays that the vector body of a generated loop loads and stores are those of the subscripts
of the loop.  All of them have the element type of the intrinsics, as far as their types are known,
exactly if no two of them have known types that differ. -/
theorem vector_elements_agree {u : SourceUnit} {k : KernelFn} {loop : Node} {p : LoopPattern}
    {target text : String} (found : LoopPattern.ofLoop? u k loop = some p)
    (generated : p.generate u target = .ok text) :
    ∃ prof stmts, Profile.find? target p.elemType = some prof ∧ p.vecBody u prof = .ok stmts ∧
      text = String.join ((p.setupLines prof ++ p.mainLines prof stmts ++
        p.tailLines u prof stmts ++ p.reductionLines prof).map (· ++ "\n")) ∧
      (∀ pred, p.bodyLines prof pred stmts = (linesOf stmts).map (p.lineText prof pred)) ∧
      (∀ a, a ∈ (linesOf stmts).flatMap VecLine.accessed ↔
        ∃ n ∈ p.body.flatMap Node.subscripts, p.sequential? n = some a) ∧
      (∀ n ∈ p.body.flatMap Node.subscripts, ∃ a, p.sequential? n = some a ∧
        u.typeOf k n = k.elementType a) ∧
      ((∀ a ∈ (linesOf stmts).flatMap VecLine.accessed, k.elementType a ≠ "" →
          k.elementType a = prof.elemType ∨
            (k.elementType a = "int32_t" ∧ prof.elemType = "int")) ↔
        ∀ a ∈ (linesOf stmts).flatMap VecLine.accessed,
          ∀ b ∈ (linesOf stmts).flatMap VecLine.accessed,
            k.elementType a ≠ "" → k.elementType b ≠ "" →
              canonicalElem (k.elementType a) = canonicalElem (k.elementType b)) := by
  obtain ⟨prof, stmts, profile, body, written⟩ := LoopPattern.generate_eq_ok generated
  have arrays := LoopPattern.subscripts_vecBody body
  refine ⟨prof, stmts, profile, body, written, fun pred => p.bodyLines_eq prof pred stmts,
    ?_, ?_, ?_⟩
  · intro a
    rw [mem_accessed, ← List.mem_map (f := p.sequential?), arrays]
    simp
  · intro n member
    obtain ⟨a, -, sequential⟩ := List.mem_map.mp (arrays ▸ List.mem_map_of_mem member)
    exact ⟨a, sequential.symm, LoopPattern.typeOf_sequential sequential.symm⟩
  · simp only [mem_accessed, ← Profile.canonicalElem_eq_iff profile]
    constructor
    · intro typed a memberA b memberB knownA knownB
      rw [typed a memberA knownA, typed b memberB knownB]
    · intro agree a member known
      have elemType := LoopPattern.elemType_eq found body (List.ne_nil_of_mem member)
      -- some type is known, so the profile was found for the type of an array of the body
      obtain ⟨t, first⟩ : ∃ t,
          ((stmts.flatMap (·.arrays)).map k.elementType).find? (· != "") = some t := by
        refine Option.isSome_iff_exists.mp (List.find?_isSome.mpr ?_)
        exact ⟨_, List.mem_map_of_mem member, by simpa using known⟩
      obtain ⟨b, memberB, rfl⟩ := List.mem_map.mp (List.mem_of_find?_eq_some first)
      have knownB : k.elementType b ≠ "" := by simpa using List.find?_some first
      rw [first, Option.getD_some] at elemType
      rw [Profile.elemType_of_find? profile, elemType]
      exact agree a member b memberB known knownB

open VectorBody in
/-- Two arrays of one type. -/
theorem vector_elements_agree_copying :
    LoopPattern.ofLoop? default (declaring "float *" "float *") (counting copying) =
        some (copied "float *" "float *") ∧
      ((copied "float *" "float *").generate default "NEON").isOk = true ∧
      ∀ a ∈ (linesOf [.store "a" (.load "b")]).flatMap VecLine.accessed,
        (declaring "float *" "float *").elementType a ≠ "" →
          (declaring "float *" "float *").elementType a = floats.elemType ∨
            ((declaring "float *" "float *").elementType a = "int32_t" ∧
              floats.elemType = "int") := by
  have found : LoopPattern.ofLoop? default (declaring "float *" "float *") (counting copying) =
      some (copied "float *" "float *") := some_getD (by decide)
  have isOk : ((copied "float *" "float *").generate default "NEON").isOk = true := by
    decide
  obtain ⟨text, generated⟩ := ok_of_isOk isOk
  obtain ⟨prof, stmts, profile, body, -, -, -, -, agree⟩ := vector_elements_agree found generated
  obtain rfl : floats = prof := Option.some.inj (Eq.trans (by decide) profile)
  obtain rfl : [VecStmt.store "a" (.load "b")] = stmts :=
    Except.ok.inj ((ok_of_toOption (by decide)).symm.trans body)
  exact ⟨found, isOk, agree.mpr (by decide)⟩

open VectorBody in
/-- A `float` and a `double` array: the doubles are loaded by the intrinsic of the floats. -/
theorem vector_elements_mixed :
    LoopPattern.ofLoop? default (declaring "float *" "double *") (counting copying) =
        some (copied "float *" "double *") ∧
      ((copied "float *" "double *").generate default "NEON").isOk = true ∧
      Profile.find? "NEON" (copied "float *" "double *").elemType = some floats ∧
      ((copied "float *" "double *").vecBody default floats).toOption =
        some [.store "a" (.load "b")] ∧
      (linesOf [.store "a" (.load "b")]).map ((copied "float *" "double *").lineText floats "") =
        ["float32x4_t b_vec = vld1q_f32(b + i);", "vst1q_f32(a + i, b_vec);"] ∧
      (declaring "float *" "double *").elementType "b" = "double" ∧ floats.elemType = "float" :=
  ⟨some_getD (by decide +kernel), by decide +kernel, by decide +kernel, by decide +kernel,
    by decide +kernel, by decide +kernel, by decide +kernel⟩

end Retarget
