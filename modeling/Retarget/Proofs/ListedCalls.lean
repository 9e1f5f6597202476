/-
# Proofs.ListedCalls -- which calls in loops are listed

Calls are not looked for in callees, in the headers of loops, and in the target of a value that
is a call (`unread`).  Everywhere else they are: the calls found below a node are those of the
parts that are read, in their order, followed by the node itself (`told_eq`).  So a call comes once
and after everything below it (`told_order`), and the calls found are those in no unread part
(`mem_told_iff`).

The loops around a node stand in each other (`loopsAround_nested`), and the last one met is the
innermost (`innermostLoop?_spec`).
-/
import Retarget.Proofs.ArgumentCalls

namespace Retarget

open Retarget.Source (Node NodeId)

set_option autoImplicit false
set_option linter.dupNamespace false

namespace Source.Node

/-! ## Where a node stands -/

/-- A node is not below its children. -/
theorem not_mem_child {c n : Node} (child : c ∈ n.children) : n ∉ c.preorder := by
  intro below
  have less : n.preorder.length ≤ c.preorder.length := (preorder_sublist below).length_le
  have within := (List.sublist_flatten_of_mem
    (List.mem_map_of_mem (f := preorder) child)).length_le
  rw [preorder_eq n, List.length_cons, List.flatMap_def] at less
  omega

/-- Statements stand only in statements and in function literals. -/
def Layered (n : Node) : Prop :=
  n.isStmt = false → n.isFuncLit = false → ∀ c ∈ n.children, c.isStmt = false

instance (n : Node) : Decidable n.Layered := by unfold Layered; infer_instance

end Source.Node

/-- Statements stand only in statements and in function literals, all over the unit. -/
def SourceUnit.Layered (u : SourceUnit) : Prop := ∀ n ∈ u.nodes, n.Layered

instance (u : SourceUnit) : Decidable u.Layered := by unfold SourceUnit.Layered; infer_instance

namespace LoopCall

/-! ## What is read -/

/-- The nodes below one in which no call is looked for. -/
def unread : Node → List Node
  | .call _ callee _ _ => [callee]
  | .forStmt _ init cond post _ => init.toList ++ (cond.toList ++ post.toList)
  | .rangeStmt _ key value x _ => key.toList ++ (value.toList ++ [x])
  | .assign m op targets values =>
    if (assignedCall? (.assign m op targets values)).isSome then targets else []
  | _ => []

/-- The nodes below one in which calls are looked for. -/
def readParts : Node → List Node
  | .funcLit .. => []
  | .call _ _ args _ => args
  | .forStmt _ _ _ _ body | .rangeStmt _ _ _ _ body => [body]
  | .assign m op targets values =>
    if (assignedCall? (.assign m op targets values)).isSome then values else targets ++ values
  | n => n.children

theorem children_eq {n : Node} (opened : n.isFuncLit = false) :
    n.children = unread n ++ readParts n := by
  cases n with
  | funcLit => cases opened
  | assign m op targets values =>
      dsimp only [Node.children, unread, readParts]
      split <;> rfl
  | forStmt | rangeStmt =>
      dsimp only [Node.children, unread, readParts]
      simp only [List.append_assoc, List.cons_append, List.nil_append]
  | _ => rfl

theorem readParts_subset (n : Node) : readParts n ⊆ n.children := by
  cases literal : n.isFuncLit with
  | true => cases n <;> first | exact List.nil_subset _ | cases literal
  | false =>
      rw [children_eq literal]
      exact List.subset_append_right _ _

theorem unread_subset (n : Node) : unread n ⊆ n.children := by
  cases literal : n.isFuncLit with
  | true => cases n <;> first | exact List.nil_subset _ | cases literal
  | false =>
      rw [children_eq literal]
      exact List.subset_append_left _ _

/-- The calls found below a node. -/
def told (n : Node) : List Node := (pairs n).map Prod.fst

theorem told_of_found {n call : Node} {name : String} (found : foundCall? n = some (call, name)) :
    told n = expandCall call := by
  obtain ⟨isCall, -, closed⟩ := foundCall?_cases found
  rw [told, pairs, Node.visit_of_closed closed, List.flatMap_singleton, found_eq found,
    expandCall_eq isCall, List.map_append, List.map_map]
  exact congrArg (· ++ [call]) (List.map_id _)

theorem foundCall?_of_isCall {n : Node} (call : isCall n = true) : foundCall? n = some (n, "") := by
  cases n <;> first | rfl | cases call

/-- Where nothing is found at a node, the walk goes on to the parts that are read. -/
theorem visit_enters {n : Node} (none : foundCall? n = none) :
    n.visit enters = n :: (readParts n).flatMap (Node.visit enters) := by
  cases n with
  | call => cases (foundCall?_of_isCall rfl).symm.trans none
  | assign m op targets values =>
      have other : assignedCall? (.assign m op targets values) = .none := by
        cases assigned : assignedCall? (.assign m op targets values) with
        | none => rfl
        | some p =>
            rw [foundCall?, assigned] at none
            cases none
      rw [Node.visit_of_open fun slot => congrArg Option.isNone other]
      dsimp only [readParts, Node.children]
      rw [other]
      rfl
  | funcLit m t body => exact Node.visit_of_closed fun _ => rfl
  | forStmt | rangeStmt =>
      rw [Node.visit_slots]
      exact congrArg (_ :: ·) (List.append_nil _)
  | _ => exact Node.visit_of_open fun _ => rfl

theorem told_of_none {n : Node} (none : foundCall? n = none) :
    told n = (readParts n).flatMap told := by
  rw [told, pairs, visit_enters none, List.flatMap_cons, found_eq_nil none, List.nil_append,
    List.flatMap_assoc, List.map_flatMap]
  rfl

/-! ## Every part that is read -/

theorem outermost_eq {n : Node} (other : isCall n = false) (opened : n.isFuncLit = false) :
    outermost n = n.children.flatMap outermost := by
  rw [outermost, Node.visit_of_open fun _ => by rw [other, opened]; rfl,
    List.filter_cons_of_neg (by simp [other]), List.filter_flatMap]
  rfl

/-- What stands in expressions is found whether the walk or an argument leads there. -/
theorem told_of_expression {n : Node} (layered : ∀ a ∈ n.preorder, a.Layered)
    (expression : n.isStmt = false) : told n = (outermost n).flatMap expandCall := by
  have other : assignedCall? n = none := by
    cases n with
    | assign => cases expression
    | _ => rfl
  cases call : isCall n with
  | true =>
      rw [outermost_of_isCall call, List.flatMap_singleton,
        told_of_found (foundCall?_of_isCall call)]
  | false =>
      have read : (readParts n).flatMap told
          = (readParts n).flatMap fun c => (outermost c).flatMap expandCall := by
        refine congrArg List.flatten (List.map_congr_left fun c part => ?_)
        have child := readParts_subset n part
        have opened : n.isFuncLit = false := by
          cases n with
          | funcLit => cases part
          | _ => rfl
        exact told_of_expression (fun a below => layered a (Node.child_preorder child below))
          (layered n n.self_mem_preorder expression opened c child)
      have nothing : foundCall? n = none := by
        rw [foundCall?, other, call]
        rfl
      rw [told_of_none nothing, read]
      cases literal : n.isFuncLit with
      | true =>
          rw [outermost, Node.visit_of_closed fun _ => by rw [literal]; simp,
            List.filter_cons_of_neg (by simp [call])]
          cases n with
          | funcLit => rfl
          | _ => cases literal
      | false =>
          have whole : readParts n = n.children := by
            cases n with
            | call => cases call
            | funcLit => cases literal
            | assign | forStmt | rangeStmt => cases expression
            | _ => rfl
          rw [whole, outermost_eq call literal, List.flatMap_assoc]
termination_by sizeOf n
decreasing_by exact Node.sizeOf_child child

/-- Parentheses around a call do not hide it. -/
theorem told_unparen {n : Node} (call : isCall n.unparen = true) :
    told n = expandCall n.unparen := by
  cases n with
  | paren m x =>
      rw [told_of_none rfl, Node.unparen, ← told_unparen (n := x) call]
      simp [readParts, Node.children]
  | _ => exact told_of_found (foundCall?_of_isCall call)
termination_by sizeOf n
decreasing_by
  subst_vars
  exact Node.sizeOf_child List.mem_cons_self

theorem readParts_of_assigned {n target call : Node}
    (assigned : assignedCall? n = some (target, call)) :
    isCall n = false ∧ ∃ value, readParts n = [value] ∧ value.unparen = call ∧
      isCall call = true := by
  have taken : (assignedCall? n).isSome = true := by rw [assigned]; rfl
  unfold assignedCall? at assigned
  split at assigned
  · obtain ⟨called, same⟩ := Option.ite_none_right_eq_some.mp assigned
    cases same
    exact ⟨rfl, _, if_pos taken, rfl, called⟩
  · cases assigned

/-- The calls found below a node are those of its parts that are read, and the node itself. -/
theorem told_eq {n : Node} (layered : ∀ a ∈ n.preorder, a.Layered) :
    told n = (readParts n).flatMap told ++ if isCall n then [n] else [] := by
  cases assigned : assignedCall? n with
  | some p =>
      obtain ⟨target, call⟩ := p
      have found : foundCall? n = some (call, operandName target) := by
        rw [foundCall?, assigned]
      obtain ⟨other, value, parts, rfl, called⟩ := readParts_of_assigned assigned
      rw [told_of_found found, parts, other, List.flatMap_singleton, told_unparen called]
      simp
  | none =>
      cases call : isCall n with
      | false =>
          rw [told_of_none (by simp [foundCall?, assigned, call])]
          simp
      | true =>
          rw [told_of_found (foundCall?_of_isCall call), expandCall_eq call, if_pos rfl]
          refine congrArg (· ++ [n]) ?_
          cases n with
          | call m callee args spread =>
              rw [argumentCalls, readParts, List.flatMap_assoc]
              refine congrArg List.flatten (List.map_congr_left fun a among => ?_)
              have child := List.mem_cons_of_mem callee among
              exact (told_of_expression (fun x below => layered x (Node.child_preorder child below))
                (layered _ (Node.self_mem_preorder _) rfl rfl a child)).symm
          | _ => cases call

theorem told_subset {c n : Node} (member : c ∈ told n) : c ∈ n.preorder := by
  have within := (pairs_subperm n).subset member
  exact within

theorem mem_told {c n : Node} (layered : ∀ a ∈ n.preorder, a.Layered) :
    c ∈ told n ↔ (c = n ∧ isCall n = true) ∨ ∃ part ∈ readParts n, c ∈ told part := by
  rw [told_eq layered, List.mem_append, List.mem_flatMap, or_comm]
  refine or_congr_left ?_
  cases isCall n <;> simp

/-- A call is found after everything below it. -/
theorem told_order {n : Node} (distinct : n.ids.Nodup) (layered : ∀ a ∈ n.preorder, a.Layered) :
    (told n).Pairwise fun early late => late ∉ early.preorder := by
  have inner : ((readParts n).flatMap told).Pairwise fun early late => late ∉ early.preorder := by
    refine List.pairwise_flatMap.mpr ⟨fun c part => ?_, ?_⟩
    · have child := readParts_subset n part
      exact told_order (Node.nodup_of_child distinct child)
        fun a below => layered a (Node.child_preorder child below)
    · have apart : (readParts n).Pairwise fun c d => List.Disjoint c.ids d.ids := by
        cases literal : n.isFuncLit with
        | true =>
            have none : readParts n = [] := by cases n <;> first | rfl | cases literal
            rw [none]
            exact List.Pairwise.nil
        | false =>
            have parts := Node.children_apart distinct
            rw [children_eq literal] at parts
            exact (List.pairwise_append.mp parts).2.1
      refine apart.imp fun {c d} disjoint early first late second below => ?_
      have back : late ∈ c.preorder := Node.preorder_trans below (told_subset first)
      exact disjoint (List.mem_map_of_mem back) (List.mem_map_of_mem (told_subset second))
  rw [told_eq layered]
  refine List.pairwise_append.mpr ⟨inner, by split <;> simp, fun early first late second below => ?_⟩
  obtain ⟨c, part, among⟩ := List.mem_flatMap.mp first
  have last : late = n := by
    cases call : isCall n <;> simp_all
  exact Node.not_mem_child (readParts_subset n part)
    (Node.preorder_trans (last ▸ below) (told_subset among))
termination_by sizeOf n
decreasing_by exact Node.sizeOf_child child

/-- The node stands in a part that is not read. -/
def Unread (root c : Node) : Prop :=
  ∃ n ∈ root.outsideLiterals, ∃ part ∈ unread n, c ∈ part.preorder

/-- The calls found are those outside literals that stand in no part that is not read. -/
theorem mem_told_iff {c n : Node} (distinct : n.ids.Nodup)
    (layered : ∀ a ∈ n.preorder, a.Layered) :
    c ∈ told n ↔ isCall c = true ∧ c ∈ n.outsideLiterals ∧ ¬Unread n c := by
  have deeper {d : Node} (child : d ∈ n.children) : c ∈ told d ↔
      isCall c = true ∧ c ∈ d.outsideLiterals ∧ ¬Unread d c :=
    mem_told_iff (Node.nodup_of_child distinct child)
      fun a below => layered a (Node.child_preorder child below)
  rw [mem_told layered]
  constructor
  · rintro (⟨rfl, call⟩ | ⟨part, reads, member⟩)
    · refine ⟨call, c.self_mem_outsideLiterals, ?_⟩
      rintro ⟨m, met, skipped, among, below⟩
      exact Node.not_mem_child (unread_subset m among)
        (Node.preorder_trans (Node.outsideLiterals_subset c met) below)
    · have child := readParts_subset n reads
      have opened : n.isFuncLit = false := by
        cases n <;> first | rfl | cases reads
      obtain ⟨call, met, clean⟩ := (deeper child).mp member
      have within := Node.outsideLiterals_subset part met
      refine ⟨call, Node.child_outsideLiterals opened child met, ?_⟩
      rintro ⟨m, outside, skipped, among, below⟩
      rcases Node.outsideLiterals_cases outside with rfl | ⟨-, d, child', outside⟩
      · have parts := Node.children_apart distinct
        rw [children_eq opened] at parts
        exact (List.pairwise_append.mp parts).2.2 skipped among part reads
          (List.mem_map_of_mem below) (List.mem_map_of_mem within)
      · have inside : c ∈ d.preorder := Node.preorder_trans
          (Node.child_preorder (unread_subset m among) below) (Node.outsideLiterals_subset d outside)
        obtain rfl := Node.child_unique distinct child child' (List.mem_map_of_mem within)
          (List.mem_map_of_mem inside)
        exact clean ⟨m, outside, skipped, among, below⟩
  · rintro ⟨call, met, clean⟩
    rcases Node.outsideLiterals_cases met with rfl | ⟨opened, d, child, inside⟩
    · exact .inl ⟨rfl, call⟩
    · have parts := child
      rw [children_eq opened] at parts
      rcases List.mem_append.mp parts with skipped | reads
      · exact absurd ⟨n, n.self_mem_outsideLiterals, d, skipped,
          Node.outsideLiterals_subset d inside⟩ clean
      · refine .inr ⟨d, reads, (deeper child).mpr ⟨call, inside, ?_⟩⟩
        rintro ⟨m, outside, part⟩
        exact clean ⟨m, Node.child_outsideLiterals opened child outside, part⟩
termination_by sizeOf n
decreasing_by exact Node.sizeOf_child child

/-! ## The loops around a node -/

/-- A loop of the body around a node. -/
def Around (root c loop : Node) : Prop :=
  loop ∈ root.outsideLiterals ∧ ∃ body, loopBody? loop = some body ∧ c ∈ body.preorder

/-- All other loops around the node are around this one, too. -/
def Innermost (root c loop : Node) : Prop :=
  Around root c loop ∧ ∀ other, Around root c other → other = loop ∨ Around root loop other

/-- The loops around what bears a number, from the outside in. -/
def loopsAround (root : Node) (id : NodeId) : List Node :=
  root.outsideLiterals.filter fun n =>
    (loopBody? n).any fun body => body.preorder.any fun m => m.id == id

theorem innermostLoop?_eq (root : Node) (id : NodeId) :
    innermostLoop? root id = (loopsAround root id).getLast?.map Node.id := by
  rw [innermostLoop?, loopsAround, ← List.getLast?_map, ← List.filterMap_eq_filter,
    List.map_filterMap]
  refine congrArg List.getLast? (congrArg (List.filterMap · _) (funext fun n => ?_))
  cases shape : loopBody? n <;> simp [shape, Option.guard]

theorem mem_loopsAround {root loop : Node} {id : NodeId} : loop ∈ loopsAround root id ↔
    loop ∈ root.outsideLiterals ∧ ∃ body, loopBody? loop = some body ∧ id ∈ body.ids := by
  rw [loopsAround, List.mem_filter]
  refine and_congr_right fun _ => ?_
  cases loopBody? loop <;> simp [Node.ids]

theorem mem_loopsAround_iff {root c loop : Node} (distinct : root.ids.Nodup)
    (known : c ∈ root.preorder) : loop ∈ loopsAround root c.id ↔ Around root c loop := by
  refine mem_loopsAround.trans (and_congr_right fun met => exists_congr fun body =>
    and_congr_right fun shape => ⟨fun held => ?_, List.mem_map_of_mem⟩)
  obtain ⟨m, held, same⟩ := List.mem_map.mp held
  have inner : m ∈ root.preorder := Node.preorder_trans
    (Node.child_preorder (loopBody?_child shape) held) (Node.outsideLiterals_subset root met)
  exact List.inj_on_of_nodup_map distinct inner known same ▸ held

/-- What the body of a loop holds stands below the loop. -/
theorem below_of_loopsAround {n loop : Node} {id : NodeId} (around : loop ∈ loopsAround n id) :
    loop ∈ n.preorder ∧ id ∈ n.ids := by
  obtain ⟨met, body, shape, held⟩ := mem_loopsAround.mp around
  have inside := Node.outsideLiterals_subset n met
  obtain ⟨m, below, rfl⟩ := List.mem_map.mp held
  exact ⟨inside, List.mem_map_of_mem (Node.preorder_trans
    (Node.child_preorder (loopBody?_child shape) below) inside)⟩

/-- Of the loops around a number, each stands in the body of those before it. -/
theorem loopsAround_nested {n : Node} {id : NodeId} (distinct : n.ids.Nodup) :
    (loopsAround n id).Pairwise fun outer inner =>
      ∃ body, loopBody? outer = some body ∧ inner ∈ body.preorder := by
  cases literal : n.isFuncLit with
  | true =>
      have alone : n.outsideLiterals = [n] := Node.visit_of_closed fun _ => by rw [literal]; rfl
      rw [loopsAround, alone]
      exact (List.pairwise_singleton _ _).filter _
  | false =>
      have below : (n.children.flatMap (loopsAround · id)).Pairwise fun outer inner =>
          ∃ body, loopBody? outer = some body ∧ inner ∈ body.preorder := by
        refine List.pairwise_flatMap.mpr ⟨fun c child =>
          loopsAround_nested (Node.nodup_of_child distinct child), ?_⟩
        refine (Node.children_apart distinct).imp fun disjoint outer first inner second => ?_
        exact absurd (below_of_loopsAround second).2 (disjoint (below_of_loopsAround first).2)
      rw [loopsAround, Node.outsideLiterals_eq literal, List.filter_cons, List.filter_flatMap]
      split
      · rename_i holds
        obtain ⟨body, shape, held⟩ := (mem_loopsAround.mp (List.mem_filter.mpr
          ⟨n.self_mem_outsideLiterals, holds⟩ : n ∈ loopsAround n id)).2
        refine List.Pairwise.cons (fun inner around => ?_) below
        obtain ⟨c, child, around⟩ := List.mem_flatMap.mp around
        obtain ⟨inside, known⟩ := below_of_loopsAround around
        exact ⟨body, shape, Node.child_unique distinct (loopBody?_child shape) child held known ▸ inside⟩
      · exact below
termination_by sizeOf n
decreasing_by exact Node.sizeOf_child child

/-- The loop a call is attributed to is the innermost around it. -/
theorem innermostLoop?_spec {root c : Node} {id : NodeId} (distinct : root.ids.Nodup)
    (known : c ∈ root.preorder) (loop : innermostLoop? root c.id = some id) :
    ∃ l, Innermost root c l ∧ l.id = id := by
  rw [innermostLoop?_eq, Option.map_eq_some_iff] at loop
  obtain ⟨l, last, same⟩ := loop
  obtain ⟨outer, all⟩ := List.getLast?_eq_some_iff.mp last
  have nested : (loopsAround root c.id).Pairwise _ := loopsAround_nested distinct
  rw [all] at nested
  have around {n : Node} : n ∈ loopsAround root c.id ↔ Around root c n :=
    mem_loopsAround_iff distinct known
  refine ⟨l, ⟨around.mp (List.mem_of_getLast? last), fun other around' => ?_⟩, same⟩
  have member := around.mpr around'
  rw [all] at member
  rcases List.mem_append.mp member with before | here
  · obtain ⟨body, shape, held⟩ :=
      (List.pairwise_append.mp nested).2.2 other before l (List.mem_singleton.mpr rfl)
    exact .inr ⟨around'.1, body, shape, held⟩
  · exact .inl (List.mem_singleton.mp here)

/-! ## The calls of a kernel -/

/-- The call is made in the body of a loop, outside function literals, and is neither a conversion
nor a vector intrinsic. -/
structure Made (u : SourceUnit) (root c : Node) : Prop where
  isCall : isCall c = true
  outside : c ∈ root.outsideLiterals
  inLoop : ∃ loop, Around root c loop
  converts : u.isConversion c = false
  vector : u.scope.isVectorCall c = false

section Kernel

variable {u : SourceUnit} {k : KernelFn} {root : Node}

theorem ofCall?_loop {call : Node} {name : String} {site : LoopCall}
    (made : ofCall? u root call name = some site) :
    innermostLoop? root call.id = some site.loop := by
  cases call with
  | call m callee args spread =>
      rw [ofCall?] at made
      obtain ⟨loop, innermost, made⟩ := Option.bind_eq_some_iff.mp made
      split at made <;> cases made
      exact innermost
  | _ => cases made

theorem innermostLoop?_isSome (distinct : root.ids.Nodup) {c : Node} (known : c ∈ root.preorder) :
    (innermostLoop? root c.id).isSome = true ↔ ∃ loop, Around root c loop := by
  rw [innermostLoop?_eq, Option.isSome_map, List.getLast?_isSome, ← List.length_pos_iff,
    List.length_pos_iff_exists_mem]
  exact exists_congr fun loop => mem_loopsAround_iff distinct known

/-- A call that is found is listed if it is made in a loop. -/
theorem mem_calls (body : k.body = some root) (distinct : root.ids.Nodup) {c : Node} :
    c ∈ (ofKernel u k).map (·.call) ↔ c ∈ told root ∧ isCall c = true ∧
      (∃ loop, Around root c loop) ∧ u.isConversion c = false ∧
        u.scope.isVectorCall c = false := by
  rw [ofKernel_eq body, told]
  simp only [List.mem_map, List.mem_filterMap]
  constructor
  · rintro ⟨site, ⟨⟨call, name⟩, found, made⟩, rfl⟩
    obtain ⟨same, inLoop, converts, vector, ⟨m, callee, spread, shape⟩, -⟩ := ofCall?_eq_some made
    have known : call ∈ root.preorder := told_subset (List.mem_map.mpr ⟨_, found, rfl⟩)
    rw [same]
    exact ⟨⟨_, found, rfl⟩, shape ▸ rfl, (innermostLoop?_isSome distinct known).mp inLoop,
      converts, vector⟩
  · rintro ⟨⟨⟨call, name⟩, found, rfl⟩, isCall, around, converts, vector⟩
    have known : call ∈ root.preorder := told_subset (List.mem_map.mpr ⟨_, found, rfl⟩)
    have listed : (ofCall? u root call name).isSome = true :=
      ofCall?_isSome isCall ((innermostLoop?_isSome distinct known).mpr around) converts vector
    obtain ⟨site, made⟩ := Option.isSome_iff_exists.mp listed
    exact ⟨site, ⟨_, found, made⟩, (ofCall?_eq_some made).1⟩

/-- The calls made in the loops of a kernel are listed, but for those in parts that are not read:
in the callee of a call, in the header of a loop in another, and in the target of an assigned call.
Each comes once, with the innermost loop around it, and after those in its arguments. -/
theorem loop_calls_listed (numbered : u.Numbered) (layered : u.Layered) (listed : k ∈ u.kernels)
    (body : k.body = some root) :
    ((ofKernel u k).map (·.call)).Nodup ∧
    (∀ c, c ∈ (ofKernel u k).map (·.call) ↔ Made u root c ∧ ¬Unread root c) ∧
    (∀ site ∈ ofKernel u k, ∃ loop, Innermost root site.call loop ∧ loop.id = site.loop) ∧
    (ofKernel u k).Pairwise fun early late => ∀ a ∈ early.args, late.call ∉ a.preorder := by
  have distinct : root.ids.Nodup := numbered.tree (SourceUnit.tree_of_body listed body)
  have layered : ∀ a ∈ root.preorder, a.Layered := fun a below =>
    layered a (SourceUnit.mem_nodes_of_tree (SourceUnit.tree_of_body listed body) below)
  refine ⟨calls_nodup body distinct, fun c => ?_, fun site member => ?_, ?_⟩
  · rw [mem_calls body distinct, mem_told_iff distinct layered]
    constructor
    · rintro ⟨⟨isCall, outside, read⟩, -, inLoop, converts, vector⟩
      exact ⟨⟨isCall, outside, inLoop, converts, vector⟩, read⟩
    · rintro ⟨made, read⟩
      exact ⟨⟨made.isCall, made.outside, read⟩, made.isCall, made.inLoop, made.converts, made.vector⟩
  · rw [ofKernel_eq body] at member
    obtain ⟨⟨call, name⟩, found, made⟩ := List.mem_filterMap.mp member
    have known : call ∈ root.preorder := told_subset (List.mem_map.mpr ⟨_, found, rfl⟩)
    rw [(ofCall?_eq_some made).1]
    exact innermostLoop?_spec distinct known (ofCall?_loop made)
  · rw [ofKernel_eq body, List.pairwise_filterMap]
    refine (List.pairwise_map.mp (told_order distinct layered)).imp
      fun apart early made late made' a among below => apart ?_
    obtain ⟨same, -, -, -, ⟨m, callee, spread, shape⟩, -⟩ := ofCall?_eq_some made
    rw [← (ofCall?_eq_some made').1, shape]
    exact Node.child_preorder (List.mem_cons_of_mem callee among) below

end Kernel

open NestedCalls in
/-- In a loop around `r = fmax(scale(a), b)` both calls are listed. -/
theorem loop_calls_listed_nested :
    let u := (inliner (scaled 10 "a") (.name ⟨20, 0, 0⟩ "b")).unit
    let k := kernel (scaled 10 "a") (.name ⟨20, 0, 0⟩ "b")
    let root := Node.block ⟨0, 0, 0⟩ [looping (scaled 10 "a") (.name ⟨20, 0, 0⟩ "b")]
    u.Numbered ∧ u.Layered ∧ ∃ s t, ofKernel u k = [s, t] ∧ s.callee = "scale" ∧
      t.callee = "fmax" ∧ Made u root s.call ∧ Made u root t.call ∧
      (∃ loop, Innermost root s.call loop ∧ loop.id = s.loop) ∧
      ∀ a ∈ s.args, t.call ∉ a.preorder := by
  intro u k root
  obtain ⟨numbered, layered, callees⟩ : u.Numbered ∧ u.Layered ∧
      (ofKernel u k).map (·.callee) = ["scale", "fmax"] := by
    decide
  obtain ⟨s, t, sites⟩ : ∃ s t, ofKernel u k = [s, t] :=
    List.length_eq_two.mp (by simpa using congrArg List.length callees)
  obtain ⟨-, exactly, innermost, order⟩ :=
    loop_calls_listed (k := k) numbered layered (List.mem_singleton.mpr rfl)
      (rfl : k.body = some root)
  rw [sites] at callees exactly innermost order
  simp only [List.map_cons, List.map_nil, List.cons.injEq, and_true] at callees
  refine ⟨numbered, layered, s, t, sites, callees.1, callees.2, ?_, ?_, ?_, ?_⟩
  · exact ((exactly s.call).mp (by simp)).1
  · exact ((exactly t.call).mp (by simp)).1
  · exact innermost s (by simp)
  · exact List.rel_of_pairwise_cons order (by simp)

namespace StoredResult

def targetCall : Node :=
  .call ⟨6, 0, 0⟩ (.name ⟨7, 0, 0⟩ "g") [.name ⟨8, 0, 0⟩ "i"] false

def valueCall : Node :=
  .call ⟨9, 0, 0⟩ (.name ⟨10, 0, 0⟩ "h")
    [.index ⟨11, 0, 0⟩ (.name ⟨12, 0, 0⟩ "b") (.name ⟨13, 0, 0⟩ "i")] false

/-- The assignment `a[g(i)] = h(b[i])`. -/
def assignment : Node :=
  .assign ⟨3, 0, 0⟩ .set [.index ⟨4, 0, 0⟩ (.name ⟨5, 0, 0⟩ "a") targetCall] [valueCall]

def loop : Node := .forStmt ⟨1, 0, 0⟩ none none none (.block ⟨2, 0, 0⟩ [assignment])

def root : Node := .block ⟨0, 0, 0⟩ [loop]

def kernel : KernelFn :=
  { (default : KernelFn) with
    body := some root
    fallOff := .ret ⟨30, 0, 0⟩ [] }

def unit : SourceUnit :=
  { file := "", lines := default, scope := {}, kernels := [kernel], numbered := rfl }

end StoredResult

open StoredResult in
/-- In a loop around `a[g(i)] = h(b[i])` the call of `g` is not listed. -/
theorem loop_calls_listed_target :
    unit.Numbered ∧ unit.Layered ∧ kernel ∈ unit.kernels ∧ kernel.body = some root ∧
      Made unit root targetCall ∧ targetCall ∉ (ofKernel unit kernel).map (·.call) := by
  obtain ⟨numbered, layered, converts, vector, ids⟩ : unit.Numbered ∧ unit.Layered ∧
      unit.isConversion targetCall = false ∧ unit.scope.isVectorCall targetCall = false ∧
      ((ofKernel unit kernel).map (·.call.id)) = [9] := by
    decide
  have outside : targetCall ∈ root.outsideLiterals := List.mem_of_getElem? (i := 6) rfl
  have held : targetCall ∈ (Node.block ⟨2, 0, 0⟩ [assignment]).preorder :=
    List.mem_of_getElem? (i := 4) rfl
  have around : Around root targetCall StoredResult.loop :=
    ⟨List.mem_of_getElem? (i := 1) rfl, _, rfl, held⟩
  refine ⟨numbered, layered, List.mem_singleton.mpr rfl, rfl,
    ⟨rfl, outside, ⟨_, around⟩, converts, vector⟩, fun member => ?_⟩
  obtain ⟨site, listed, same⟩ := List.mem_map.mp member
  have known : targetCall.id ∈ (ofKernel unit kernel).map (·.call.id) :=
    List.mem_map.mpr ⟨site, listed, congrArg Node.id same⟩
  rw [ids] at known
  simp [targetCall, Node.id, Node.mark] at known

end LoopCall

end Retarget
