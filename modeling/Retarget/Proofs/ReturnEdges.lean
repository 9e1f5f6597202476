/-
# Proofs.ReturnEdges -- where control goes on after a call

The return site of a linked call takes over the edges that leave its call site when the call is
linked, all but those to callees.  Of the local kinds it has exactly the edges of the call site,
each once, after any history (`returnSite_edges`); so control that comes back from a callee goes on
where the statement goes on.

It need not be all it has.  When another call of the same statement was linked before, the call
site leads to the arguments of that call too, and these edges are taken over as well
(`returnSite_strays`).  Where no other linked call shares the call site there are none.
-/
import Retarget.Proofs.LayoutHistory

namespace Retarget

open Retarget.Source (Node NodeId)

set_option autoImplicit false
set_option linter.dupNamespace false

namespace PropertyGraph

variable {u : SourceUnit} {g : PropertyGraph} {calls : List CallRecord} {r q : CallRecord} {s : Slot}

/-! ## One return site for each call -/

/-- Of all records one alone has the return site. -/
theorem Wired.flatMap_returnSite (wired : g.Wired u calls) (laid : g.Laid u calls)
    (member : r ∈ calls) (noted : r.returnSite = some s) (f : CallRecord → List Edge) :
    (calls.flatMap fun q => if q.returnSite = some s then f q else []) = f r := by
  obtain ⟨before, after, rfl⟩ := List.append_of_mem member
  obtain ⟨_, spans⟩ := (laid.records r member).spans noted
  have apart := wired.apart
  rw [List.pairwise_append, List.pairwise_cons] at apart
  -- another record with this return site would have a node in common with `r`
  have silent {others : List CallRecord} (within : ∀ q ∈ others, q ∈ before ++ r :: after)
      (disjoint : ∀ q ∈ others, s ∉ q.created) :
      (others.flatMap fun q => if q.returnSite = some s then f q else []) = [] := by
    refine List.flatMap_eq_nil_iff.mpr fun q listed => if_neg fun notedQ => ?_
    obtain ⟨_, spansQ⟩ := (laid.records q (within q listed)).spans notedQ
    exact disjoint q listed spansQ.returnSite_mem
  have left : (before.flatMap fun q => if q.returnSite = some s then f q else []) = [] :=
    silent (fun q listed => List.mem_append_left _ listed) fun q listed shared =>
      apart.2.2 q listed r List.mem_cons_self s shared spans.returnSite_mem
  have right : (after.flatMap fun q => if q.returnSite = some s then f q else []) = [] :=
    silent (fun q listed => List.mem_append_right _ (List.mem_cons_of_mem _ listed))
      fun q listed => apart.2.1.1 q listed s spans.returnSite_mem
  rw [List.flatMap_append, List.flatMap_cons, left, right, if_pos noted, List.nil_append,
    List.append_nil]

theorem Wired.returnSite_not_own (wired : g.Wired u calls) (laid : g.Laid u calls)
    (member : r ∈ calls) (noted : r.returnSite = some s) : g.ownEdges s = [] := by
  obtain ⟨_, spans⟩ := (laid.records r member).spans noted
  refine outOf_eq_nil fun e own source => ?_
  obtain ⟨b, built, -, start, -⟩ := laid.mem_ownArcs own
  exact wired.link_not_own built (source ▸ start)
    ((wired.records r member).created s spans.returnSite_mem)

/-- Along the local kinds the return site leads where the call site leads. -/
theorem Wired.returnSite_local (wired : g.Wired u calls) (laid : g.Laid u calls)
    (member : r ∈ calls) (noted : r.returnSite = some s) :
    ((g.succsOf s).filter (·.kind.isLocal)).Perm ((g.succsOf r.site).filter (·.kind.isLocal)) := by
  obtain ⟨b, built, -, own⟩ := (wired.records r member).caller
  have edges := wired.local_succs laid s
  rw [wired.returnSite_not_own laid member noted, List.nil_append,
    wired.flatMap_returnSite laid member noted] at edges
  exact edges.trans (wired.local_succs_own laid built own).symm

/-! ## What else leaves a return site -/

/-- The edges of a call that leave its return site are of the local kinds. -/
theorem linkArcs_local_of_source {site entry exit : Slot} {after : List Arc} {args : Nat}
    {returns : Bool} {e : Arc} (member : e ∈ linkArcs site entry exit (s + ·) after args returns)
    (locals : ∀ a ∈ after, a.2.2.isLocal = true) (source : e.1 = s) (notSite : s ≠ site)
    (notExit : s ≠ exit) : e.2.2.isLocal = true := by
  rcases mem_linkArcs.mp member with rfl | rfl | ⟨a, inner, rfl⟩ | ⟨i, -, rfl | rfl⟩ | ⟨-, result⟩
  · exact absurd source.symm notSite
  · exact absurd source.symm notExit
  · exact locals a inner
  · exact absurd source.symm notSite
  · exact absurd source (by simp)
  · simp only [resultArcs, List.mem_cons, List.not_mem_nil, or_false] at result
    rcases result with rfl | rfl | rfl
    · exact absurd source.symm notExit
    · exact absurd source (by simp)
    · exact absurd source (by simp)

/-- Of the edges of calls only those of its own call leave a return site, and they are local. -/
theorem Wired.callArcs_returnSite (wired : g.Wired u calls) (laid : g.Laid u calls)
    (member : r ∈ calls) (noted : r.returnSite = some s) (other : q ∈ calls) {e : Arc}
    (drawn : e ∈ g.callArcs u q) (source : e.1 = s) : e.2.2.isLocal = true := by
  obtain ⟨_, spans⟩ := (laid.records r member).spans noted
  have notSite {p : CallRecord} (listed : p ∈ calls) : s ≠ p.site := fun same =>
    wired.site_not_created listed member (same ▸ spans.returnSite_mem)
  have notExit {c : BuiltKernel} (built : c ∈ g.built) : s ≠ c.exit := fun same =>
    wired.link_not_own built (wired.kernels c built).exit.1
      (same ▸ (wired.records r member).created s spans.returnSite_mem)
  cases linked : q.linked with
  | false =>
      rw [callArcs_of_unlinked ((laid.records q other).unlinked linked).1] at drawn
      cases drawn
  | true =>
      obtain ⟨c, built, t, spansQ, arcs⟩ := wired.linked_call laid other linked
      rw [arcs] at drawn
      rcases mem_callArcs_source spansQ drawn with rfl | ⟨i, -, rfl⟩ | exit | created
      · exact absurd source.symm (notSite other)
      · exact absurd source.symm (notSite other)
      · exact absurd (source.symm.trans exit) (notExit built)
      · obtain rfl := wired.eq_of_created member other spans.returnSite_mem (source ▸ created)
        obtain rfl : s = t := Option.some.inj (noted.symm.trans spansQ.returnSite)
        refine linkArcs_local_of_source drawn (fun a own => ?_) source (notSite other) (notExit built)
        obtain ⟨-, -, -, -, -, isLocal⟩ := laid.mem_ownArcs (List.mem_filter.mp own).1
        exact isLocal

/-- An edge of another kind that leaves a return site leads to an argument of another call that is
linked at the same call site. -/
theorem Wired.returnSite_other (wired : g.Wired u calls) (laid : g.Laid u calls)
    (member : r ∈ calls) (noted : r.returnSite = some s) {e : Edge} (leaves : e ∈ g.succsOf s)
    (other : e.kind.isLocal = false) :
    e.kind = .paramIn ∧ ∃ q ∈ calls, q.linked = true ∧ q.site = r.site ∧ q.returnSite ≠ some s ∧
      e.other ∈ q.created := by
  obtain ⟨strays, accounts, shapes⟩ := laid.drawn
  obtain ⟨_, spans⟩ := (laid.records r member).spans noted
  have listed := (accounts.mem_iff (e := (s, e.other, e.kind))).mpr leaves
  rcases List.mem_append.mp listed with ours | stray
  · rcases List.mem_append.mp ours with own | called
    · have onward : e ∈ g.ownEdges s := mem_outOf.mpr own
      rw [wired.returnSite_not_own laid member noted] at onward
      cases onward
    · obtain ⟨q, recorded, drawn⟩ := List.mem_flatMap.mp called
      have isLocal := wired.callArcs_returnSite laid member noted recorded drawn rfl
      exact absurd (other.symm.trans isLocal) Bool.false_ne_true
  · obtain ⟨p, first, q, second, s', t, i, notedP, notedQ, apart, site, low, same⟩ := shapes _ stray
    obtain ⟨rfl, target, kind⟩ : s = s' ∧ e.other = t + (2 * i + 1) ∧ e.kind = .paramIn := by
      simpa using same
    obtain ⟨_, spansP⟩ := (laid.records p first).spans notedP
    obtain ⟨_, spansQ⟩ := (laid.records q second).spans notedQ
    obtain rfl := wired.eq_of_created member first spans.returnSite_mem spansP.returnSite_mem
    refine ⟨kind, q, second, ?_, site.symm, ?_, ?_⟩
    · refine Bool.of_not_eq_false fun unlinked => ?_
      cases ((laid.records q second).unlinked unlinked).1.symm.trans notedQ
    · rw [notedQ]
      exact fun equal => apart (Option.some.inj equal).symm
    · rw [target]
      exact spansQ.mem_args (by omega)

/-! ## After any history -/

/-- The call goes on where its statement goes on: of the local kinds its return site has each edge
of the call site once.  All else that leaves the return site leads to the arguments of other calls
linked at the same call site, so without any there is nothing else. -/
structure Resumes (g : PropertyGraph) (r : CallRecord) (s : Slot) : Prop where
  onward : ((g.succsOf s).filter (·.kind.isLocal)).Perm
    ((g.succsOf r.site).filter (·.kind.isLocal))
  others : ∀ e ∈ g.succsOf s, e.kind.isLocal = false → e.kind = .paramIn ∧
    ∃ q ∈ g.calls, q.linked = true ∧ q.site = r.site ∧ q.returnSite ≠ some s ∧ e.other ∈ q.created
  alone : (∀ q ∈ g.calls, q.linked = true → q.site = r.site → q.returnSite = some s) →
    (g.succsOf s).Perm ((g.succsOf r.site).filter (·.kind.isLocal))

theorem Wired.resumes (wired : g.Wired u g.calls) (laid : g.Laid u g.calls) (member : r ∈ g.calls)
    (noted : r.returnSite = some s) : g.Resumes r s where
  onward := wired.returnSite_local laid member noted
  others _ leaves other := wired.returnSite_other laid member noted leaves other
  alone := by
    intro single
    have all : (g.succsOf s).filter (·.kind.isLocal) = g.succsOf s := by
      refine List.filter_eq_self.mpr fun e leaves => Bool.of_not_eq_false fun other => ?_
      obtain ⟨-, q, listed, linked, site, apart, -⟩ :=
        wired.returnSite_other laid member noted leaves other
      exact apart (single q listed linked site)
    have onward := wired.returnSite_local laid member noted
    rwa [all] at onward

/-- After any history a linked call has a return site, and control goes on from there where the
statement of the call goes on. -/
theorem returnSite_edges (u : SourceUnit) (cap : Int) (ops : List (GraphOp u)) {r : CallRecord}
    (member : r ∈ (history u cap ops).calls) (linked : r.linked = true) :
    ∃ s, r.returnSite = some s ∧ (history u cap ops).Resumes r s := by
  have wired := (history_ordered u cap ops).wired
  have laid := history_laid u cap ops
  obtain ⟨_, -, s, spans, -⟩ := wired.linked_call laid member linked
  exact ⟨s, spans.returnSite, wired.resumes laid member spans.returnSite⟩

/-! ## Two calls of one statement -/

/-- A kernel that passes its argument on: its body is the return of a name. -/
def passing : KernelFn where
  id := 0
  name := "leaf"
  params := [⟨"x", "int", 0⟩]
  result := "int"
  start := 0
  stop := 0
  body := some (.block ⟨1, 0, 0⟩ [.ret ⟨2, 0, 0⟩ [.name ⟨3, 0, 0⟩ "x"]])
  fallOff := .ret ⟨4, 0, 0⟩ []
  vars := []

/-- A call of `passing`. -/
def passingCall (id : NodeId) : Node :=
  .call ⟨id, 0, 0⟩ (.name ⟨id + 1, 0, 0⟩ "leaf") [.name ⟨id + 2, 0, 0⟩ "a"] false

/-- A kernel that returns the sum of two calls of `passing`. -/
def doubling : KernelFn where
  id := 1
  name := "sum"
  params := [⟨"a", "int", 0⟩]
  result := "int"
  start := 0
  stop := 0
  body := some (.block ⟨5, 0, 0⟩
    [.ret ⟨6, 0, 0⟩ [.binary ⟨7, 0, 0⟩ .add (passingCall 8) (passingCall 11)]])
  fallOff := .ret ⟨14, 0, 0⟩ []
  vars := []

/-- A unit with two calls in one statement. -/
def doubled : SourceUnit where
  file := ""
  lines := default
  scope := {}
  kernels := [passing, doubling]

/-- The second call of a statement does not only go on where the statement goes on. -/
theorem returnSite_strays :
    ¬∀ r ∈ (history doubled 0 [.buildUnit]).calls, ∀ s, r.returnSite = some s →
      ((history doubled 0 [.buildUnit]).succsOf s).Perm
        (((history doubled 0 [.buildUnit]).succsOf r.site).filter (·.kind.isLocal)) := by
  intro exactly
  have second : (history doubled 0 [.buildUnit]).calls[1]?.map
      (fun r : CallRecord => (r.site, r.returnSite))
      = some (5, some 11) := by decide +kernel
  obtain ⟨r, listed, noted⟩ := Option.map_eq_some_iff.mp second
  have same := exactly r (List.mem_of_getElem? listed) 11 (congrArg Prod.snd noted)
  rw [show r.site = 5 from congrArg Prod.fst noted] at same
  have more : ((history doubled 0 [.buildUnit]).succsOf 11).length = 2 := by decide +kernel
  have fewer : (((history doubled 0 [.buildUnit]).succsOf 5).filter (·.kind.isLocal)).length = 1 := by
    decide +kernel
  cases (more.symm.trans same.length_eq).trans fewer

/-- Still, of the local kinds it has what the statement has. -/
theorem returnSite_edges_doubled : ∃ r ∈ (history doubled 0 [.buildUnit]).calls,
    r.linked = true ∧ ∃ s, r.returnSite = some s ∧ (history doubled 0 [.buildUnit]).Resumes r s := by
  have second : (history doubled 0 [.buildUnit]).calls[1]?.map CallRecord.linked =
      some true := by
    decide
  obtain ⟨r, listed, linked⟩ := Option.map_eq_some_iff.mp second
  have member := List.mem_of_getElem? listed
  exact ⟨r, member, linked, returnSite_edges doubled 0 [.buildUnit] member linked⟩

end PropertyGraph

end Retarget
