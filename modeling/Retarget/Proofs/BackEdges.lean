/-
# Proofs.BackEdges -- what a depth-first walk meets again while it is open cuts every cycle

The walk keeps a stack of open blocks.  Each of its moves closes the top block, passes an edge over,
or opens the block that the edge leads to (`Moves`).  A block met again while it is open becomes a
header.  Since each block on the stack leads to the one above, the blocks from the header to the top
form a cycle (`Sound.back`).

That no cycle is without a header is told by the order in which blocks are closed.  Of an edge that
has been tried, the target is a header, or it is the block right above on the stack, or it was closed
before (`Tracks`); so when a block is closed, all that it leads to are headers or were closed before
it (`Ordered`).  Around a cycle without headers every block would be closed before itself
(`Ordered.no_cycle`).

Each move uses up an edge or a block (`pending`), so the walk comes to its end after no more moves
than there are blocks and edges together.  By then it has closed every block that can be reached
(`Sound.mem_closed`).
-/
import Mathlib.Algebra.Order.BigOperators.Group.Finset
import Retarget.Proofs.ControlDependence
import Retarget.PropertyGraph.Metrics

namespace Retarget

set_option autoImplicit false
set_option linter.dupNamespace false

namespace FlowGraph

variable (g : FlowGraph)

/-- The blocks of a closed route: each leads to the next and the last to the first. -/
def Cycle (blocks : List Nat) : Prop := ∃ i j, g.Route i blocks j ∧ i ∈ g.succs j

/-- The walk before its first move. -/
def opening : Walk where
  stack := [⟨g.entry, g.succs g.entry⟩]
  visits := (List.replicate g.size Visit.unvisited).set g.entry .open_
  headers := []

/-- The open blocks, the last opened first. -/
def Walk.blocks (w : Walk) : List Nat := w.stack.map (·.block)

def Walk.visit (w : Walk) (i : Nat) : Visit := w.visits.getD i .done

/-- The moves of a walk. -/
inductive Moves : Walk → Walk → Prop
  | close {b below visits headers} :
      Moves ⟨⟨b, []⟩ :: below, visits, headers⟩ ⟨below, visits.set b .done, headers⟩
  | back {b s rest below visits headers} : visits.getD s .done = .open_ →
      Moves ⟨⟨b, s :: rest⟩ :: below, visits, headers⟩ ⟨⟨b, rest⟩ :: below, visits, s :: headers⟩
  | enter {b s rest below visits headers} : visits.getD s .done = .unvisited →
      Moves ⟨⟨b, s :: rest⟩ :: below, visits, headers⟩
        ⟨⟨s, g.succs s⟩ :: ⟨b, rest⟩ :: below, visits.set s .open_, headers⟩
  | pass {b s rest below visits headers} : visits.getD s .done = .done →
      Moves ⟨⟨b, s :: rest⟩ :: below, visits, headers⟩ ⟨⟨b, rest⟩ :: below, visits, headers⟩

/-- Where an open block stands: it leads to the block above, and what it has tried is a header, closed,
or that block. -/
structure Tracks (headers closed : List Nat) (above : Option Nat) (f : Frame) : Prop where
  leads : ∀ s, above = some s → s ∈ g.succs f.block
  ahead : f.rest ⊆ g.succs f.block
  behind : ∀ s ∈ g.succs f.block, s ∈ f.rest ∨ s ∈ headers ∨ s ∈ closed ∨ above = some s

/-- The frames of a stack, below a block that is above them. -/
def Stacked (headers closed : List Nat) : Option Nat → List Frame → Prop
  | _, [] => True
  | above, f :: below =>
    g.Tracks headers closed above f ∧ Stacked headers closed (some f.block) below

/-- The closed blocks, the last closed first: each leads to headers and to blocks closed before. -/
def Ordered (headers : List Nat) : List Nat → Prop
  | [] => True
  | b :: earlier => (∀ s ∈ g.succs b, s ∈ headers ∨ s ∈ earlier) ∧ Ordered headers earlier

/-- What holds of a walk that has closed some blocks. -/
structure Sound (w : Walk) (closed : List Nat) : Prop where
  room : w.visits.length = g.size
  once : (w.blocks ++ closed).Nodup
  opened : ∀ i, w.visit i = .open_ ↔ i ∈ w.blocks
  unmet : ∀ i, w.visit i = .unvisited ↔ i < g.size ∧ i ∉ w.blocks ++ closed
  entered : g.entry ∈ w.blocks ++ closed
  headed : w.headers ⊆ w.blocks ++ closed
  circular : ∀ h ∈ w.headers, ∃ blocks, g.Cycle blocks ∧ blocks.Nodup ∧ h ∈ blocks
  stacked : g.Stacked w.headers closed none w.stack
  ordered : g.Ordered w.headers closed

/-- A block not opened yet is still due itself, with the edges that leave it. -/
def due (visits : List Visit) (i : Nat) : Nat :=
  if visits.getD i .done = .unvisited then (g.succs i).length + 1 else 0

/-- The edges and blocks that the walk has still to use up. -/
def pending (w : Walk) : Nat :=
  (w.stack.map fun f => f.rest.length + 1).sum +
    ∑ i ∈ Finset.range w.visits.length, g.due w.visits i

variable {g} {w w' : Walk} {closed more headers headers' : List Nat} {above : Option Nat}
  {stack : List Frame} {i j s : Nat} {blocks : List Nat}

/-! ## Moves -/

theorem moves_walkStep (busy : w.stack ≠ []) : g.Moves w (g.walkStep w) := by
  obtain ⟨stack, visits, headers⟩ := w
  match stack with
  | [] => exact absurd rfl busy
  | ⟨b, []⟩ :: below => exact .close
  | ⟨b, s :: rest⟩ :: below =>
      cases state : visits.getD s .done <;> simp only [walkStep, state]
      · exact .enter state
      · exact .back state
      · exact .pass state

theorem walkStep_of_done (idle : w.stack = []) : g.walkStep w = w := by
  simp [walkStep, idle]

theorem walkSteps_of_done (idle : w.stack = []) (n : Nat) : g.walkSteps n w = w := by
  induction n with
  | zero => rfl
  | succ n ih => rw [walkSteps, walkStep_of_done idle, ih]

theorem walkSteps_add (n m : Nat) (w : Walk) :
    g.walkSteps (n + m) w = g.walkSteps m (g.walkSteps n w) := by
  induction n generalizing w with
  | zero => rw [Nat.zero_add, walkSteps]
  | succ n ih => rw [Nat.succ_add, walkSteps, ih, walkSteps]

/-! ## The end of the walk -/

theorem getD_set {visits : List Visit} (inside : s < visits.length) (v : Visit) (i : Nat) :
    (visits.set s v).getD i .done = if i = s then v else visits.getD i .done := by
  simp only [List.getD_eq_getElem?_getD, List.getElem?_set]
  grind

theorem getD_set_done (visits : List Visit) (b i : Nat) :
    (visits.set b .done).getD i .done = if i = b then .done else visits.getD i .done := by
  simp only [List.getD_eq_getElem?_getD, List.getElem?_set]
  grind

theorem lt_length_of_unvisited {visits : List Visit} (state : visits.getD s .done = .unvisited) :
    s < visits.length := by
  by_contra outside
  rw [List.getD_eq_getElem?_getD, List.getElem?_eq_none (Nat.le_of_not_lt outside)] at state
  cases state

theorem Moves.pending_lt (moves : g.Moves w w') : g.pending w' < g.pending w := by
  cases moves with
  | @close b below visits headers =>
      have fewer : ∀ i ∈ Finset.range visits.length,
          g.due (visits.set b .done) i ≤ g.due visits i := by
        intro i _
        rw [due, getD_set_done]
        split
        · simp
        · rfl
      have sums := Finset.sum_le_sum fewer
      simp only [pending, List.length_set, List.map_cons, List.sum_cons]
      omega
  | back state => simp [pending]
  | @enter b s rest below visits headers state =>
      -- what the new frame has to try was due before as the block's own
      have inside := lt_length_of_unvisited state
      have member : s ∈ Finset.range visits.length := Finset.mem_range.mpr inside
      have before := Finset.add_sum_erase _ (g.due visits) member
      have after := Finset.add_sum_erase _ (g.due (visits.set s .open_)) member
      have others : ∑ i ∈ (Finset.range visits.length).erase s, g.due (visits.set s .open_) i =
          ∑ i ∈ (Finset.range visits.length).erase s, g.due visits i := by
        refine Finset.sum_congr rfl fun i other => ?_
        rw [due, getD_set inside, if_neg (Finset.ne_of_mem_erase other), due]
      have opened : g.due (visits.set s .open_) s = 0 := by
        rw [due, getD_set inside, if_pos rfl, if_neg (by decide)]
      have closed : g.due visits s = (g.succs s).length + 1 := by rw [due, if_pos state]
      simp only [pending, List.length_set, List.map_cons, List.sum_cons, List.length_cons]
      omega
  | pass state => simp [pending]

/-- As many moves as there are edges and blocks to use up empty the stack. -/
theorem stack_walkSteps (n : Nat) (enough : g.pending w ≤ n) : (g.walkSteps n w).stack = [] := by
  induction n generalizing w with
  | zero =>
      have none : (w.stack.map fun f => f.rest.length + 1).sum = 0 := by
        rw [pending] at enough
        omega
      cases h : w.stack with
      | nil => simpa [walkSteps] using h
      | cons f below => simp [h] at none
  | succ n ih =>
      rw [walkSteps]
      by_cases busy : w.stack = []
      · rw [walkStep_of_done busy, walkSteps_of_done busy, busy]
      · have less := (moves_walkStep (g := g) busy).pending_lt
        exact ih (by omega)

theorem edgeCount_eq_sum : g.edgeCount = ∑ i ∈ Finset.range g.size, (g.succs i).length := by
  have lengths : g.blocks.map (·.succs.length)
      = (List.range g.size).map fun i => (g.succs i).length := by
    refine List.ext_getElem (by simp [size]) fun i low _ => ?_
    have inside : i < g.blocks.length := by simpa using low
    simp [succs, labeledSuccs, block?, inside]
  have sum (l : List Nat) : total l = l.sum := by
    induction l with
    | nil => rfl
    | cons n l ih => rw [total, ih, List.sum_cons]
  rw [edgeCount, sum, lengths, ← List.sum_toFinset _ List.nodup_range]
  refine Finset.sum_congr ?_ fun _ _ => rfl
  ext i
  simp

theorem pending_opening (inside : g.entry < g.size) :
    g.pending g.opening = g.size + g.edgeCount := by
  have member : g.entry ∈ Finset.range g.size := Finset.mem_range.mpr inside
  have fresh : g.entry < (List.replicate g.size Visit.unvisited).length := by simpa using inside
  have first : g.due g.opening.visits g.entry = 0 := by
    rw [due, opening, getD_set fresh, if_pos rfl, if_neg (by decide)]
  have others : ∀ i ∈ (Finset.range g.size).erase g.entry,
      g.due g.opening.visits i = (g.succs i).length + 1 := by
    intro i other
    have low := Finset.mem_range.mp (Finset.mem_of_mem_erase other)
    rw [due, opening, getD_set fresh, if_neg (Finset.ne_of_mem_erase other), if_pos]
    rw [List.getD_eq_getElem?_getD, List.getElem?_replicate, if_pos low, Option.getD_some]
  have blocks := Finset.add_sum_erase _ (fun i => (g.succs i).length + 1) member
  have opened := Finset.add_sum_erase _ (g.due g.opening.visits) member
  rw [Finset.sum_congr rfl others, first] at opened
  have all : ∑ i ∈ Finset.range g.size, ((g.succs i).length + 1) = g.edgeCount + g.size := by
    rw [Finset.sum_add_distrib, Finset.sum_const, Finset.card_range, ← edgeCount_eq_sum,
      Nat.nsmul_eq_mul, Nat.mul_one]
  have room : g.opening.visits.length = g.size := by simp [opening]
  have top : (g.opening.stack.map fun f => f.rest.length + 1).sum = (g.succs g.entry).length + 1 := by
    simp [opening]
  rw [pending, room, top]
  omega

/-! ## Cycles -/

theorem Tracks.mono {f : Frame} (tracks : g.Tracks headers closed above f) (wide : headers ⊆ headers')
    (long : closed ⊆ more) : g.Tracks headers' more above f where
  leads := tracks.leads
  ahead := tracks.ahead
  behind s leads := by
    rcases tracks.behind s leads with ahead | header | finished | next
    · exact Or.inl ahead
    · exact Or.inr (Or.inl (wide header))
    · exact Or.inr (Or.inr (Or.inl (long finished)))
    · exact Or.inr (Or.inr (Or.inr next))

theorem Stacked.mono (stacked : g.Stacked headers closed above stack) (wide : headers ⊆ headers')
    (long : closed ⊆ more) : g.Stacked headers' more above stack := by
  induction stack generalizing above with
  | nil => trivial
  | cons f below ih => exact ⟨stacked.1.mono wide long, ih stacked.2⟩

theorem Ordered.mono (ordered : g.Ordered headers closed) (wide : headers ⊆ headers') :
    g.Ordered headers' closed := by
  induction closed with
  | nil => trivial
  | cons b earlier ih =>
      exact ⟨fun s leads => (ordered.1 s leads).imp_left fun header => wide header, ih ordered.2⟩

/-- From an open block the route up the stack leads to the top. -/
theorem exists_route_of_open {f : Frame} (stacked : g.Stacked headers closed above (f :: stack))
    (once : ((f :: stack).map (·.block)).Nodup) (member : s ∈ (f :: stack).map (·.block)) :
    ∃ blocks, g.Route s blocks f.block ∧ blocks.Nodup ∧
      ∀ x ∈ blocks, x ∈ (f :: stack).map (·.block) := by
  induction stack generalizing f above with
  | nil =>
      obtain rfl : s = f.block := by simpa using member
      exact ⟨[f.block], .here _, List.nodup_singleton _, by simp⟩
  | cons f' below ih =>
      rw [List.map_cons] at once member
      rcases List.mem_cons.mp member with rfl | lower
      · exact ⟨[f.block], .here _, List.nodup_singleton _, by simp⟩
      · obtain ⟨fresh, once'⟩ := List.nodup_cons.mp once
        obtain ⟨blocks, route, distinct, inside⟩ := ih stacked.2 once' lower
        refine ⟨blocks ++ [f.block], route.snoc (stacked.2.1.leads f.block rfl), ?_, ?_⟩
        · refine List.nodup_append.mpr ⟨distinct, List.nodup_singleton _, ?_⟩
          rintro x low y top rfl
          exact fresh (List.mem_singleton.mp top ▸ inside x low)
        · intro x member
          rcases List.mem_append.mp member with low | top
          · exact List.mem_cons_of_mem _ (inside x low)
          · exact List.mem_singleton.mp top ▸ List.mem_cons_self

/-- A block that leads to a header or to a block closed before. -/
theorem Ordered.next (ordered : g.Ordered headers closed) (member : i ∈ closed)
    (leads : j ∈ g.succs i) : j ∈ headers ∨ j ∈ closed := by
  induction closed with
  | nil => cases member
  | cons b earlier ih =>
      rcases List.mem_cons.mp member with rfl | member
      · exact (ordered.1 j leads).imp_right fun before => List.mem_cons_of_mem _ before
      · exact (ih ordered.2 member).imp_right fun before => List.mem_cons_of_mem _ before

/-- What a closed block leads to has been closed earlier, if it is no header. -/
theorem Ordered.earlier (ordered : g.Ordered headers closed) (once : closed.Nodup)
    (member : i ∈ closed) (leads : j ∈ g.succs i) (clear : j ∉ headers) :
    closed.idxOf i < closed.idxOf j := by
  induction closed with
  | nil => cases member
  | cons b earlier ih =>
      obtain ⟨fresh, once'⟩ := List.nodup_cons.mp once
      have last {x : Nat} (before : x ∈ earlier) :
          (b :: earlier).idxOf x = earlier.idxOf x + 1 :=
        List.idxOf_cons_ne _ fun same => fresh (same ▸ before)
      rcases List.mem_cons.mp member with rfl | member
      · have before := (ordered.1 j leads).resolve_left clear
        rw [List.idxOf_cons_self, last before]
        exact Nat.succ_pos _
      · have before := (ordered.2.next member leads).resolve_left clear
        rw [last member, last before]
        exact Nat.succ_lt_succ (ih ordered.2 once' member)

theorem Ordered.no_cycle (ordered : g.Ordered headers closed) (once : closed.Nodup)
    (cycle : g.Cycle blocks) (inside : blocks ⊆ closed) : ∃ h ∈ blocks, h ∈ headers := by
  by_contra none
  have clear : ∀ x ∈ blocks, x ∉ headers := fun x member header => none ⟨x, member, header⟩
  obtain ⟨i, j, route, back⟩ := cycle
  have turn := ordered.earlier once (inside route.end_mem) back (clear i route.start_mem)
  have along : closed.idxOf i ≤ closed.idxOf j := by
    clear turn back none
    induction route with
    | here => exact Nat.le_refl _
    | step leads route ih =>
        have before := ordered.earlier once (inside List.mem_cons_self) leads
          (clear _ (List.mem_cons_of_mem _ route.start_mem))
        have later := ih (fun x member => inside (List.mem_cons_of_mem _ member))
          fun x member => clear x (List.mem_cons_of_mem _ member)
        exact Nat.le_trans (Nat.le_of_lt before) later
  exact absurd turn (Nat.not_lt.mpr along)

/-! ## What each move keeps -/

theorem sound_opening (inside : g.entry < g.size) : g.Sound g.opening [] := by
  have fresh : g.entry < (List.replicate g.size Visit.unvisited).length := by simpa using inside
  have states (i : Nat) : g.opening.visit i =
      if i = g.entry then .open_ else if i < g.size then .unvisited else .done := by
    rw [Walk.visit, opening, getD_set fresh, List.getD_eq_getElem?_getD, List.getElem?_replicate]
    grind
  have blocks : g.opening.blocks = [g.entry] := rfl
  refine ⟨by simp [opening], by simp [blocks], fun i => ?_, fun i => ?_, by simp [blocks], nofun, nofun,
    ⟨⟨nofun, List.Subset.refl _, fun s leads => Or.inl leads⟩, trivial⟩, trivial⟩
  · rw [states, blocks, List.mem_singleton]
    grind
  · rw [states, blocks, List.append_nil, List.mem_singleton]
    grind

section Move

variable {b : Nat} {rest : List Nat} {below : List Frame} {visits : List Visit}

/-- The top block is closed: what it leads to has been closed or is a header. -/
theorem Sound.close (sound : g.Sound ⟨⟨b, []⟩ :: below, visits, headers⟩ closed) :
    g.Sound ⟨below, visits.set b .done, headers⟩ (b :: closed) := by
  have same (x : Nat) : x ∈ below.map (·.block) ++ b :: closed ↔
      x ∈ (b :: below.map (·.block)) ++ closed := by
    simp only [List.mem_append, List.mem_cons]
    rw [or_left_comm, or_assoc]
  have once : (b :: (below.map (·.block) ++ closed)).Nodup := sound.once
  have fresh : b ∉ below.map (·.block) := fun open_ =>
    (List.nodup_cons.mp once).1 (List.mem_append_left _ open_)
  obtain ⟨top, rest⟩ := sound.stacked
  refine ⟨by simpa using sound.room, List.nodup_middle.mpr once, fun i => ?_, fun i => ?_,
    (same _).mpr sound.entered, fun h header => (same h).mpr (sound.headed header), sound.circular,
    ?_, ⟨fun s leads => ?_, sound.ordered⟩⟩
  · have before := sound.opened i
    simp only [Walk.visit, Walk.blocks, getD_set_done, List.map_cons, List.mem_cons] at before ⊢
    by_cases top : i = b
    · simpa [top] using fresh
    · simpa [top] using before
  · have before := sound.unmet i
    simp only [Walk.visit, Walk.blocks, getD_set_done, List.map_cons] at before ⊢
    rw [same]
    by_cases top : i = b
    · simp [top]
    · rwa [if_neg top]
  · cases below with
    | nil => trivial
    | cons f below =>
        -- the block that was above is closed now
        refine ⟨⟨nofun, rest.1.ahead, fun s leads => ?_⟩,
          rest.2.mono (List.Subset.refl _) (List.subset_cons_self b closed)⟩
        rcases rest.1.behind s leads with ahead | header | finished | above
        · exact Or.inl ahead
        · exact Or.inr (Or.inl header)
        · exact Or.inr (Or.inr (Or.inl (List.mem_cons_of_mem _ finished)))
        · exact Or.inr (Or.inr (Or.inl (Option.some.inj above ▸ List.mem_cons_self)))
  · rcases top.behind s leads with ahead | header | finished | above
    · cases ahead
    · exact Or.inl header
    · exact Or.inr finished
    · cases above

/-- An edge is tried whose target is a header or closed. -/
theorem Stacked.tried (stacked : g.Stacked headers closed none (⟨b, s :: rest⟩ :: below))
    (wide : headers ⊆ headers') (known : s ∈ headers' ∨ s ∈ closed) :
    g.Stacked headers' closed none (⟨b, rest⟩ :: below) := by
  refine ⟨⟨nofun, fun t later => stacked.1.ahead (List.mem_cons_of_mem _ later), fun t leads => ?_⟩,
    stacked.2.mono wide (List.Subset.refl _)⟩
  rcases stacked.1.behind t leads with ahead | header | finished | above
  · rcases List.mem_cons.mp ahead with rfl | later
    · exact Or.inr (known.imp_right Or.inl)
    · exact Or.inl later
  · exact Or.inr (Or.inl (wide header))
  · exact Or.inr (Or.inr (Or.inl finished))
  · cases above

/-- A block is met again while it is open: it and the blocks above it form a cycle. -/
theorem Sound.back (sound : g.Sound ⟨⟨b, s :: rest⟩ :: below, visits, headers⟩ closed)
    (state : visits.getD s .done = .open_) :
    g.Sound ⟨⟨b, rest⟩ :: below, visits, s :: headers⟩ closed := by
  have isOpen : s ∈ b :: below.map (·.block) := (sound.opened s).mp state
  refine ⟨sound.room, sound.once, sound.opened, sound.unmet, sound.entered, ?_, ?_,
    sound.stacked.tried (List.subset_cons_self s headers) (Or.inl List.mem_cons_self),
    sound.ordered.mono (List.subset_cons_self s headers)⟩
  · exact List.cons_subset.mpr ⟨List.mem_append_left _ isOpen, sound.headed⟩
  · intro h header
    rcases List.mem_cons.mp header with rfl | header
    · have once : (b :: below.map (·.block)).Nodup := (List.nodup_append.mp sound.once).1
      obtain ⟨blocks, route, distinct, -⟩ := exists_route_of_open sound.stacked once isOpen
      exact ⟨blocks, ⟨h, b, route, sound.stacked.1.ahead List.mem_cons_self⟩, distinct,
        route.start_mem⟩
    · exact sound.circular h header

/-- A block met for the first time is opened. -/
theorem Sound.enter (sound : g.Sound ⟨⟨b, s :: rest⟩ :: below, visits, headers⟩ closed)
    (state : visits.getD s .done = .unvisited) :
    g.Sound ⟨⟨s, g.succs s⟩ :: ⟨b, rest⟩ :: below, visits.set s .open_, headers⟩ closed := by
  have inside := lt_length_of_unvisited state
  obtain ⟨-, fresh⟩ := (sound.unmet s).mp state
  have wider : (b :: below.map (·.block)) ++ closed ⊆ (s :: b :: below.map (·.block)) ++ closed :=
    List.subset_cons_self s _
  obtain ⟨top, lower⟩ := sound.stacked
  refine ⟨by simpa using sound.room, List.nodup_cons.mpr ⟨fresh, sound.once⟩, fun i => ?_,
    fun i => ?_, wider sound.entered, fun h header => wider (sound.headed header), sound.circular,
    ⟨⟨nofun, List.Subset.refl _, fun t leads => Or.inl leads⟩, ⟨?_, ?_, fun t leads => ?_⟩, lower⟩,
    sound.ordered⟩
  · have before := sound.opened i
    simp only [Walk.visit, Walk.blocks, getD_set inside, List.map_cons, List.mem_cons] at before ⊢
    by_cases new : i = s
    · simp [new]
    · rwa [if_neg new, or_iff_right new]
  · have before := sound.unmet i
    simp only [Walk.visit, Walk.blocks, getD_set inside, List.map_cons, List.cons_append,
      List.mem_cons] at before ⊢
    by_cases new : i = s
    · simp [new]
    · rwa [if_neg new, or_iff_right new]
  · rintro t next
    exact Option.some.inj next ▸ top.ahead List.mem_cons_self
  · exact fun t later => top.ahead (List.mem_cons_of_mem _ later)
  · rcases top.behind t leads with ahead | header | finished | above
    · rcases List.mem_cons.mp ahead with rfl | later
      · exact Or.inr (Or.inr (Or.inr rfl))
      · exact Or.inl later
    · exact Or.inr (Or.inl header)
    · exact Or.inr (Or.inr (Or.inl finished))
    · cases above

/-- An edge to a closed block is passed over. -/
theorem Sound.pass (sound : g.Sound ⟨⟨b, s :: rest⟩ :: below, visits, headers⟩ closed)
    (graph : g.Closed) (state : visits.getD s .done = .done) :
    g.Sound ⟨⟨b, rest⟩ :: below, visits, headers⟩ closed := by
  have leads : s ∈ g.succs b := sound.stacked.1.ahead List.mem_cons_self
  have low : s < g.size := graph b (lt_size_of_mem_succs leads) s leads
  have finished : s ∈ closed := by
    have notOpen := (sound.opened s).not.mp fun isOpen => nomatch state.symm.trans isOpen
    have met := (sound.unmet s).not.mp fun unmet => nomatch state.symm.trans unmet
    have there : s ∈ _ ++ closed := not_not.mp fun away => met ⟨low, away⟩
    exact (List.mem_append.mp there).resolve_left notOpen
  exact ⟨sound.room, sound.once, sound.opened, sound.unmet, sound.entered, sound.headed,
    sound.circular, sound.stacked.tried (List.Subset.refl _) (Or.inr finished), sound.ordered⟩

end Move

theorem Sound.move (sound : g.Sound w closed) (graph : g.Closed) (moves : g.Moves w w') :
    ∃ closed', g.Sound w' closed' := by
  cases moves with
  | close => exact ⟨_, sound.close⟩
  | back state => exact ⟨_, sound.back state⟩
  | enter state => exact ⟨_, sound.enter state⟩
  | pass state => exact ⟨_, sound.pass graph state⟩

theorem Sound.walkSteps (sound : g.Sound w closed) (graph : g.Closed) (n : Nat) :
    ∃ closed', g.Sound (g.walkSteps n w) closed' := by
  induction n generalizing w closed with
  | zero => exact ⟨closed, sound⟩
  | succ n ih =>
      rw [FlowGraph.walkSteps]
      by_cases busy : w.stack = []
      · rw [walkStep_of_done busy]
        exact ih sound
      · obtain ⟨closed', later⟩ := sound.move graph (moves_walkStep busy)
        exact ih later

/-! ## The headers -/

/-- If the last block of a route leads on, then so does each block of it. -/
theorem Route.leads (route : g.Route i blocks j) (last : ∃ s, s ∈ g.succs j) :
    ∀ x ∈ blocks, ∃ s, s ∈ g.succs x := by
  induction route with
  | here j => exact fun x member => List.mem_singleton.mp member ▸ last
  | step leads _ ih => exact List.forall_mem_cons.mpr ⟨⟨_, leads⟩, ih last⟩

theorem Cycle.leads (cycle : g.Cycle blocks) (member : i ∈ blocks) : ∃ j, j ∈ g.succs i := by
  obtain ⟨first, last, route, back⟩ := cycle
  exact route.leads ⟨first, back⟩ i member

/-- At the end of the walk every block that can be reached has been closed. -/
theorem Sound.mem_closed (sound : g.Sound w closed) (ended : w.stack = [])
    (reached : Relation.ReflTransGen (fun a b => b ∈ g.succs a) g.entry i) : i ∈ closed := by
  have blocks : w.blocks = [] := by rw [Walk.blocks, ended, List.map_nil]
  have entered := sound.entered
  have headed := sound.headed
  rw [blocks, List.nil_append] at entered headed
  induction reached with
  | refl => exact entered
  | tail _ leads ih => exact (sound.ordered.next ih leads).elim (fun header => headed header) id

/-- At the end of the walk every cycle holds a header: all of its blocks have been closed. -/
theorem Sound.header_of_cycle (sound : g.Sound w closed) (ended : w.stack = [])
    (last : g.succs g.exit = [])
    (reached : ∀ i < g.exit, Relation.ReflTransGen (fun a b => b ∈ g.succs a) g.entry i)
    (cycle : g.Cycle blocks) : ∃ h ∈ blocks, h ∈ w.headers := by
  refine sound.ordered.no_cycle (List.nodup_append.mp sound.once).2.1 cycle fun i on => ?_
  obtain ⟨j, leads⟩ := cycle.leads on
  have low : i < g.size := lt_size_of_mem_succs leads
  have other : i ≠ g.exit := by
    rintro rfl
    rw [last] at leads
    cases leads
  have before : i < g.exit := by
    rw [exit] at other ⊢
    omega
  exact sound.mem_closed ended (reached i before)

theorem loopHeaders_eq (inside : g.entry < g.size) {n : Nat} (enough : g.size + g.edgeCount ≤ n)
    (most : n ≤ 2 * g.size + g.edgeCount) : (g.walkSteps n g.opening).stack = [] ∧
      g.loopHeaders = (List.range g.size).filter (g.walkSteps n g.opening).headers.contains := by
  have ended := stack_walkSteps n (Nat.le_trans (Nat.le_of_eq (pending_opening inside)) enough)
  refine ⟨ended, ?_⟩
  obtain ⟨m, total⟩ := Nat.exists_eq_add_of_le most
  have same : g.walkSteps (2 * g.size + g.edgeCount) g.opening = g.walkSteps n g.opening := by
    rw [total, walkSteps_add, walkSteps_of_done ended]
  exact congrArg (fun w : Walk => (List.range g.size).filter w.headers.contains) same

/-- Where every block but the exit can be reached from the entry, the walk comes to its end, and the
blocks met again while they were open are given in ascending order.  Each of them lies on a cycle, and
each cycle holds one of them; so there are none exactly if there is no cycle. -/
theorem loopHeaders_cut_cycles (g : FlowGraph) (inside : g.entry < g.size) (graph : g.Closed)
    (last : g.succs g.exit = [])
    (reached : ∀ i < g.exit, Relation.ReflTransGen (fun a b => b ∈ g.succs a) g.entry i) :
    (∃ n ≤ g.size + g.edgeCount, (g.walkSteps n g.opening).stack = [] ∧
        g.loopHeaders = (List.range g.size).filter (g.walkSteps n g.opening).headers.contains) ∧
      g.loopHeaders.Pairwise (· < ·) ∧
      (∀ h ∈ g.loopHeaders, h < g.size ∧ ∃ blocks, g.Cycle blocks ∧ blocks.Nodup ∧ h ∈ blocks) ∧
      (∀ blocks, g.Cycle blocks → ∃ h ∈ blocks, h ∈ g.loopHeaders) ∧
      (g.loopHeaders = [] ↔ ∀ blocks, ¬g.Cycle blocks) := by
  obtain ⟨ended, eq⟩ := loopHeaders_eq inside (Nat.le_refl _) (by omega)
  obtain ⟨closed, sound⟩ := (sound_opening inside).walkSteps graph (g.size + g.edgeCount)
  have member (h : Nat) : h ∈ g.loopHeaders ↔
      h < g.size ∧ h ∈ (g.walkSteps (g.size + g.edgeCount) g.opening).headers := by
    simp [eq]
  have onCycle : ∀ h ∈ g.loopHeaders,
      h < g.size ∧ ∃ blocks, g.Cycle blocks ∧ blocks.Nodup ∧ h ∈ blocks := fun h header =>
    ((member h).mp header).imp_right (sound.circular h)
  have cut : ∀ blocks, g.Cycle blocks → ∃ h ∈ blocks, h ∈ g.loopHeaders := by
    intro blocks cycle
    obtain ⟨h, on, header⟩ := sound.header_of_cycle ended last reached cycle
    obtain ⟨j, leads⟩ := cycle.leads on
    exact ⟨h, on, (member h).mpr ⟨lt_size_of_mem_succs leads, header⟩⟩
  refine ⟨⟨_, Nat.le_refl _, ended, eq⟩, ?_, onCycle, cut, fun none blocks cycle => ?_, fun none => ?_⟩
  · rw [eq]
    exact List.pairwise_lt_range.filter _
  · obtain ⟨h, -, header⟩ := cut blocks cycle
    rw [none] at header
    cases header
  · refine List.eq_nil_iff_forall_not_mem.mpr fun h header => ?_
    obtain ⟨-, blocks, cycle, -⟩ := onCycle h header
    exact none blocks cycle

/-- A loop that can be entered at both of its blocks, and an exit that cannot be reached. -/
def twoEntries : FlowGraph where
  blocks := [
    ⟨.body, [1], [(1, .taken), (2, .skipped)], none⟩,
    ⟨.label, [2], [(2, .always)], none⟩,
    ⟨.label, [3], [(1, .always)], none⟩,
    ⟨.exit, [], [], none⟩]

/-- The first entry tried is the one header, and it cuts the loop. -/
theorem loopHeaders_cut_cycles_twoEntries :
    twoEntries.entry < twoEntries.size ∧ twoEntries.Closed ∧ twoEntries.succs twoEntries.exit = [] ∧
      (∀ i < twoEntries.exit,
        Relation.ReflTransGen (fun a b => b ∈ twoEntries.succs a) twoEntries.entry i) ∧
      twoEntries.loopHeaders = [1] ∧ twoEntries.Cycle [2, 1] ∧ 1 ∈ [2, 1] ∧
      (∀ blocks, twoEntries.Cycle blocks → 1 ∈ blocks) := by
  have inside : twoEntries.entry < twoEntries.size := by decide
  have graph : twoEntries.Closed := by decide
  have last : twoEntries.succs twoEntries.exit = [] := by decide
  have reached : ∀ i < twoEntries.exit,
      Relation.ReflTransGen (fun a b => b ∈ twoEntries.succs a) twoEntries.entry i := by
    intro i low
    match i, low with
    | 0, _ => exact .refl
    | 1, _ => exact .single (by decide)
    | 2, _ => exact .single (by decide)
  have headers : twoEntries.loopHeaders = [1] := by decide
  obtain ⟨-, -, -, cut, -⟩ := loopHeaders_cut_cycles twoEntries inside graph last reached
  refine ⟨inside, graph, last, reached, headers, ⟨2, 1, .step (by decide) (.here 1), by decide⟩,
    by decide, fun blocks cycle => ?_⟩
  obtain ⟨h, on, header⟩ := cut blocks cycle
  rw [headers] at header
  exact List.mem_singleton.mp header ▸ on

end FlowGraph

end Retarget
