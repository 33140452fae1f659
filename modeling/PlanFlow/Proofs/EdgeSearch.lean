import PlanFlow.Proofs.Walk

/-!
The search edge by edge finds the cycle that the search node by node finds. Side by side, both are on the same path and
have finished the same nodes. Where the walk meets a finished node again it only has to leave it again, and past nodes
that an earlier walk has explored it may go a long way before it is back; the other search does nothing meanwhile.
-/

set_option autoImplicit false

namespace PlanFlow

namespace Dependencies

section

variable (relation : Dependencies)

def pathBound : Nat := (sortOn id (relation.map Prod.fst)).length

-- The search node by node from the middle of it: at every node of the path, innermost first, the edges are left that are
-- not taken.
def resume (untaken : List (Text × Text)) : List Text → List Text → Except (List Text) (List Text)
  | [], finished => .ok finished
  | node :: outer, finished => do
      let finished ←
        (onward untaken node).foldlM (visit relation (relation.pathBound - outer.length) (node :: outer)) finished
      resume untaken outer (node :: finished)

section

variable (untaken : List (Text × Text)) (node : Text) (outer finished : List Text)

theorem resume_spent (spent : onward untaken node = []) :
    relation.resume untaken (node :: outer) finished = relation.resume untaken outer (node :: finished) := by
  rw [resume, spent]
  rfl

theorem resume_congr (others : List (Text × Text)) (path : List Text)
    (same : ∀ node ∈ path, onward untaken node = onward others node) :
    relation.resume untaken path finished = relation.resume others path finished := by
  induction path generalizing finished with
  | nil => rfl
  | cons node outer ih =>
      obtain ⟨own, rest⟩ := List.forall_mem_cons.mp same
      rw [resume, resume, own]
      exact congrArg _ (funext fun next => ih (node :: next) rest)

variable (edge : Text × Text) (taken : untaken.find? (fun edge => edge.1 = node) = some edge) (fresh : node ∉ outer)

include taken fresh

theorem resume_taken : relation.resume untaken (node :: outer) finished =
    visit relation (relation.pathBound - outer.length) (node :: outer) finished edge.2 >>=
      relation.resume (untaken.eraseP fun other => other.1 = node) (node :: outer) := by
  rw [resume, onward_taken untaken node edge taken, List.foldlM_cons, bind_assoc]
  refine congrArg _ (funext fun next => ?_)
  rw [resume]
  refine congrArg _ (funext fun later => ?_)
  refine relation.resume_congr untaken (node :: later) _ outer fun other inside => ?_
  exact (onward_other untaken node other fun same => fresh (same ▸ inside)).symm

variable (fuel : Nat) (room : relation.pathBound - outer.length = fuel + 1)

include room

theorem resume_met (met : edge.2 ∈ node :: outer) :
    relation.resume untaken (node :: outer) finished = .error (closedBy edge.2 (node :: outer)) := by
  rw [relation.resume_taken untaken node outer finished edge taken fresh, room, visit,
    if_pos (List.contains_iff_mem.mpr met)]
  rfl

theorem resume_again (new : edge.2 ∉ node :: outer) (done : edge.2 ∈ finished) :
    relation.resume untaken (node :: outer) finished =
      relation.resume (untaken.eraseP fun other => other.1 = node) (node :: outer) finished := by
  rw [relation.resume_taken untaken node outer finished edge taken fresh, room, visit, if_neg (by simpa using new),
    if_pos (List.contains_iff_mem.mpr done)]
  rfl

theorem resume_deeper (new : edge.2 ∉ node :: outer) (unfinished : edge.2 ∉ finished)
    (whole : onward (untaken.eraseP fun other => other.1 = node) edge.2 = relation.dependents edge.2) :
    relation.resume untaken (node :: outer) finished =
      relation.resume (untaken.eraseP fun other => other.1 = node) (edge.2 :: node :: outer) finished := by
  have less : relation.pathBound - (node :: outer).length = fuel := by
    rw [List.length_cons]
    omega
  rw [relation.resume_taken untaken node outer finished edge taken fresh, room, visit, if_neg (by simpa using new),
    if_neg (by simpa using unfinished), resume, whole, less]
  cases (relation.dependents edge.2).foldlM (visit relation fuel (edge.2 :: node :: outer)) finished <;> rfl

end

end

-- Both searches at one point: the edges that the walk has not taken, the nodes that are finished, the path that both are
-- on, innermost node first, the finished nodes that the walk has met again and has to leave, and its trail.
structure Search where
  untaken : List (Text × Text)
  finished : List Text
  path : List Text
  met : List Text
  trail : Trail

-- A finished node has no edges left, unless an earlier walk has explored it; then this one passes over what it leads to.
-- The trail holds the edges of the path, and in front of them those of detours.
structure Search.Holds (relation : Dependencies) (explored : List Text) (start : Text) (s : Search) : Prop where
  known : ∀ edge ∈ s.untaken, relation.Waits edge.2 edge.1
  inside : ∀ node ∈ s.path, node ∈ relation.map Prod.fst
  distinct : s.path.Nodup
  apart : ∀ node ∈ s.path, node ∉ s.finished
  rooted : ∀ last ∈ s.path.getLast?, last = start
  earlier : ∀ node ∈ explored, node ∈ s.finished
  met : ∀ node ∈ s.met, node ∈ s.finished
  spent : ∀ node ∈ s.finished, node ∈ explored ∨ onward s.untaken node = []
  whole : ∀ node, node ∉ s.finished → node ∉ s.path → onward s.untaken node = relation.dependents node
  seen : ∀ node, node ∈ s.trail.seen ∨ node ∈ explored ↔ node ∈ s.path ∨ node ∈ s.finished
  active : s.trail.active = s.trail.edges.map Prod.snd ++ [start]
  previous : s.trail.previous = s.trail.edges.head?.map Prod.snd
  detours : ∃ detours, s.trail.edges = detours ++ steps s.path ∧ ∀ edge ∈ detours, edge.2 ∈ s.finished

namespace Search

def kept (s : Search) (edge : Text × Text) : Trail :=
  ⟨edge :: steps s.path, edge.2 :: s.path, edge.2 :: s.trail.seen, some edge.2⟩

namespace Holds

variable {relation : Dependencies} {explored : List Text} {start : Text} {s : Search} (holds : s.Holds relation explored start)

include holds

theorem ends (nonempty : s.path ≠ []) : s.path.getLast? = some start := by
  have last := List.getLast?_eq_some_getLast nonempty
  rw [last, holds.rooted _ last]

theorem heads (nonempty : s.path ≠ []) : (steps s.path).map Prod.snd ++ [start] = s.path :=
  steps_heads s.path start (holds.ends nonempty)

theorem room (node : Text) (outer : List Text) (here : s.path = node :: outer) :
    ∃ fuel, relation.pathBound - outer.length = fuel + 1 := by
  have short := (holds.distinct.subperm holds.inside).length_le
  rw [here, List.length_cons, ← (sort_on_perm id (relation.map Prod.fst)).length_eq] at short
  exact ⟨relation.pathBound - outer.length - 1, by rw [pathBound]; omega⟩

theorem up_to_innermost (node : Text) (outer : List Text) (here : s.path = node :: outer) :
    s.trail.upTo node = (steps s.path, s.path) := by
  obtain ⟨detours, edges, finished⟩ := holds.detours
  have nonempty : s.path ≠ [] := by simp [here]
  have previous := holds.previous
  have active := holds.active
  cases detours with
  | nil =>
      rw [List.nil_append] at edges
      rw [edges] at previous active
      have straight : (s.trail.previous.any fun last => last ≠ node) = false := by
        rw [previous, here]
        cases outer <;> simp [steps]
      rw [Trail.upTo, straight, if_neg Bool.false_ne_true, edges, active, holds.heads nonempty]
  | cons first detours =>
      have left : ∀ edge ∈ first :: detours, edge.2 ≠ node := fun edge member same =>
        holds.apart node (by simp [here]) (same ▸ finished edge member)
      obtain ⟨aside, rest⟩ := List.forall_mem_cons.mp left
      have back : (s.trail.previous.any fun last => last ≠ node) = true := by
        rw [previous, edges]
        simpa using aside
      rw [Trail.upTo, back, if_pos rfl, active, edges, here]
      exact cut_detours node outer start (here ▸ holds.ends nonempty) first detours rest

theorem follow_innermost (node : Text) (outer : List Text) (here : s.path = node :: outer) (edge : Text × Text)
    (own : edge.1 = node) (new : edge.2 ∉ explored) (rest : List (Text × Text)) :
    s.trail.follow explored (edge :: rest) =
      if edge.2 ∈ s.path then .error ((edge :: steps s.path).reverse.dropWhile fun other => other.1 ≠ edge.2)
      else (s.kept edge).follow explored rest := by
  simp only [Trail.follow, List.contains_iff_mem, new, if_false, own, holds.up_to_innermost node outer here]
  rfl

theorem leave (node : Text) (others : List Text) (here : s.met = node :: others) :
    ({ s with met := others } : Search).Holds relation explored start :=
  { holds with met := fun other inside => holds.met other (here ▸ List.mem_cons_of_mem node inside) }

theorem finish (node : Text) (outer : List Text) (here : s.path = node :: outer) (spent : onward s.untaken node = []) :
    ({ s with path := outer, finished := node :: s.finished } : Search).Holds relation explored start where
  known := holds.known
  inside := fun other member => holds.inside other (here ▸ List.mem_cons_of_mem node member)
  distinct := (List.nodup_cons.mp (here ▸ holds.distinct)).2
  apart := fun other member done => by
    rcases List.mem_cons.mp done with rfl | done
    · exact (List.nodup_cons.mp (here ▸ holds.distinct)).1 member
    · exact holds.apart other (here ▸ List.mem_cons_of_mem node member) done
  rooted := fun last ends => by
    refine holds.rooted last ?_
    cases outer with
    | nil => cases ends
    | cons previous outer => rwa [here, List.getLast?_cons_cons]
  earlier := fun other member => List.mem_cons_of_mem node (holds.earlier other member)
  met := fun other member => List.mem_cons_of_mem node (holds.met other member)
  spent := List.forall_mem_cons.mpr ⟨.inr spent, holds.spent⟩
  whole := fun other unfinished off => by
    obtain ⟨apart, unfinished⟩ := not_or.mp (mt List.mem_cons.mpr unfinished)
    refine holds.whole other unfinished fun on => ?_
    rw [here] at on
    exact off ((List.mem_cons.mp on).resolve_left apart)
  seen := fun other => by
    rw [holds.seen other, here]
    simp only [List.mem_cons]
    tauto
  active := holds.active
  previous := holds.previous
  detours := by
    obtain ⟨detours, edges, finished⟩ := holds.detours
    have kept : ∀ edge ∈ detours, edge.2 ∈ node :: s.finished := fun edge member =>
      List.mem_cons_of_mem node (finished edge member)
    cases outer with
    | nil => exact ⟨detours, by rw [edges, here]; rfl, kept⟩
    | cons previous outer =>
        refine ⟨detours ++ [(previous, node)], by rw [edges, here, steps]; simp, fun edge member => ?_⟩
        rcases List.mem_append.mp member with inside | last
        · exact kept edge inside
        · rw [List.mem_singleton.mp last]
          exact List.mem_cons_self

theorem keep (edge : Text × Text) (done : edge.2 ∈ s.finished) (nonempty : s.path ≠ []) :
    ({ s with trail := s.kept edge } : Search).Holds relation explored start :=
  { holds with
    seen := fun other => by
      rw [← holds.seen other, kept, List.mem_cons]
      constructor
      · rintro ((rfl | before) | before)
        · exact (holds.seen edge.2).mpr (.inr done)
        · exact .inl before
        · exact .inr before
      · exact Or.imp_left .inr
    active := by rw [kept, List.map_cons, List.cons_append, holds.heads nonempty]
    previous := rfl
    detours := ⟨[edge], rfl, by simpa using done⟩ }

section

variable (node : Text) (edge : Text × Text) (taken : s.untaken.find? (fun edge => edge.1 = node) = some edge)

include taken

theorem waits : relation.Waits edge.2 node := by
  have own := taken_from s.untaken node edge taken
  exact own ▸ holds.known edge (List.mem_of_find?_eq_some taken)

-- An edge to a finished node is taken; the walk has to come back from there.
theorem pass (here : node ∈ s.path ∨ node ∈ explored) (done : edge.2 ∈ s.finished) :
    ({ s with untaken := s.untaken.eraseP fun other => other.1 = node, met := edge.2 :: s.met } : Search).Holds
      relation explored start :=
  { holds with
    known := fun other member => holds.known other (List.mem_of_mem_eraseP member)
    met := List.forall_mem_cons.mpr ⟨done, holds.met⟩
    spent := fun other finished => by
      by_cases same : other = node
      · exact .inl (same ▸ here.resolve_left fun on => holds.apart node on (same ▸ finished))
      · rw [onward_other _ _ _ same]
        exact holds.spent other finished
    whole := fun other unfinished off => by
      have apart : other ≠ node := by
        rintro rfl
        exact here.elim off fun before => unfinished (holds.earlier other before)
      rw [onward_other _ _ _ apart]
      exact holds.whole other unfinished off }

theorem deepen (outer : List Text) (here : s.path = node :: outer) (off : edge.2 ∉ s.path) (unfinished : edge.2 ∉ s.finished) :
    ({ s with
      untaken := s.untaken.eraseP fun other => other.1 = node
      path := edge.2 :: s.path
      trail := s.kept edge } : Search).Holds relation explored start := by
  have on : node ∈ s.path := by simp [here]
  refine {
    known := fun other member => holds.known other (List.mem_of_mem_eraseP member)
    inside := List.forall_mem_cons.mpr ⟨relation.waiting_known _ _ (holds.waits node edge taken), holds.inside⟩
    distinct := List.nodup_cons.mpr ⟨off, holds.distinct⟩
    apart := List.forall_mem_cons.mpr ⟨unfinished, holds.apart⟩
    rooted := fun last ends => holds.rooted last (by rwa [here, List.getLast?_cons_cons, ← here] at ends)
    earlier := holds.earlier
    met := holds.met
    spent := fun other finished => ?spent
    whole := fun other unfinished away => ?whole
    seen := fun other => ?seen
    active := by rw [kept, List.map_cons, List.cons_append, holds.heads (List.ne_nil_of_mem on)]
    previous := rfl
    detours := ⟨[], ?detours, nofun⟩ }
  case spent =>
    rw [onward_other _ _ _ fun same : other = node => holds.apart node on (same ▸ finished)]
    exact holds.spent other finished
  case whole =>
    obtain ⟨_, away⟩ := not_or.mp (mt List.mem_cons.mpr away)
    rw [onward_other _ _ _ fun same : other = node => away (same ▸ on)]
    exact holds.whole other unfinished away
  case seen =>
    have before := holds.seen other
    simp only [kept, List.mem_cons]
    tauto
  case detours =>
    have own := taken_from s.untaken node edge taken
    simp [kept, here, steps, ← own]

variable (outer : List Text) (here : s.path = node :: outer)

include here

theorem search_met (back : edge.2 ∈ s.path) :
    relation.resume s.untaken s.path s.finished = .error (closedBy edge.2 s.path) := by
  obtain ⟨fuel, room⟩ := holds.room node outer here
  have fresh : node ∉ outer := (List.nodup_cons.mp (here ▸ holds.distinct)).1
  rw [here] at back ⊢
  exact relation.resume_met s.untaken node outer s.finished edge taken fresh fuel room back

theorem search_again (done : edge.2 ∈ s.finished) : relation.resume s.untaken s.path s.finished =
    relation.resume (s.untaken.eraseP fun other => other.1 = node) s.path s.finished := by
  obtain ⟨fuel, room⟩ := holds.room node outer here
  have fresh : node ∉ outer := (List.nodup_cons.mp (here ▸ holds.distinct)).1
  have off : edge.2 ∉ s.path := fun back => holds.apart edge.2 back done
  rw [here] at off ⊢
  exact relation.resume_again s.untaken node outer s.finished edge taken fresh fuel room off done

theorem search_deeper (off : edge.2 ∉ s.path) (unfinished : edge.2 ∉ s.finished) :
    relation.resume s.untaken s.path s.finished =
      relation.resume (s.untaken.eraseP fun other => other.1 = node) (edge.2 :: s.path) s.finished := by
  obtain ⟨fuel, room⟩ := holds.room node outer here
  have fresh : node ∉ outer := (List.nodup_cons.mp (here ▸ holds.distinct)).1
  have whole := holds.whole edge.2 unfinished off
  rw [← onward_other s.untaken node edge.2 fun same => off (by simp [here, same])] at whole
  rw [here] at off ⊢
  exact relation.resume_deeper s.untaken node outer s.finished edge taken fresh fuel room off unfinished whole

end

end Holds

end Search

inductive Alike (explored : List Text) : Except (List (Text × Text)) (List Text) → Except (List Text) (List Text) → Prop where
  | closed (edges : List (Text × Text)) : Alike explored (.error edges) (.error (edges.map Prod.fst))
  | ended (seen finished : List Text) (same : ∀ node, node ∈ seen ∨ node ∈ explored ↔ node ∈ finished) :
      Alike explored (.ok seen) (.ok finished)

namespace Alike

theorem appended (explored : List Text) (walked : Except (List (Text × Text)) (List Text))
    (searched : Except (List Text) (List Text)) (alike : Alike explored walked searched) :
    Alike [] (walked.map (· ++ explored)) searched := by
  cases alike with
  | closed edges => exact .closed edges
  | ended seen finished same => exact .ended _ finished fun node => by simpa using same node

theorem continued (walked : Except (List (Text × Text)) (List Text)) (searched : Except (List Text) (List Text))
    (further : List Text → Except (List (Text × Text)) (List Text)) (onwards : List Text → Except (List Text) (List Text))
    (alike : Alike [] walked searched)
    (next : ∀ seen finished, searched = .ok finished → (∀ node, node ∈ seen ↔ node ∈ finished) →
      Alike [] (further seen) (onwards finished)) :
    Alike [] (walked >>= further) (searched >>= onwards) := by
  cases alike with
  | closed edges => exact .closed edges
  | ended seen finished same => exact next seen finished rfl fun node => by simpa using same node

end Alike

section

variable (relation : Dependencies) (explored : List Text) (start : Text) (s : Search) (holds : s.Holds relation explored start)
  (node : Text) (rest : List Text) (edge : Text × Text)
  (taken : s.untaken.find? (fun edge => edge.1 = node) = some edge) (more : List (Text × Text))

structure Search.GoesOn (next : Search) : Prop where
  holds : next.Holds relation explored start
  untaken : next.untaken = s.untaken.eraseP fun other => other.1 = node
  stack : next.met ++ next.path = edge.2 :: node :: rest
  walked : s.trail.follow explored (edge :: more) = next.trail.follow explored more
  searched : relation.resume s.untaken s.path s.finished = relation.resume next.untaken next.path next.finished

include holds taken

-- From the innermost node of the path an edge closes a cycle, leads back to a finished node or goes deeper.
theorem step_on_path (away : s.met = []) (here : s.path = node :: rest) :
    Alike explored (s.trail.follow explored (edge :: more)) (relation.resume s.untaken s.path s.finished) ∨
      ∃ next, s.GoesOn relation explored start node rest edge more next := by
  have on : node ∈ s.path := by simp [here]
  have own := taken_from s.untaken node edge taken
  by_cases passed : edge.2 ∈ explored
  · have done := holds.earlier edge.2 passed
    refine .inr ⟨_, holds.pass node edge taken (.inl on) done, rfl, by simp [away, here], ?_,
      holds.search_again node edge taken rest here done⟩
    rw [Trail.follow, if_pos (List.contains_iff_mem.mpr passed)]
  have walked := holds.follow_innermost node rest here edge own passed more
  by_cases back : edge.2 ∈ s.path
  · have closing := steps_closed node edge.2 rest (here ▸ holds.distinct) (here ▸ back)
    rw [← here, ← own] at closing
    rw [walked, if_pos back, holds.search_met node edge taken rest here back, ← closing]
    exact .inl (.closed _)
  rw [if_neg back] at walked
  by_cases done : edge.2 ∈ s.finished
  · have kept := (holds.pass node edge taken (.inl on) done).keep edge done (List.ne_nil_of_mem on)
    exact .inr ⟨_, kept, rfl, by simp [away, here], walked, holds.search_again node edge taken rest here done⟩
  · have deeper := holds.deepen node edge taken rest here back done
    exact .inr ⟨_, deeper, rfl, by simp [away, here], walked, holds.search_deeper node edge taken rest here back done⟩

variable (closed : ∀ node ∈ explored, ∀ dependent, relation.Waits dependent node → dependent ∈ explored)

include closed

-- A finished node that the walk has met again has edges left only if an earlier walk has explored it, so they are passed over.
theorem step_met (others : List Text) (met : s.met = node :: others) (behind : rest = others ++ s.path) :
    ∃ next, s.GoesOn relation explored start node rest edge more next := by
  have finished : node ∈ s.finished := holds.met node (by simp [met])
  have before : node ∈ explored := (holds.spent node finished).resolve_right (by simp [onward_taken _ _ edge taken])
  have passed : edge.2 ∈ explored := closed node before edge.2 (holds.waits node edge taken)
  refine ⟨_, holds.pass node edge taken (.inr before) (holds.earlier _ passed), rfl, by simp [met, behind], ?_, ?_⟩
  · rw [Trail.follow, if_pos (List.contains_iff_mem.mpr passed)]
  · exact relation.resume_congr s.untaken s.finished _ s.path fun other member =>
      (onward_other s.untaken node other fun same => holds.apart other member (same ▸ finished)).symm

theorem step_alike (at_stack : s.met ++ s.path = node :: rest) :
    Alike explored (s.trail.follow explored (edge :: more)) (relation.resume s.untaken s.path s.finished) ∨
      ∃ next, s.GoesOn relation explored start node rest edge more next := by
  rcases List.cons_eq_append_iff.mp at_stack.symm with ⟨away, here⟩ | ⟨others, met, behind⟩
  · exact step_on_path relation explored start s holds node rest edge taken more away here
  · exact .inr (step_met relation explored start s holds node rest edge taken more closed others met behind)

end

-- The walk and the search go on alike from any point at which they agree. The walk has edges or nodes fewer before it at
-- every step: it leaves a node that has no edges left, or takes one of them.
theorem follow_alike (relation : Dependencies) (explored : List Text) (start : Text)
    (closed : ∀ node ∈ explored, ∀ dependent, relation.Waits dependent node → dependent ∈ explored)
    (untaken : List (Text × Text)) (stack : List Text) (s : Search) (holds : s.Holds relation explored start)
    (left : s.untaken = untaken) (at_stack : s.met ++ s.path = stack) :
    Alike explored (s.trail.follow explored (walk untaken stack)) (relation.resume untaken s.path s.finished) := by
  induction untaken, stack using walk.induct generalizing s with
  | case1 untaken =>
      obtain ⟨_, ended⟩ := List.append_eq_nil_iff.mp at_stack
      rw [walk, ended]
      refine .ended _ _ fun node => ?_
      have seen := holds.seen node
      simpa [ended] using seen
  | case2 untaken node rest spent ih =>
      rw [walk_spent untaken node rest spent]
      rcases List.cons_eq_append_iff.mp at_stack.symm with ⟨away, here⟩ | ⟨others, met, behind⟩
      · have none_left := onward_spent untaken node spent
        rw [here, relation.resume_spent untaken node rest s.finished none_left]
        exact ih { s with path := rest, finished := node :: s.finished } (holds.finish node rest here (left ▸ none_left)) left
          (by simp [away])
      · exact ih { s with met := others } (holds.leave node others met) left behind.symm
  | case3 untaken node rest edge taken _ ih =>
      subst left
      rw [walk_taken s.untaken node rest edge taken]
      rcases step_alike relation explored start s holds node rest edge taken _ closed at_stack with ended | ⟨next, on⟩
      · exact ended
      · rw [on.walked, on.searched, on.untaken]
        exact ih next on.holds on.untaken on.stack

theorem mem_edges (relation : Dependencies) (edge : Text × Text) :
    edge ∈ relation.edges ↔ relation.Waits edge.2 edge.1 := by
  constructor
  · intro member
    obtain ⟨entry, given, listed⟩ := List.mem_flatMap.mp member
    obtain ⟨dependency, waits, rfl⟩ := List.mem_map.mp listed
    exact ⟨entry, given, rfl, (mem_unique dependency _).mp waits⟩
  · rintro ⟨entry, given, named, waits⟩
    refine List.mem_flatMap.mpr ⟨entry, given, List.mem_map.mpr ⟨edge.1, (mem_unique edge.1 _).mpr waits, ?_⟩⟩
    rw [named]

theorem settled_closed (relation : Dependencies) (finished : List Text) (settled : relation.Settled finished) :
    ∀ node ∈ finished, ∀ dependent, relation.Waits dependent node → dependent ∈ finished := by
  induction settled with
  | nil => exact nofun
  | cons node finished behind rest ih =>
      refine List.forall_mem_cons.mpr ⟨fun dependent waits => ?_, fun other member dependent waits => ?_⟩
      · exact List.mem_cons_of_mem node (behind dependent ((relation.mem_dependents node dependent).mpr waits))
      · exact List.mem_cons_of_mem node (ih other member dependent waits)

section

variable (relation : Dependencies) (explored finished : List Text) (same : ∀ node, node ∈ explored ↔ node ∈ finished)
  (settled : relation.Settled finished)

include same

theorem begin_holds (start : Text) (known : start ∈ relation.map Prod.fst) (new : start ∉ finished) :
    (⟨relation.edges, finished, [start], [], .start start⟩ : Search).Holds relation explored start where
  known := fun edge member => (relation.mem_edges edge).mp member
  inside := by simpa using known
  distinct := List.nodup_singleton start
  apart := by simpa using new
  rooted := fun last ends => (Option.some.inj ends).symm
  earlier := fun node member => (same node).mp member
  met := nofun
  spent := fun node member => .inl ((same node).mpr member)
  whole := fun node _ _ => onward_edges relation node
  seen := fun node => by simp [Trail.start, same]
  active := rfl
  previous := rfl
  detours := ⟨[], rfl, nofun⟩

include settled

theorem explore_alike (start : Text) (known : start ∈ relation.map Prod.fst) :
    Alike [] (relation.explore explored start)
      (visit relation (relation.pathBound + 1) [] finished start) := by
  by_cases done : start ∈ finished
  · rw [explore, visit, if_pos (List.contains_iff_mem.mpr ((same start).mpr done)), if_neg (by simp),
      if_pos (List.contains_iff_mem.mpr done)]
    exact .ended explored finished fun node => by simpa using same node
  · have closed : ∀ node ∈ explored, ∀ dependent, relation.Waits dependent node → dependent ∈ explored :=
      fun node member dependent waits =>
        (same dependent).mpr (relation.settled_closed finished settled node ((same node).mp member) dependent waits)
    have alike := follow_alike relation explored start closed relation.edges [start] _
      (relation.begin_holds explored finished same start known done) rfl rfl
    have whole : relation.resume relation.edges [start] finished =
        visit relation (relation.pathBound + 1) [] finished start := by
      rw [resume, onward_edges, visit, if_neg (by simp), if_neg (by simpa using done), List.length_nil, Nat.sub_zero]
      cases (relation.dependents start).foldlM (visit relation relation.pathBound [start]) finished <;> rfl
    rw [explore, if_neg fun met => done ((same start).mp (List.contains_iff_mem.mp met)), ← whole]
    exact Alike.appended explored _ _ alike

theorem searches_alike (starts : List Text) (known : ∀ start ∈ starts, start ∈ relation.map Prod.fst) :
    Alike [] (starts.foldlM relation.explore explored)
      (starts.foldlM (visit relation (relation.pathBound + 1) []) finished) := by
  induction starts generalizing explored finished with
  | nil => exact .ended explored finished fun node => by simpa using same node
  | cons head tail ih =>
      obtain ⟨inside, rest⟩ := List.forall_mem_cons.mp known
      have first := relation.explore_alike explored finished same settled head inside
      rw [List.foldlM_cons, List.foldlM_cons]
      refine Alike.continued _ _ _ _ first fun seen next searched same => ih seen next same ?_ rest
      have inside := (mem_sort_on id head _).mpr inside
      have closed (node dependent : Text) (waits : relation.Waits dependent node) :
          dependent ∈ sortOn id (relation.map Prod.fst) :=
        (mem_sort_on id dependent _).mpr (relation.waiting_known dependent node waits)
      exact (relation.visit_finishes _ closed _ [] finished head next (by simpa using inside) List.nodup_nil
        (by simp [pathBound]) settled searched).settled

end

theorem edge_cycle_eq (relation : Dependencies) : relation.edgeCycle? = relation.findCycle? := by
  have alike := relation.searches_alike [] [] (fun _ => Iff.rfl) .nil (sortOn id (relation.map Prod.fst))
    fun start member => (mem_sort_on id start _).mp member
  rw [pathBound] at alike
  rw [edgeCycle?, findCycle?]
  generalize (sortOn id (relation.map Prod.fst)).foldlM relation.explore [] = walked at alike ⊢
  generalize (sortOn id (relation.map Prod.fst)).foldlM
    (visit relation ((sortOn id (relation.map Prod.fst)).length + 1) []) [] = searched at alike ⊢
  cases alike <;> rfl

end Dependencies

end PlanFlow
