import PlanFlow.Proofs.Acyclic
import PlanFlow.Proofs.Checks
import PlanFlow.Proofs.Compilation
import PlanFlow.Proofs.Written

/-!
Exactly which drafts are built: those in which everything that is named is there, all conditions have a canonical
text, and no node waits for itself. Any other draft is rejected with an error of the builder, unless a numeral in it is
too long or a condition in it cannot be written.
-/

set_option autoImplicit false

namespace PlanFlow

namespace Edge

theorem sort_key_eq_ok (e : Edge) (key : List Text) :
    e.sortKey = .ok key ↔ ∃ condition, e.conditionText = .ok condition ∧ [e.source, e.target, condition] = key :=
  map_eq_ok _ _ _

theorem with_keys_eq_ok (edges : List Edge) (keyed : List (List Text × Edge)) :
    withKeys edges = .ok keyed ↔ keyed.map Prod.snd = edges ∧ ∀ entry ∈ keyed, entry.2.sortKey = .ok entry.1 := by
  have own (e : Edge) (entry : List Text × Edge) :
      e.sortKey.map (fun key => (key, e)) = .ok entry ↔ e = entry.2 ∧ entry.2.sortKey = .ok entry.1 := by
    rw [map_eq_ok]
    constructor
    · rintro ⟨key, keyed, rfl⟩
      exact ⟨rfl, keyed⟩
    · rintro ⟨rfl, keyed⟩
      exact ⟨entry.1, keyed, rfl⟩
  rw [with_keys_eq, map_m_eq_ok]
  simp only [own]
  constructor
  · intro each
    have same := map_matched _ id Prod.snd edges keyed each fun _ _ both => both.1
    rw [List.map_id] at same
    refine ⟨same.symm, fun entry member => ?_⟩
    obtain ⟨_, _, _, key⟩ := exists_matching _ edges keyed each entry member
    exact key
  · rintro ⟨rfl, keys⟩
    rw [List.forall₂_map_left_iff, List.forall₂_same]
    exact fun entry member => ⟨rfl, keys entry member⟩

theorem with_keys_error (edges : List Edge) (failure : Failure) (failed : withKeys edges = .error failure) :
    ∃ e ∈ edges, e.conditionText = .error failure := by
  rw [with_keys_eq] at failed
  obtain ⟨e, member, stopped⟩ := map_m_error _ edges failure failed
  exact ⟨e, member, (map_eq_error _ _ _).mp ((map_eq_error _ _ _).mp stopped)⟩

theorem canonical_order_eq_ok (edges ordered : List Edge) :
    canonicalOrder edges = .ok ordered ↔
      ∃ keyed, withKeys edges = .ok keyed ∧ (uniqueOn Prod.fst keyed).map Prod.snd = ordered :=
  map_eq_ok _ _ _

theorem canonical_order_error (edges : List Edge) (failure : Failure) (failed : canonicalOrder edges = .error failure) :
    ∃ e ∈ edges, e.conditionText = .error failure := by
  cases keyed : withKeys edges with
  | ok entries => simp [canonicalOrder, keyed, Except.map] at failed
  | error other =>
      obtain rfl : other = failure := by simpa [canonicalOrder, keyed, Except.map] using failed
      exact with_keys_error edges other keyed

theorem ordered_members (edges ordered : List Edge) (inOrder : canonicalOrder edges = .ok ordered) :
    (∀ e ∈ ordered, e ∈ edges) ∧ ∀ e ∈ edges, ∃ kept ∈ ordered, ∃ key, kept.sortKey = .ok key ∧ e.sortKey = .ok key := by
  obtain ⟨keyed, withKeys, rfl⟩ := (canonical_order_eq_ok edges ordered).mp inOrder
  obtain ⟨rfl, keys⟩ := (with_keys_eq_ok edges keyed).mp withKeys
  constructor
  · intro e member
    obtain ⟨entry, chosen, rfl⟩ := List.mem_map.mp member
    exact List.mem_map.mpr ⟨entry, mem_of_mem_unique _ _ _ chosen, rfl⟩
  · intro e member
    obtain ⟨entry, given, rfl⟩ := List.mem_map.mp member
    obtain ⟨kept, chosen, same⟩ := mem_unique_of_key Prod.fst entry keyed given
    have own := keys kept (mem_of_mem_unique _ _ _ chosen)
    exact ⟨kept.2, List.mem_map.mpr ⟨kept, chosen, rfl⟩, entry.1, same ▸ own, keys entry given⟩

theorem same_ends (e other : Edge) (key : List Text) (first : e.sortKey = .ok key) (second : other.sortKey = .ok key) :
    e.source = other.source ∧ e.target = other.target := by
  obtain ⟨_, _, rfl⟩ := (e.sort_key_eq_ok key).mp first
  obtain ⟨_, _, same⟩ := (other.sort_key_eq_ok _).mp second
  obtain ⟨source, target, _⟩ : other.source = e.source ∧ other.target = e.target ∧ _ := by simpa using same
  exact ⟨source.symm, target.symm⟩

-- Edges are told apart by more than their ends, so every pair of ends is kept.
theorem ordered_ends (edges ordered : List Edge) (inOrder : canonicalOrder edges = .ok ordered) (source target : Text) :
    (∃ e ∈ ordered, e.target = target ∧ e.source = source) ↔ ∃ e ∈ edges, e.target = target ∧ e.source = source := by
  obtain ⟨given, kept⟩ := ordered_members edges ordered inOrder
  constructor
  · rintro ⟨e, member, ends⟩
    exact ⟨e, given e member, ends⟩
  · rintro ⟨e, member, rfl, rfl⟩
    obtain ⟨other, chosen, key, first, second⟩ := kept e member
    obtain ⟨source, target⟩ := same_ends other e key first second
    exact ⟨other, chosen, target, source⟩

theorem ordered_iff (edges : List Edge) :
    (∃ ordered, canonicalOrder edges = .ok ordered) ↔ ∀ e ∈ edges, ∃ text, e.conditionText = .ok text := by
  constructor
  · rintro ⟨ordered, inOrder⟩ e member
    obtain ⟨_, _, key, _, own⟩ := (ordered_members edges ordered inOrder).2 e member
    obtain ⟨text, written, _⟩ := (e.sort_key_eq_ok key).mp own
    exact ⟨text, written⟩
  · intro clear
    cases outcome : canonicalOrder edges with
    | ok ordered => exact ⟨ordered, rfl⟩
    | error failure =>
        obtain ⟨e, member, stopped⟩ := canonical_order_error edges failure outcome
        obtain ⟨text, written⟩ := clear e member
        rw [stopped] at written
        cases written

def Plain (e : Edge) : Prop :=
  ∀ c, e.condition = some c → c.value.Orderly ∧ c.value.depth ≤ Freeform.depthLimit + 1 ∧ c.value.printable = true

def Blocked (e : Edge) (obstacle : Freeform.Obstacle) : Prop :=
  ∃ c, e.condition = some c ∧ (Freeform.field c.value).obstacle? = some obstacle

def Unprintable (e : Edge) : Prop := ∃ c, e.condition = some c ∧ c.value.printable = false

theorem plain_printable (e : Edge) (plain : e.Plain) : ¬ e.Unprintable := by
  rintro ⟨c, given, long⟩
  rw [(plain c given).2.2] at long
  cases long

theorem plain_not_blocked (e : Edge) (obstacle : Freeform.Obstacle) (plain : e.Plain) : ¬ e.Blocked obstacle := by
  rintro ⟨c, given, blocked⟩
  obtain ⟨orderly, shallow, _⟩ := plain c given
  have clear := (Freeform.obstacle_field_eq_none c.value).mpr ⟨Freeform.parts_orderly c.value orderly, shallow⟩
  rw [clear] at blocked
  cases blocked

theorem condition_wholes (c : Condition) (nulls : Nulls) (n : Int) (held : n ∈ (c.toJson nulls).wholes) :
    n ∈ c.value.wholes := by
  obtain ⟨entry, member, inner⟩ := (Json.mem_wholes_obj n _).mp held
  have given : entry ∈ [(("source" : Text), Json.str c.source.name), ("op", .str c.op.name), ("path", .str c.path),
      ("value", (Freeform.field c.value).toJson)] := by
    cases nulls with
    | kept => exact member
    | dropped => exact (List.mem_filter.mp member).1
  simp only [List.mem_cons, List.not_mem_nil, or_false] at given
  rcases given with rfl | rfl | rfl | rfl
  · cases inner
  · cases inner
  · cases inner
  · exact Freeform.field_wholes c.value n inner

theorem condition_error (e : Edge) (failure : Failure) (failed : e.conditionText = .error failure) :
    failure.OfBuild ∨ (∃ obstacle, e.Blocked obstacle ∧ failure = .unwritable obstacle) ∨
      e.Unprintable ∧ failure = .tooManyDigits none := by
  cases given : e.condition with
  | none => simp [conditionText, given] at failed
  | some c =>
      have form : c.write .dropped = Outcome.written [.field c.value] (c.toJson .dropped) := rfl
      cases blocked : (Freeform.field c.value).obstacle? with
      | some obstacle =>
          simp [conditionText, given, form, Outcome.written, Freeform.firstObstacle?, blocked, bind, Except.bind] at failed
          exact Or.inr (Or.inl ⟨obstacle, ⟨c, given, blocked⟩, failed.symm⟩)
      | none =>
          have presentable : Presentable c.freeform [] := ⟨by simpa [Condition.freeform] using blocked, List.forall_mem_nil _⟩
          simp only [conditionText, given, form, Outcome.written, Freeform.firstObstacle?, List.findSome?_cons, blocked,
            List.findSome?_nil, ok_bind] at failed
          have orderly := condition_orderly .dropped c presentable
          rcases Json.Canonical.of_canonical_ordered _ orderly failure failed with ⟨report, rfl⟩ | ⟨same, n, held, long⟩
          · exact Or.inl ⟨_, rfl, trivial⟩
          · refine Or.inr (Or.inr ⟨⟨c, given, ?_⟩, same⟩)
            exact List.all_eq_false.mpr ⟨n, condition_wholes c .dropped n held, by simp [long]⟩

end Edge

namespace Draft

def Needs (d : Draft) (node dependency : Text) : Prop :=
  (∃ n ∈ d.nodes, n.id = node ∧ dependency ∈ n.dependsOn.getD []) ∨ ∃ e ∈ d.edges, e.target = node ∧ e.source = dependency

structure Sound (d : Draft) : Prop where
  nonempty : d.nodes ≠ []
  answered : d.outputs ≠ []
  distinct : (d.nodes.map Node.id).Nodup
  conditions : ∀ e ∈ d.edges, ∃ text, e.conditionText = .ok text
  dependencies : ∀ node ∈ d.nodes, ∀ dependency ∈ node.dependsOn.getD [],
    dependency ∈ d.nodes.map Node.id ∧ dependency ≠ node.id
  edges : ∀ e ∈ d.edges, e.target ∈ d.nodes.map Node.id ∧ e.source ∈ d.nodes.map Node.id ∧ e.source ≠ e.target
  outputs : ∀ output ∈ d.outputs, output.source ∈ d.nodes.map Node.id
  nodes : ∀ node ∈ d.nodes, node.Sound (d.nodes.map Node.id)
  acyclic : ∀ node, ¬ Relation.TransGen d.Needs node node

section

variable (d : Draft)

theorem check_dependencies_eq_ok (ids : List Text) (node : Node) : checkDependencies ids node = .ok () ↔
    ∀ dependency ∈ node.dependsOn.getD [], dependency ∈ ids ∧ dependency ≠ node.id := by
  simp only [checkDependencies, for_m_eq_ok, check_dependency_eq_ok]

theorem mem_dependencies_of (edges : List Edge) (node : Node) (id : Text) : id ∈ dependenciesOf edges node ↔
    id ∈ node.dependsOn.getD [] ∨ ∃ e ∈ edges, e.target = node.id ∧ e.source = id := by
  simp [dependenciesOf, mem_canonical_dependencies, and_assoc]

theorem waits_iff_needs (ordered : List Edge) (inOrder : Edge.canonicalOrder d.edges = .ok ordered)
    (known : ∀ e ∈ d.edges, e.target ∈ d.nodes.map Node.id) :
    (Draft.dependencies d.nodes ordered).Waits = d.Needs := by
  funext node dependency
  rw [eq_iff_iff, Needs, ← Edge.ordered_ends d.edges ordered inOrder]
  constructor
  · rintro ⟨entry, member, rfl, waits⟩
    obtain ⟨n, inside, rfl⟩ := List.mem_map.mp member
    exact ((mem_dependencies_of ordered n dependency).mp waits).imp_left fun own => ⟨n, inside, rfl, own⟩
  · rintro (⟨n, inside, rfl, own⟩ | ⟨e, member, rfl, rfl⟩)
    · exact ⟨_, List.mem_map.mpr ⟨n, inside, rfl⟩, rfl, (mem_dependencies_of ordered n dependency).mpr (Or.inl own)⟩
    · obtain ⟨given, _⟩ := Edge.ordered_members d.edges ordered inOrder
      obtain ⟨n, inside, named⟩ := List.mem_map.mp (known e (given e member))
      exact ⟨_, List.mem_map.mpr ⟨n, inside, rfl⟩, named,
        (mem_dependencies_of ordered n e.source).mpr (Or.inr ⟨e, member, named.symm, rfl⟩)⟩

variable (short : ∀ node ∈ d.nodes, node.Short)

include short

theorem sound_of_buildable (ordered : List Edge) (bound : Option Int) (fits : d.Buildable ordered bound) : d.Sound := by
  obtain ⟨given, kept⟩ := Edge.ordered_members d.edges ordered fits.inOrder
  have edges : ∀ e ∈ d.edges, e.target ∈ d.nodes.map Node.id ∧ e.source ∈ d.nodes.map Node.id ∧ e.source ≠ e.target := by
    intro e member
    obtain ⟨other, chosen, key, first, second⟩ := kept e member
    obtain ⟨source, target⟩ := Edge.same_ends other e key first second
    rw [← source, ← target]
    exact (check_edge_eq_ok _ other).mp (fits.edges other chosen)
  exact {
    nonempty := fits.nonempty
    answered := fits.answered
    distinct := fits.distinct
    conditions := (Edge.ordered_iff d.edges).mp ⟨ordered, fits.inOrder⟩
    dependencies := fun node member => (check_dependencies_eq_ok _ node).mp (fits.dependencies node member)
    edges := edges
    outputs := fun output member => (check_output_eq_ok _ output).mp (fits.outputs output member)
    nodes := fun node member => (check_node_eq_ok _ node (short node member)).mp (fits.nodes node member)
    acyclic := by
      rw [← d.waits_iff_needs ordered fits.inOrder fun e member => (edges e member).1]
      exact (Dependencies.find_cycle_eq_none _).mp fits.acyclic }

theorem buildable_of_sound (bound : Option Int) (parallel : checkParallelism d.maxParallelism = .valid bound)
    (sound : d.Sound) : ∃ ordered, d.Buildable ordered bound := by
  obtain ⟨ordered, inOrder⟩ := (Edge.ordered_iff d.edges).mpr sound.conditions
  obtain ⟨given, _⟩ := Edge.ordered_members d.edges ordered inOrder
  exact ⟨ordered, {
    nonempty := sound.nonempty
    distinct := sound.distinct
    inOrder := inOrder
    dependencies := fun node member => (check_dependencies_eq_ok _ node).mpr (sound.dependencies node member)
    edges := fun e member => (check_edge_eq_ok _ e).mpr (sound.edges e (given e member))
    answered := sound.answered
    outputs := fun output member => (check_output_eq_ok _ output).mpr (sound.outputs output member)
    nodes := fun node member => (check_node_eq_ok _ node (short node member)).mpr (sound.nodes node member)
    acyclic := by
      rw [Dependencies.find_cycle_eq_none, d.waits_iff_needs ordered inOrder fun e member => (sound.edges e member).1]
      exact sound.acyclic
    parallel := parallel }⟩

end

section

variable (d : Draft)

-- What building a draft can end with, other than a specification.
inductive Stops : Failure → Prop where
  | rejected (failure : Failure) (kind : failure.OfBuild) : Stops failure
  | numeral (node : Node) (member : node ∈ d.nodes) (digits : Text) (long : node.Overlong digits) :
      Stops (.tooManyDigits (some digits.length))
  | condition (e : Edge) (member : e ∈ d.edges) (obstacle : Freeform.Obstacle) (blocked : e.Blocked obstacle) :
      Stops (.unwritable obstacle)
  | number (e : Edge) (member : e ∈ d.edges) (long : e.Unprintable) : Stops (.tooManyDigits none)

theorem build_stops (bound : Option Int) (parallel : checkParallelism d.maxParallelism = .valid bound) (failure : Failure)
    (failed : d.build = .error failure) : d.Stops failure := by
  have stopped : d.buildCounted = .error failure := by
    cases counted : d.buildCounted with
    | ok pair => simp [build, counted, Except.map] at failed
    | error other => simpa [build, counted, Except.map] using failed
  rw [buildCounted] at stopped
  rcases (guard_eq_error _ _ _ _ _).mp stopped with ⟨_, rfl⟩ | ⟨_, failed⟩
  · exact .rejected _ ⟨_, rfl, trivial⟩
  rcases (bind_eq_error _ _ _).mp failed with repeated | ⟨ids, _, failed⟩
  · exact .rejected _ (check_distinct_ids_error [] d.nodes failure repeated)
  rcases (bind_eq_error _ _ _).mp failed with unordered | ⟨ordered, inOrder, failed⟩
  · obtain ⟨e, member, unwritten⟩ := Edge.canonical_order_error d.edges failure unordered
    rcases e.condition_error failure unwritten with kind | ⟨obstacle, blocked, rfl⟩ | ⟨long, rfl⟩
    · exact .rejected _ kind
    · exact .condition e member obstacle blocked
    · exact .number e member long
  rcases (bind_eq_error _ _ _).mp failed with waits | ⟨_, _, failed⟩
  · obtain ⟨node, _, refused⟩ := for_m_error _ _ _ waits
    obtain ⟨dependency, _, unknown⟩ := for_m_error _ _ _ refused
    exact .rejected _ (check_dependency_error ids node.id dependency failure unknown)
  rcases (bind_eq_error _ _ _).mp failed with edges | ⟨_, _, failed⟩
  · obtain ⟨e, _, refused⟩ := for_m_error _ _ _ edges
    exact .rejected _ (check_edge_error ids e failure refused)
  rcases (guard_eq_error _ _ _ _ _).mp failed with ⟨_, rfl⟩ | ⟨_, failed⟩
  · exact .rejected _ ⟨_, rfl, trivial⟩
  rcases (bind_eq_error _ _ _).mp failed with outputs | ⟨_, _, failed⟩
  · obtain ⟨output, _, refused⟩ := for_m_error _ _ _ outputs
    exact .rejected _ (check_output_error ids output failure refused)
  rcases (bind_eq_error _ _ _).mp failed with nodes | ⟨_, _, failed⟩
  · obtain ⟨node, member, refused⟩ := for_m_error _ _ _ nodes
    rcases check_node_error ids node failure refused with kind | ⟨digits, long, rfl⟩
    · exact .rejected _ kind
    · exact .numeral node member digits long
  rcases (bind_eq_error _ _ _).mp failed with cyclic | ⟨_, _, failed⟩
  · exact .rejected _ (check_acyclic_error _ failure cyclic)
  rw [(of_checked_eq_ok _ _).mpr parallel] at failed
  cases failed

theorem build_error (short : ∀ node ∈ d.nodes, node.Short) (bound : Option Int)
    (parallel : checkParallelism d.maxParallelism = .valid bound) (plain : ∀ e ∈ d.edges, e.Plain) (failure : Failure)
    (failed : d.build = .error failure) : failure.OfBuild := by
  cases d.build_stops bound parallel failure failed with
  | rejected _ kind => exact kind
  | numeral node member digits long => exact absurd long (node.short_not_overlong digits (short node member))
  | condition e member obstacle blocked => exact absurd blocked (e.plain_not_blocked obstacle (plain e member))
  | number e member long => exact absurd long (e.plain_printable (plain e member))

end

end Draft

theorem build_outcome (d : Draft) (bound : Option Int) (given : d.maxParallelism = Json.ofInt? bound)
    (bounded : ∀ n, bound = some n → 1 ≤ n ∧ n ≤ Schema.integerLimit) (short : ∀ node ∈ d.nodes, node.Short) :
    ((∃ spec, d.build = .ok spec) ↔ d.Sound) ∧
      ((∀ e ∈ d.edges, e.Plain) → ∀ failure, d.build = .error failure → failure.OfBuild) := by
  have parallel : Draft.checkParallelism d.maxParallelism = .valid bound := by
    rw [given, Plan.check_bound_eq_valid bound bound fun n same => (bounded n same).1]
    exact ⟨rfl, fun n same => (bounded n same).2⟩
  refine ⟨⟨?_, fun sound => ?_⟩, fun plain => d.build_error short bound parallel plain⟩
  · rintro ⟨spec, built⟩
    obtain ⟨ordered, other, fits, _⟩ := (d.build_eq_ok spec).mp built
    exact d.sound_of_buildable short ordered other fits
  · obtain ⟨ordered, fits⟩ := d.buildable_of_sound short bound parallel sound
    exact ⟨_, (d.build_eq_ok _).mpr ⟨ordered, bound, fits, rfl⟩⟩

namespace Sample

def pair (edges : List Edge) : Draft :=
  ⟨none, none, .null, [⟨"first", none, .joinAll⟩, ⟨"second", none, .joinAll⟩], edges, [⟨"result", "second", none⟩]⟩

theorem pair_short (edges : List Edge) : ∀ node ∈ (pair edges).nodes, node.Short := by
  intro node member kind request does
  have joins : node.action = .joinAll := by
    rcases List.mem_cons.mp member with rfl | rest
    · rfl
    · rw [List.mem_singleton.mp rest]
  rw [joins] at does
  cases does

def loop : Draft := pair [⟨"first", "second", none⟩, ⟨"second", "first", some ⟨.nodeOutput, .equals, "$.answer", .bool true⟩⟩]

theorem loop_plain : ∀ e ∈ loop.edges, e.Plain := by
  intro e member c given
  rcases List.mem_cons.mp member with rfl | rest
  · cases given
  · rw [List.mem_singleton.mp rest] at given
    obtain rfl := Option.some.inj given
    exact ⟨trivial, Nat.zero_le _, rfl⟩

theorem loop_needs : Relation.TransGen loop.Needs ("first" : Text) ("first" : Text) := by
  have back : loop.Needs ("first" : Text) ("second" : Text) := Or.inr ⟨_, List.mem_cons_of_mem _ List.mem_cons_self, rfl, rfl⟩
  have forth : loop.Needs ("second" : Text) ("first" : Text) := Or.inr ⟨_, List.mem_cons_self, rfl, rfl⟩
  exact .tail (.single back) forth

def nested : Nat → Json
  | 0 => .null
  | n + 1 => .arr [nested n]

theorem nested_orderly (n : Nat) : (nested n).Orderly := by
  induction n with
  | zero => trivial
  | succ n ih => exact ⟨ih, trivial⟩

theorem nested_obstacle (n room : Nat) (deep : room < n) : Freeform.obstacleIn? room (nested n) = some .depth := by
  induction n generalizing room with
  | zero => cases deep
  | succ n ih =>
      cases room with
      | zero => rfl
      | succ room => simp [nested, Freeform.obstacleIn?, Freeform.obstacleInItems?, ih room (by omega)]

def deep : Draft :=
  pair [⟨"first", "second", some ⟨.nodeOutput, .equals, "$.answer", nested (Freeform.depthLimit + 2)⟩⟩]

theorem deep_obstacle : (Freeform.field (nested (Freeform.depthLimit + 2))).obstacle? = some .depth := by
  have whole := nested_obstacle (Freeform.depthLimit + 2) Freeform.depthLimit (by omega)
  have part := nested_obstacle (Freeform.depthLimit + 1) Freeform.depthLimit (by omega)
  have parts : Freeform.parts (nested (Freeform.depthLimit + 2)) = [nested (Freeform.depthLimit + 1)] := rfl
  simp [Freeform.obstacle?, parts, Freeform.obstacleInItems?, part, whole]

theorem deep_build : deep.build = .error (.unwritable .depth) := by
  have unordered : Edge.canonicalOrder deep.edges = .error (.unwritable .depth) := by
    simp [deep, pair, Edge.canonicalOrder, Edge.withKeys, Edge.sortKey, Edge.conditionText, Condition.write,
      Condition.freeform, Outcome.written, Freeform.firstObstacle?, deep_obstacle, Except.map, bind, Except.bind]
  have distinct : Draft.checkDistinctIds [] deep.nodes = .ok ([] ++ deep.nodes.map Node.id) :=
    (Draft.check_distinct_ids_eq_ok [] deep.nodes _ List.nodup_nil).mpr ⟨by decide +kernel, rfl⟩
  have nonempty : deep.nodes.isEmpty = false := rfl
  simp [Draft.build, Draft.buildCounted, nonempty, distinct, unordered, Except.map, bind, Except.bind]

end Sample

theorem sample_loop_rejected : ∃ failure, Sample.loop.build = .error failure ∧ failure.OfBuild := by
  have outcome := build_outcome Sample.loop none rfl nofun (Sample.pair_short _)
  cases built : Sample.loop.build with
  | ok spec => exact absurd Sample.loop_needs ((outcome.1.mp ⟨spec, built⟩).acyclic _)
  | error failure => exact ⟨failure, rfl, outcome.2 Sample.loop_plain failure built⟩

theorem sample_deep_unrejected : Sample.deep.maxParallelism = Json.ofInt? none ∧ (∀ node ∈ Sample.deep.nodes, node.Short) ∧
    (∀ e ∈ Sample.deep.edges, ∀ c, e.condition = some c → c.value.Orderly) ∧
    ∃ failure, Sample.deep.build = .error failure ∧ ¬ failure.OfBuild := by
  refine ⟨rfl, Sample.pair_short _, ?_, _, Sample.deep_build, ?_⟩
  · intro e member c given
    rw [List.mem_singleton.mp member] at given
    obtain rfl := Option.some.inj given
    exact Sample.nested_orderly _
  · rintro ⟨e, rejected, _⟩
    cases rejected

end PlanFlow
