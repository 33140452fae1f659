import PlanFlow.Proofs.Containment
import PlanFlow.Proofs.FirstFault

/-!
What settling the use of tools does to any specification. It is refused for the first tool that has no name or is not
allowed, or for a mode other than the client's, in the first node where there is one of these. Otherwise the requests that
have tools and no mode get that of the client; nothing else changes, and nothing at all the second time.
-/

set_option autoImplicit false

namespace PlanFlow

structure Sent where
  node : Text
  parent : Option Text
  request : Request

def Node.sent? (node : Node) : Option Sent :=
  match node.action with
  | .request _ r => some ⟨node.id, none, r⟩
  | .mapFanout f =>
      match f.subnode.action with
      | .request _ r => some ⟨f.subnode.id, some node.id, r⟩
      | .transform _ => none
  | .joinAll | .joinAny _ | .joinCollect _ _ _ | .transform _ => none

-- A request with tools, one of which it may not use, or which it does not run on the client.
inductive Request.Misuses (registry : ToolRegistry) (r : Request) : Prop where
  | nameless (fields : Table Json) (member : .described fields ∈ r.tools.getD [])
  | outside (name : Text) (member : .named name ∈ r.tools.getD []) (refused : name ∉ registry.allowed)
  | elsewhere (equipped : r.tools.getD [] ≠ []) (mode : ToolMode) (given : r.toolMode = some mode) (other : mode ≠ .client)

namespace Sent

-- What is wrong with a tool of a request, and what is said of it.
inductive Refuses (registry : ToolRegistry) (sent : Sent) : Tool → CompileError → Prop where
  | nameless (fields : Table Json) : Refuses registry sent (.described fields) (.toolWithoutName sent.node sent.parent)
  | outside (name : Text) (refused : name ∉ registry.allowed) :
      Refuses registry sent (.named name) (.unknownNodeTool sent.node sent.parent name)

inductive Fault (registry : ToolRegistry) (sent : Sent) : List Nat → CompileError → Prop where
  | tool (k : Nat) (tool : Tool) (there : (sent.request.tools.getD [])[k]? = some tool) (e : CompileError)
      (refuses : sent.Refuses registry tool e) : Fault registry sent [0, k] e
  | mode (equipped : sent.request.tools.getD [] ≠ []) (mode : ToolMode) (given : sent.request.toolMode = some mode)
      (other : mode ≠ .client) : Fault registry sent [1] (.wrongToolMode sent.node sent.parent mode)

end Sent

inductive Spec.ToolFault (registry : ToolRegistry) (s : Spec) : List Nat → CompileError → Prop where
  | sent (i : Nat) (node : Node) (there : s.nodes[i]? = some node) (sent : Sent) (sends : node.sent? = some sent)
      (place : List Nat) (e : CompileError) (fault : sent.Fault registry place e) : ToolFault registry s (i :: place) e

-- Only a tool that is named and not allowed counts as unknown. The other faults are in how tools are set up.
inductive CompileError.ToolKind : CompileError → ErrorKind → Prop where
  | nameless (node : Text) (parent : Option Text) : ToolKind (.toolWithoutName node parent) .invalidToolConfig
  | outside (node : Text) (parent : Option Text) (name : Text) : ToolKind (.unknownNodeTool node parent name) .unknownTool
  | elsewhere (node : Text) (parent : Option Text) (mode : ToolMode) :
      ToolKind (.wrongToolMode node parent mode) .invalidToolConfig

def Request.onClient (r : Request) : Request :=
  match r.tools, r.toolMode with
  | some (_ :: _), none => { r with toolMode := some .client }
  | _, _ => r

def SubAction.onClient : SubAction → SubAction
  | .request kind r => .request kind r.onClient
  | .transform t => .transform t

def Action.onClient : Action → Action
  | .request kind r => .request kind r.onClient
  | .mapFanout f => .mapFanout { f with subnode := { f.subnode with action := f.subnode.action.onClient } }
  | .joinAll => .joinAll
  | .joinAny predicate => .joinAny predicate
  | .joinCollect limit timeout predicate => .joinCollect limit timeout predicate
  | .transform t => .transform t

def Node.onClient (node : Node) : Node := { node with action := node.action.onClient }

def Spec.onClient (s : Spec) : Spec := { s with nodes := s.nodes.map Node.onClient }

namespace Sent

variable (registry : ToolRegistry) (sent : Sent)

theorem refuses_unique (tool : Tool) (e e' : CompileError) (one : sent.Refuses registry tool e)
    (other : sent.Refuses registry tool e') : e = e' := by
  cases one <;> cases other <;> rfl

theorem fault_unique : Faults.Unique (sent.Fault registry) := by
  intro place e e' one other
  cases one with
  | tool k tool there e refuses =>
      cases other with
      | tool _ another elsewhere e' theirs =>
          obtain rfl := Option.some.inj (there.symm.trans elsewhere)
          exact sent.refuses_unique registry tool e e' refuses theirs
  | mode _ mode given _ =>
      cases other with
      | mode _ another same _ => rw [Option.some.inj (given.symm.trans same)]

theorem misuses_iff : (∃ place e, sent.Fault registry place e) ↔ sent.request.Misuses registry := by
  constructor
  · rintro ⟨_, _, ⟨k, tool, there, e, refuses⟩ | ⟨equipped, mode, given, other⟩⟩
    · have member := List.mem_of_getElem? there
      cases refuses with
      | nameless fields => exact .nameless fields member
      | outside name refused => exact .outside name member refused
    · exact .elsewhere equipped mode given other
  · rintro (⟨fields, member⟩ | ⟨name, member, refused⟩ | ⟨equipped, mode, given, other⟩)
    · obtain ⟨k, there⟩ := List.mem_iff_getElem?.mp member
      exact ⟨_, _, .tool k _ there _ (.nameless fields)⟩
    · obtain ⟨k, there⟩ := List.mem_iff_getElem?.mp member
      exact ⟨_, _, .tool k _ there _ (.outside name refused)⟩
    · exact ⟨_, _, .mode equipped mode given other⟩

theorem fault_kind (place : List Nat) (e : CompileError) (fault : sent.Fault registry place e) : e.ToolKind e.kind := by
  cases fault with
  | tool _ _ _ _ refuses =>
      cases refuses with
      | nameless => exact .nameless _ _
      | outside => exact .outside _ _ _
  | mode => exact .elsewhere _ _ _

end Sent

namespace ToolRegistry

variable (registry : ToolRegistry)

theorem check_tool_finds (sent : Sent) (k : Nat) (tool : Tool) (there : (sent.request.tools.getD [])[k]? = some tool) :
    FindsFirst ((Faults.part (sent.Fault registry) 0).part k) (registry.checkTool sent.node sent.parent tool) := by
  have only (place : List Nat) (e : CompileError) (fault : sent.Fault registry (0 :: k :: place) e) :
      sent.Refuses registry tool e := by
    cases fault with
    | tool _ _ same _ refuses => exact Option.some.inj (same.symm.trans there) ▸ refuses
  cases tool with
  | described fields =>
      exact .failed _ [] (.tool k _ there _ (.nameless fields)) fun other _ _ => List.not_lt_nil other
  | named name =>
      by_cases known : name ∈ registry.allowed
      · simp only [checkTool, isAllowed, List.contains_iff_mem, known, if_true]
        refine .passed () fun place e fault => ?_
        cases only place e fault with
        | outside _ refused => exact refused known
      · simp only [checkTool, isAllowed, List.contains_iff_mem, known, if_false]
        exact .failed _ [] (.tool k _ there _ (.outside name known)) fun other _ _ => List.not_lt_nil other

theorem settle_mode_finds (sent : Sent) (equipped : sent.request.tools.getD [] ≠ []) :
    FindsFirst (Faults.part (sent.Fault registry) 1) (settleMode sent.node sent.parent sent.request) := by
  cases given : sent.request.toolMode with
  | none =>
      rw [settleMode, given]
      refine .passed _ fun _ _ fault => ?_
      cases fault with
      | mode _ _ there _ => simp [given] at there
  | some mode =>
      by_cases client : mode = .client
      · subst client
        rw [settleMode, given]
        refine .passed _ fun _ _ fault => ?_
        cases fault with
        | mode _ _ there other => exact other (Option.some.inj (there.symm.trans given))
      · have refused : settleMode sent.node sent.parent sent.request =
            .error (.wrongToolMode sent.node sent.parent mode) := by
          rw [settleMode, given]
          cases mode <;> first | rfl | exact absurd rfl client
        rw [refused]
        exact .failed _ [] (.mode equipped mode given client) fun other _ _ => List.not_lt_nil other

theorem settle_request_finds (sent : Sent) :
    FindsFirst (sent.Fault registry) (registry.settleRequest sent.node sent.parent sent.request) := by
  by_cases bare : sent.request.tools.getD [] = []
  · simp only [settleRequest, bare, List.isEmpty_nil, if_true]
    refine .passed _ fun _ _ fault => ?_
    cases fault with
    | tool _ _ there => simp [bare] at there
    | mode equipped => exact equipped bare
  · rw [registry.settle_request_equipped _ _ _ bare, ← bind_pure (settleMode sent.node sent.parent sent.request)]
    have nowhere (e : CompileError) : ¬ sent.Fault registry [] e := fun fault => by cases fault
    have noItem (e : CompileError) : ¬ sent.Fault registry [0] e := fun fault => by cases fault
    refine .of_onward_zero _ nowhere (.bind 0 _ _ ?_ fun _ _ => .bind 1 _ _ ?_ fun settled _ => ?_)
    · refine .for_each _ _ (registry.check_tool_finds sent) (fun k place e fault => ?_) noItem
      cases fault with
      | tool _ _ there => exact (List.getElem?_eq_some_iff.mp there).1
    · exact registry.settle_mode_finds sent bare
    · exact .finish 2 settled fun k _ _ beyond fault => by cases fault <;> omega

theorem settle_node_sent (node : Node) :
    (∃ sent, node.sent? = some sent ∧ ∃ put, registry.settleNode node =
      (registry.settleRequest sent.node sent.parent sent.request).map put) ∨
      node.sent? = none ∧ registry.settleNode node = .ok node := by
  obtain ⟨id, dependsOn, action⟩ := node
  cases action with
  | request kind r => exact .inl ⟨_, rfl, _, rfl⟩
  | mapFanout f =>
      cases inner : f.subnode.action with
      | request kind r =>
          refine .inl ⟨⟨f.subnode.id, some id, r⟩, by simp only [Node.sent?, inner], fun r =>
            ⟨id, dependsOn, .mapFanout { f with subnode := { f.subnode with action := .request kind r } }⟩, ?_⟩
          simp only [settleNode, settleFanOut, inner]
          cases registry.settleRequest f.subnode.id (some id) r <;> rfl
      | transform t => exact .inr ⟨by simp only [Node.sent?, inner], by simp only [settleNode, settleFanOut, inner]; rfl⟩
  | _ => exact .inr ⟨rfl, rfl⟩

theorem settle_node_finds (s : Spec) (i : Nat) (node : Node) (there : s.nodes[i]? = some node) :
    FindsFirst (Faults.part (s.ToolFault registry) i) (registry.settleNode node) := by
  rcases registry.settle_node_sent node with ⟨sent, sends, put, settled⟩ | ⟨silent, settled⟩
  · rw [settled]
    refine .map put _ (.congr _ _ (registry.settle_request_finds sent) fun place e => ⟨fun fault => ?_, fun fault => ?_⟩)
    · cases fault with
      | sent _ _ same other theirs _ _ fault =>
          obtain rfl := Option.some.inj (there.symm.trans same)
          exact Option.some.inj (sends.symm.trans theirs) ▸ fault
    · exact .sent i node there sent sends place e fault
  · rw [settled]
    refine .passed node fun _ _ fault => ?_
    cases fault with
    | sent _ _ same other theirs =>
        obtain rfl := Option.some.inj (there.symm.trans same)
        simp [silent] at theirs

theorem settle_request_client (node : Text) (parent : Option Text) (r settled : Request)
    (done : registry.settleRequest node parent r = .ok settled) : settled = r.onClient := by
  obtain ⟨model, system, user, input, stream, tools, toolMode, limits, bindings⟩ := r
  rcases (registry.settle_request_eq_ok node parent _ settled).mp done with ⟨bare, rfl⟩ | ⟨equipped, _, asked, rfl⟩
  · cases tools with
    | none => rfl
    | some given =>
        obtain rfl : given = [] := bare
        rfl
  · cases tools with
    | none => exact absurd rfl equipped
    | some given =>
        obtain ⟨first, others, rfl⟩ := List.exists_cons_of_ne_nil equipped
        cases toolMode with
        | none => rfl
        | some mode =>
            obtain rfl := asked mode rfl
            rfl

theorem settle_node_client (node settled : Node) (done : registry.settleNode node = .ok settled) : settled = node.onClient := by
  obtain ⟨id, dependsOn, action⟩ := node
  cases action with
  | request kind r =>
      obtain ⟨own, given, rfl⟩ := (map_eq_ok _ _ _).mp done
      rw [registry.settle_request_client id none r own given]
      rfl
  | mapFanout f =>
      obtain ⟨changed, given, rfl⟩ := (map_eq_ok _ _ _).mp done
      obtain ⟨source, input, pointer, ⟨inner, waits, does⟩, bindings, bound⟩ := f
      cases does with
      | request kind r =>
          obtain ⟨own, sent, rfl⟩ := (map_eq_ok _ _ _).mp given
          rw [registry.settle_request_client inner (some id) r own sent]
          rfl
      | transform t =>
          obtain rfl := Except.ok.inj given
          rfl
  | _ => exact (Except.ok.inj done).symm

end ToolRegistry

namespace Spec

variable (registry : ToolRegistry) (s : Spec)

theorem tool_fault_unique : Faults.Unique (s.ToolFault registry) := by
  rintro _ e e' ⟨i, node, there, sent, sends, place, _, fault⟩ other
  cases other with
  | sent _ _ same another theirs _ _ fault' =>
      obtain rfl := Option.some.inj (there.symm.trans same)
      obtain rfl := Option.some.inj (sends.symm.trans theirs)
      exact sent.fault_unique registry place e e' fault fault'

theorem tool_fault_iff : (∃ place e, s.ToolFault registry place e) ↔
    ∃ node ∈ s.nodes, ∃ sent, node.sent? = some sent ∧ sent.request.Misuses registry := by
  constructor
  · rintro ⟨_, _, ⟨_, node, there, sent, sends, _, _, fault⟩⟩
    exact ⟨node, List.mem_of_getElem? there, sent, sends, (sent.misuses_iff registry).mp ⟨_, _, fault⟩⟩
  · rintro ⟨node, member, sent, sends, misuses⟩
    obtain ⟨i, there⟩ := List.mem_iff_getElem?.mp member
    obtain ⟨place, e, fault⟩ := (sent.misuses_iff registry).mpr misuses
    exact ⟨_, e, .sent i node there sent sends place e fault⟩

theorem settle_tools_finds : FindsFirst (s.ToolFault registry) (s.settleTools registry) := by
  refine .map _ _ (.map_each _ s.nodes (registry.settle_node_finds s) (fun k place e fault => ?_) nofun)
  cases fault with
  | sent _ _ there => exact (List.getElem?_eq_some_iff.mp there).1

theorem settle_tools_client (settled : Spec) (done : s.settleTools registry = .ok settled) :
    settled = s.onClient ∧ settled.settleTools registry = .ok settled := by
  obtain ⟨nodes, each, rfl⟩ := (map_eq_ok _ _ _).mp done
  have settles := (map_m_eq_ok _ _ _).mp each
  constructor
  · have changed : s.nodes.map Node.onClient = nodes.map id :=
      map_matched _ Node.onClient id s.nodes nodes settles fun node other done =>
        (registry.settle_node_client node other done).symm
    rw [onClient, changed, List.map_id]
  · have again : nodes.mapM registry.settleNode = .ok (nodes.map id) := map_m_ok_of_pure _ _ _ fun node member => by
      obtain ⟨given, _, done⟩ := exists_matching _ s.nodes nodes settles node member
      exact (registry.settle_node_again given node done).2
    rw [settleTools, again, List.map_id]
    rfl

end Spec

theorem Plan.synthesized_tools (plan : Plan) (context : Context) (settings : Settings) (job : Job) (s : Spec)
    (made : plan.synthesize context settings job = .ok s) : s.settleTools context.tools = .ok s := by
  obtain ⟨synthesis, sketched, built⟩ := (bind_eq_ok _ _ _).mp made
  obtain ⟨fits, rfl⟩ := (plan.sketch_eq_ok context settings job synthesis).mp sketched
  obtain ⟨bound, _, rfl⟩ := (Draft.listed_build_eq_ok _ _ _ (plan.sketched_lists context settings job fits) s).mp built
  exact (map_error_eq_ok _ _ _).mp (plan.specified_with_tools context settings job fits bound)

theorem tools_settled_exactly (registry : ToolRegistry) :
    (∀ s : Spec,
      ((∃ e, s.settleTools registry = .error e) ↔
        ∃ node ∈ s.nodes, ∃ sent, node.sent? = some sent ∧ sent.request.Misuses registry) ∧
      (∀ e, s.settleTools registry = .error e ↔
        ∃ place, s.ToolFault registry place e ∧ ∀ other e', s.ToolFault registry other e' → ¬ other < place) ∧
      (∀ e, s.settleTools registry = .error e → e.ToolKind e.kind) ∧
      ∀ settled, s.settleTools registry = .ok settled → settled = s.onClient ∧ settled.settleTools registry = .ok settled) ∧
    ∀ (plan : Plan) (context : Context) (settings : Settings) (job : Job) (s : Spec), context.tools = registry →
      plan.synthesize context settings job = .ok s → s.settleTools registry = .ok s := by
  refine ⟨fun s => ?_, fun plan context settings job s same made => same ▸ plan.synthesized_tools context settings job s made⟩
  have finds := s.settle_tools_finds registry
  have first (e : CompileError) := finds.eq_error_iff (s.tool_fault_unique registry) _ e
  refine ⟨?_, first, fun e failed => ?_, s.settle_tools_client registry⟩
  · rw [finds.not_passed_iff, s.tool_fault_iff registry]
  · obtain ⟨_, ⟨_, _, _, sent, _, place, _, fault⟩, _⟩ := (first e).mp failed
    exact sent.fault_kind registry place e fault

namespace Sample

theorem equipped_synthesized : ∃ s, plan.synthesize equipped .standard job = .ok s := by
  obtain ⟨s, done, _⟩ := equipped_compiles
  obtain ⟨_, given, fits, _, _, _⟩ := (Plan.compile_eq_ok _ _ _ _ _).mp done
  obtain rfl := Except.ok.inj given
  exact ⟨_, (plan.synthesize_eq_ok equipped .standard job _ fits.valid.parallel).mpr ⟨fits.sketchable, fits.bounded, rfl⟩⟩

end Sample

theorem sample_tools_settled :
    ((Sample.searching (some .server)).settleTools Sample.context.tools = .error (.wrongToolMode "find" none .server) ∧
      CompileError.ToolKind (.wrongToolMode "find" none .server) .invalidToolConfig) ∧
    ((Sample.searching none).settleTools Sample.context.tools = .ok (Sample.searching (some .client)) ∧
      Sample.searching (some .client) = (Sample.searching none).onClient ∧
      (Sample.searching (some .client)).settleTools Sample.context.tools = .ok (Sample.searching (some .client))) ∧
    ∃ s, Sample.plan.synthesize Sample.equipped .standard Sample.job = .ok s ∧ s.settleTools Sample.equipped.tools = .ok s := by
  obtain ⟨_, _, kinds, _⟩ := (tools_settled_exactly Sample.context.tools).1 (Sample.searching (some .server))
  obtain ⟨_, _, _, settled⟩ := (tools_settled_exactly Sample.context.tools).1 (Sample.searching none)
  obtain ⟨s, made⟩ := Sample.equipped_synthesized
  exact ⟨⟨rfl, kinds _ rfl⟩, ⟨rfl, settled _ rfl⟩, s, made, (tools_settled_exactly _).2 _ _ _ _ s rfl made⟩

end PlanFlow
