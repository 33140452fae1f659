import PlanFlow.Proofs.Rebuilding

/-!
Containment of tools. In what was normalized or compiled, every request with tools names them, all of them are in the
allow-set, and they run on the client, also one level down in a fan-out.
-/

set_option autoImplicit false

namespace PlanFlow

def SubAction.requests : SubAction → List Request
  | .request _ r => [r]
  | .transform _ => []

def Action.requests : Action → List Request
  | .request _ r => [r]
  | .mapFanout f => f.subnode.action.requests
  | .joinAll | .joinAny _ | .joinCollect _ _ _ | .transform _ => []

def Spec.requests (s : Spec) : List Request := s.nodes.flatMap fun node => node.action.requests

structure Request.Contained (registry : ToolRegistry) (r : Request) : Prop where
  named : ∀ tool ∈ r.tools.getD [], ∃ name, tool = .named name ∧ name ∈ registry.allowed
  client : r.tools.getD [] ≠ [] → r.toolMode = some .client

namespace ToolRegistry

variable (registry : ToolRegistry)

theorem check_tool_eq_ok (node : Text) (parent : Option Text) (tool : Tool) :
    registry.checkTool node parent tool = .ok () ↔ ∃ name, tool = .named name ∧ name ∈ registry.allowed := by
  cases tool with
  | named name => by_cases known : name ∈ registry.allowed <;> simp [checkTool, isAllowed, known]
  | described fields => simp [checkTool]

theorem settle_request_eq_self (node : Text) (parent : Option Text) (r : Request) :
    registry.settleRequest node parent r = .ok r ↔ r.Contained registry := by
  simp only [registry.settle_request_eq_ok, registry.check_tool_eq_ok]
  constructor
  · rintro (⟨bare, _⟩ | ⟨_, named, _, same⟩)
    · exact ⟨by simp [bare], fun equipped => absurd bare equipped⟩
    · exact ⟨named, fun _ => congrArg Request.toolMode same⟩
  · rintro ⟨named, client⟩
    by_cases bare : r.tools.getD [] = []
    · exact .inl ⟨bare, trivial⟩
    · have mode := client bare
      exact .inr ⟨bare, named, by simp [mode], by rw [← mode]⟩

theorem settle_request_named (node : Text) (parent : Option Text) (r settled : Request)
    (done : registry.settleRequest node parent r = .ok settled) : ∀ tool ∈ r.tools.getD [], ∃ name, tool = .named name := by
  intro tool member
  rcases (registry.settle_request_eq_ok node parent r settled).mp done with ⟨bare, _⟩ | ⟨_, allowed, _⟩
  · simp [bare] at member
  · obtain ⟨name, given, _⟩ := (registry.check_tool_eq_ok node parent tool).mp (allowed tool member)
    exact ⟨name, given⟩

theorem settle_request_alike (node : Text) (parent : Option Text) (r settled other : Request)
    (mode : other.toolMode = r.toolMode) (tools : other.tools = r.tools)
    (done : registry.settleRequest node parent r = .ok settled) :
    registry.settleRequest node parent other = .ok { other with toolMode := settled.toolMode } := by
  refine (registry.settle_request_eq_ok node parent other _).mpr ?_
  rcases (registry.settle_request_eq_ok node parent r settled).mp done with ⟨bare, rfl⟩ | ⟨equipped, allowed, asked, rfl⟩
  · exact .inl ⟨by rw [tools, bare], by rw [← mode]⟩
  · exact .inr (by rw [tools, mode]; exact ⟨equipped, allowed, asked, rfl⟩)

theorem settle_node_eq_self (n : Node) :
    registry.settleNode n = .ok n ↔ ∀ r ∈ n.action.requests, r.Contained registry := by
  obtain ⟨id, dependsOn, action⟩ := n
  cases action with
  | request kind r =>
      simp [settleNode, Action.requests, map_eq_ok, ← registry.settle_request_eq_self id none r]
  | mapFanout f =>
      obtain ⟨source, input, pointer, ⟨inner, waits, does⟩, bindings, bound⟩ := f
      cases does with
      | request kind r =>
          simp [settleNode, settleFanOut, Action.requests, SubAction.requests, map_eq_ok,
            ← registry.settle_request_eq_self inner (some id) r]
      | transform t => simp [settleNode, settleFanOut, Action.requests, SubAction.requests, Except.map]
  | _ => simp [settleNode, Action.requests]

end ToolRegistry

theorem Spec.normal_contained (s : Spec) (registry : ToolRegistry) (normal : s.Normal registry) :
    ∀ r ∈ s.requests, r.Contained registry := by
  intro r member
  obtain ⟨node, inside, own⟩ := List.mem_flatMap.mp member
  exact (registry.settle_node_eq_self node).mp (normal.tools node inside) r own

theorem requests_contained (context : Context) :
    (∀ (payload : Payload Spec) (s : Spec), normalize payload context = .ok s →
      ∀ r ∈ s.requests, r.Contained context.tools) ∧
    ∀ (payload : Payload Plan) (settings : Settings) (job : Job) (s : Spec),
      compile payload context settings job = .ok s → ∀ r ∈ s.requests, r.Contained context.tools :=
  ⟨fun payload s done => s.normal_contained context.tools (normalize_normal payload context s done),
    fun payload settings job s done =>
      s.normal_contained context.tools (compile_normal payload context settings job s done)⟩

namespace Sample

def equipped : Context := { context with commandTools := ["bash"] }

def usesTools (r : Request) : Bool := !(r.tools.getD []).isEmpty

set_option maxRecDepth 100000 in
theorem equipped_compiles : ∃ s, compile (.parsed plan) equipped .standard job = .ok s ∧
    s.requests.any usesTools = true := by
  have accepted : (compile (.parsed plan) equipped .standard job).toOption.any
      (fun s => s.requests.any usesTools) = true := by decide +kernel
  cases answer : compile (.parsed plan) equipped .standard job with
  | error e => simp [answer, Except.toOption] at accepted
  | ok s => exact ⟨s, rfl, by simpa [answer, Except.toOption] using accepted⟩

def searching (mode : Option ToolMode) : Spec :=
  let search : Request := { Request.empty with tools := some [.named "fs_search"], toolMode := mode }
  ⟨none, none, none,
    [⟨"find", none, .request .llm search⟩,
      ⟨"each", some ["find"], .mapFanout ⟨some "find", none, none, ⟨"look", none, .request .llm search⟩, none, none⟩⟩],
    [], [⟨"result", "each", none⟩]⟩

theorem searching_normalized : normalize (.parsed (searching none)) context = .ok (searching (some .client)) := rfl

end Sample

theorem sample_requests_contained :
    (normalize (.parsed (Sample.searching none)) Sample.context = .ok (Sample.searching (some .client)) ∧
      ∀ r ∈ (Sample.searching (some .client)).requests, r.Contained Sample.context.tools) ∧
    ∃ s, compile (.parsed Sample.plan) Sample.equipped .standard Sample.job = .ok s ∧
      s.requests.any Sample.usesTools = true ∧ ∀ r ∈ s.requests, r.Contained Sample.equipped.tools := by
  obtain ⟨s, done, used⟩ := Sample.equipped_compiles
  exact ⟨⟨Sample.searching_normalized, (requests_contained Sample.context).1 _ _ Sample.searching_normalized⟩,
    s, done, used, (requests_contained Sample.equipped).2 _ _ _ s done⟩

end PlanFlow
