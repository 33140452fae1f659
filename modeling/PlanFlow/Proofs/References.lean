import PlanFlow.Proofs.Normalizing

/-!
References of a specification to its nodes. Whatever is built refers to its own nodes only, and inside a fan-out to the
item at hand, at all places but three: bindings of the items of a fan-out, dependencies of its sub-node, and what a
transform that is a sub-node builds under a blank key.
-/

set_option autoImplicit false

namespace PlanFlow

-- The fields that refer to nodes; the inner ones belong to a fan-out.
inductive Place where
  | dependency
  | edgeSource
  | edgeTarget
  | output
  | binding
  | reference
  | items
  | innerDependency
  | innerBinding
  | innerReference (key : Option Text)
  | itemBinding

namespace Place

def Inner : Place → Prop
  | innerDependency | innerBinding | innerReference _ | itemBinding => True
  | dependency | edgeSource | edgeTarget | output | binding | reference | items => False

def Checked : Place → Prop
  | innerDependency | itemBinding => False
  | innerReference (some key) => key.trim ≠ []
  | innerReference none => True
  | dependency | edgeSource | edgeTarget | output | binding | reference | items | innerBinding => True

end Place

-- What an action refers to, by the place. An empty name of a source of items counts as absent.
inductive Action.Refers : Action → Place → Text → Prop where
  | binding (kind : RequestKind) (r : Request) (binding : Binding) (member : binding ∈ r.bindings.getD []) :
      Refers (.request kind r) .binding binding.source
  | reference (t : Transform) (ref : ValueRef) (member : ref ∈ t.sources) : Refers (.transform t) .reference ref.source
  | items (f : FanOut) (name : Text) (given : f.itemsFrom.bind Text.orAbsent = some name) : Refers (.mapFanout f) .items name
  | itemBinding (f : FanOut) (binding : Binding) (member : binding ∈ f.itemBindings.getD []) :
      Refers (.mapFanout f) .itemBinding binding.source
  | innerDependency (f : FanOut) (name : Text) (member : name ∈ f.subnode.dependsOn.getD []) :
      Refers (.mapFanout f) .innerDependency name
  | innerBinding (f : FanOut) (kind : RequestKind) (r : Request) (does : f.subnode.action = .request kind r)
      (binding : Binding) (member : binding ∈ r.bindings.getD []) : Refers (.mapFanout f) .innerBinding binding.source
  | innerObject (f : FanOut) (t : Transform) (does : f.subnode.action = .transform t) (entry : Text × ValueRef)
      (member : entry ∈ t.object.getD []) : Refers (.mapFanout f) (.innerReference (some entry.1)) entry.2.source
  | innerMerge (f : FanOut) (t : Transform) (does : f.subnode.action = .transform t) (ref : ValueRef)
      (member : ref ∈ t.merge.getD []) : Refers (.mapFanout f) (.innerReference none) ref.source

inductive Spec.Refers (s : Spec) : Place → Text → Prop where
  | dependency (node : Node) (member : node ∈ s.nodes) (name : Text) (waits : name ∈ node.dependsOn.getD []) :
      Refers s .dependency name
  | edgeSource (e : Edge) (member : e ∈ s.edges) : Refers s .edgeSource e.source
  | edgeTarget (e : Edge) (member : e ∈ s.edges) : Refers s .edgeTarget e.target
  | output (o : OutputRef) (member : o ∈ s.outputs) : Refers s .output o.source
  | action (node : Node) (member : node ∈ s.nodes) (place : Place) (name : Text)
      (refers : node.action.Refers place name) : Refers s place name

namespace FanOut

theorem check_merge_eq_ok (start : Nat) (refs : List ValueRef) :
    checkMerge start refs = .ok () ↔ ∀ ref ∈ refs, ref.source = itemPlaceholder := by
  induction refs generalizing start with
  | nil => simp [checkMerge]
  | cons head tail ih => by_cases item : head.source = itemPlaceholder <;> simp [checkMerge, item, ih]

-- By whether there are entries by key and references to merge: only if one of both is empty the other one is looked at.
theorem check_transform_eq_ok (t : Transform) :
    checkTransform t = .ok () ↔
      (t.object.getD [] = [] ↔ t.merge.getD [] ≠ []) ∧
        (∀ entry ∈ t.object.getD [], entry.1.trim = [] ∨ entry.2.source = itemPlaceholder) ∧
          ∀ ref ∈ t.merge.getD [], ref.source = itemPlaceholder := by
  rw [checkTransform]
  generalize t.object.getD [] = object
  generalize t.merge.getD [] = merge
  cases object with
  | nil =>
      cases merge with
      | nil => simp
      | cons first others => simp [check_merge_eq_ok]
  | cons first others =>
      cases merge with
      | nil => simp [check_object_eq_ok]
      | cons _ _ => simp

theorem shape_refers (f : FanOut) (passed : f.checkShape = .ok ()) :
    match f.subnode.action with
    | .request _ r => r.bindings.getD [] = []
    | .transform t => checkTransform t = .ok () := by
  cases does : f.subnode.action with
  | request kind r => by_cases empty : r.bindings.getD [] = [] <;> simp [checkShape, does, empty] at passed ⊢
  | transform t =>
      by_cases empty : f.itemBindings.getD [] = []
      · simpa [checkShape, does, empty] using passed
      · simp [checkShape, does, empty] at passed

end FanOut

theorem Action.checked_refers (ids : List Text) (node : Node) (passed : Draft.checkNode ids node = .ok ()) (place : Place)
    (name : Text) (refers : node.action.Refers place name) (looked : place.Checked) :
    name ∈ ids ∨ place.Inner ∧ name = itemPlaceholder := by
  obtain ⟨id, dependsOn, action⟩ := node
  cases refers with
  | binding kind r binding member =>
      exact .inl ((Draft.check_sources_eq_ok ids _ 0 _).mp ((check_bind_eq_ok _ _ _).mp passed).1 binding member)
  | reference t ref member =>
      exact .inl ((Draft.check_reference_eq_ok ids _ ref).mp ((for_m_eq_ok _ _ _).mp passed ref member))
  | items f name given => exact .inl (((Draft.check_fan_out_eq_ok ids _ f).mp passed).1 name given)
  | itemBinding f binding member => exact looked.elim
  | innerDependency f name member => exact looked.elim
  | innerBinding f kind r does binding member =>
      have empty := f.shape_refers ((Draft.check_fan_out_eq_ok ids _ f).mp passed).2
      simp only [does] at empty
      rw [empty] at member
      cases member
  | innerObject f t does entry member =>
      have checked := f.shape_refers ((Draft.check_fan_out_eq_ok ids _ f).mp passed).2
      simp only [does] at checked
      exact .inr ⟨trivial, (((FanOut.check_transform_eq_ok t).mp checked).2.1 entry member).resolve_left looked⟩
  | innerMerge f t does ref member =>
      have checked := f.shape_refers ((Draft.check_fan_out_eq_ok ids _ f).mp passed).2
      simp only [does] at checked
      exact .inr ⟨trivial, ((FanOut.check_transform_eq_ok t).mp checked).2.2 ref member⟩

theorem references_resolve (d : Draft) (s : Spec) (built : d.build = .ok s) (place : Place) (name : Text)
    (refers : s.Refers place name) (looked : place.Checked) :
    name ∈ s.nodeIds ∨ place.Inner ∧ name = itemPlaceholder := by
  have fits := (d.built_settled s built).fits
  cases refers with
  | dependency node member name waits =>
      exact .inl ((Draft.check_dependencies_eq_ok _ node).mp (fits.dependencies node member) name waits).1
  | edgeSource e member => exact .inl ((Draft.check_edge_eq_ok _ e).mp (fits.edges e member)).2.1
  | edgeTarget e member => exact .inl ((Draft.check_edge_eq_ok _ e).mp (fits.edges e member)).1
  | output o member => exact .inl ((Draft.check_output_eq_ok _ o).mp (fits.outputs o member))
  | action node member place name refers =>
      exact Action.checked_refers _ node (fits.nodes node member) place name refers looked

namespace Sample

def asking : FanOut :=
  ⟨some "list", none, none, ⟨"ask", some ["ghost"], .request .llm Request.empty⟩,
    some [⟨"ghost", none, none, some "seen", .jsonString⟩], none⟩

def making : Transform := ⟨some [(" ", ⟨"ghost", none⟩), ("kept", ⟨"item", none⟩)], none⟩

def shaping : FanOut := ⟨some "list", none, none, ⟨"make", none, .transform making⟩, none, none⟩

def haunted : Spec :=
  ⟨none, none, none,
    [⟨"list", none, .request .llm Request.empty⟩, ⟨"each", none, .mapFanout asking⟩, ⟨"shape", none, .mapFanout shaping⟩],
    [], [⟨"result", "shape", none⟩]⟩

theorem haunted_built : (Draft.ofSpec haunted).build = .ok haunted := rfl

end Sample

theorem sample_references_resolve : (Draft.ofSpec Sample.haunted).build = .ok Sample.haunted ∧
    Sample.haunted.Refers .items "list" ∧ (("list" : Text) ∈ Sample.haunted.nodeIds ∨ Place.items.Inner ∧ "list" = itemPlaceholder) := by
  have refers : Sample.haunted.Refers .items "list" :=
    .action ⟨"each", none, .mapFanout Sample.asking⟩ (by simp [Sample.haunted]) _ _ (.items Sample.asking "list" rfl)
  exact ⟨Sample.haunted_built, refers, references_resolve _ _ Sample.haunted_built .items "list" refers trivial⟩

theorem sample_references_dangle : (Draft.ofSpec Sample.haunted).build = .ok Sample.haunted ∧
    (("ghost" : Text) ∉ Sample.haunted.nodeIds ∧ ("ghost" : Text) ≠ itemPlaceholder) ∧
    Sample.haunted.Refers .itemBinding "ghost" ∧ Sample.haunted.Refers .innerDependency "ghost" ∧
    Sample.haunted.Refers (.innerReference (some " ")) "ghost" := by
  have each : (⟨"each", none, .mapFanout Sample.asking⟩ : Node) ∈ Sample.haunted.nodes := by simp [Sample.haunted]
  have shape : (⟨"shape", none, .mapFanout Sample.shaping⟩ : Node) ∈ Sample.haunted.nodes := by simp [Sample.haunted]
  refine ⟨Sample.haunted_built, ⟨by decide, by decide⟩, .action _ each _ _ ?_, .action _ each _ _ ?_, .action _ shape _ _ ?_⟩
  · exact .itemBinding Sample.asking _ List.mem_cons_self
  · exact .innerDependency Sample.asking "ghost" List.mem_cons_self
  · exact .innerObject Sample.shaping Sample.making rfl (" ", ⟨"ghost", none⟩) List.mem_cons_self

end PlanFlow
