import PlanFlow.Proofs.References

/-!
Transforms that run once for each item. Such a transform builds by key or by merging, never both, without bindings of
the items, and whatever it reads is the item at hand; only under a blank key it may read anything.
-/

set_option autoImplicit false

namespace PlanFlow

namespace FanOut

structure Itemwise (f : FanOut) (t : Transform) : Prop where
  unbound : f.itemBindings.getD [] = []
  either : t.object.getD [] = [] ↔ t.merge.getD [] ≠ []
  object : ∀ entry ∈ t.object.getD [], entry.1.trim = [] ∨ entry.2.source = itemPlaceholder
  merge : ∀ ref ∈ t.merge.getD [], ref.source = itemPlaceholder

theorem check_shape_eq_ok (f : FanOut) (t : Transform) (makes : f.subnode.action = .transform t) :
    f.checkShape = .ok () ↔ f.Itemwise t := by
  have parts : f.Itemwise t ↔ f.itemBindings.getD [] = [] ∧ checkTransform t = .ok () := by
    rw [check_transform_eq_ok]
    exact ⟨fun ⟨unbound, either, object, merge⟩ => ⟨unbound, either, object, merge⟩,
      fun ⟨unbound, either, object, merge⟩ => ⟨unbound, either, object, merge⟩⟩
  rw [parts, checkShape, makes]
  by_cases unbound : f.itemBindings.getD [] = [] <;> simp [unbound]

end FanOut

theorem transforms_read_item (d : Draft) (s : Spec) (built : d.build = .ok s) (node : Node) (member : node ∈ s.nodes)
    (f : FanOut) (does : node.action = .mapFanout f) (t : Transform) (makes : f.subnode.action = .transform t) :
    f.Itemwise t := by
  have passed := (d.built_settled s built).fits.nodes node member
  simp only [Draft.checkNode, does] at passed
  exact (f.check_shape_eq_ok t makes).mp ((Draft.check_fan_out_eq_ok _ node.id f).mp passed).2

namespace Sample

def mapping (entries : Table ValueRef) : FanOut :=
  ⟨some "list", none, none, ⟨"make", none, .transform ⟨some entries, none⟩⟩, none, none⟩

def mapped (entries : Table ValueRef) : Spec :=
  ⟨none, none, none, [⟨"list", none, .request .llm Request.empty⟩, ⟨"shape", none, .mapFanout (mapping entries)⟩], [],
    [⟨"result", "shape", none⟩]⟩

theorem mapping_member (entries : Table ValueRef) : ⟨"shape", none, .mapFanout (mapping entries)⟩ ∈ (mapped entries).nodes := by
  simp [mapped]

def kept : Text × ValueRef := ("kept", ⟨"item", none⟩)

def fixed : Text × ValueRef := (" ", ⟨"list", none⟩)

end Sample

theorem sample_transforms_read_item : (Draft.ofSpec (Sample.mapped [Sample.kept])).build = .ok (Sample.mapped [Sample.kept]) ∧
    (Sample.mapping [Sample.kept]).subnode.action = .transform ⟨some [Sample.kept], none⟩ ∧
    (Sample.mapping [Sample.kept]).Itemwise ⟨some [Sample.kept], none⟩ := by
  have built : (Draft.ofSpec (Sample.mapped [Sample.kept])).build = .ok (Sample.mapped [Sample.kept]) := rfl
  exact ⟨built, rfl, transforms_read_item _ _ built _ (Sample.mapping_member _) _ rfl _ rfl⟩

theorem sample_transform_reads_fixed :
    (Draft.ofSpec (Sample.mapped [Sample.fixed, Sample.kept])).build = .ok (Sample.mapped [Sample.fixed, Sample.kept]) ∧
    ∃ node ∈ (Sample.mapped [Sample.fixed, Sample.kept]).nodes, ∃ f t, node.action = .mapFanout f ∧
      f.subnode.action = .transform t ∧ ∃ entry ∈ t.object.getD [], entry.2.source ≠ itemPlaceholder := by
  refine ⟨rfl, _, Sample.mapping_member _, _, _, rfl, rfl, Sample.fixed, List.mem_cons_self, by decide⟩

end PlanFlow
