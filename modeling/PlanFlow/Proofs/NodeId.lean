import PlanFlow.Plan.NodeId
import PlanFlow.Proofs.Outcome
import PlanFlow.Proofs.Text
import PlanFlow.Settings

/-!
The ids of nodes as functions of what they are made from. Ids of agents, of joins and of the last node by
default start with different letters, so no two of these families meet.
-/

set_option autoImplicit false

namespace PlanFlow

theorem CodePoint.lower_val (c : CodePoint) : (toLower c).val = if isUpper c = true then c.val + 0x20 else c.val := by
  by_cases upper : isUpper c = true
  · have range : 0x41 ≤ c.val ∧ c.val ≤ 0x5A := by simpa [isUpper] using upper
    have bound : c.val + 0x20 < 0x110000 := by omega
    rw [toLower, if_pos upper, if_pos upper, ofNat, dif_pos bound]
  · rw [toLower, if_neg upper, if_neg upper]

namespace NodeId

def agent (name : Text) : Text := ("agent_" : Text) ++ token name

def join (key : Text) : Text :=
  if (token key).startsWith "step_" then token key ++ ("_join" : Text)
  else Text.concat ["step_", token key, "_join"]

theorem of_agent_usable (name : Text) (usable : token name ≠ []) : ofAgent name = .ok (agent name) := by
  simp [ofAgent, agent, usable]

theorem of_agent_unusable (name : Text) (unusable : token name = []) :
    ofAgent name = .error (.unusableAgentId name) := by
  simp [ofAgent, unusable]

theorem of_agent_eq_ok (name id : Text) : ofAgent name = .ok id ↔ token name ≠ [] ∧ agent name = id := by
  by_cases unusable : token name = []
  · simp [of_agent_unusable name unusable, unusable]
  · simp [of_agent_usable name unusable, unusable]

theorem of_join_usable (key : Text) (usable : token key ≠ []) : ofJoin key = .ok (join key) := by
  by_cases generated : (token key).startsWith "step_" <;> simp [ofJoin, join, usable, generated]

theorem of_join_unusable (key : Text) (unusable : token key = []) :
    ofJoin key = .error (.unusableStepId key) := by
  simp [ofJoin, unusable]

theorem of_join_eq_ok (key id : Text) : ofJoin key = .ok id ↔ token key ≠ [] ∧ join key = id := by
  by_cases unusable : token key = []
  · simp [of_join_unusable key unusable, unusable]
  · simp [of_join_usable key unusable, unusable]

theorem agent_eq_iff (a b : Text) : agent a = agent b ↔ token a = token b := List.append_right_inj _

def stem (key : Text) : Text := (Text.after? "step_" (token key)).getD (token key)

theorem stem_of_generated (key rest : Text) (same : token key = ("step_" : Text) ++ rest) : stem key = rest := by
  rw [stem, same, Text.after_append, Option.getD_some]

theorem stem_of_other (key : Text) (other : ¬ (token key).startsWith "step_" = true) : stem key = token key := by
  have absent : Text.after? "step_" (token key) = none := if_neg other
  rw [stem, absent, Option.getD_none]

theorem join_eq_stem (key : Text) : join key = ("step_" : Text) ++ (stem key ++ ("_join" : Text)) := by
  by_cases generated : (token key).startsWith "step_" = true
  · obtain ⟨rest, same⟩ := List.isPrefixOf_iff_prefix.mp generated
    rw [join, if_pos generated, stem_of_generated key rest same.symm, ← same, List.append_assoc]
  · rw [join, if_neg generated, stem_of_other key generated]
    simp [Text.concat]

theorem join_eq_iff (k l : Text) : join k = join l ↔ stem k = stem l := by
  rw [join_eq_stem, join_eq_stem, List.append_right_inj, List.append_left_inj]

theorem agent_ne_join (name key : Text) : agent name ≠ join key := by
  intro same
  have heads : some ('a' : CodePoint) = some ('s' : CodePoint) := congrArg List.head? (same.trans (join_eq_stem key))
  exact absurd heads (by decide)

theorem agent_ne_standard (name : Text) : agent name ≠ Settings.standard.synthesisNodeId := by
  intro same
  have heads : some ('a' : CodePoint) = some ('o' : CodePoint) := congrArg List.head? same
  exact absurd heads (by decide)

theorem join_ne_standard (key : Text) : join key ≠ Settings.standard.synthesisNodeId := by
  intro same
  have heads : some ('s' : CodePoint) = some ('o' : CodePoint) := congrArg List.head? ((join_eq_stem key).symm.trans same)
  exact absurd heads (by decide)

theorem letter_bound (c : CodePoint) : (tokenLetter c).val ≤ 0x7A := by
  by_cases kept : CodePoint.isAlphanumeric c = true
  · rw [tokenLetter, if_pos kept, CodePoint.lower_val]
    simp only [CodePoint.isAlphanumeric, CodePoint.isDigit, CodePoint.isUpper, CodePoint.isLower, Bool.or_eq_true,
      Bool.and_eq_true, decide_eq_true_eq] at kept ⊢
    split <;> omega
  · rw [tokenLetter, if_neg kept]
    decide

theorem mem_of_mem_collapse (t : Text) (c : CodePoint) (member : c ∈ collapse t) : c ∈ t := by
  induction t using collapse.induct with
  | case1 => exact member
  | case2 d => exact member
  | case3 d e rest repeated ih =>
      rw [collapse, if_pos repeated] at member
      exact List.mem_cons_of_mem d (ih member)
  | case4 d e rest distinct ih =>
      rw [collapse, if_neg distinct] at member
      rcases List.mem_cons.mp member with first | later
      · exact first ▸ List.mem_cons_self
      · exact List.mem_cons_of_mem d (ih later)

theorem letter_of_mem_token (raw : Text) (c : CodePoint) (member : c ∈ token raw) : ∃ letter, tokenLetter letter = c := by
  have collapsed := mem_of_mem_collapse _ c (Text.mem_of_mem_trim_while _ _ c member)
  obtain ⟨letter, _, same⟩ := List.mem_map.mp collapsed
  exact ⟨letter, same⟩

theorem token_bound (raw : Text) : ∀ c ∈ token raw, c.val ≤ 0x7A := by
  intro c member
  obtain ⟨letter, rfl⟩ := letter_of_mem_token raw c member
  exact letter_bound letter

theorem string_bound (s : String) (bound : s.toList.all (fun letter => letter.toNat ≤ 0x7A) = true) :
    ∀ c ∈ Text.ofString s, c.val ≤ 0x7A := by
  intro c member
  obtain ⟨letter, inside, rfl⟩ := List.mem_map.mp member
  exact of_decide_eq_true (List.all_eq_true.mp bound letter inside)

theorem agent_bound (name : Text) : ∀ c ∈ agent name, c.val ≤ 0x7A :=
  List.forall_mem_append.mpr ⟨string_bound _ (by decide), token_bound name⟩

theorem stem_suffix (key : Text) : stem key <:+ token key := by
  by_cases generated : (token key).startsWith "step_" = true
  · obtain ⟨rest, same⟩ := List.isPrefixOf_iff_prefix.mp generated
    rw [stem_of_generated key rest same.symm, ← same]
    exact List.suffix_append _ rest
  · rw [stem_of_other key generated]

theorem join_bound (key : Text) : ∀ c ∈ join key, c.val ≤ 0x7A := by
  rw [join_eq_stem]
  exact List.forall_mem_append.mpr ⟨string_bound _ (by decide),
    List.forall_mem_append.mpr ⟨fun c member => token_bound key c ((stem_suffix key).subset member), string_bound _ (by decide)⟩⟩

theorem no_surrogate_of_bound (t : Text) (bound : ∀ c ∈ t, c.val ≤ 0x7A) : t.hasSurrogate = false := by
  refine (Text.no_surrogate_iff t).mpr fun c member => ?_
  have low := bound c member
  rw [CodePoint.isSurrogate, Bool.and_eq_false_iff]
  exact .inl (decide_eq_false (by omega))

theorem agent_no_surrogate (name : Text) : (agent name).hasSurrogate = false := no_surrogate_of_bound _ (agent_bound name)

theorem join_no_surrogate (key : Text) : (join key).hasSurrogate = false := no_surrogate_of_bound _ (join_bound key)

end NodeId

end PlanFlow
