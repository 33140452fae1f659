import PlanFlow.Agent
import PlanFlow.Proofs.FirstFault
import PlanFlow.Proofs.Table

/-!
The agents that a planner may choose from. Names that are given restrict the choice to these names, in the order given; the
first of them that no described agent has is what the choice is refused for.
-/

set_option autoImplicit false

namespace PlanFlow

-- The agent that counts under a name is the last one that has it.
def Agent.latest? (agents : List Agent) (name : Text) : Option Agent :=
  agents.reverse.find? fun agent => agent.name == name

theorem Agent.latest_name (agents : List Agent) (name : Text) (agent : Agent) (found : latest? agents name = some agent) :
    agent.name = name := by
  simpa using List.find?_some found

theorem named_results {α β : Type} (name : β → α) (holds : β → Prop) (items : List α) (results : List β) :
    List.Forall₂ (fun item result => name result = item ∧ holds result) items results ↔
      results.map name = items ∧ ∀ result ∈ results, holds result := by
  induction results generalizing items with
  | nil => simp [eq_comm]
  | cons head tail ih =>
      simp only [List.forall₂_cons_right_iff, ih, List.map_cons, List.forall_mem_cons]
      constructor
      · rintro ⟨_, rest, ⟨rfl, first⟩, ⟨rfl, others⟩, rfl⟩
        exact ⟨rfl, first, others⟩
      · rintro ⟨rfl, first, others⟩
        exact ⟨_, _, ⟨rfl, first⟩, ⟨rfl, others⟩, rfl⟩

structure Candidate.Offered (c : Candidate) (agents : List Agent) : Prop where
  counts : Agent.latest? agents c.name = some c.agent
  described : ∃ given, c.agent.description = some given ∧ c.description = given.trim
  nonblank : c.description ≠ []

-- What a choice is refused for: that there is no name to choose, and then each name in turn.
inductive CandidateFault (agents : List Agent) (names : List Text) : Faults CompileError where
  | nothing (nameless : names = []) : CandidateFault agents names [0] .noCandidates
  | unknown (i : Nat) (name : Text) (there : names[i]? = some name) (absent : Agent.latest? agents name = none) :
      CandidateFault agents names [1, i] (.agentNotFound name)
  | undescribed (i : Nat) (name : Text) (agent : Agent) (there : names[i]? = some name)
      (found : Agent.latest? agents name = some agent) (blank : agent.trimmedDescription = []) :
      CandidateFault agents names [1, i] (.missingDescription none name)

namespace AgentRegistry

theorem find_of_list (agents : List Agent) (name : Text) : (ofList agents).find? name = Agent.latest? agents name := by
  induction agents using List.reverseRecOn with
  | nil => rfl
  | append_singleton front last ih =>
      have grown : ofList (front ++ [last]) = Table.put last.name last (ofList front) := by
        rw [ofList, Table.ofPairs, List.map_append, List.foldl_append]
        rfl
      rw [find?, grown, Table.get_put, Agent.latest?, List.reverse_append]
      by_cases same : last.name = name
      · simp [same]
      · rw [if_neg same, ← find?, ih]
        simp [Agent.latest?, same]

section

variable (agents : List Agent) (names : List Text) (name : Text)

theorem candidate_of_absent (absent : Agent.latest? agents name = none) :
    (ofList agents).candidate name = .error (.agentNotFound name) := by
  rw [candidate, get, find_of_list, absent]

theorem candidate_of_found (agent : Agent) (found : Agent.latest? agents name = some agent) :
    (ofList agents).candidate name = if agent.trimmedDescription = [] then .error (.missingDescription none name)
      else .ok ⟨agent.name, agent.trimmedDescription, agent⟩ := by
  rw [candidate, get, find_of_list, found]
  by_cases blank : agent.trimmedDescription = [] <;> simp [Agent.hasDescription, blank]

theorem candidate_eq_ok (c : Candidate) :
    (ofList agents).candidate name = .ok c ↔ c.name = name ∧ c.Offered agents := by
  cases found : Agent.latest? agents name with
  | none =>
      rw [candidate_of_absent agents name found]
      refine ⟨nofun, ?_⟩
      rintro ⟨rfl, offered⟩
      rw [offered.counts] at found
      cases found
  | some agent =>
      rw [candidate_of_found agents name agent found]
      constructor
      · intro done
        split_ifs at done with blank
        obtain rfl := Except.ok.inj done
        obtain rfl := Agent.latest_name agents name agent found
        refine ⟨rfl, found, ?_, blank⟩
        cases given : agent.description with
        | none =>
            rw [Agent.trimmedDescription, given] at blank
            exact absurd rfl blank
        | some text => exact ⟨text, rfl, by rw [Agent.trimmedDescription, given, Option.getD_some]⟩
      · rintro ⟨rfl, ⟨counts, ⟨given, described, trimmed⟩, nonblank⟩⟩
        obtain ⟨own, description, own_agent⟩ := c
        obtain rfl := Option.some.inj (found.symm.trans counts)
        obtain rfl := Agent.latest_name agents own agent found
        have same : agent.trimmedDescription = description := by
          rw [Agent.trimmedDescription, described, Option.getD_some]
          exact trimmed.symm
        rw [same, if_neg nonblank]

theorem candidates_of_names (nonempty : names ≠ []) :
    (ofList agents).candidates names = names.mapM (ofList agents).candidate := by
  have given : names.isEmpty = false := List.isEmpty_eq_false_iff.mpr nonempty
  simp [candidates, selectedNames, given]

theorem candidates_eq_ok (found : List Candidate) (nonempty : names ≠ []) :
    (ofList agents).candidates names = .ok found ↔
      found.map Candidate.name = names ∧ ∀ c ∈ found, c.Offered agents := by
  rw [candidates_of_names agents names nonempty, map_m_eq_ok]
  simp only [candidate_eq_ok]
  exact named_results Candidate.name (fun c => c.Offered agents) names found

theorem candidates_of_nobody : (ofList []).candidates [] = .error .noCandidates := rfl

theorem candidate_finds (i : Nat) (there : names[i]? = some name) :
    FindsFirst (Faults.part (Faults.part (CandidateFault agents names) 1) i) ((ofList agents).candidate name) := by
  cases found : Agent.latest? agents name with
  | none =>
      rw [candidate_of_absent agents name found]
      exact .failed _ [] (.unknown i name there found) fun other _ _ => List.not_lt_nil other
  | some agent =>
      rw [candidate_of_found agents name agent found]
      refine .test _ _ _ (fun blank => .undescribed i name agent there found blank) fun _ _ fault => ?_
      cases fault with
      | unknown _ _ same absent =>
          obtain rfl := Option.some.inj (there.symm.trans same)
          rw [found] at absent
          cases absent
      | undescribed _ _ _ same other blank =>
          obtain rfl := Option.some.inj (there.symm.trans same)
          obtain rfl := Option.some.inj (found.symm.trans other)
          exact blank

theorem candidates_find (restricted : names = [] → agents = []) :
    FindsFirst (CandidateFault agents names) ((ofList agents).candidates names) := by
  refine .of_onward_zero _ nofun ?_
  by_cases nameless : names = []
  · subst nameless
    obtain rfl := restricted rfl
    exact .stop 0 _ (.nothing rfl)
  · rw [candidates_of_names agents names nameless, ← bind_pure (names.mapM _)]
    refine .skip 0 _ (fun _ _ fault => ?_) ?_
    · cases fault with
      | nothing absent => exact nameless absent
    · refine .bind 1 _ _ ?_ fun _ _ => .finish 2 _ fun k _ _ beyond fault => by cases fault <;> omega
      refine .map_each _ names (fun i name there => candidate_finds agents names name i there) (fun k _ _ fault => ?_) nofun
      cases fault with
      | unknown _ _ there => exact (List.getElem?_eq_some_iff.mp there).1
      | undescribed _ _ _ there => exact (List.getElem?_eq_some_iff.mp there).1

end

end AgentRegistry

theorem CandidateFault.unique (agents : List Agent) (names : List Text) : Faults.Unique (CandidateFault agents names) := by
  intro place e e' fault other
  cases fault with
  | nothing => cases other with
    | nothing => rfl
  | unknown i name there absent => cases other with
    | unknown _ _ same => rw [Option.some.inj (there.symm.trans same)]
    | undescribed _ _ _ same found =>
        obtain rfl := Option.some.inj (there.symm.trans same)
        rw [absent] at found
        cases found
  | undescribed i name agent there found => cases other with
    | unknown _ _ same absent =>
        obtain rfl := Option.some.inj (there.symm.trans same)
        rw [absent] at found
        cases found
    | undescribed _ _ _ same => rw [Option.some.inj (there.symm.trans same)]

theorem CandidateFault.kind (agents : List Agent) (names : List Text) (place : List Nat) (e : CompileError)
    (fault : CandidateFault agents names place e) :
    e.kind = .unknownAgent ∨ e.kind = .missingDescription ∨ names = [] ∧ e.kind = .invalidPlan := by
  cases fault with
  | nothing nameless => exact Or.inr (Or.inr ⟨nameless, rfl⟩)
  | unknown => exact Or.inl rfl
  | undescribed => exact Or.inr (Or.inl rfl)

theorem candidates_restricted (agents : List Agent) (names : List Text) (restricted : names = [] → agents = []) :
    (∀ found, (AgentRegistry.ofList agents).candidates names = .ok found ↔
      names ≠ [] ∧ found.map Candidate.name = names ∧ ∀ c ∈ found, c.Offered agents) ∧
    (∀ e, (AgentRegistry.ofList agents).candidates names = .error e ↔
      ∃ place, CandidateFault agents names place e ∧ ∀ other e', CandidateFault agents names other e' → ¬ other < place) ∧
    ∀ e, (AgentRegistry.ofList agents).candidates names = .error e →
      e.kind = .unknownAgent ∨ e.kind = .missingDescription ∨ names = [] ∧ e.kind = .invalidPlan := by
  have first (e : CompileError) := (AgentRegistry.candidates_find agents names restricted).eq_error_iff
    (CandidateFault.unique agents names) _ e
  refine ⟨fun found => ?_, first, fun e failed => ?_⟩
  · by_cases nameless : names = []
    · subst nameless
      obtain rfl := restricted rfl
      rw [AgentRegistry.candidates_of_nobody]
      exact ⟨nofun, fun offered => absurd rfl offered.1⟩
    · rw [AgentRegistry.candidates_eq_ok agents names found nameless]
      exact ⟨fun offered => ⟨nameless, offered⟩, And.right⟩
  · obtain ⟨place, fault, _⟩ := (first e).mp failed
    exact fault.kind

namespace Sample

def drafter : Agent := ⟨"drafter", "Draft.", some (" Writes drafts. " : Text), []⟩

def staff : List Agent := [⟨"drafter", "Draft.", none, []⟩, ⟨"checker", "Check.", some (" " : Text), []⟩, drafter]

end Sample

theorem sample_candidates_restricted :
    (∃ c, (AgentRegistry.ofList Sample.staff).candidates ["drafter"] = .ok [c] ∧ c.Offered Sample.staff) ∧
    ∃ place, CandidateFault Sample.staff ["drafter", "checker", "ghost"] place (.missingDescription none "checker") := by
  obtain ⟨offers, _, _⟩ := candidates_restricted Sample.staff ["drafter"] nofun
  obtain ⟨_, refuses, _⟩ := candidates_restricted Sample.staff ["drafter", "checker", "ghost"] nofun
  obtain ⟨place, fault, _⟩ := (refuses (.missingDescription none "checker")).mp rfl
  have chosen : (AgentRegistry.ofList Sample.staff).candidates ["drafter"] =
      .ok [⟨"drafter", "Writes drafts.", Sample.drafter⟩] := rfl
  exact ⟨⟨_, chosen, ((offers _).mp chosen).2.2 _ List.mem_cons_self⟩, place, fault⟩

theorem sample_candidates_unrestricted : ∃ found c, (AgentRegistry.ofList [Sample.drafter]).candidates [] = .ok found ∧
    c ∈ found ∧ c.name ∉ ([] : List Text) :=
  ⟨[⟨"drafter", "Writes drafts.", Sample.drafter⟩], _, rfl, List.mem_cons_self, List.not_mem_nil⟩

end PlanFlow
