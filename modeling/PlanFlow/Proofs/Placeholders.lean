import PlanFlow.Proofs.Prompting

/-!
The placeholders in prompts. A prompt is made of lines, and only in the names of steps can there be braces that the
compiler did not put there; no placeholder reaches over the end of such a name.
-/

set_option autoImplicit false

namespace PlanFlow

namespace Prompt

def opening : CodePoint := '\x7b'

def closing : CodePoint := '\x7d'

def isBrace (c : CodePoint) : Bool := c = opening || c = closing

def Braceless (t : Text) : Prop := ∀ c ∈ t, isBrace c = false

def firstBrace? (t : Text) : Option CodePoint := t.find? isBrace

def lastBrace? (t : Text) : Option CodePoint := firstBrace? t.reverse

def Opens (t : Text) : Prop := [opening, opening] <:+: t

def Sealed (line : Text) : Prop := Opens line → lastBrace? line ≠ some opening

theorem placeholder_eq (x : Text) : placeholder x = opening :: opening :: (x ++ [closing, closing]) := by
  simp only [placeholder, Text.concat, List.flatten_cons, List.flatten_nil, List.append_nil]
  rfl

theorem first_brace_append (t rest : Text) (plain : Braceless t) : firstBrace? (t ++ rest) = firstBrace? rest := by
  have nothing : t.find? isBrace = none := List.find?_eq_none.mpr fun c member => by simp [plain c member]
  rw [firstBrace?, List.find?_append, nothing, Option.none_or, firstBrace?]

theorem last_brace_append (t rest : Text) (plain : Braceless rest) : lastBrace? (t ++ rest) = lastBrace? t := by
  rw [lastBrace?, List.reverse_append, first_brace_append _ _ fun c member => plain c (List.mem_reverse.mp member), lastBrace?]

theorem opens_of_placeholder (t x : Text) (found : placeholder x <:+: t) : Opens t := by
  refine List.IsInfix.trans ?_ found
  rw [placeholder_eq]
  exact (List.prefix_append [opening, opening] _).isInfix

theorem placeholder_cut (x front back : Text) (whole : placeholder x = front ++ back) (before : front ≠ [])
    (behind : back ≠ []) : front = [opening] ∨ back = [closing] ∨
      ∃ y z, x = y ++ z ∧ front = opening :: opening :: y ∧ back = z ++ [closing, closing] := by
  rw [placeholder_eq] at whole
  match front with
  | [] => exact absurd rfl before
  | [c] =>
      obtain ⟨rfl, _⟩ := List.cons.inj whole
      exact .inl rfl
  | c :: d :: y =>
      simp only [List.cons_append, List.cons.injEq] at whole
      obtain ⟨rfl, rfl, rest⟩ := whole
      rcases List.append_eq_append_iff.mp rest with ⟨late, rfl, ends⟩ | ⟨z, rfl, rfl⟩
      · match late with
        | [] => exact .inr (.inr ⟨x, [], by simp, by simp, ends.symm⟩)
        | [_] => exact .inr (.inl (List.cons.inj ends).2.symm)
        | _ :: _ :: late =>
            have nothing := List.append_eq_nil_iff.mp (List.cons.inj (List.cons.inj ends).2).2.symm
            exact absurd nothing.2 behind
      · exact .inr (.inr ⟨y, z, rfl, rfl, rfl⟩)

section

variable (x : Text) (plain : Braceless x)

theorem placeholder_cons (c : CodePoint) (other : c ≠ opening) (t : Text) :
    placeholder x <:+: c :: t ↔ placeholder x <:+: t := by
  have elsewhere : ¬ placeholder x <+: c :: t := by
    rw [placeholder_eq, List.cons_prefix_cons]
    exact fun both => other both.1.symm
  rw [List.infix_cons_iff, or_iff_right elsewhere]

include plain

-- No placeholder reaches over a border behind which no brace follows at once, unless one is open there that is closed next.
theorem placeholder_append (a b : Text) (clear : ∀ c ∈ b.head?, isBrace c = false)
    (apart : Opens a → lastBrace? a = some opening → firstBrace? b ≠ some closing) :
    placeholder x <:+: a ++ b ↔ placeholder x <:+: a ∨ placeholder x <:+: b := by
  rw [List.infix_append_iff, ← or_assoc]
  refine or_iff_left_of_imp ?_
  rintro ⟨front, back, whole, left, right⟩
  by_cases before : front = []
  · rw [before, List.nil_append] at whole
    exact .inr (whole ▸ right.isInfix)
  by_cases behind : back = []
  · rw [behind, List.append_nil] at whole
    exact .inl (whole ▸ left.isInfix)
  rcases placeholder_cut x front back whole before behind with rfl | rfl | ⟨y, z, rfl, rfl, rfl⟩
  · simp only [placeholder_eq, List.cons_append, List.nil_append, List.cons.injEq, true_and] at whole
    obtain ⟨rest, rfl⟩ := whole ▸ right
    exact absurd (clear opening rfl) (by decide)
  · obtain ⟨rest, rfl⟩ := right
    exact absurd (clear closing rfl) (by decide)
  · have opened : firstBrace? (opening :: opening :: y).reverse = some opening :=
      last_brace_append [opening, opening] y fun c member => plain c (List.mem_append_left z member)
    have closed : firstBrace? (z ++ [closing, closing]) = some closing :=
      first_brace_append z [closing, closing] fun c member => plain c (List.mem_append_right y member)
    have opens : Opens a := (List.prefix_append [opening, opening] y).isInfix.trans left.isInfix
    exact absurd (right.find?_eq_some closed) (apart opens ((List.reverse_prefix.mpr left).find?_eq_some opened))

theorem placeholder_in_placeholder (node : Text) (named : Braceless node) :
    placeholder x <:+: placeholder node ↔ x = node := by
  constructor
  · intro inside
    have front (t rest : Text) (given : Braceless t) : (t ++ closing :: rest).takeWhile (fun c => !isBrace c) = t := by
      rw [List.takeWhile_append_of_pos fun c member => by simp [given c member]]
      exact List.append_nil t
    have absent : ¬ opening ∈ node ++ [closing, closing] := by
      rw [List.mem_append]
      rintro (member | member)
      · exact absurd (named opening member) (by decide)
      · exact absurd member (by decide)
    rw [placeholder_eq, placeholder_eq, List.infix_cons_iff, List.infix_cons_iff] at inside
    rcases inside with whole | late | later
    · simp only [List.cons_prefix_cons, true_and] at whole
      obtain ⟨rest, ends⟩ := whole
      rw [List.append_assoc] at ends
      rw [← front x _ plain, ← front node [closing] named]
      exact congrArg _ ends
    · exact absurd ((List.cons_prefix_cons.mp late).2.subset List.mem_cons_self) absent
    · exact absurd (later.subset List.mem_cons_self) absent
  · rintro rfl
    exact List.infix_refl _

theorem placeholder_in_line (d : Dependency) (named : Braceless d.node) :
    placeholder x <:+: d.line ↔ placeholder x <:+: d.key ∨ x = d.node := by
  have line : d.line = ('-' : CodePoint) :: (' ' : CodePoint) ::
      (d.key ++ (':' : CodePoint) :: (' ' : CodePoint) :: placeholder d.node) := by
    simp only [Dependency.line, Text.concat, List.flatten_cons, List.flatten_nil, List.append_nil]
    rfl
  have open_first : firstBrace? ((':' : CodePoint) :: (' ' : CodePoint) :: placeholder d.node) = some opening := by
    rw [placeholder_eq]
    rfl
  have colon : ∀ c ∈ ((':' : CodePoint) :: (' ' : CodePoint) :: placeholder d.node).head?, isBrace c = false := by
    rintro c ⟨⟩
    decide
  rw [line, placeholder_cons x _ (by decide), placeholder_cons x _ (by decide), placeholder_append x plain _ _ colon
    fun _ _ => by rw [open_first]; decide, placeholder_cons x _ (by decide), placeholder_cons x _ (by decide),
    placeholder_in_placeholder x plain _ named]

theorem placeholder_in_join (parts : List Text) (closed : ∀ part ∈ parts, Sealed part) :
    placeholder x <:+: Text.join "\n" parts ↔ ∃ part ∈ parts, placeholder x <:+: part := by
  induction parts using Text.join.induct with
  | case1 => simp [Text.join, placeholder_eq]
  | case2 part => simp [Text.join]
  | case3 part rest nonempty ih =>
      obtain ⟨first, others⟩ := List.forall_mem_cons.mp closed
      have border : ∀ c ∈ (('\n' : CodePoint) :: Text.join "\n" rest).head?, isBrace c = false := by
        rintro c ⟨⟩
        decide
      have whole : Text.join "\n" (part :: rest) = part ++ ('\n' : CodePoint) :: Text.join "\n" rest := by
        rw [Text.join, List.append_assoc]
        · rfl
        · exact nonempty
      rw [whole, placeholder_append x plain _ _ border fun opens last => absurd last (first opens),
        placeholder_cons x _ (by decide), ih others, List.exists_mem_cons_iff]

end

theorem line_sealed (front : Text) (node : Text) : Sealed (front ++ placeholder node) := by
  have last : lastBrace? (front ++ placeholder node) = some closing := by
    rw [placeholder_eq, lastBrace?, List.reverse_append, List.reverse_cons, List.reverse_cons, List.reverse_append]
    rfl
  intro _ same
  rw [last] at same
  exact absurd same (by decide)

instance : DecidablePred Opens := fun t => inferInstanceAs (Decidable ([opening, opening] <:+: t))

def Quiet (group : List Text) : Prop := ∀ line ∈ group, ¬ Opens line

instance (group : List Text) : Decidable (Quiet group) := inferInstanceAs (Decidable (∀ line ∈ group, ¬ Opens line))

theorem quiet_unless_blank (instructions : Text) (group : List Text) (quiet : Quiet group) :
    Quiet (unlessBlank instructions group) := by
  by_cases blank : instructions.trim.isEmpty = true
  · rw [unlessBlank, if_pos blank]
    exact List.forall_mem_nil _
  · rwa [unlessBlank, if_neg blank]

theorem unless_empty_parts (items heading : List Text) (quiet : Quiet heading) :
    ∃ front, Quiet front ∧ unlessEmpty items heading = front ++ items := by
  cases items with
  | nil => exact ⟨[], List.forall_mem_nil _, rfl⟩
  | cons head tail => exact ⟨heading, quiet, rfl⟩

theorem placeholder_in_lines (x : Text) (plain : Braceless x) (groups : List (List Text)) (items heading : List Text)
    (quiet : ∀ group ∈ groups, Quiet group) (headed : Quiet heading) (closed : ∀ item ∈ items, Sealed item) :
    placeholder x <:+: lines (groups ++ [unlessEmpty items heading]) ↔ ∃ item ∈ items, placeholder x <:+: item := by
  obtain ⟨rest, others, list⟩ := unless_empty_parts items heading headed
  have front : Quiet (groups.flatten ++ rest) := by
    refine List.forall_mem_append.mpr ⟨fun line member => ?_, others⟩
    obtain ⟨group, given, inside⟩ := List.mem_flatten.mp member
    exact quiet group given line inside
  have whole : (groups ++ [unlessEmpty items heading]).flatten = groups.flatten ++ rest ++ items := by
    rw [List.flatten_concat, list, List.append_assoc]
  have all : ∀ part ∈ groups.flatten ++ rest ++ items, Sealed part :=
    List.forall_mem_append.mpr ⟨fun line member opens => absurd opens (front line member), closed⟩
  rw [lines, whole, placeholder_in_join x plain _ all]
  constructor
  · rintro ⟨part, member, inside⟩
    refine ⟨part, (List.mem_append.mp member).resolve_left fun early => ?_, inside⟩
    exact front part early (opens_of_placeholder part x inside)
  · rintro ⟨item, member, inside⟩
    exact ⟨item, List.mem_append_right _ member, inside⟩

section

variable (x : Text) (plain : Braceless x) (instructions task : Text) (mild : ¬ Opens instructions) (calm : ¬ Opens task)

include plain mild calm

theorem placeholder_in_agent (dependencies : List Dependency) (named : ∀ d ∈ dependencies, Braceless d.node) :
    placeholder x <:+: agent instructions task dependencies ↔
      ∃ d ∈ dependencies, placeholder x <:+: d.key ∨ x = d.node := by
  have given : Quiet (unlessBlank instructions [instructions.trim]) :=
    quiet_unless_blank instructions _ (List.forall_mem_singleton.mpr fun opens => mild (opens.trans (instructions.trim_while_infix _)))
  have asked : Quiet ["USER_TASK:", task.trim] :=
    List.forall_mem_cons.mpr ⟨by decide, List.forall_mem_singleton.mpr fun opens => calm (opens.trans (task.trim_while_infix _))⟩
  have closed : ∀ item ∈ dependencies.map Dependency.line, Sealed item := by
    intro item member
    obtain ⟨d, _, rfl⟩ := List.mem_map.mp member
    have parts : d.line = Text.concat ["- ", d.key, ": "] ++ placeholder d.node := by simp [Dependency.line, Text.concat]
    exact parts ▸ line_sealed _ d.node
  have quiet := List.forall_mem_cons.mpr ⟨given, List.forall_mem_singleton.mpr asked⟩
  refine (placeholder_in_lines x plain _ _ ["", "PREVIOUS_STEP_OUTPUTS:"] quiet (by decide) closed).trans ?_
  simp only [List.mem_map, exists_exists_and_eq_and]
  exact exists_congr fun d => and_congr_right fun member => placeholder_in_line x plain d (named d member)

theorem placeholder_in_synthesis (outputs : List Text) (named : ∀ node ∈ outputs, Braceless node) :
    placeholder x <:+: synthesis instructions task outputs ↔ x ∈ outputs := by
  have given : Quiet (unlessBlank instructions ["", "COMMAND:", instructions.trim]) := by
    refine quiet_unless_blank instructions _ (List.forall_mem_cons.mpr ⟨by decide, List.forall_mem_cons.mpr ⟨by decide, ?_⟩⟩)
    exact List.forall_mem_singleton.mpr fun opens => mild (opens.trans (instructions.trim_while_infix _))
  have asked : Quiet ["", "USER_TASK:", task.trim] := by
    refine List.forall_mem_cons.mpr ⟨by decide, List.forall_mem_cons.mpr ⟨by decide, ?_⟩⟩
    exact List.forall_mem_singleton.mpr fun opens => calm (opens.trans (task.trim_while_infix _))
  have line (node : Text) : outputLine node = ("- " : Text) ++ placeholder node := by simp [outputLine, Text.concat]
  have closed : ∀ item ∈ outputs.map outputLine, Sealed item := by
    intro item member
    obtain ⟨node, _, rfl⟩ := List.mem_map.mp member
    exact line node ▸ line_sealed _ node
  have own (node : Text) (member : node ∈ outputs) : placeholder x <:+: outputLine node ↔ x = node := by
    have start : outputLine node = ('-' : CodePoint) :: (' ' : CodePoint) :: placeholder node := line node
    rw [start, placeholder_cons x _ (by decide), placeholder_cons x _ (by decide),
      placeholder_in_placeholder x plain node (named node member)]
  have opened : Quiet ["Synthesize the results and complete the task."] := by decide
  have quiet := List.forall_mem_cons.mpr ⟨opened, List.forall_mem_cons.mpr ⟨given, List.forall_mem_singleton.mpr asked⟩⟩
  refine (placeholder_in_lines x plain _ _ ["", "RESULTS:"] quiet (by decide) closed).trans ?_
  simp only [List.mem_map, exists_exists_and_eq_and]
  constructor
  · rintro ⟨node, member, inside⟩
    exact (own node member).mp inside ▸ member
  · intro member
    exact ⟨x, member, (own x member).mpr rfl⟩

end

theorem braceless_of_bound (t : Text) (bound : ∀ c ∈ t, c.val ≤ 0x7A) : Braceless t := by
  intro c member
  have low := bound c member
  have first : c ≠ opening := fun same => absurd (same ▸ low) (by decide)
  have last : c ≠ closing := fun same => absurd (same ▸ low) (by decide)
  simp [isBrace, first, last]

theorem no_placeholder (t : Text) (plain : Braceless t) (x : Text) : ¬ placeholder x <:+: t := by
  intro inside
  have member : opening ∈ t := (opens_of_placeholder t x inside).subset List.mem_cons_self
  exact absurd (plain opening member) (by decide)

end Prompt

open Prompt (placeholder Braceless Opens)

namespace PlanStep

theorem output_braceless (step : PlanStep) (index : Nat) : Braceless (step.outputId index) := by
  rw [outputId]
  split
  · exact Prompt.braceless_of_bound _ (NodeId.agent_bound _)
  · exact Prompt.braceless_of_bound _ (NodeId.join_bound _)

theorem placeholder_in_key (step : PlanStep) (index : Nat) (x : Text) :
    placeholder x <:+: step.key index ↔ placeholder x <:+: step.trimmedId := by
  by_cases blank : step.trimmedId = []
  · have made : ∀ c ∈ step.key index, c.val ≤ 0x7A := by
      rw [key, blank]
      refine List.forall_mem_append.mpr ⟨NodeId.string_bound _ (by decide), fun c member => ?_⟩
      have digit := Decimal.digit_of_mem _ c member
      simp only [CodePoint.isDigit, Bool.and_eq_true, decide_eq_true_eq] at digit
      omega
    have empty : Braceless step.trimmedId := blank ▸ List.forall_mem_nil _
    exact iff_of_false (Prompt.no_placeholder _ (Prompt.braceless_of_bound _ made) x) (Prompt.no_placeholder _ empty x)
  · rw [step.key_of_id index blank]

end PlanStep

namespace Plan

-- The step of an agent's node follows a step whose id holds a placeholder.
def Quotes (plan : Plan) (node x : Text) : Prop :=
  ∃ (i j : Nat) (step source : PlanStep) (selection : Selection), plan.steps[i]? = some step ∧ selection ∈ step.agents ∧
    NodeId.ofAgent selection.id.trim = .ok node ∧ plan.Follows i j ∧ plan.steps[j]? = some source ∧
    placeholder x <:+: source.trimmedId

section

variable (plan : Plan) (context : Context) (settings : Settings) (job : Job) (fits : plan.Compilable context settings job)

include fits

theorem follows_listed (i j : Nat) (step source : PlanStep) (found : plan.steps[i]? = some step)
    (at_source : plan.steps[j]? = some source) (follows : plan.Follows i j) :
    (⟨source.key j, source.outputId j⟩ : Prompt.Dependency) ∈ plan.resolved i step := by
  obtain ⟨d, member, same⟩ := List.mem_map.mp
    ((plan.mem_resolved context.agents fits.valid i step found _).mpr ⟨j, source, follows, at_source, rfl⟩)
  obtain ⟨k, other, _, at_other, rfl⟩ := plan.resolved_outputs context.agents fits.valid i step found d member
  obtain ⟨rfl, rfl⟩ := plan.output_owner context settings fits.valid fits.sketchable.unique k j _ _ at_other at_source same
  exact member

variable (mild : ¬ Opens job.instructions) (calm : ¬ Opens job.task) (x : Text) (plain : Braceless x)

include mild calm plain

theorem agent_placeholders (i : Nat) (step : PlanStep) (selection : Selection) (found : plan.steps[i]? = some step)
    (selected : selection ∈ step.agents) :
    placeholder x <:+: Prompt.agent job.instructions job.task (plan.resolved i step) ↔
      x ∈ (plan.resolved i step).map Prompt.Dependency.node ∨ plan.Quotes selection.nodeId x := by
  have listing := plan.resolved_listing context settings job fits i step found
  have named : ∀ d ∈ plan.resolved i step, Braceless d.node := by
    intro d member
    obtain ⟨j, source, _, _, rfl⟩ := listing.outputs d member
    exact source.output_braceless j
  have usable := (fits.sketchable.ready i step found).usable selection selected
  rw [Prompt.placeholder_in_agent x plain _ _ mild calm _ named]
  constructor
  · rintro ⟨d, member, quoted | rfl⟩
    · obtain ⟨j, source, follows, at_source, rfl⟩ := listing.outputs d member
      exact .inr ⟨i, j, step, source, selection, found, selected, (NodeId.of_agent_eq_ok _ _).mpr ⟨usable.token, rfl⟩,
        follows, at_source, (source.placeholder_in_key j x).mp quoted⟩
    · exact .inl (List.mem_map_of_mem member)
  · rintro (waits | ⟨k, j, other, source, twin, at_other, in_other, same, follows, at_source, quoted⟩)
    · obtain ⟨d, member, rfl⟩ := List.mem_map.mp waits
      exact ⟨d, member, .inr rfl⟩
    · have owned : plan.Owns k selection.nodeId :=
        ((NodeId.of_agent_eq_ok _ _).mp same).2 ▸ plan.owns_agent k other twin at_other in_other
      obtain rfl := plan.owner_unique settings fits.sketchable.unique k i _ owned (plan.owns_agent i step selection found selected)
      exact ⟨_, plan.follows_listed context settings job fits k j step source found at_source follows,
        .inl ((source.placeholder_in_key j x).mpr quoted)⟩

theorem compiled_placeholders (node : Node) (member : node ∈ (plan.compiled context settings job).nodes) (prompt : Text)
    (given : node.prompt? = some prompt) :
    placeholder x <:+: prompt ↔ x ∈ node.dependsOn.getD [] ∨ plan.Quotes node.id x := by
  obtain ⟨p, inside, rfl⟩ := List.mem_map.mp member
  rw [p.settled_waits]
  cases (plan.mem_layout_iff context settings job p).mp inside with
  | agent i step selection found selected =>
      have usable := (fits.sketchable.ready i step found).usable selection selected
      rw [selection.placed_prompt context settings.defaultTools _ _ usable, Option.some.injEq] at given
      exact given ▸ plan.agent_placeholders context settings job fits mild calm x plain i step selection found selected
  | join i step found joined => cases given
  | last =>
      have named : ∀ id ∈ plan.terminals, Braceless id := by
        intro id terminal
        obtain ⟨j, source, _, _, rfl⟩ := (plan.mem_terminals context.agents fits.valid id).mp terminal
        exact source.output_braceless j
      have unquoted : ¬ plan.Quotes settings.synthesisNodeId x := by
        rintro ⟨i, _, step, _, selection, found, selected, same, _⟩
        refine plan.synthesis_not_owned settings fits.sketchable.unique i ?_
        exact ((NodeId.of_agent_eq_ok _ _).mp same).2 ▸ plan.owns_agent i step selection found selected
      obtain rfl : Prompt.synthesis job.instructions job.task plan.terminals = prompt := Option.some.inj given
      exact (Prompt.placeholder_in_synthesis x plain _ _ mild calm _ named).trans (or_iff_left unquoted).symm

end

end Plan

theorem compile_placeholders (payload : Payload Plan) (context : Context) (settings : Settings) (job : Job) (plan : Plan)
    (spec : Spec) (given : Plan.read payload = .ok plan) (compiled : compile payload context settings job = .ok spec)
    (mild : ¬ Opens job.instructions) (calm : ¬ Opens job.task) :
    (∀ node ∈ spec.nodes, ∀ prompt, node.prompt? = some prompt → ∀ x, Braceless x →
      (placeholder x <:+: prompt ↔ x ∈ node.dependsOn.getD [] ∨ plan.Quotes node.id x)) ∧
    ((∀ step ∈ plan.steps, ∀ x, Braceless x → ¬ placeholder x <:+: step.trimmedId) →
      ∀ node ∈ spec.nodes, ∀ prompt, node.prompt? = some prompt → ∀ x, Braceless x →
        (placeholder x <:+: prompt ↔ x ∈ node.dependsOn.getD [])) := by
  obtain ⟨other, read, fits, rfl, _⟩ := (Plan.compile_eq_ok payload context settings job spec).mp compiled
  obtain rfl : plan = other := Except.ok.inj (given.symm.trans read)
  refine ⟨fun node member prompt said x plain =>
    plan.compiled_placeholders context settings job fits mild calm x plain node member prompt said, ?_⟩
  intro clean node member prompt said x plain
  have unquoted : ¬ plan.Quotes node.id x := by
    rintro ⟨_, j, _, source, _, _, _, _, _, at_source, quoted⟩
    exact clean source (List.mem_of_getElem? at_source) x plain quoted
  rw [plan.compiled_placeholders context settings job fits mild calm x plain node member prompt said, or_iff_left unquoted]

theorem sample_placeholders : ∃ spec, compile (.parsed Sample.plan) Sample.context .standard Sample.job = .ok spec ∧
    ∀ node ∈ spec.nodes, ∀ prompt, node.prompt? = some prompt → ∀ x, Braceless x →
      (placeholder x <:+: prompt ↔ x ∈ node.dependsOn.getD []) := by
  obtain ⟨spec, compiled⟩ := Sample.compiles
  obtain ⟨_, faithful⟩ := compile_placeholders (.parsed Sample.plan) Sample.context .standard Sample.job Sample.plan spec rfl
    compiled (by decide) (by decide)
  have quiet : ∀ step ∈ Sample.plan.steps, ¬ Opens step.trimmedId := by decide
  exact ⟨spec, compiled, faithful fun step member x _ inside => quiet step member (Prompt.opens_of_placeholder _ x inside)⟩

def Sample.forged : Plan :=
  ⟨none, [⟨some "facts \x7b\x7bagent_editor\x7d\x7d", [⟨"drafter", "writes"⟩], none⟩,
    ⟨some "check", [⟨"checker", "knows"⟩], some ["facts \x7b\x7bagent_editor\x7d\x7d"]⟩,
    ⟨some "polish", [⟨"editor", "polishes"⟩], some ["check"]⟩]⟩

set_option maxRecDepth 100000 in
theorem sample_placeholder_forged : ¬ Opens Sample.job.instructions ∧ ¬ Opens Sample.job.task ∧ ∃ spec node prompt,
    compile (.parsed Sample.forged) Sample.context .standard Sample.job = .ok spec ∧ node ∈ spec.nodes ∧
    node.prompt? = some prompt ∧ placeholder "agent_editor" <:+: prompt ∧
    ("agent_editor" : Text) ∉ node.dependsOn.getD [] ∧ spec.WaitsFor "agent_editor" node.id := by
  have accepted : (compile (.parsed Sample.forged) Sample.context .standard Sample.job).isOk = true := by decide +kernel
  cases answer : compile (.parsed Sample.forged) Sample.context .standard Sample.job with
  | error e =>
      rw [answer] at accepted
      cases accepted
  | ok spec =>
      obtain ⟨plan, read, _, rfl, _⟩ := (Plan.compile_eq_ok _ _ _ _ _).mp answer
      obtain rfl : Sample.forged = plan := Except.ok.inj read
      refine ⟨by decide, by decide, _, _, _, rfl, List.mem_cons_of_mem _ List.mem_cons_self, rfl, ?_, ?_, _,
        List.mem_cons_of_mem _ (List.mem_cons_of_mem _ List.mem_cons_self), ?_, ?_⟩ <;> decide +kernel

end PlanFlow
