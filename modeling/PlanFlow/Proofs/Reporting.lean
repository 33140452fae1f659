import PlanFlow.Proofs.Admission
import PlanFlow.Proofs.Nesting

/-!
What a rejection shows of the value that was checked: only parts of it, and keys and numbers that were read from it. So a
property of the whole value that its parts share holds of all that is shown.
-/

set_option autoImplicit false

namespace PlanFlow

-- A property that lists and objects pass on to their parts, and that all texts have.
structure Json.Hereditary (p : Json → Prop) : Prop where
  text : ∀ t, p (.str t)
  item : ∀ items, p (.arr items) → ∀ item ∈ items, p item
  field : ∀ fields, p (.obj fields) → ∀ entry ∈ fields, p entry.2

namespace Json

theorem hereditary_depth (room : Nat) : Hereditary fun value => value.depth ≤ room where
  text _ := Nat.zero_le room
  item items shallow := (depth_items_iff items room).mp (Nat.le_of_succ_le shallow)
  field fields shallow := (depth_fields_iff fields room).mp (Nat.le_of_succ_le shallow)

theorem hereditary_printable : Hereditary fun value => value.printable = true where
  text _ := rfl
  item items shown item member := by
    rw [printable_iff] at shown ⊢
    exact fun n held => shown n ((mem_wholes_arr n items).mpr ⟨item, member, held⟩)
  field fields shown entry member := by
    rw [printable_iff] at shown ⊢
    exact fun n held => shown n ((mem_wholes_obj n fields).mpr ⟨entry, member, held⟩)

end Json

namespace Checked

variable {α β : Type} (p : Json → Prop)

def Shows : Checked α → Prop
  | .valid _ => True
  | .invalid issues => ∀ issue ∈ issues, p issue.input

theorem shows_fail (kind : IssueKind) (input : Json) (holds : p input) : (fail kind input : Checked α).Shows p :=
  List.forall_mem_singleton.mpr holds

theorem shows_map (f : α → β) (checked : Checked α) (shows : checked.Shows p) : (f <$> checked).Shows p := by
  cases checked with
  | valid value => trivial
  | invalid issues => exact shows

theorem shows_seq (f : Checked (α → β)) (checked : Checked α) (first : f.Shows p) (second : checked.Shows p) :
    (f <*> checked).Shows p := by
  cases f with
  | valid f =>
      cases checked with
      | valid value => trivial
      | invalid issues => exact second
  | invalid issues =>
      cases checked with
      | valid value => exact first
      | invalid more => exact List.forall_mem_append.mpr ⟨first, second⟩

theorem shows_and_then (f : α → Checked β) (checked : Checked α) (first : checked.Shows p)
    (next : ∀ value, checked = .valid value → (f value).Shows p) : (checked.andThen f).Shows p := by
  cases checked with
  | valid value => exact next value rfl
  | invalid issues => exact first

theorem shows_under (step : Step) (checked : Checked α) (shows : checked.Shows p) : (checked.under step).Shows p := by
  cases checked with
  | valid value => trivial
  | invalid issues => exact List.forall_mem_map.mpr shows

end Checked

namespace Schema

open Checked (shows_fail shows_map shows_seq shows_and_then shows_under)

variable {α : Type} (p : Json → Prop)

def Reports (check : Json → Checked α) : Prop := ∀ input, p input → (check input).Shows p

def ReportsFields (read : Table Json → Checked α) : Prop := ∀ fields, p (.obj fields) → (read fields).Shows p

theorem any_text_reports : Reports p anyText := by
  intro input holds
  cases input with
  | str value => trivial
  | _ => exact shows_fail p _ _ holds

theorem literal_reports (expected : Text) : Reports p (literal expected) := by
  intro input holds
  cases input with
  | str value =>
      simp only [literal]
      split_ifs
      · exact shows_fail p _ _ holds
      · trivial
      · exact shows_fail p _ _ holds
  | _ => exact shows_fail p _ _ holds

theorem integer_of_text_reports (t : Text) (holds : p (.str t)) : (integerOfText t).Shows p := by
  simp only [integerOfText]
  split_ifs
  · exact shows_fail p _ _ holds
  · split
    · exact shows_fail p _ _ holds
    · split
      · trivial
      · exact shows_fail p _ _ holds

theorem integer_of_float_reports (x : Binary64) (holds : p (.float x)) : (integerOfFloat x).Shows p := by
  simp only [integerOfFloat]
  split_ifs
  · exact shows_fail p _ _ holds
  · split
    · exact shows_fail p _ _ holds
    · split_ifs
      · trivial
      · exact shows_fail p _ _ holds

theorem integer_reports : Reports p integer := by
  intro input holds
  cases input with
  | int value => trivial
  | bool value => trivial
  | float value => exact integer_of_float_reports p value holds
  | str value => exact integer_of_text_reports p value holds
  | _ => exact shows_fail p _ _ holds

theorem integer_at_most_limit_reports : Reports p integerAtMostLimit := by
  intro input holds
  refine shows_and_then p _ _ (integer_reports p input holds) fun n _ => ?_
  split_ifs
  · trivial
  · exact shows_fail p _ _ holds

theorem list_from_reports (check : Json → Checked α) (reports : Reports p check) (start : Nat) (items : List Json)
    (holds : ∀ item ∈ items, p item) : (listFrom check start items).Shows p := by
  induction items generalizing start with
  | nil => trivial
  | cons head tail ih =>
      obtain ⟨first, rest⟩ := List.forall_mem_cons.mp holds
      exact shows_seq p _ _ (shows_map p _ _ (shows_under p _ _ (reports head first))) (ih (start + 1) rest)

variable (passed : Json.Hereditary p)

include passed

theorem list_reports (check : Json → Checked α) (reports : Reports p check) : Reports p (listOf check) := by
  intro input holds
  cases input with
  | arr items => exact list_from_reports p check reports 0 items (passed.item items holds)
  | _ => exact shows_fail p _ _ holds

theorem required_reports (label : Label) (check : Json → Checked α) (reports : Reports p check) :
    ReportsFields p (required label check) := by
  intro fields holds
  cases found : label.find? fields with
  | none =>
      simp only [required, found]
      exact shows_under p _ _ (shows_fail p _ _ holds)
  | some entry =>
      obtain ⟨key, member⟩ := find_mem label fields entry.1 entry.2 found
      simp only [required, found]
      exact shows_under p _ _ (reports entry.2 (passed.field fields holds (key, entry.2) member))

theorem defaulted_reports (label : Label) (check : Json → Checked α) (fallback : α) (reports : Reports p check) :
    ReportsFields p (defaulted label check fallback) := by
  intro fields holds
  cases found : label.find? fields with
  | none =>
      simp only [defaulted, found]
      trivial
  | some entry =>
      obtain ⟨key, member⟩ := find_mem label fields entry.1 entry.2 found
      simp only [defaulted, found]
      exact shows_under p _ _ (reports entry.2 (passed.field fields holds (key, entry.2) member))

theorem absentable_reports (label : Label) (check : Json → Checked α) (reports : Reports p check) :
    ReportsFields p (absentable label check) := by
  refine defaulted_reports p passed label (optional check) none fun input holds => ?_
  cases input with
  | null => trivial
  | _ => exact shows_map p some _ (reports _ holds)

theorem closed_reports (labels : List Label) (read : Table Json → Checked α) (reports : ReportsFields p read) :
    ReportsFields p fun fields => closed labels fields (read fields) := by
  intro fields holds
  refine shows_seq p _ _ (shows_map p _ _ (reports fields holds)) ?_
  have given : ∀ entry ∈ extras labels fields, p entry.2 :=
    fun entry member => passed.field fields holds entry (List.mem_filter.mp member).1
  cases free : extras labels fields with
  | nil =>
      rw [noExtras, free]
      trivial
  | cons first more =>
      rw [noExtras, free]
      exact List.forall_mem_map.mpr (free ▸ given)

theorem record_reports (name : Text) (read : Table Json → Checked α) (reports : ReportsFields p read) :
    Reports p fun input => (record name input).andThen read := by
  intro input holds
  cases input with
  | obj fields =>
      refine shows_and_then p _ _ ?_ fun other opened => ?_
      · simp only [record, keyed]
        split
        · exact shows_fail p _ _ (passed.text _)
        · trivial
      · exact (keyed_eq_valid fields other opened).1 ▸ reports fields holds
  | _ => exact shows_fail p (.recordType name) _ holds

end Schema

section

variable (p : Json → Prop) (passed : Json.Hereditary p)

include passed

open Schema Checked

theorem Selection.reports : Reports p Selection.ofJson := by
  refine record_reports p passed "AgentSelection" _ (closed_reports p passed _ _ fun fields holds => ?_)
  have text (label : Label) := required_reports p passed label anyText (any_text_reports p) fields holds
  exact shows_seq p _ _ (shows_map p _ _ (text "id")) (text "reason")

theorem PlanStep.reports : Reports p PlanStep.ofJson := by
  refine record_reports p passed "PlanStep" _ (closed_reports p passed _ _ fun fields holds => ?_)
  have id := absentable_reports p passed "id" anyText (any_text_reports p) fields holds
  have agents := defaulted_reports p passed "agents" _ [] (list_reports p passed _ (Selection.reports p passed)) fields holds
  have waits := absentable_reports p passed "depends_on" _ (list_reports p passed _ (any_text_reports p)) fields holds
  exact shows_seq p _ _ (shows_seq p _ _ (shows_map p _ _ id) agents) waits

theorem Plan.reports : Reports p Plan.ofJson := by
  refine record_reports p passed "OrchestrationPlan" _ (closed_reports p passed _ _ fun fields holds => ?_)
  have kind := defaulted_reports p passed "kind" _ () (literal_reports p Plan.kind) fields holds
  have bound := absentable_reports p passed "max_parallelism" _ (integer_at_most_limit_reports p) fields holds
  have steps := defaulted_reports p passed "steps" _ [] (list_reports p passed _ (PlanStep.reports p passed)) fields holds
  exact shows_seq p _ _ (shows_seq p _ _ (shows_map p _ _ kind) bound) steps

end

namespace Schema

theorem integer_of_float_printable (x : Binary64) (n : Int) (valid : integerOfFloat x = .valid n) :
    Decimal.printable n = true := by
  have bounded : -floatBound < n ∧ n < floatBound := by
    simp only [integerOfFloat] at valid
    split_ifs at valid
    · cases valid
    · split at valid
      · cases valid
      · split_ifs at valid with within
        · obtain rfl := Checked.valid.inj valid
          simpa using within
        · cases valid
  simp only [floatBound] at bounded
  exact Decimal.printable_of_small n (by omega)

theorem integer_of_numeral_printable (numeral : Text) (n : Int) (valid : integerOfNumeral numeral = .ok n) :
    Decimal.printable n = true := by
  simp only [integerOfNumeral] at valid
  generalize numeral.takeWhile (fun c : CodePoint => c = '-') = sign at valid
  generalize numeral.drop sign.length = body at valid
  have each : ∀ c ∈ body.takeWhile CodePoint.isDigit, CodePoint.isDigit c = true := fun c => List.mem_takeWhile_imp
  split_ifs at valid with _ long
  · exact Decimal.printable_of_digits _ each (Nat.le_of_not_lt long) n (by rw [← Except.ok.inj valid, Int.natAbs_natCast])
  · exact Decimal.printable_of_digits _ each (Nat.le_of_not_lt long) n
      (by rw [← Except.ok.inj valid, Int.natAbs_neg, Int.natAbs_natCast])

theorem integer_valid (input : Json) (n : Int) (valid : integer input = .valid n) :
    input = .int n ∨ Decimal.printable n = true := by
  cases input with
  | int value => exact Or.inl (congrArg Json.int (Checked.valid.inj valid))
  | bool value =>
      obtain rfl := Checked.valid.inj valid
      cases value <;> exact Or.inr rfl
  | float value => exact Or.inr (integer_of_float_printable value n valid)
  | str value =>
      simp only [integer, integerOfText] at valid
      split_ifs at valid
      · cases valid
      · split at valid
        · cases valid
        · split at valid
          case h_1 numeral _ found => exact Or.inr (Checked.valid.inj valid ▸ integer_of_numeral_printable _ _ found)
          case h_2 => cases valid
  | _ => cases valid

end Schema

namespace Issue

theorem path_depth_le (path : List Step) : (Json.arr (path.map Step.toJson)).depth ≤ 1 := by
  refine Nat.succ_le_succ ((Json.depth_items_iff _ 0).mpr (List.forall_mem_map.mpr fun step _ => ?_))
  cases step <;> exact Nat.le_refl 0

theorem depth_le (issue : Issue) (room : Nat) (shallow : issue.input.depth ≤ room) :
    issue.toJsonWithInput.depth ≤ room + 2 := by
  refine Nat.succ_le_succ ((Json.depth_fields_iff _ (room + 1)).mpr ?_)
  simp only [List.forall_mem_cons, List.not_mem_nil, false_implies, implies_true, and_true]
  exact ⟨Nat.zero_le _, (path_depth_le issue.path).trans (Nat.le_add_left 1 room), Nat.zero_le _,
    shallow.trans (Nat.le_succ room)⟩

end Issue

namespace CompileError

theorem context_issues (e : CompileError) (name : Text) (issues : List Issue) (held : (name, .issues issues) ∈ e.context) :
    e.inputs = issues.map Issue.input := by
  cases e with
  | misshapen label given => simp_all [context, inputs]
  | nodeIdTaken node index agent => cases index <;> cases agent <;> simp [context, whenGiven, always] at held
  | missingDescription index agent => cases index <;> simp [context, whenGiven, always] at held
  | unknownNodeTool node parent tool => cases parent <;> simp [context, whenGiven, always] at held
  | toolWithoutName node parent => cases parent <;> simp [context, whenGiven] at held
  | wrongToolMode node parent mode => cases parent <;> simp [context, whenGiven] at held
  | fanOut node fault => cases given : fault.field? <;> simp [context, whenGiven, given] at held
  | _ => simp [context, stepIndex] at held

theorem detail_depth_le (detail : Detail) (room : Nat)
    (shallow : ∀ issues, detail = .issues issues → ∀ issue ∈ issues, issue.input.depth ≤ room) :
    detail.toJson.depth ≤ room + 3 := by
  cases detail with
  | text value => exact Nat.zero_le _
  | number value => exact Nat.zero_le _
  | texts values =>
      refine Nat.succ_le_succ ((Json.depth_items_iff _ (room + 2)).mpr (List.forall_mem_map.mpr fun value _ => ?_))
      exact Nat.zero_le _
  | issues found =>
      refine Nat.succ_le_succ ((Json.depth_items_iff _ (room + 2)).mpr (List.forall_mem_map.mpr fun issue member => ?_))
      exact issue.depth_le room (shallow found rfl issue member)

theorem depth_le (e : CompileError) (room : Nat) (shallow : ∀ shown ∈ e.inputs, shown.depth ≤ room) :
    e.toJson.depth ≤ room + 4 := by
  refine Nat.succ_le_succ ((Json.depth_fields_iff _ (room + 3)).mpr (List.forall_mem_map.mpr fun entry member => ?_))
  refine detail_depth_le entry.2 room fun issues given issue inside => ?_
  obtain ⟨name, detail⟩ := entry
  obtain rfl : detail = .issues issues := given
  have held : (name, Detail.issues issues) ∈ e.context := by simpa [details] using member
  exact shallow issue.input (e.context_issues name issues held ▸ List.mem_map_of_mem inside)

end CompileError

end PlanFlow
