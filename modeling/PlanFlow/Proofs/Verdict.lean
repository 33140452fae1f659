import PlanFlow.Proofs.Acceptance
import PlanFlow.Proofs.PlanFaults
import PlanFlow.Proofs.Reporting
import PlanFlow.Proofs.Representable
import PlanFlow.Trace

/-!
Every payload gets a verdict: a specification or a rejection. Two kinds of payload have none: one whose text holds a numeral
above the limit of digits, and one that is rejected for a part of it that holds a whole number above the limit.

Reading and reporting recurse with the nesting of the payload. How far they can is up to the machine, so the verdict is
stated for payloads that are nested no deeper than a fixed limit.
-/

set_option autoImplicit false

namespace PlanFlow

namespace Payload

variable {α : Type}

def text? : Payload α → Option Text
  | .text t => some t
  | .octets bytes => (Octets.decode bytes).toOption
  | .value _ | .parsed _ => none

def Overlong (payload : Payload α) (count : Nat) : Prop :=
  ∃ text, payload.text? = some text ∧ Decimal.digitLimit < count ∧ text.HasDigits count

def nesting : Payload α → Nat
  | .text t => t.nesting
  | .octets bytes => ((Octets.decode bytes).toOption.map Text.nesting).getD 0
  | .value json => json.depth
  | .parsed _ => 0

def nestingLimit : Nat := 500

-- The whole numbers that a payload brings without having been read from text.
def wholes : Payload Plan → List Int
  | .text _ | .octets _ => []
  | .value json => json.wholes
  | .parsed plan => plan.maxParallelism.toList

theorem carried_depth (payload : Payload α) (json : Json) (carries : payload.Carries json) : json.depth ≤ payload.nesting := by
  cases payload with
  | parsed given => exact carries.elim
  | value given => exact (congrArg Json.depth carries).ge
  | text t => exact (Json.read_unmarked_fits t json carries).1
  | octets bytes =>
      obtain ⟨t, decoded, opened⟩ := carries
      simpa [nesting, decoded, Except.toOption] using (Json.read_fits t json opened).1

theorem carried_printable (payload : Payload Plan) (shown : ∀ n ∈ payload.wholes, Decimal.printable n = true) (json : Json)
    (carries : payload.Carries json) : json.printable = true := by
  cases payload with
  | parsed given => exact carries.elim
  | value given =>
      obtain rfl : given = json := carries
      exact (Json.printable_iff given).mpr shown
  | text t => exact (Json.read_unmarked_fits t json carries).2
  | octets bytes =>
      obtain ⟨t, _, opened⟩ := carries
      exact (Json.read_fits t json opened).2

section

variable (p : Json → Prop) (label : Text) (check : Json → Checked α) (reports : Schema.Reports p check)

include reports

theorem check_object_error (input : Json) (holds : p input) (failure : Failure)
    (failed : checkObject label check input = .error failure) :
    ∃ e, failure = .rejected e ∧ ∀ shown ∈ e.inputs, p shown := by
  cases input with
  | obj fields =>
      have shows := reports (.obj fields) holds
      cases checked : check (.obj fields) with
      | valid value => simp [checkObject, checked] at failed
      | invalid issues =>
          rw [checked] at shows
          simp only [checkObject, checked] at failed
          exact ⟨_, (Except.error.inj failed).symm, List.forall_mem_map.mpr shows⟩
  | _ => exact ⟨_, (Except.error.inj failed).symm, List.forall_mem_nil _⟩

theorem of_read_error (whole : Text) (answer : Except Json.ReadError Json) (carried : ∀ json, answer = .ok json → p json)
    (failure : Failure) (failed : ofRead label whole answer >>= checkObject label check = .error failure) :
    (∃ e, failure = .rejected e ∧ ∀ shown ∈ e.inputs, p shown) ∨
      ∃ count, failure = .tooManyDigits (some count) ∧ answer = .error (.tooManyDigits count) := by
  match answer with
  | .ok json => exact Or.inl (check_object_error p label check reports json (carried json rfl) failure failed)
  | .error (.malformed fault rest) => exact Or.inl ⟨_, (Except.error.inj failed).symm, List.forall_mem_nil _⟩
  | .error (.tooManyDigits count) => exact Or.inr ⟨count, (Except.error.inj failed).symm, rfl⟩

theorem read_error (payload : Payload α) (carried : ∀ json, payload.Carries json → p json) (failure : Failure)
    (failed : payload.read label check = .error failure) :
    (∃ e, failure = .rejected e ∧ ∀ shown ∈ e.inputs, p shown) ∨
      ∃ count, failure = .tooManyDigits (some count) ∧ payload.Overlong count := by
  cases payload with
  | parsed given => cases failed
  | value input =>
      cases input with
      | obj fields => exact Or.inl (check_object_error p label check reports (.obj fields) (carried _ rfl) failure failed)
      | _ => exact Or.inl ⟨_, (Except.error.inj failed).symm, List.forall_mem_nil _⟩
  | text t =>
      rcases of_read_error p label check reports t _ carried failure failed with rejected | ⟨count, same, long⟩
      · exact Or.inl rejected
      · exact Or.inr ⟨count, same, t, rfl, Json.read_unmarked_too_many_digits t count long⟩
  | octets bytes =>
      cases decoded : Octets.decode bytes with
      | error fault =>
          rw [read, decode, decoded] at failed
          exact Or.inl ⟨_, (Except.error.inj failed).symm, List.forall_mem_nil _⟩
      | ok t =>
          rw [read, decode, decoded] at failed
          rcases of_read_error p label check reports t _ (fun json opened => carried json ⟨t, decoded, opened⟩) failure failed
            with rejected | ⟨count, same, long⟩
          · exact Or.inl rejected
          · exact Or.inr ⟨count, same, t, by simp [text?, decoded, Except.toOption], Json.read_too_many_digits t count long⟩

end

theorem of_read_ok (label whole : Text) (check : Json → Checked α) (answer : Except Json.ReadError Json) (value : α)
    (given : ofRead label whole answer >>= checkObject label check = .ok value) :
    ∃ json, answer = .ok json ∧ check json = .valid value := by
  match answer with
  | .ok json => exact ⟨json, rfl, ((check_object_eq_ok label check json value).mp given).2⟩
  | .error (.malformed _ _) => cases given
  | .error (.tooManyDigits _) => cases given

theorem read_checked (payload : Payload α) (label : Text) (check : Json → Checked α) (value : α)
    (given : payload.read label check = .ok value) :
    payload = .parsed value ∨ ∃ json, payload.Carries json ∧ check json = .valid value := by
  cases payload with
  | parsed other => exact Or.inl (congrArg parsed (Except.ok.inj given))
  | value input =>
      cases input with
      | obj fields => exact Or.inr ⟨_, rfl, ((check_object_eq_ok label check (.obj fields) value).mp given).2⟩
      | _ => cases given
  | text t => exact Or.inr (of_read_ok label t check _ value given)
  | octets bytes =>
      cases decoded : Octets.decode bytes with
      | error fault =>
          rw [read, decode, decoded] at given
          cases given
      | ok t =>
          rw [read, decode, decoded] at given
          obtain ⟨json, opened, valid⟩ := of_read_ok label t check _ value given
          exact Or.inr ⟨json, ⟨t, decoded, opened⟩, valid⟩

end Payload

theorem Json.safe_printable (value : Json) (safe : value.Safe) : ∀ n ∈ value.wholes, Decimal.printable n = true := by
  induction value using Json.by_parts with
  | int n =>
      refine List.forall_mem_singleton.mpr (Decimal.printable_of_small n ?_)
      obtain ⟨least, most⟩ : -Canonical.safeLimit ≤ n ∧ n ≤ Canonical.safeLimit := safe
      simp only [Canonical.safeLimit] at least most
      omega
  | arr items ih =>
      intro n held
      obtain ⟨item, member, inner⟩ := (mem_wholes_arr n items).mp held
      exact ih item member ((throughout_arr _ items).mp safe item member) n inner
  | obj fields ih =>
      intro n held
      obtain ⟨entry, member, inner⟩ := (mem_wholes_obj n fields).mp held
      exact ih entry member ((throughout_obj _ fields).mp safe entry member) n inner
  | _ => exact List.forall_mem_nil _

namespace Plan

theorem agent_request_extra (agent : Agent) (prompt : Text) (names : List Text) :
    (agentRequest agent prompt names).extraNames = [] := rfl

section

variable (plan : Plan) (context : Context) (settings : Settings) (job : Job)

-- Compiled nodes hold nothing that a user could have given a free form, and limit no tools.
theorem layout_plain (p : Placed) (member : p ∈ plan.layout context settings job) :
    p.node.freeform = [] ∧ p.node.extraNames = [] ∧ p.node.limits = [] := by
  cases (plan.mem_layout_iff context settings job p).mp member with
  | agent i step selection found selected =>
      cases known : context.agents.find? selection.id.trim with
      | none => simp [Selection.placed, Selection.request, known, Node.freeform, Node.extraNames, Action.freeform,
          Action.extraNames, Request.freeform, Request.extraNames, Request.empty, Node.limits, Action.limits, Request.limits,
          Table.encodable, Table.ofPairs, Table.values]
      | some agent =>
          simp only [Selection.placed, Selection.request, known, Node.freeform, Node.extraNames, Action.freeform,
            Action.extraNames]
          exact ⟨spoken_freeform _ _ (agent_request_spoken agent _ _), agent_request_extra agent _ _, rfl⟩
  | join i step found joined => exact ⟨rfl, rfl, rfl⟩
  | last => exact ⟨spoken_freeform _ _ (synthesis_request_spoken job plan.terminals), rfl, rfl⟩

theorem specified_presentable (bound : Option Int) :
    Presentable (plan.specified context settings job bound).freeform
      (plan.specified context settings job bound).extraNames := by
  have nodes : ∀ node ∈ (plan.specified context settings job bound).nodes, node.freeform = [] ∧ node.extraNames = [] := by
    intro node member
    obtain ⟨p, inside, rfl⟩ := List.mem_map.mp member
    obtain ⟨freeform, names, _⟩ := plan.layout_plain context settings job p inside
    exact ⟨freeform, names⟩
  have freeform : (plan.specified context settings job bound).freeform = [] := by
    rw [Spec.freeform, List.flatMap_eq_nil_iff.mpr fun node member => (nodes node member).1]
    rfl
  have names : (plan.specified context settings job bound).extraNames = [] :=
    List.flatMap_eq_nil_iff.mpr fun node member => (nodes node member).2
  rw [freeform, names]
  exact ⟨List.forall_mem_nil _, List.forall_mem_nil _⟩

theorem compiled_printable (fits : plan.Compilable context settings job) :
    ∀ n ∈ (plan.compiled context settings job).toPayload.wholes, Decimal.printable n = true := by
  obtain ⟨valid, _⟩ := plan.compiled_valid context settings job (fun _ => True) fits
  refine Json.safe_printable _ ((payload_safe (fun _ => True) _ valid).mpr ⟨fun node member => ?_, nofun⟩)
  obtain ⟨p, inside, rfl⟩ := List.mem_map.mp member
  obtain ⟨freeform, _, limits⟩ := plan.layout_plain context settings job p inside
  have values : p.settled.freeform = [] := freeform
  have bounds : p.settled.limits = [] := limits
  exact ⟨values ▸ List.forall_mem_nil _, bounds ▸ List.forall_mem_nil _⟩

variable (parsed : plan.Parsed) (valid : plan.Valid context.agents)

include parsed valid

theorem synthesize_error (failure : Failure) (failed : plan.synthesize context .standard job = .error failure) :
    ∃ e, failure = .rejected e ∧ e.OfNames := by
  cases outcome : plan.sketch context .standard job with
  | error other =>
      rw [synthesize, outcome] at failed
      obtain ⟨e, rejected, names⟩ := plan.sketch_error context job valid other outcome
      exact ⟨e, (Except.error.inj failed).symm.trans rejected, names⟩
  | ok s =>
      have fits := ((plan.sketch_eq_ok context .standard job s).mp outcome).1
      have done := (plan.synthesize_eq_ok context .standard job _ valid.parallel).mpr
        ⟨fits, plan.parsed_bounded parsed, rfl⟩
      rw [done] at failed
      cases failed

omit parsed in
theorem finish_error (spec : Spec) (made : plan.synthesize context .standard job = .ok spec) (failure : Failure)
    (failed : (spec.withTools context.tools >>= fun settled => settled.digest >>= fun _ => pure settled) = .error failure) :
    ∃ report, failure = .rejected (.notCanonical report) := by
  obtain ⟨fits, bounded, rfl⟩ := (plan.synthesize_eq_ok context .standard job spec valid.parallel).mp made
  rw [plan.specified_with_tools context .standard job fits, ok_bind] at failed
  rcases (bind_eq_error _ _ _).mp failed with unhashed | ⟨_, _, done⟩
  · rcases Spec.digest_error _ (plan.specified_presentable context .standard job _) failure unhashed with
      refused | ⟨_, n, held, long⟩
    · exact refused
    · have shown := plan.compiled_printable context .standard job ⟨valid, fits, bounded⟩ n held
      rw [long] at shown
      cases shown
  · cases done

end

end Plan

-- A property of values that is passed on from what a payload carries to all that a rejection can show of it.
structure Payload.Grants (payload : Payload Plan) (p : Json → Prop) : Prop where
  hereditary : Json.Hereditary p
  number : ∀ n, Decimal.printable n = true → p (.int n)
  carried : ∀ json, payload.Carries json → p json
  bound : ∀ plan, payload = .parsed plan → ∀ n, plan.maxParallelism = some n → p (.int n)

theorem Payload.grants_depth (payload : Payload Plan) (room : Nat) (shallow : payload.nesting ≤ room) :
    payload.Grants fun value => value.depth ≤ room where
  hereditary := Json.hereditary_depth room
  number _ _ := Nat.zero_le room
  carried json carries := (payload.carried_depth json carries).trans shallow
  bound _ _ _ _ := Nat.zero_le room

theorem Payload.grants_printable (payload : Payload Plan) (shown : ∀ n ∈ payload.wholes, Decimal.printable n = true) :
    payload.Grants fun value => value.printable = true where
  hereditary := Json.hereditary_printable
  number n short := (Json.printable_iff _).mpr (List.forall_mem_singleton.mpr short)
  carried := payload.carried_printable shown
  bound := by
    rintro plan rfl n given
    exact (Json.printable_iff _).mpr (List.forall_mem_singleton.mpr (shown n (Option.mem_toList.mpr given)))

section

variable (payload : Payload Plan) (p : Json → Prop) (grants : payload.Grants p)

include grants

theorem Plan.bound_granted (plan : Plan) (given : Plan.read payload = .ok plan) (n : Int)
    (bounded : plan.maxParallelism = some n) : p (.int n) := by
  rcases payload.read_checked _ _ plan given with rfl | ⟨json, carries, valid⟩
  · exact grants.bound plan rfl n bounded
  obtain ⟨fields, rfl, entry, member, fits⟩ := Plan.bound_read json plan valid n bounded
  obtain ⟨value, whole, small⟩ := (Checked.and_then_eq_valid _ _ _).mp fits
  obtain rfl : value = n := by
    split_ifs at small
    · exact Checked.valid.inj small
    · cases small
  rcases Schema.integer_valid entry.2 value whole with same | shown
  · exact same ▸ grants.hereditary.field fields (grants.carried _ carries) entry member
  · exact grants.number value shown

theorem Plan.validate_error (plan : Plan) (given : Plan.read payload = .ok plan) (registry : AgentRegistry) (e : CompileError)
    (refused : plan.validate registry = .error e) : ∀ shown ∈ e.inputs, p shown := by
  obtain ⟨place, fault, _⟩ := ((plan.validate_finds registry).eq_error_iff (plan.fault_unique registry) _ e).mp refused
  cases fault with
  | parallelism n bounded _ => exact List.forall_mem_singleton.mpr (plan.bound_granted payload p grants given n bounded)
  | step i step _ place _ fault =>
      cases fault with
      | unstaffed _ => exact nofun
      | dependency _ _ _ _ _ fault => cases fault <;> exact nofun
      | selection _ _ _ _ _ fault => cases fault <;> exact nofun
  | _ => exact nofun

theorem compile_error (context : Context) (job : Job) (known : ∀ plan, payload = .parsed plan → plan.Parsed)
    (failure : Failure) (failed : compile payload context .standard job = .error failure) :
    (∃ e, failure = .rejected e ∧ ∀ shown ∈ e.inputs, p shown) ∨
      ∃ count, failure = .tooManyDigits (some count) ∧ payload.Overlong count := by
  rcases (bind_eq_error _ _ _).mp failed with unread | ⟨plan, given, failed⟩
  · exact payload.read_error p _ _ (Plan.reports p grants.hereditary) grants.carried failure unread
  left
  have parsed : plan.Parsed := (payload.read_checked _ _ plan given).elim (known plan) fun ⟨json, _, valid⟩ => ⟨json, valid⟩
  rcases (bind_eq_error _ _ _).mp failed with refused | ⟨agents, accepted, failed⟩
  · obtain ⟨e, found, rfl⟩ := (map_error_eq_error _ _ _).mp refused
    exact ⟨e, rfl, plan.validate_error payload p grants given context.agents e found⟩
  have valid := ((Plan.validate_eq_ok plan context.agents agents).mp ((map_error_eq_ok _ _ _).mp accepted)).1
  rcases (bind_eq_error _ _ _).mp failed with unmade | ⟨spec, made, failed⟩
  · obtain ⟨e, rfl, names⟩ := plan.synthesize_error context job parsed valid failure unmade
    refine ⟨e, rfl, ?_⟩
    cases names <;> exact nofun
  · obtain ⟨report, rfl⟩ := plan.finish_error context job valid spec made failure failed
    exact ⟨_, rfl, nofun⟩

end

theorem try_compile_rejected (payload : Payload Plan) (context : Context) (settings : Settings) (job : Job) (e : CompileError)
    (outcome : compile payload context settings job = .error (.rejected e)) :
    tryCompile payload context settings job =
      if e.inputs.all Json.printable then .ok (.error e) else .error (.tooManyDigits none) := by
  simp only [tryCompile, outcome, Outcome.report]
  split_ifs <;> rfl

theorem try_compile_verdict (payload : Payload Plan) (context : Context) (job : Job)
    (known : ∀ plan, payload = .parsed plan → plan.Parsed) (shallow : payload.nesting ≤ Payload.nestingLimit) :
    (∃ verdict, tryCompile payload context .standard job = .ok verdict ∧
        ∀ e, verdict = .error e → e.toJson.depth ≤ Payload.nestingLimit + 4) ∨
      (∃ count, tryCompile payload context .standard job = .error (.tooManyDigits (some count)) ∧ payload.Overlong count) ∨
      tryCompile payload context .standard job = .error (.tooManyDigits none) ∧
        ∃ n ∈ payload.wholes, Decimal.printable n = false := by
  cases outcome : compile payload context .standard job with
  | ok spec => exact Or.inl ⟨.ok spec, by rw [tryCompile, outcome], nofun⟩
  | error failure =>
      rcases compile_error payload _ (payload.grants_depth _ shallow) context job known failure outcome with
        ⟨e, rfl, deep⟩ | ⟨count, rfl, long⟩
      · cases shown : e.inputs.all Json.printable with
        | true =>
            refine Or.inl ⟨.error e, by rw [try_compile_rejected _ _ _ _ e outcome, if_pos shown], ?_⟩
            rintro _ ⟨⟩
            exact e.depth_le _ deep
        | false =>
            refine Or.inr (Or.inr ⟨by rw [try_compile_rejected _ _ _ _ e outcome, if_neg (ne_true_of_eq_false shown)], ?_⟩)
            by_contra short
            have grants := payload.grants_printable (by simpa using short)
            rcases compile_error payload _ grants context job known _ outcome with ⟨_, ⟨⟩, all⟩ | ⟨_, other, _⟩
            · rw [List.all_eq_true.mpr all] at shown
              cases shown
            · cases other
      · exact Or.inr (Or.inl ⟨count, by rw [tryCompile, outcome], long⟩)

def Sample.text : Text :=
  "\x7b\"max_parallelism\": 12, \"steps\": [\x7b\"agents\": [\x7b\"id\": \"editor\", \"reason\": \"polishes\"\x7d]\x7d]\x7d"

theorem sample_verdict : ∃ verdict, tryCompile (.text Sample.text) Sample.context .standard Sample.job = .ok verdict ∧
    ∀ e, verdict = .error e → e.toJson.depth ≤ Payload.nestingLimit + 4 := by
  have shallow : Text.nesting Sample.text ≤ Payload.nestingLimit := by decide +kernel
  have short : List.length Sample.text < Decimal.digitLimit := by decide +kernel
  rcases try_compile_verdict (.text Sample.text) Sample.context Sample.job nofun shallow with
    answered | ⟨count, _, text, given, long, digits, inside, rfl, _⟩ | ⟨_, n, held, _⟩
  · exact answered
  · obtain rfl : Sample.text = text := Option.some.inj given
    exact absurd (long.trans_le inside.length_le) (Nat.lt_asymm short)
  · cases held

theorem long_numeral_unanswered (digits : Text) (numeral : Json.Numeral digits) (long : Decimal.digitLimit < digits.length)
    (context : Context) (settings : Settings) (job : Job) :
    tryCompile (.text digits) context settings job = .error (.tooManyDigits (some digits.length)) := by
  have unread : Plan.read (.text digits) = .error (.tooManyDigits (some digits.length)) := by
    rw [Plan.read, Payload.read, Json.read_long_numeral digits numeral long]
    rfl
  rw [tryCompile, compile, unread]
  rfl

theorem long_bound_unanswered (n : Int) (small : n < 1) (long : Decimal.printable n = false) (context : Context)
    (settings : Settings) (job : Job) :
    tryCompile (.value (.obj [("max_parallelism", .int n)])) context settings job = .error (.tooManyDigits none) := by
  have bounded : Schema.integerAtMostLimit (.int n) = .valid n :=
    if_pos (small.le.trans (by decide))
  have bound :
      Schema.absentable "max_parallelism" Schema.integerAtMostLimit [("max_parallelism", .int n)] = .valid (some n) := by
    change ((Schema.integerAtMostLimit (.int n)).map some).under _ = _
    rw [bounded]
    rfl
  have valid : Plan.ofJson (.obj [("max_parallelism", .int n)]) = .valid ⟨some n, []⟩ := by
    change Schema.closed _ _ (_ <$> _ <*> Schema.absentable "max_parallelism" _ [("max_parallelism", .int n)] <*> _) = _
    rw [bound]
    rfl
  have read : Plan.read (.value (.obj [("max_parallelism", .int n)])) = .ok ⟨some n, []⟩ := by
    rw [Plan.read, Payload.read, Payload.checkObject, valid]
  have refused : (Plan.mk (some n) []).checkParallelism = .error (.parallelismTooSmall n) := if_pos small
  have unshown : ¬ (CompileError.parallelismTooSmall n).inputs.all Json.printable = true := by
    simp [CompileError.inputs, Json.printable, Json.wholes, long]
  have outcome : compile (.value (.obj [("max_parallelism", .int n)])) context settings job =
      .error (.rejected (.parallelismTooSmall n)) := by
    rw [compile, read, ok_bind, Plan.validate, refused]
    rfl
  rw [try_compile_rejected _ _ _ _ _ outcome, if_neg unshown]

def Sample.numeral : Text := List.replicate (Decimal.digitLimit + 1) '9'

theorem Sample.numeral_long : Sample.numeral.length = Decimal.digitLimit + 1 := List.length_replicate

theorem Sample.numeral_plain : Json.Numeral Sample.numeral where
  nonempty := List.ne_nil_of_length_eq_add_one Sample.numeral_long
  each := fun c member => by rw [(List.mem_replicate.mp member).2]; rfl
  lead := nofun

theorem sample_numeral_unanswered : ∃ text : Text, ∀ verdict,
    tryCompile (.text text) Sample.context .standard Sample.job ≠ .ok verdict := by
  refine ⟨Sample.numeral, fun verdict answered => ?_⟩
  rw [long_numeral_unanswered Sample.numeral Sample.numeral_plain (Sample.numeral_long ▸ Nat.lt_succ_self _)] at answered
  cases answered

theorem try_compile_traced (payload : Payload Plan) (context : Context) (settings : Settings) (job : Job) :
    (tryCompileTraced payload context settings job).map Prod.fst = tryCompile payload context settings job := by
  have last (result : Except CompileError Spec) (answered : tryCompile payload context settings job = .ok result) :
      ∃ record, Trace.verdict result = .ok record := by
    cases outcome : compile payload context settings job with
    | ok spec =>
        obtain ⟨_, _, _, _, digest, hashed⟩ := (Plan.compile_eq_ok payload context settings job spec).mp outcome
        obtain rfl : .ok spec = result := by simpa [tryCompile, outcome] using answered
        exact (map_passes _ _).mpr ⟨digest, hashed⟩
    | error failure =>
        cases failure with
        | rejected e =>
            simp only [tryCompile, outcome, map_eq_ok] at answered
            obtain ⟨line, reported, rfl⟩ := answered
            exact (map_passes _ _).mpr ⟨line, reported⟩
        | _ => simp [tryCompile, outcome] at answered
  cases answered : tryCompile payload context settings job with
  | error failure => simp [tryCompileTraced, answered, bind, Except.bind, Except.map]
  | ok result =>
      obtain ⟨record, logged⟩ := last result answered
      simp [tryCompileTraced, answered, logged, ok_bind, pure, Except.pure, Except.map]

end PlanFlow
