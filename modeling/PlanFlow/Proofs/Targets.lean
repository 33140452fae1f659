import PlanFlow.Proofs.Decimal
import PlanFlow.Proofs.FirstFault
import PlanFlow.Proofs.Rebuilding

/-!
Pointers into the messages of a request. What is read of a pointer are the digits right behind its start, and those of the
content block if the pointer goes on to one. Pointers made from numbers are found out exactly where the request has no such
message or block; in whatever was built, the numbers that pointers start with are those of messages and blocks that there are.
-/

set_option autoImplicit false

namespace PlanFlow

namespace Decimal

theorem digit_value (c : CodePoint) (digit : CodePoint.isDigit c = true) :
    CodePoint.digitValue? c = some (c.val - 0x30) := by
  have zeros : CodePoint.zeros = 0x30 :: CodePoint.zeros.tail := rfl
  have least : (decide (0x30 ≤ c.val) && decide (c.val < 0x30 + 10)) = true := by
    simp only [CodePoint.isDigit, Bool.and_eq_true, decide_eq_true_eq] at digit ⊢
    omega
  rw [CodePoint.digitValue?, zeros, List.find?_cons]
  simp only [least, Option.map_some]

theorem value_any_script (digits : Text) (each : ∀ c ∈ digits, CodePoint.isDigit c = true) :
    valueOfAnyScript digits = value digits := by
  rw [valueOfAnyScript, value]
  refine List.foldl_ext _ _ _ fun v c member => ?_
  rw [digit_value c (each c member), Option.getD_some]

theorem value_any_script_of_nat (n : Nat) : valueOfAnyScript (ofNat n) = n := by
  rw [value_any_script _ (digit_of_mem n), value_of_nat]

end Decimal

namespace Target

structure Leads (digits rest : Text) : Prop where
  filled : digits ≠ []
  each : ∀ c ∈ digits, (CodePoint.digitValue? c).isSome = true
  stops : ∀ c ∈ rest.head?, CodePoint.digitValue? c = none

theorem span_leading (digits rest : Text) (leads : Leads digits rest) : spanDigits (digits ++ rest) = (digits, rest) := by
  have nothing : rest.takeWhile (fun c => (CodePoint.digitValue? c).isSome) = [] := by
    cases rest with
    | nil => rfl
    | cons c more => simp [leads.stops c rfl]
  rw [spanDigits, List.takeWhile_append_of_pos leads.each, nothing, List.append_nil, List.drop_left]

def blockDigits? (rest : Text) : Option Text :=
  (Text.after? "/content/" rest).bind fun more => (spanDigits more).1.orAbsent

theorem block_digits_leading (digits rest : Text) (leads : Leads digits rest) :
    blockDigits? ("/content/" ++ (digits ++ rest)) = some digits := by
  rw [blockDigits?, Text.after_append, Option.bind_some, span_leading digits rest leads]
  simp [Text.orAbsent, leads.filled]

theorem indices_leading (digits rest : Text) (leads : Leads digits rest) :
    indices? ("/input/" ++ (digits ++ rest)) = some (digits, blockDigits? rest) := by
  have named : digits.isEmpty = false := List.isEmpty_eq_false_iff.mpr leads.filled
  simp only [indices?, Text.after_append, span_leading digits rest leads, named, blockDigits?]
  cases Text.after? "/content/" rest <;> rfl

theorem leads_of_nat (n : Nat) (rest : Text) (stops : ∀ c ∈ rest.head?, CodePoint.digitValue? c = none) :
    Leads (Decimal.ofNat n) rest where
  filled := Decimal.of_nat_ne_nil n
  each c member := by rw [Decimal.digit_value c (Decimal.digit_of_mem n c member), Option.isSome_some]
  stops := stops

theorem slash_leads (n : Nat) (rest : Text) (slash : rest.head? = some ('/' : CodePoint)) : Leads (Decimal.ofNat n) rest := by
  refine leads_of_nat n rest fun c head => ?_
  obtain rfl : CodePoint.ofChar '/' = c := Option.some.inj (slash.symm.trans head)
  rfl

-- Pointers made from numbers: to a message, or to a field of a content block of it.
inductive Names : Text → Nat → Option Nat → Prop where
  | message (m : Nat) : Names ("/input/" ++ Decimal.ofNat m) m none
  | block (m c : Nat) (field : Text) : Names (inputPointer (Decimal.ofNat m) (Decimal.ofNat c) field) m (some c)

theorem names_indices (pointer : Text) (m : Nat) (c : Option Nat) (names : Names pointer m c) :
    indices? pointer = some (Decimal.ofNat m, c.map Decimal.ofNat) := by
  cases names with
  | message m =>
      have read := indices_leading (Decimal.ofNat m) [] (leads_of_nat m [] nofun)
      rwa [List.append_nil] at read
  | block m c field =>
      have parts : inputPointer (Decimal.ofNat m) (Decimal.ofNat c) field =
          "/input/" ++ (Decimal.ofNat m ++ ("/content/" ++ (Decimal.ofNat c ++ ("/" ++ field)))) := by
        simp [inputPointer, Text.concat]
      rw [parts, indices_leading _ _ (slash_leads m _ rfl), block_digits_leading _ _ (slash_leads c _ rfl)]
      rfl

theorem names_unique (pointer : Text) (m n : Nat) (c d : Option Nat) (one : Names pointer m c) (other : Names pointer n d) :
    m = n ∧ c = d := by
  have digits := (names_indices pointer m c one).symm.trans (names_indices pointer n d other)
  have injective : Function.Injective Decimal.ofNat := Function.LeftInverse.injective Decimal.value_any_script_of_nat
  simp only [Option.some.injEq, Prod.mk.injEq] at digits
  exact ⟨injective digits.1, Option.map_injective injective digits.2⟩

theorem names_filled (pointer : Text) (m : Nat) (c : Option Nat) (names : Names pointer m c) :
    pointer.orAbsent = some pointer := by
  cases names <;> rfl

def Missing (messages : List Message) (m : Nat) (c : Option Nat) : Prop :=
  messages.length ≤ m ∨ ∃ block message, c = some block ∧ messages[m]? = some message ∧ message.content.length ≤ block

-- What is said of a message or block that is missing.
inductive Lacks (messages : List Message) : Nat → Option Nat → TargetFault → Prop where
  | messages (m : Nat) (c : Option Nat) (empty : messages = []) : Lacks messages m c (.noMessages m)
  | message (m : Nat) (c : Option Nat) (filled : messages ≠ []) (beyond : messages.length ≤ m) :
      Lacks messages m c (.noSuchMessage m messages.length)
  | block (m c : Nat) (message : Message) (found : messages[m]? = some message) (beyond : message.content.length ≤ c) :
      Lacks messages m (some c) (.noSuchContent c m message.content.length)

theorem missing_iff (messages : List Message) (m : Nat) (c : Option Nat) :
    Missing messages m c ↔ ∃ fault, Lacks messages m c fault := by
  constructor
  · rintro (beyond | ⟨block, message, rfl, found, beyond⟩)
    · by_cases empty : messages = []
      · exact ⟨_, .messages m c empty⟩
      · exact ⟨_, .message m c empty beyond⟩
    · exact ⟨_, .block m block message found beyond⟩
  · rintro ⟨fault, lacks⟩
    cases lacks with
    | messages _ empty => exact .inl (empty ▸ Nat.zero_le m)
    | message _ _ beyond => exact .inl beyond
    | block block message found beyond => exact .inr ⟨block, message, rfl, found, beyond⟩

structure Readable (m : Nat) (c : Option Nat) : Prop where
  message : (Decimal.ofNat m).length ≤ Decimal.digitLimit
  block : ∀ block, c = some block → (Decimal.ofNat block).length ≤ Decimal.digitLimit

theorem number_of_nat (n : Nat) (short : (Decimal.ofNat n).length ≤ Decimal.digitLimit) : number (Decimal.ofNat n) = .ok n := by
  rw [number_short _ short, Decimal.value_any_script_of_nat]

theorem check_named (messages : List Message) (pointer : Text) (m : Nat) (c : Option Nat) (names : Names pointer m c)
    (readable : Readable m c) :
    (check messages pointer = .ok none ∧ ¬ Missing messages m c) ∨
      ∃ fault, check messages pointer = .ok (some fault) ∧ Lacks messages m c fault := by
  have indices := names_indices pointer m c names
  have index := number_of_nat m readable.message
  cases found : messages[m]? with
  | none =>
      have beyond := List.getElem?_eq_none_iff.mp found
      by_cases empty : messages = []
      · exact .inr ⟨.noMessages m, by simp [check, indices, index, empty], .messages m c empty⟩
      · exact .inr ⟨_, by simp [check, indices, index, found, empty], .message m c empty beyond⟩
  | some message =>
      have inside := (List.getElem?_eq_some_iff.mp found).1
      cases c with
      | none =>
          refine .inl ⟨by simp [check, indices, index, found], ?_⟩
          rintro (beyond | ⟨_, _, named, _⟩)
          · exact Nat.not_le.mpr inside beyond
          · cases named
      | some block =>
          have place := number_of_nat block (readable.block block rfl)
          by_cases beyond : message.content.length ≤ block
          · refine .inr ⟨.noSuchContent block m message.content.length, ?_, .block m block message found beyond⟩
            simp [check, indices, index, found, place, Except.map, checkContent, Nat.not_lt.mpr beyond]
          · refine .inl ⟨?_, ?_⟩
            · simp [check, indices, index, found, place, Except.map, checkContent, Nat.not_le.mp beyond]
            · rintro (outside | ⟨_, other, named, there, past⟩)
              · exact Nat.not_le.mpr inside outside
              · obtain rfl := Option.some.inj named
                obtain rfl := Option.some.inj (found.symm.trans there)
                exact beyond past

end Target

namespace Binding

def Misses (binding : Binding) (messages : List Message) : Prop :=
  ∃ pointer m c, binding.target = some pointer ∧ Target.Names pointer m c ∧ Target.Missing messages m c

def Faulty (binding : Binding) (messages : List Message) (pointer : Text) (fault : TargetFault) : Prop :=
  binding.target = some pointer ∧ ∃ m c, Target.Names pointer m c ∧ Target.Lacks messages m c fault

def Plain (binding : Binding) : Prop :=
  binding.target.bind Text.orAbsent = none ∨
    ∃ pointer m c, binding.target = some pointer ∧ Target.Names pointer m c ∧ Target.Readable m c

theorem misses_iff (binding : Binding) (messages : List Message) :
    binding.Misses messages ↔ ∃ pointer fault, binding.Faulty messages pointer fault := by
  simp only [Misses, Faulty, Target.missing_iff]
  constructor
  · rintro ⟨pointer, m, c, aims, names, fault, lacks⟩
    exact ⟨pointer, fault, aims, m, c, names, lacks⟩
  · rintro ⟨pointer, fault, aims, m, c, names, lacks⟩
    exact ⟨pointer, m, c, aims, names, fault, lacks⟩

end Binding

namespace Target

section

variable (node : Text) (messages : List Message)

theorem check_binding_plain (index : Nat) (binding : Binding) (plain : binding.Plain) :
    (checkBinding node messages index binding = .ok () ∧ ¬ binding.Misses messages) ∨
      ∃ pointer fault, checkBinding node messages index binding = .error (.rejected (.bindingTarget node index pointer fault)) ∧
        binding.Faulty messages pointer fault := by
  rcases plain with placeholder | ⟨pointer, m, c, aims, names, readable⟩
  · refine .inl ⟨by rw [checkBinding, placeholder], ?_⟩
    rintro ⟨pointer, m, c, aims, names, _⟩
    rw [aims, Option.bind_some, names_filled pointer m c names] at placeholder
    cases placeholder
  · have aimed : binding.target.bind Text.orAbsent = some pointer := by
      rw [aims, Option.bind_some, names_filled pointer m c names]
    rcases check_named messages pointer m c names readable with ⟨found, there⟩ | ⟨fault, found, lacks⟩
    · refine .inl ⟨by simp only [checkBinding, aimed, found], ?_⟩
      rintro ⟨other, n, d, elsewhere, theirs, missing⟩
      obtain rfl := Option.some.inj (aims.symm.trans elsewhere)
      obtain ⟨rfl, rfl⟩ := names_unique pointer m n c d names theirs
      exact there missing
    · exact .inr ⟨pointer, fault, by simp only [checkBinding, aimed, found, Outcome.reject], aims, m, c, names, lacks⟩

variable (bindings : List Binding)

inductive Fault : List Nat → Failure → Prop where
  | faulty (i : Nat) (binding : Binding) (given : bindings[i]? = some binding) (pointer : Text) (fault : TargetFault)
      (misses : binding.Faulty messages pointer fault) : Fault [i] (.rejected (.bindingTarget node i pointer fault))

theorem check_bindings_single (index : Nat) (binding : Binding) :
    checkBindingsFrom node messages index [binding] = checkBinding node messages index binding := by
  rw [checkBindingsFrom]
  cases checkBinding node messages index binding <;> rfl

theorem check_binding_finds (i : Nat) (binding : Binding) (given : bindings[i]? = some binding) (plain : binding.Plain) :
    FindsFirst (Faults.part (Fault node messages bindings) i) (checkBinding node messages i binding) := by
  rcases check_binding_plain node messages i binding plain with ⟨passed, there⟩ | ⟨pointer, fault, failed, misses⟩
  · rw [passed]
    refine .passed () fun _ _ fault => ?_
    obtain ⟨_, other, same, pointer, fault, misses⟩ := fault
    obtain rfl := Option.some.inj (given.symm.trans same)
    exact there ((binding.misses_iff messages).mpr ⟨pointer, fault, misses⟩)
  · rw [failed]
    exact .failed _ [] (.faulty i binding given pointer fault misses) fun other _ _ => List.not_lt_nil other

theorem check_bindings_find (plain : ∀ binding ∈ bindings, binding.Plain) :
    FindsFirst (Fault node messages bindings) (checkBindings node messages bindings) := by
  refine .loop (fun index _ rest => checkBindingsFrom node messages index rest) (fun _ _ => rfl) (fun index _ binding rest => ?_)
    bindings (fun _ => ()) (fun i binding given => ?_) (fun _ _ _ _ _ => rfl) (fun i place e fault => ?_) () rfl nofun
  · simp only [checkBindingsFrom]
    cases checkBinding node messages index binding <;> rfl
  · rw [check_bindings_single]
    exact check_binding_finds node messages bindings i binding given (plain binding (List.mem_of_getElem? given))
  · obtain ⟨_, _, given, _⟩ := fault
    exact (List.getElem?_eq_some_iff.mp given).1

end

end Target

theorem check_bindings_exact (node : Text) (r : Request) (bindings : List Binding)
    (plain : ∀ binding ∈ bindings, binding.Plain) :
    ((∃ failure, Target.checkBindings node r.messages bindings = .error failure) ↔
        ∃ binding ∈ bindings, binding.Misses r.messages) ∧
      ∀ failure, Target.checkBindings node r.messages bindings = .error failure →
        ∃ i binding pointer fault, failure = .rejected (.bindingTarget node i pointer fault) ∧
          bindings[i]? = some binding ∧ binding.Misses r.messages ∧ binding.Faulty r.messages pointer fault ∧
          ∀ j other, j < i → bindings[j]? = some other → ¬ other.Misses r.messages := by
  have finds := Target.check_bindings_find node r.messages bindings plain
  have there : (∃ place e, Target.Fault node r.messages bindings place e) ↔ ∃ binding ∈ bindings, binding.Misses r.messages := by
    simp only [Binding.misses_iff]
    constructor
    · rintro ⟨_, _, ⟨i, binding, given, pointer, fault, faulty⟩⟩
      exact ⟨binding, List.mem_of_getElem? given, pointer, fault, faulty⟩
    · rintro ⟨binding, member, pointer, fault, faulty⟩
      obtain ⟨i, given⟩ := List.getElem?_of_mem member
      exact ⟨_, _, .faulty i binding given pointer fault faulty⟩
  refine ⟨finds.not_passed_iff.trans there, fun failure failed => ?_⟩
  rw [failed] at finds
  obtain _ | ⟨_, place, found, first⟩ := finds
  obtain ⟨i, binding, given, pointer, fault, faulty⟩ := found
  have misses := (binding.misses_iff r.messages).mpr ⟨pointer, fault, faulty⟩
  refine ⟨i, binding, pointer, fault, rfl, given, misses, faulty, fun j other before theirs missed => ?_⟩
  obtain ⟨elsewhere, another, faulty⟩ := (other.misses_iff r.messages).mp missed
  exact first [j] _ (.faulty j other theirs elsewhere another faulty) (List.Lex.rel before)

namespace Sample

def aiming (pointer : Text) : Binding := ⟨"notes", none, some pointer, none, .jsonString⟩

def summing : Request := { Request.empty with system := some "You sum up.", user := some "Sum up." }

def aimed : List Binding :=
  [⟨"notes", none, none, some "notes", .jsonString⟩, aiming (inputPointer (Decimal.ofNat 1) (Decimal.ofNat 0) "text"),
    aiming (inputPointer (Decimal.ofNat 2) (Decimal.ofNat 0) "text")]

theorem aimed_plain : ∀ binding ∈ aimed, binding.Plain := by
  have short (m : Nat) (small : (Decimal.ofNat m).length ≤ Decimal.digitLimit) : Target.Readable m (some 0) :=
    ⟨small, fun block same => Option.some.inj same ▸ by decide⟩
  simp only [aimed, List.forall_mem_cons]
  refine ⟨.inl rfl, .inr ⟨_, 1, some 0, rfl, .block 1 0 "text", short 1 (by decide)⟩,
    .inr ⟨_, 2, some 0, rfl, .block 2 0 "text", short 2 (by decide)⟩, nofun⟩

end Sample

theorem sample_bindings_exact : (∀ binding ∈ Sample.aimed, binding.Plain) ∧
    Target.checkBindings "summary" Sample.summing.messages Sample.aimed =
      .error (.rejected (.bindingTarget "summary" 2 "/input/2/content/0/text" (.noSuchMessage 2 2))) ∧
    ∃ binding, Sample.aimed[2]? = some binding ∧ binding.Misses Sample.summing.messages ∧
      ∀ j other, j < 2 → Sample.aimed[j]? = some other → ¬ other.Misses Sample.summing.messages := by
  have failed : Target.checkBindings "summary" Sample.summing.messages Sample.aimed =
      .error (.rejected (.bindingTarget "summary" 2 "/input/2/content/0/text" (.noSuchMessage 2 2))) := rfl
  obtain ⟨i, binding, _, _, same, given, misses, _, first⟩ :=
    (check_bindings_exact "summary" Sample.summing Sample.aimed Sample.aimed_plain).2 _ failed
  obtain ⟨rfl, -, -⟩ : 2 = i ∧ _ ∧ _ := by simpa using same
  exact ⟨Sample.aimed_plain, failed, binding, given, misses, first⟩

namespace Target

theorem number_eq_ok (digits : Text) (n : Nat) (read : number digits = .ok n) : n = Decimal.valueOfAnyScript digits := by
  by_cases long : digits.length > Decimal.digitLimit
  · simp [number, long] at read
  · exact (Except.ok.inj (read.symm.trans (if_neg long)))

theorem check_present (messages : List Message) (pointer : Text) (passed : check messages pointer = .ok none) :
    Present messages pointer := by
  intro digits block points
  simp only [check, points] at passed
  cases read : number digits with
  | error failure => simp [read] at passed
  | ok index =>
      rw [← number_eq_ok digits index read]
      cases found : messages[index]? with
      | none =>
          simp only [read, found] at passed
          split_ifs at passed <;> cases passed
      | some message =>
          refine ⟨message, rfl, ?_⟩
          rintro others rfl
          simp only [read, found] at passed
          cases place : number others with
          | error failure => simp [place, Except.map] at passed
          | ok other =>
              rw [← number_eq_ok others other place]
              simpa [place, Except.map, checkContent] using passed

theorem check_binding_fits (node : Text) (messages : List Message) (index : Nat) (binding : Binding)
    (passed : checkBinding node messages index binding = .ok ()) : binding.Fits messages := by
  intro pointer aimed
  simp only [checkBinding, aimed] at passed
  cases checked : check messages pointer with
  | error failure => simp [checked] at passed
  | ok answer =>
      cases answer with
      | none => exact check_present messages pointer checked
      | some fault => simp [checked, Outcome.reject] at passed

theorem check_bindings_fit (node : Text) (messages : List Message) (index : Nat) (bindings : List Binding)
    (passed : checkBindingsFrom node messages index bindings = .ok ()) : ∀ binding ∈ bindings, binding.Fits messages := by
  induction bindings generalizing index with
  | nil => exact nofun
  | cons head tail ih =>
      cases checked : checkBinding node messages index head with
      | error failure => simp [checkBindingsFrom, checked] at passed
      | ok _ =>
          rw [checkBindingsFrom, checked] at passed
          exact List.forall_mem_cons.mpr ⟨check_binding_fits node messages index head checked, ih (index + 1) passed⟩

end Target

theorem accepted_pointers_resolve (d : Draft) (s : Spec) (built : d.build = .ok s) (node : Node) (member : node ∈ s.nodes)
    (kind : RequestKind) (r : Request) (does : node.action = .request kind r) (binding : Binding)
    (given : binding ∈ r.bindings.getD []) (digits rest : Text) (leads : Target.Leads digits rest)
    (aims : binding.target = some ("/input/" ++ (digits ++ rest))) :
    ∃ message, r.messages[Decimal.valueOfAnyScript digits]? = some message ∧
      ∀ inner more, Target.Leads inner more → rest = "/content/" ++ (inner ++ more) →
        Decimal.valueOfAnyScript inner < message.content.length := by
  have passed := (d.built_settled s built).fits.nodes node member
  simp only [Draft.checkNode, does, Draft.checkRequest] at passed
  have fits := Target.check_bindings_fit node.id r.messages 0 _ ((check_bind_eq_ok _ _ _).mp passed).2 binding given
  have aimed : binding.target.bind Text.orAbsent = some ("/input/" ++ (digits ++ rest)) := by
    rw [aims]
    rfl
  obtain ⟨message, found, blocks⟩ := fits _ aimed digits _ (Target.indices_leading digits rest leads)
  refine ⟨message, found, ?_⟩
  rintro inner more goes rfl
  exact blocks inner (Target.block_digits_leading inner more goes)

namespace Sample

def splicing (pointer : Text) : Spec :=
  ⟨none, none, none, [⟨"notes", none, .request .llm Request.empty⟩,
    ⟨"summary", none, .request .llm { summing with bindings := some [aiming pointer] }⟩], [], [⟨"result", "summary", none⟩]⟩

theorem splicing_member (pointer : Text) :
    ⟨"summary", none, .request .llm { summing with bindings := some [aiming pointer] }⟩ ∈ (splicing pointer).nodes := by
  simp [splicing]

end Sample

theorem sample_accepted_pointers :
    (Draft.ofSpec (Sample.splicing "/input/1/content/0/text")).build = .ok (Sample.splicing "/input/1/content/0/text") ∧
    Target.Leads "1" "/content/0/text" ∧ Target.Leads "0" "/text" ∧
    ∃ message, Sample.summing.messages[1]? = some message ∧ 0 < message.content.length := by
  have built : (Draft.ofSpec (Sample.splicing "/input/1/content/0/text")).build =
    .ok (Sample.splicing "/input/1/content/0/text") := rfl
  have first : Target.Leads "1" "/content/0/text" := Target.slash_leads 1 _ rfl
  have second : Target.Leads "0" "/text" := Target.slash_leads 0 _ rfl
  obtain ⟨message, found, blocks⟩ := accepted_pointers_resolve _ _ built _ (Sample.splicing_member _) .llm _ rfl
    (Sample.aiming "/input/1/content/0/text") List.mem_cons_self "1" "/content/0/text" first rfl
  exact ⟨built, first, second, message, found, blocks "0" "/text" second rfl⟩

theorem sample_pointer_unread :
    (Draft.ofSpec (Sample.splicing "/input/user/content/0/text")).build = .ok (Sample.splicing "/input/user/content/0/text") ∧
    (∃ node ∈ (Sample.splicing "/input/user/content/0/text").nodes, ∃ r binding, node.action = .request .llm r ∧
      binding ∈ r.bindings.getD [] ∧ binding.target = some ("/input/" ++ (("user" : Text) ++ "/content/0/text"))) ∧
    ∀ c ∈ ("user" : Text), CodePoint.digitValue? c = none := by
  have letters : ("user" : Text).any (fun c => (CodePoint.digitValue? c).isSome) = false := rfl
  refine ⟨rfl, ⟨_, Sample.splicing_member _, _, Sample.aiming _, rfl, List.mem_cons_self, rfl⟩, fun c member => ?_⟩
  simpa using List.any_eq_false.mp letters c member

end PlanFlow
