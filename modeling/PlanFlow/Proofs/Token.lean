import PlanFlow.Proofs.NodeId

/-!
The token of an id as a normal form: the runs of letters and digits of the id, in lower case and joined by single
underscores. Whatever is done to make a token keeps the runs between separators, and a text without needless underscores
is given back by its runs.
-/

set_option autoImplicit false

namespace PlanFlow

namespace Text

-- The longest parts of a text without separators, in order.
def runsBetween (separates : CodePoint → Bool) (t : Text) : List Text :=
  (t.splitOnP separates).filter fun run => !run.isEmpty

section

variable (separates : CodePoint → Bool)

@[simp] theorem runs_nil : runsBetween separates [] = [] := by simp [runsBetween]

theorem runs_break (before after : Text) (c : CodePoint) (separator : separates c = true) :
    runsBetween separates (before ++ c :: after) = runsBetween separates before ++ runsBetween separates after := by
  rw [runsBetween, List.splitOnP_append_cons before after separator, List.filter_append]
  rfl

theorem runs_skip (c : CodePoint) (t : Text) (separator : separates c = true) :
    runsBetween separates (c :: t) = runsBetween separates t := by
  simpa using runs_break separates [] t c separator

theorem runs_whole (run : Text) (filled : run ≠ []) (plain : ∀ c ∈ run, separates c = false) :
    runsBetween separates run = [run] := by
  simp [runsBetween, List.splitOnP_eq_singleton plain, filled]

theorem runs_first (run after : Text) (filled : run ≠ []) (plain : ∀ c ∈ run, separates c = false) (c : CodePoint)
    (separator : separates c = true) : runsBetween separates (run ++ c :: after) = run :: runsBetween separates after := by
  rw [runs_break separates run after c separator, runs_whole separates run filled plain, List.singleton_append]

theorem runs_grow (c d : CodePoint) (rest : Text) (first : separates c = false) (second : separates d = false) :
    runsBetween separates (c :: d :: rest) = (runsBetween separates (d :: rest)).modifyHead (c :: ·) := by
  obtain ⟨run, others, split⟩ := List.exists_cons_of_ne_nil (List.splitOnP_ne_nil separates rest)
  simp [runsBetween, List.splitOnP_cons_eq_if_modifyHead, first, second, split]

theorem runs_lone (c : CodePoint) (t : Text) (plain : separates c = false) (alone : ∀ d ∈ t.head?, separates d = true) :
    runsBetween separates (c :: t) = [c] :: runsBetween separates t := by
  cases t with
  | nil => rw [runs_whole separates [c] (List.cons_ne_nil c []) (by simpa using plain), runs_nil]
  | cons d rest =>
      have separator := alone d rfl
      rw [← List.singleton_append, runs_first separates [c] rest (List.cons_ne_nil c []) (by simpa using plain) d separator,
        runs_skip separates d rest separator]

theorem runs_cons (c : CodePoint) (a b : Text) (heads : a.head? = b.head?)
    (same : runsBetween separates a = runsBetween separates b) :
    runsBetween separates (c :: a) = runsBetween separates (c :: b) := by
  by_cases separator : separates c = true
  · rw [runs_skip separates c a separator, runs_skip separates c b separator, same]
  · have plain : separates c = false := Bool.eq_false_iff.mpr separator
    by_cases alone : ∀ d ∈ a.head?, separates d = true
    · rw [runs_lone separates c a plain alone, runs_lone separates c b plain (heads ▸ alone), same]
    · push Not at alone
      obtain ⟨d, front, letter⟩ := alone
      have second : separates d = false := Bool.eq_false_iff.mpr letter
      obtain ⟨rest, rfl⟩ := List.head?_eq_some_iff.mp front
      obtain ⟨more, rfl⟩ := List.head?_eq_some_iff.mp (heads ▸ front)
      rw [runs_grow separates c d rest plain second, runs_grow separates c d more plain second, same]

theorem run_plain (t run : Text) (member : run ∈ runsBetween separates t) : ∀ c ∈ run, separates c = false := by
  replace member := (List.mem_filter.mp member).1
  induction t generalizing run with
  | nil =>
      rw [List.splitOnP_nil, List.mem_singleton] at member
      rw [member]
      exact List.forall_mem_nil _
  | cons head tail ih =>
      rw [List.splitOnP_cons_eq_if_modifyHead] at member
      by_cases separator : separates head = true
      · rw [if_pos separator] at member
        rcases List.mem_cons.mp member with rfl | later
        · exact List.forall_mem_nil _
        · exact ih run later
      · obtain ⟨first, others, split⟩ := List.exists_cons_of_ne_nil (List.splitOnP_ne_nil separates tail)
        rw [if_neg separator, split, List.modifyHead_cons] at member
        rw [split] at ih
        rcases List.mem_cons.mp member with rfl | later
        · exact List.forall_mem_cons.mpr ⟨Bool.eq_false_iff.mpr separator, ih first List.mem_cons_self⟩
        · exact ih run (List.mem_cons_of_mem first later)

theorem runs_eq_nil (t : Text) : runsBetween separates t = [] ↔ ∀ c ∈ t, separates c = true := by
  induction t with
  | nil => simp
  | cons head tail ih =>
      by_cases separator : separates head = true
      · rw [runs_skip separates head tail separator, ih, List.forall_mem_cons]
        exact ⟨fun rest => ⟨separator, rest⟩, And.right⟩
      · refine ⟨fun empty => ?_, fun all => absurd (all head List.mem_cons_self) separator⟩
        obtain ⟨first, others, split⟩ := List.exists_cons_of_ne_nil (List.splitOnP_ne_nil separates tail)
        simp [runsBetween, List.splitOnP_cons_eq_if_modifyHead, separator, split] at empty

theorem runs_drop_while (test : CodePoint → Bool) (t : Text) (only : ∀ c, test c = true → separates c = true) :
    runsBetween separates (t.dropWhile test) = runsBetween separates t := by
  induction t with
  | nil => rfl
  | cons head tail ih =>
      by_cases dropped : test head = true
      · rw [List.dropWhile_cons_of_pos dropped, ih, runs_skip separates head tail (only head dropped)]
      · rw [List.dropWhile_cons_of_neg dropped]

theorem runs_rdrop_while (test : CodePoint → Bool) (t : Text) (only : ∀ c, test c = true → separates c = true) :
    runsBetween separates (t.rdropWhile test) = runsBetween separates t := by
  induction t using List.reverseRecOn with
  | nil => rfl
  | append_singleton front last ih =>
      rw [List.rdropWhile_concat]
      by_cases dropped : test last = true
      · rw [if_pos dropped, ih, runs_break separates front [] last (only last dropped), runs_nil, List.append_nil]
      · rw [if_neg dropped]

theorem runs_trim_while (test : CodePoint → Bool) (t : Text) (only : ∀ c, test c = true → separates c = true) :
    runsBetween separates (t.trimWhile test) = runsBetween separates t :=
  (runs_rdrop_while separates test _ only).trans (runs_drop_while separates test t only)

theorem runs_map (separates' : CodePoint → Bool) (f : CodePoint → CodePoint) (t : Text)
    (same : ∀ c, separates' (f c) = separates c) :
    runsBetween separates' (t.map f) = (runsBetween separates t).map (List.map f) := by
  have split : (t.map f).splitOnP separates' = (t.splitOnP separates).map (List.map f) := by
    induction t with
    | nil => rw [List.map_nil, List.splitOnP_nil, List.splitOnP_nil, List.map_singleton, List.map_nil]
    | cons head tail ih =>
        rw [List.map_cons, List.splitOnP_cons_eq_if_modifyHead, List.splitOnP_cons_eq_if_modifyHead, ih, same]
        obtain ⟨first, others, split⟩ := List.exists_cons_of_ne_nil (List.splitOnP_ne_nil separates tail)
        by_cases separator : separates head = true <;> simp [split, separator]
  simp [runsBetween, split, List.filter_map, Function.comp_def]

end

theorem join_grow (separator : Text) (c : CodePoint) (run : Text) (others : List Text) :
    join separator ((c :: run) :: others) = c :: join separator (run :: others) := by
  cases others <;> rfl

end Text

namespace NodeId

def isUnderscore (c : CodePoint) : Bool := c = underscore

def runs (t : Text) : List Text := t.runsBetween fun c => !CodePoint.isAlphanumeric c

def words (t : Text) : List Text := t.runsBetween isUnderscore

structure Neat (t : Text) : Prop where
  first : t.head? ≠ some underscore
  last : t.getLast? ≠ some underscore
  single : ¬ [underscore, underscore] <:+: t

theorem neat_of_suffix (front t : Text) (neat : Neat (front ++ t)) (first : t.head? ≠ some underscore) : Neat t where
  first := first
  last := by
    intro ends
    exact neat.last (by rw [List.getLast?_append, ends, Option.some_or])
  single := fun twice => neat.single (twice.trans (List.suffix_append front t).isInfix)

-- By the letters in front: a run goes on, or it ends and one underscore comes before the next run.
theorem join_words : ∀ t : Text, Neat t → Text.join "_" (words t) = t
  | [], _ => by rw [words, Text.runs_nil]; rfl
  | [c], neat => by
      have plain : isUnderscore c = false := decide_eq_false fun same => neat.first (congrArg some same)
      rw [words, Text.runs_whole isUnderscore [c] (List.cons_ne_nil c []) (by simpa using plain)]
      rfl
  | c :: d :: rest, neat => by
      have plain : isUnderscore c = false := decide_eq_false fun same => neat.first (congrArg some same)
      by_cases apart : d = underscore
      · subst apart
        have next : rest.head? ≠ some underscore := by
          intro again
          obtain ⟨more, rfl⟩ := List.head?_eq_some_iff.mp again
          exact neat.single ⟨[c], more, rfl⟩
        have filled : rest ≠ [] := by
          rintro rfl
          exact neat.last rfl
        have ih := join_words rest (neat_of_suffix [c, underscore] rest neat next)
        have split : words (c :: underscore :: rest) = [c] :: words rest :=
          Text.runs_first isUnderscore [c] rest (List.cons_ne_nil c []) (by simpa using plain) underscore rfl
        cases found : words rest with
        | nil =>
            rw [found] at ih
            exact absurd ih.symm filled
        | cons run others =>
            rw [split, found, Text.join, ← found, ih]
            · rfl
            · exact List.cons_ne_nil run others
      · have letter : isUnderscore d = false := decide_eq_false apart
        have ih := join_words (d :: rest) (neat_of_suffix [c] _ neat fun same => apart (Option.some.inj same))
        have split : words (c :: d :: rest) = (words (d :: rest)).modifyHead (c :: ·) :=
          Text.runs_grow isUnderscore c d rest plain letter
        cases found : words (d :: rest) with
        | nil =>
            rw [found] at ih
            cases ih
        | cons run others => rw [split, found, List.modifyHead_cons, Text.join_grow, ← found, ih]

theorem collapse_first (t : Text) : (collapse t).head? = t.head? := by
  induction t using collapse.induct with
  | case1 => rfl
  | case2 c => rfl
  | case3 c d rest repeated ih =>
      have both : c = underscore ∧ d = underscore := by simpa using repeated
      rw [collapse, if_pos repeated, ih, both.1, both.2]
      rfl
  | case4 c d rest distinct _ => rw [collapse, if_neg distinct, List.head?_cons, List.head?_cons]

theorem words_collapse (t : Text) : words (collapse t) = words t := by
  induction t using collapse.induct with
  | case1 => rfl
  | case2 c => rfl
  | case3 c d rest repeated ih =>
      have both : c = underscore ∧ d = underscore := by simpa using repeated
      rw [collapse, if_pos repeated, ih, both.1]
      exact (Text.runs_skip isUnderscore underscore _ rfl).symm
  | case4 c d rest distinct ih =>
      rw [collapse, if_neg distinct]
      exact Text.runs_cons isUnderscore c _ _ (collapse_first _) ih

theorem collapse_single (t : Text) : ¬ [underscore, underscore] <:+: collapse t := by
  induction t using collapse.induct with
  | case1 => simp [collapse]
  | case2 c =>
      intro twice
      have long : 2 ≤ 1 := twice.length_le
      exact absurd long (by decide)
  | case3 c d rest repeated ih => rwa [collapse, if_pos repeated]
  | case4 c d rest distinct ih =>
      rw [collapse, if_neg distinct, List.infix_cons_iff]
      rintro (⟨more, front⟩ | later)
      · have heads := collapse_first (d :: rest)
        obtain ⟨rfl, tail⟩ := List.cons.inj front
        rw [← tail] at heads
        exact distinct (by simpa using heads.symm)
      · exact ih later

theorem token_neat (raw : Text) : Neat (token raw) where
  first := fun head => absurd (Text.trim_while_first _ _ underscore head) (by decide)
  last := fun last => absurd (Text.trim_while_last _ _ underscore last) (by decide)
  single := fun twice => collapse_single _ (twice.trans (Text.trim_while_infix _ _))

theorem lower_alphanumeric (c : CodePoint) (kept : CodePoint.isAlphanumeric c = true) :
    CodePoint.isAlphanumeric (CodePoint.toLower c) = true ∧ CodePoint.isUpper (CodePoint.toLower c) = false := by
  simp only [CodePoint.isAlphanumeric, CodePoint.isDigit, CodePoint.isUpper, CodePoint.isLower, Bool.or_eq_true,
    Bool.and_eq_true, Bool.and_eq_false_iff, decide_eq_true_eq, decide_eq_false_iff_not, CodePoint.lower_val] at kept ⊢
  split <;> omega

theorem underscore_letter (c : CodePoint) : isUnderscore (tokenLetter c) = !CodePoint.isAlphanumeric c := by
  by_cases kept : CodePoint.isAlphanumeric c = true
  · have letter := (lower_alphanumeric c kept).1
    rw [tokenLetter, if_pos kept, kept]
    refine decide_eq_false fun same => ?_
    rw [same] at letter
    exact absurd letter (by decide)
  · rw [tokenLetter, if_neg kept, Bool.eq_false_iff.mpr kept]
    rfl

theorem letter_letter (c : CodePoint) : tokenLetter (tokenLetter c) = tokenLetter c := by
  by_cases kept : CodePoint.isAlphanumeric c = true
  · obtain ⟨letter, small⟩ := lower_alphanumeric c kept
    rw [tokenLetter, tokenLetter, if_pos kept, if_pos letter, CodePoint.toLower, if_neg (Bool.eq_false_iff.mp small)]
  · rw [tokenLetter, tokenLetter, if_neg kept]
    decide

theorem blank_not_alphanumeric (c : CodePoint) (blank : CodePoint.isBlank c = true) : CodePoint.isAlphanumeric c = false := by
  simp only [CodePoint.isBlank, CodePoint.isWhiteSpace, Bool.or_eq_true, Bool.and_eq_true, decide_eq_true_eq,
    beq_iff_eq] at blank
  simp only [CodePoint.isAlphanumeric, CodePoint.isDigit, CodePoint.isUpper, CodePoint.isLower, Bool.or_eq_false_iff,
    Bool.and_eq_false_iff, decide_eq_false_iff_not]
  omega

theorem words_letters (t : Text) : words (t.map tokenLetter) = (runs t).map Text.lower := by
  rw [words, Text.runs_map _ isUnderscore tokenLetter t underscore_letter]
  refine List.map_congr_left fun run member => List.map_congr_left fun c inside => ?_
  have letter := Text.run_plain _ t run member c inside
  rw [tokenLetter, if_pos (by simpa using letter)]

theorem words_token (raw : Text) : words (token raw) = (runs raw).map Text.lower := by
  have trimmed : runs raw.trim = runs raw := Text.runs_trim_while _ CodePoint.isBlank raw fun c blank => by
    rw [blank_not_alphanumeric c blank]
    rfl
  calc words (token raw) = words (collapse (raw.trim.map tokenLetter)) :=
        Text.runs_trim_while isUnderscore _ _ fun _ under => under
    _ = (runs raw).map Text.lower := by rw [words_collapse, words_letters, trimmed]

theorem token_eq_join (raw : Text) : token raw = Text.join "_" ((runs raw).map Text.lower) := by
  rw [← words_token, join_words _ (token_neat raw)]

theorem token_letters (raw : Text) : (token raw).map tokenLetter = token raw := by
  refine (List.map_congr_left fun c member => ?_).trans (List.map_id _)
  obtain ⟨letter, rfl⟩ := letter_of_mem_token raw c member
  exact letter_letter letter

theorem token_token (raw : Text) : token (token raw) = token raw := by
  rw [token_eq_join, ← words_letters, token_letters, join_words _ (token_neat raw)]

theorem token_eq_nil (raw : Text) : token raw = [] ↔ ∀ c ∈ raw, CodePoint.isAlphanumeric c = false := by
  have none_left : runs raw = [] ↔ ∀ c ∈ raw, CodePoint.isAlphanumeric c = false := by
    simpa [runs] using Text.runs_eq_nil (fun c => !CodePoint.isAlphanumeric c) raw
  rw [← none_left]
  constructor
  · intro empty
    have kept := words_token raw
    rw [empty, words, Text.runs_nil] at kept
    exact List.map_eq_nil_iff.mp kept.symm
  · intro nothing
    rw [token_eq_join, nothing]
    rfl

theorem token_normal_form (raw : Text) :
    token raw = Text.join "_" ((runs raw).map Text.lower) ∧
    (token raw = [] ↔ ∀ c ∈ raw, CodePoint.isAlphanumeric c = false) ∧
    (token raw).head? ≠ some underscore ∧ (token raw).getLast? ≠ some underscore ∧
    ¬ [underscore, underscore] <:+: token raw ∧
    token (token raw) = token raw ∧
    ∀ other, token raw = token other ↔ (runs raw).map Text.lower = (runs other).map Text.lower := by
  have neat := token_neat raw
  refine ⟨token_eq_join raw, token_eq_nil raw, neat.first, neat.last, neat.single, token_token raw, fun other => ?_⟩
  constructor
  · intro same
    rw [← words_token, same, words_token]
  · intro same
    rw [token_eq_join, same, ← token_eq_join]

example : token "  Security--Auditor_2! " = "security_auditor_2" := by decide +kernel

end NodeId

end PlanFlow
