import Mathlib
import PlanFlow.Text.Blank

/-!
Texts without lone surrogates are closed under everything that node ids and prompts are made with.
-/

set_option autoImplicit false

namespace PlanFlow

namespace Text

theorem no_surrogate_iff (t : Text) : t.hasSurrogate = false ↔ ∀ c ∈ t, CodePoint.isSurrogate c = false := by
  simp [hasSurrogate]

theorem no_surrogate_of_subset (t whole : Text) (subset : ∀ c ∈ t, c ∈ whole)
    (clean : whole.hasSurrogate = false) : t.hasSurrogate = false := by
  rw [no_surrogate_iff] at clean ⊢
  exact fun c member => clean c (subset c member)

@[simp] theorem has_surrogate_nil : hasSurrogate [] = false := rfl

@[simp] theorem has_surrogate_append (a b : Text) : (a ++ b).hasSurrogate = (a.hasSurrogate || b.hasSurrogate) :=
  List.any_append

theorem no_surrogate_join (separator : Text) (parts : List Text) (plain : separator.hasSurrogate = false)
    (clean : ∀ part ∈ parts, part.hasSurrogate = false) : (join separator parts).hasSurrogate = false := by
  induction parts using join.induct with
  | case1 => rfl
  | case2 part => exact clean part List.mem_cons_self
  | case3 part rest nonempty ih =>
      rw [join, has_surrogate_append, has_surrogate_append, clean part List.mem_cons_self, plain,
        ih (fun other member => clean other (List.mem_cons_of_mem part member))]
      · rfl
      · exact nonempty

theorem no_surrogate_of_chars (characters : List Char) :
    hasSurrogate (characters.map CodePoint.ofChar) = false := by
  rw [no_surrogate_iff]
  intro c member
  obtain ⟨character, _, rfl⟩ := List.mem_map.mp member
  have valid := character.valid
  simp only [UInt32.isValidChar, Nat.isValidChar] at valid
  rw [CodePoint.isSurrogate, Bool.and_eq_false_iff]
  exact valid.imp (fun low => decide_eq_false (Nat.not_le.mpr low))
    (fun high => decide_eq_false (Nat.not_le.mpr high.1))

@[simp] theorem has_surrogate_of_string (s : String) : (ofString s).hasSurrogate = false :=
  no_surrogate_of_chars s.toList

theorem replace_surrogates_clean (t : Text) : t.replaceSurrogates.hasSurrogate = false := by
  rw [no_surrogate_iff]
  intro c member
  obtain ⟨given, _, replaced⟩ := List.mem_flatMap.mp member
  by_cases lone : CodePoint.isSurrogate given = true
  · rw [if_pos lone] at replaced
    rw [(List.mem_replicate.mp replaced).2]
    rfl
  · rw [if_neg lone] at replaced
    rw [List.mem_singleton.mp replaced]
    exact Bool.eq_false_iff.mpr lone

theorem replace_surrogates_of_clean (t : Text) (clean : t.hasSurrogate = false) : t.replaceSurrogates = t := by
  induction t with
  | nil => rfl
  | cons head tail ih =>
      obtain ⟨first, rest⟩ := List.forall_mem_cons.mp ((no_surrogate_iff _).mp clean)
      have tail_same := ih ((no_surrogate_iff tail).mpr rest)
      rw [replaceSurrogates] at tail_same ⊢
      rw [List.flatMap_cons, tail_same, first]
      rfl

theorem after_append (start rest : Text) : after? start (start ++ rest) = some rest := by
  have starts : start.isPrefixOf (start ++ rest) = true := List.isPrefixOf_iff_prefix.mpr (List.prefix_append start rest)
  rw [after?, if_pos starts, List.drop_left]

theorem trim_while_infix (test : CodePoint → Bool) (t : Text) : t.trimWhile test <:+: t :=
  (List.rdropWhile_prefix test _).isInfix.trans (List.dropWhile_suffix test).isInfix

theorem mem_of_mem_trim_while (test : CodePoint → Bool) (t : Text) (c : CodePoint)
    (member : c ∈ t.trimWhile test) : c ∈ t := (t.trim_while_infix test).subset member

theorem trim_while_eq_self (test : CodePoint → Bool) (t : Text) (first : ∀ c ∈ t.head?, test c = false)
    (last : ∀ c ∈ t.getLast?, test c = false) : t.trimWhile test = t := by
  have front : t.dropWhile test = t := by
    refine List.dropWhile_eq_self_iff.mpr fun nonempty => ?_
    simp [first t[0] (by simp [List.head?_eq_getElem?, nonempty])]
  have back : t.rdropWhile test = t := by
    refine List.rdropWhile_eq_self_iff.mpr fun nonempty => ?_
    simp [last _ (List.getLast?_eq_some_getLast nonempty)]
  rw [trimWhile, front]
  exact back

theorem trim_while_first (test : CodePoint → Bool) (t : Text) : ∀ c ∈ (t.trimWhile test).head?, test c = false := by
  intro c head
  have ends : t.trimWhile test = (t.dropWhile test).rdropWhile test := rfl
  obtain ⟨rest, parts⟩ := List.rdropWhile_prefix test (t.dropWhile test)
  have front : (t.dropWhile test).head? = some c := by
    rw [← parts, ← ends, List.head?_append, head, Option.some_or]
  have kept := List.head?_dropWhile_not test t
  rw [front] at kept
  exact kept

theorem trim_while_last (test : CodePoint → Bool) (t : Text) : ∀ c ∈ (t.trimWhile test).getLast?, test c = false := by
  intro c last
  have ends : t.trimWhile test = (t.dropWhile test).rdropWhile test := rfl
  have nonempty : (t.dropWhile test).rdropWhile test ≠ [] := by
    rintro empty
    simp [ends, empty] at last
  have same : c = ((t.dropWhile test).rdropWhile test).getLast nonempty := by
    rw [ends, List.getLast?_eq_some_getLast nonempty] at last
    exact (Option.some.inj last).symm
  rw [same, Bool.eq_false_iff]
  exact List.rdropWhile_last_not test (t.dropWhile test) nonempty

theorem trim_while_trimmed (test : CodePoint → Bool) (t : Text) :
    (t.trimWhile test).trimWhile test = t.trimWhile test :=
  trim_while_eq_self test _ (trim_while_first test t) (trim_while_last test t)

theorem trim_while_eq_nil (test : CodePoint → Bool) (t : Text) : trimWhile test t = [] ↔ ∀ c ∈ t, test c = true := by
  constructor
  · intro empty
    have front : t.dropWhile test = [] := by
      cases rest : t.dropWhile test with
      | nil => rfl
      | cons c others =>
          have all : ∀ d ∈ c :: others, test d = true := by
            rw [trimWhile, rest, List.reverse_eq_nil_iff, List.dropWhile_eq_nil_iff] at empty
            exact fun d member => empty d (List.mem_reverse.mpr member)
          have first := List.head_dropWhile_not test (by rw [rest]; exact List.cons_ne_nil c others)
          simp only [rest, List.head_cons] at first
          rw [all c List.mem_cons_self] at first
          cases first
    exact List.dropWhile_eq_nil_iff.mp front
  · intro all
    rw [trimWhile, List.dropWhile_eq_nil_iff.mpr all]
    rfl

theorem blank_clean (t : Text) (blank : t.trim = []) : t.hasSurrogate = false := by
  refine (no_surrogate_iff t).mpr fun c member => ?_
  have found := (trim_while_eq_nil CodePoint.isBlank t).mp blank c member
  simp only [CodePoint.isBlank, CodePoint.isWhiteSpace, Bool.or_eq_true, Bool.and_eq_true, decide_eq_true_eq,
    beq_iff_eq] at found
  simp only [CodePoint.isSurrogate, Bool.and_eq_false_iff, decide_eq_false_iff_not]
  omega

theorem trim_trim (t : Text) : t.trim.trim = t.trim := trim_while_trimmed CodePoint.isBlank t

theorem no_surrogate_trim (t : Text) (clean : t.hasSurrogate = false) : t.trim.hasSurrogate = false :=
  no_surrogate_of_subset t.trim t (mem_of_mem_trim_while CodePoint.isBlank t) clean

end Text

end PlanFlow
