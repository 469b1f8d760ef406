/-
Searching for the characters of a class. Only one step of such a program is ever taken before a
character is found, at the places passed so far (`TakenBefore`); so a search finds the first
character of the class, and replacing what is found replaces these characters one by one and counts
them (`replace_char`).
-/
import Mathlib
import Triage.Pattern.Program

namespace Triage.Pattern

section

variable {s : CharSet} {text : List Char} {start : Nat} {seen : Seen}

/-! ## Searching -/

/-- The step by which the program of a class is entered takes one character. -/
theorem getD_program_char (s : CharSet) : (program (.char s)).1.getD 1 .accept = .char s 0 :=
  rfl

/-- Whether only the step that is entered has been taken, and only before a place. -/
def TakenBefore (start : Nat) (seen : Seen) : Prop :=
  ∀ step place, seen.contains (step, place) = true → step = 1 ∧ place < start

theorem TakenBefore.insert (h : TakenBefore start seen) :
    TakenBefore (start + 1) (seen.insert (1, start)) := by
  intro step place hin
  rw [Std.HashSet.contains_insert, Bool.or_eq_true, beq_iff_eq] at hin
  rcases hin with heq | hin
  · cases heq
    exact ⟨rfl, Nat.lt_succ_self start⟩
  · obtain ⟨hstep, hplace⟩ := h step place hin
    exact ⟨hstep, Nat.lt_succ_of_lt hplace⟩

theorem TakenBefore.not_contains (h : TakenBefore start seen) {step place : Nat}
    (hn : step ≠ 1 ∨ start ≤ place) : seen.contains (step, place) = false := by
  rw [← Bool.not_eq_true]
  intro hin
  obtain ⟨hstep, hplace⟩ := h step place hin
  omega

/-- A character of the class is taken, and the search ends behind it. -/
theorem run_found (h : TakenBefore start seen) (hc : (text[start]?).any s.contains = true)
    (fuel : Nat) :
    run (program (.char s)).1 text.toArray (fuel + 2) [(1, start)] seen =
      (some (start + 1), (seen.insert (1, start)).insert (0, start + 1)) := by
  have hfirst : seen.contains (1, start) = false := h.not_contains (.inr le_rfl)
  have hsecond : (seen.insert (1, start)).contains (0, start + 1) = false :=
    h.insert.not_contains (.inl (by decide))
  have hat : (text.toArray[start]?).any s.contains = true := by simpa using hc
  have haccept : (program (.char s)).1.getD 0 .accept = .accept := rfl
  rw [run, hfirst, if_neg Bool.false_ne_true]
  simp only [getD_program_char, hat, if_true]
  rw [run, hsecond, if_neg Bool.false_ne_true]
  simp only [haccept]

/-- Where no character of the class stands, the search comes to no other step. -/
theorem run_missed (h : TakenBefore start seen) (hc : (text[start]?).any s.contains = false)
    (fuel : Nat) :
    run (program (.char s)).1 text.toArray (fuel + 2) [(1, start)] seen =
      (none, seen.insert (1, start)) := by
  have hfirst : seen.contains (1, start) = false := h.not_contains (.inr le_rfl)
  have hat : (text.toArray[start]?).any s.contains = false := by simpa using hc
  rw [run, hfirst, if_neg Bool.false_ne_true]
  simp only [getD_program_char, hat, Bool.false_eq_true, if_false]
  rw [run]

/-- A search finds the first character of the class. -/
theorem searchFrom_char (h : TakenBefore start seen) {n : Nat} (hn : text.length ≤ start + n) :
    searchFrom (program (.char s)) text.toArray start seen n =
      ((text.drop start).findIdx? s.contains).map fun i => (start + i, start + i + 1) := by
  induction n generalizing start seen with
  | zero =>
    rw [List.drop_eq_nil_of_le (by omega)]
    rfl
  | succ n ih =>
    have hhead : text[start]? = (text.drop start).head? := List.head?_drop.symm
    have htail : text.drop (start + 1) = (text.drop start).tail := List.tail_drop.symm
    have hentry : (program (.char s)).2 = 1 := rfl
    rw [searchFrom, hentry]
    cases hdrop : text.drop start with
    | nil =>
      rw [hdrop] at hhead htail
      rw [run_missed h (by rw [hhead]; rfl)]
      simp only
      rw [ih h.insert (by omega), htail]
      rfl
    | cons c rest =>
      rw [hdrop] at hhead htail
      have hany : (text[start]?).any s.contains = s.contains c := by
        rw [hhead]
        rfl
      rw [List.findIdx?_cons]
      cases hc : s.contains c with
      | true =>
        rw [run_found h (hany.trans hc)]
        rfl
      | false =>
        rw [run_missed h (hany.trans hc)]
        simp only
        rw [ih h.insert (by omega), htail]
        simp only [List.tail_cons, Bool.false_eq_true, if_false, Option.map_map]
        congr 1
        funext i
        simp only [Function.comp_apply, Nat.add_right_comm start 1 i, Nat.add_assoc]

theorem search_char (s : CharSet) (text : List Char) (start : Nat) :
    search (program (.char s)) text.toArray start =
      ((text.drop start).findIdx? s.contains).map fun i => (start + i, start + i + 1) := by
  unfold search
  refine searchFrom_char (fun step place hin => ?_) ?_
  · simp at hin
  · rw [List.size_toArray]
    omega

theorem matchesFrom_char (s : CharSet) (text : List Char) (start : Nat) (last : Option Nat)
    (fuel : Nat) :
    matchesFrom (program (.char s)) text.toArray start last (fuel + 1) =
      match (text.drop start).findIdx? s.contains with
      | none => []
      | some i => (start + i, start + i + 1) ::
          matchesFrom (program (.char s)) text.toArray (start + i + 1) (some (start + i + 1))
            fuel := by
  rw [matchesFrom, search_char]
  cases (text.drop start).findIdx? s.contains with
  | none => rfl
  | some i => simp

/-! ## Replacing -/

/-- A text with each character of a class replaced. -/
def substituted (s : CharSet) (replacement text : List Char) : List Char :=
  text.flatMap fun c => if s.contains c then replacement else [c]

theorem substituted_of_none {front : List Char} (h : ∀ c ∈ front, s.contains c = false)
    (replacement : List Char) :
    substituted s replacement front = front ∧ front.countP s.contains = 0 := by
  constructor
  · have hsame : substituted s replacement front = front.flatMap fun c => [c] := by
      refine List.flatMap_congr fun c hc => ?_
      rw [h c hc, if_neg Bool.false_ne_true]
    rw [hsame, List.flatMap_singleton']
  · rw [List.countP_eq_zero]
    intro c hc
    rw [h c hc]
    exact Bool.false_ne_true

/-- The first character of the class is replaced, and then those behind it. -/
theorem substituted_append_cons {front back : List Char} {c : Char}
    (h : ∀ d ∈ front, s.contains d = false) (hc : s.contains c = true) (replacement : List Char) :
    substituted s replacement (front ++ c :: back) =
        front ++ replacement ++ substituted s replacement back ∧
      (front ++ c :: back).countP s.contains = back.countP s.contains + 1 := by
  obtain ⟨hkept, hnone⟩ := substituted_of_none h replacement
  constructor
  · unfold substituted at hkept ⊢
    rw [List.flatMap_append, List.flatMap_cons, if_pos hc, hkept, List.append_assoc]
  · rw [List.countP_append, hnone, List.countP_cons_of_pos hc, Nat.zero_add]

/-- Replacing by nothing leaves out the characters of the class. -/
theorem substituted_nil (s : CharSet) (text : List Char) :
    substituted s [] text = text.filter (!s.contains ·) := by
  induction text with
  | nil => rfl
  | cons c rest ih =>
    unfold substituted at ih ⊢
    rw [List.flatMap_cons, List.filter_cons, ih]
    cases s.contains c <;> rfl

/-- Replacing what is found from a place on replaces each character of the class there. -/
theorem replaceMatches_char (s : CharSet) (replacement : List Char) (start : Nat)
    (last : Option Nat) {fuel : Nat} (h : text.length < start + fuel) :
    let found := matchesFrom (program (.char s)) text.toArray start last fuel
    replaceMatches text replacement start found = substituted s replacement (text.drop start) ∧
      found.length = (text.drop start).countP s.contains := by
  induction fuel generalizing start last with
  | zero =>
    simp only [matchesFrom, replaceMatches]
    rw [List.drop_eq_nil_of_le (by omega)]
    exact ⟨rfl, rfl⟩
  | succ fuel ih =>
    simp only
    rw [matchesFrom_char]
    cases hfind : (text.drop start).findIdx? s.contains with
    | none =>
      obtain ⟨hout, hcount⟩ :=
        substituted_of_none (List.findIdx?_eq_none_iff.1 hfind) replacement
      exact ⟨hout.symm, hcount.symm⟩
    | some i =>
      obtain ⟨hi, hin, hbefore⟩ := List.findIdx?_eq_some_iff_getElem.1 hfind
      obtain ⟨hrest, hlength⟩ := ih (start + i + 1) (some (start + i + 1)) (by omega)
      have hfront : ∀ c ∈ (text.drop start).take i, s.contains c = false := by
        intro c hc
        obtain ⟨j, hj, rfl⟩ := List.mem_iff_getElem.1 hc
        rw [List.length_take] at hj
        rw [List.getElem_take, ← Bool.not_eq_true]
        exact hbefore j (by omega)
      have hsplit : (text.drop start).take i ++ (text.drop start)[i] ::
          text.drop (start + i + 1) = text.drop start := by
        rw [Nat.add_assoc, ← List.drop_drop, List.getElem_cons_drop, List.take_append_drop]
      obtain ⟨hout, hcount⟩ := substituted_append_cons hfront hin replacement
      rw [hsplit] at hout hcount
      simp only [replaceMatches, List.length_cons, Nat.add_sub_cancel_left]
      rw [hrest, hlength, hout, hcount]
      exact ⟨rfl, rfl⟩

end

/-- Replacing the matches of a class replaces each of its characters and counts them. -/
theorem replace_char (s : CharSet) (replacement text : String) :
    replace (.char s) replacement text =
      (String.ofList (substituted s replacement.toList text.toList),
        text.toList.countP s.contains) := by
  have hfuel : text.toList.length < 0 + (text.toList.toArray.size + 2) := by
    rw [List.size_toArray]
    omega
  obtain ⟨hout, hcount⟩ := replaceMatches_char s replacement.toList 0 none hfuel
  unfold replace matchesIn
  simp only
  rw [hout, hcount, List.drop_zero]

end Triage.Pattern
