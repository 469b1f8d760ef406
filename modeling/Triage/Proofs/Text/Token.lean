/-
What tokens are: ideographs, and words of other characters in lower case (`IsToken`). No word
character is blank, and none becomes blank in lower case; so no token has a blank in it, and n-grams
have none but the spaces between their tokens.
-/
import Mathlib
import Triage.Proofs.Text.Lines
import Triage.Text.NGram
import Triage.Text.Token

namespace Triage.Text

/-! ## Ranges -/

/-- No code point lies in two ranges. -/
def Apart (a b : Nat × Nat) : Prop := a.2 < b.1 ∨ b.2 < a.1

instance (a b : Nat × Nat) : Decidable (Apart a b) := inferInstanceAs (Decidable (_ ∨ _))

theorem contains_eq_false {r : Ranges} {c : Char} {low high : Nat}
    (hc : low ≤ c.toNat ∧ c.toNat ≤ high) (h : ∀ b ∈ r, Apart (low, high) b) :
    r.contains c = false := by
  unfold Ranges.contains
  rw [List.any_eq_false]
  intro b hb
  have := h b hb
  unfold Apart at this
  simp only [Bool.and_eq_true, decide_eq_true_eq]
  omega

/-- A character that lies in ranges apart from others lies in none of those. -/
theorem contains_of_apart {r s : Ranges} {c : Char} (hc : r.contains c = true)
    (h : ∀ a ∈ r, ∀ b ∈ s, Apart a b) : s.contains c = false := by
  unfold Ranges.contains at hc
  obtain ⟨a, ha, hin⟩ := List.any_eq_true.1 hc
  simp only [Bool.and_eq_true, decide_eq_true_eq] at hin
  exact contains_eq_false hin (h a ha)

/-! ## Word characters -/

theorem wordRanges_apart : ∀ a ∈ wordRanges, ∀ b ∈ blankRanges, Apart a b := by
  decide +kernel

theorem isBlank_of_role {c : Char} (h : role c ≠ .separator) : isBlank c = false := by
  unfold role at h
  split at h
  · rename_i hc
    unfold isIdeograph at hc
    simp only [Bool.and_eq_true, decide_eq_true_eq] at hc
    exact contains_eq_false hc (by decide)
  · split at h
    · rename_i hc
      exact contains_of_apart hc wordRanges_apart
    · exact absurd rfl h

/-- The code points that the characters of a range of upper case become. -/
def CaseRange.target (r : CaseRange) : Nat × Nat :=
  ((r.low + r.shift).toNat, (r.high + r.shift).toNat)

/-- A character is in lower case, or what it becomes is found in the table. -/
theorem lowerOf_cases (c : Char) : lowerOf c = c ∨ ∃ r ∈ caseRanges,
    r.low ≤ c.toNat ∧ c.toNat ≤ r.high ∧ (c.toNat - r.low) % r.step = 0 ∧
      lowerOf c = Char.ofNat (c.toNat + r.shift).toNat := by
  unfold lowerOf
  split
  · rename_i r hr
    have hin := List.find?_some hr
    simp only [Bool.and_eq_true, decide_eq_true_eq, beq_iff_eq] at hin
    exact .inr ⟨r, List.mem_of_find?_eq_some hr, hin.1.1, hin.1.2, hin.2, rfl⟩
  · exact .inl rfl

theorem caseRanges_apart : ∀ r ∈ caseRanges, ∀ b ∈ blankRanges, Apart r.target b := by
  decide +kernel

theorem isBlank_lowerOf {c : Char} (h : isBlank c = false) : isBlank (lowerOf c) = false := by
  rcases lowerOf_cases c with heq | ⟨r, hr, hlow, hhigh, -, heq⟩
  · rw [heq, h]
  have hchar := Char.toNat_ofNat (c.toNat + r.shift).toNat
  rw [← heq] at hchar
  split at hchar
  · refine contains_eq_false ?_ (caseRanges_apart r hr)
    rw [hchar]
    omega
  · -- A shifted code point that is none of a character becomes zero, which is not blank either.
    exact contains_eq_false ⟨Nat.zero_le _, Nat.le_of_eq hchar⟩ (by decide)

theorem isBlank_lowerAfter {before word : List Char} (h : ∀ c ∈ word, isBlank c = false) :
    ∀ c ∈ lowerAfter before word, isBlank c = false := by
  induction word generalizing before with
  | nil => intro c hc; cases hc
  | cons d rest ih =>
    intro c hc
    unfold lowerAfter at hc
    rcases List.mem_append.1 hc with hc | hc
    · split at hc
      · have hdot : ∀ x ∈ ['i', '\u0307'], isBlank x = false := by
          simp [isBlank, blankRanges, Ranges.contains]
        exact hdot c hc
      · split at hc
        · unfold lowerSigma at hc
          rw [List.mem_singleton.1 hc]
          split <;> decide
        · rw [List.mem_singleton.1 hc]
          exact isBlank_lowerOf (h d List.mem_cons_self)
    · exact ih (fun x hx => h x (List.mem_cons_of_mem d hx)) c hc

theorem lowerAfter_ne_nil {before word : List Char} (h : word ≠ []) :
    lowerAfter before word ≠ [] := by
  cases word with
  | nil => exact absurd rfl h
  | cons c rest =>
    unfold lowerAfter
    refine List.append_ne_nil_of_left_ne_nil ?_ _
    split
    · exact List.cons_ne_nil _ _
    · split <;> exact List.cons_ne_nil _ _

/-! ## Tokens -/

/-- What a token of a text is: an ideograph, or a word of other characters of the text in lower
case. -/
inductive IsToken (text : List Char) : List Char → Prop where
  | ideograph {c : Char} (h : role c = .ideograph) : IsToken text [c]
  | word {word : List Char} (hne : word ≠ []) (h : ∀ c ∈ word, role c = .word)
      (hsub : word ⊆ text) : IsToken text (lowercase word)

section

variable {text run chars token : List Char}

theorem isToken_of_mem_tokenOfRun (hrun : ∀ c ∈ run, role c = .word) (hsub : run ⊆ text)
    (ht : token ∈ tokenOfRun run) : IsToken text token := by
  unfold tokenOfRun at ht
  split at ht
  · cases ht
  · rename_i hne
    rw [List.mem_singleton.1 ht]
    refine .word (by simpa using hne) (fun c hc => hrun c (List.mem_reverse.1 hc)) fun c hc => ?_
    exact hsub (List.mem_reverse.1 hc)

theorem isToken_of_mem_tokensAfter (hrun : ∀ c ∈ run, role c = .word) (hsub : run ⊆ text)
    (hchars : chars ⊆ text) (ht : token ∈ tokensAfter run chars) : IsToken text token := by
  -- By induction on what is left of the text; the run is what was read of a word not ended yet.
  induction chars generalizing run with
  | nil => exact isToken_of_mem_tokenOfRun hrun hsub ht
  | cons d rest ih =>
    obtain ⟨hmem, hrest⟩ := List.cons_subset.1 hchars
    unfold tokensAfter at ht
    cases hd : role d with
    | ideograph =>
      simp only [hd, List.mem_append, List.mem_cons] at ht
      rcases ht with ht | rfl | ht
      · exact isToken_of_mem_tokenOfRun hrun hsub ht
      · exact .ideograph hd
      · exact ih (List.forall_mem_nil _) (List.nil_subset _) hrest ht
    | word =>
      simp only [hd] at ht
      exact ih (List.forall_mem_cons.2 ⟨hd, hrun⟩) (List.cons_subset.2 ⟨hmem, hsub⟩) hrest ht
    | separator =>
      simp only [hd, List.mem_append] at ht
      rcases ht with ht | ht
      · exact isToken_of_mem_tokenOfRun hrun hsub ht
      · exact ih (List.forall_mem_nil _) (List.nil_subset _) hrest ht

theorem IsToken.isBlank_eq_false (h : IsToken text token) : ∀ c ∈ token, isBlank c = false := by
  cases h with
  | ideograph h =>
    intro c hc
    rw [List.mem_singleton.1 hc]
    exact isBlank_of_role (by rw [h]; decide)
  | word _ h _ => exact isBlank_lowerAfter fun c hc => isBlank_of_role (by rw [h c hc]; decide)

theorem IsToken.ne_nil (h : IsToken text token) : token ≠ [] := by
  cases h with
  | ideograph _ => exact List.cons_ne_nil _ _
  | word hne _ _ => exact lowerAfter_ne_nil hne

end

theorem isToken_of_mem_tokenize {text token : String} (h : token ∈ tokenize text) :
    IsToken text.toList token.toList := by
  obtain ⟨chars, hchars, rfl⟩ := List.mem_map.1 h
  rw [String.toList_ofList]
  exact isToken_of_mem_tokensAfter (List.forall_mem_nil _) (List.nil_subset _)
    (List.Subset.refl _) hchars

/-- No token has a blank in it. -/
theorem isBlank_tokenize {text token : String} (h : token ∈ tokenize text) :
    ∀ c ∈ token.toList, isBlank c = false :=
  (isToken_of_mem_tokenize h).isBlank_eq_false

theorem empty_not_mem_tokenize (text : String) : "" ∉ tokenize text := by
  intro h
  exact (isToken_of_mem_tokenize h).ne_nil rfl

theorem length_tokenOfRun_le (run : List Char) : (tokenOfRun run).length ≤ run.length := by
  cases run <;> simp [tokenOfRun]

theorem length_tokensAfter_le (run rest : List Char) :
    (tokensAfter run rest).length ≤ run.length + rest.length := by
  induction rest generalizing run with
  | nil => simpa [tokensAfter] using length_tokenOfRun_le run
  | cons c rest ih =>
    have hrun := length_tokenOfRun_le run
    have hrest := ih []
    have hword := ih (c :: run)
    rw [tokensAfter]
    cases role c <;> simp only [List.length_append, List.length_cons, List.length_nil] at * <;> omega

/-- There are no more tokens than characters. -/
theorem length_tokenize_le (text : String) : (tokenize text).length ≤ text.length := by
  have h := length_tokensAfter_le [] text.toList
  rw [List.length_nil, Nat.zero_add, String.length_toList] at h
  rwa [tokenize, List.length_map]

/-! ## N-grams -/

theorem mem_of_mem_windows {α : Type} {n : Nat} {w l : List α} (h : w ∈ windows n l) :
    ∀ a ∈ w, a ∈ l := by
  induction l with
  | nil => cases h
  | cons b rest ih =>
    intro a ha
    unfold windows at h
    simp only at h
    split at h
    · rcases List.mem_cons.1 h with rfl | h
      · exact List.mem_of_mem_take ha
      · exact List.mem_cons_of_mem b (ih h a ha)
    · cases h

theorem length_of_mem_windows {α : Type} {n : Nat} {w l : List α} (h : w ∈ windows n l) :
    w.length = n := by
  induction l with
  | nil => cases h
  | cons b rest ih =>
    unfold windows at h
    simp only at h
    split at h
    · rename_i hlen
      rcases List.mem_cons.1 h with rfl | h
      · exact hlen
      · exact ih h
    · cases h

/-- An n-gram of a list of tokens is some of them joined, as many as the range allows. -/
theorem exists_window_of_mem_extract {r : NGramRange} {tokens : List String} {ngram : String}
    (h : ngram ∈ r.extract tokens) : ∃ w, (∀ t ∈ w, t ∈ tokens) ∧
      r.least ≤ w.length ∧ w.length ≤ r.most ∧ " ".intercalate w = ngram := by
  unfold NGramRange.extract at h
  obtain ⟨n, hn, h⟩ := List.mem_flatMap.1 h
  obtain ⟨w, hw, rfl⟩ := List.mem_map.1 h
  rw [List.mem_range'_1] at hn
  have hlength := length_of_mem_windows hw
  exact ⟨w, mem_of_mem_windows hw, by omega, by omega, rfl⟩

theorem mem_intercalate {tokens : List String} {c : Char}
    (h : c ∈ (" ".intercalate tokens).toList) : c = ' ' ∨ ∃ t ∈ tokens, c ∈ t.toList := by
  induction tokens with
  | nil => cases h
  | cons t rest ih =>
    by_cases hr : rest = []
    · subst hr
      exact .inr ⟨t, List.mem_cons_self, by simpa using h⟩
    · rw [String.intercalate_cons_of_ne_nil hr, String.toList_append, String.toList_append,
        List.mem_append, List.mem_append] at h
      rcases h with (h | h) | h
      · exact .inr ⟨t, List.mem_cons_self, h⟩
      · exact .inl (by simpa using h)
      · rcases ih h with h | ⟨u, hu, h⟩
        · exact .inl h
        · exact .inr ⟨u, List.mem_cons_of_mem t hu, h⟩

theorem mem_intercalate_of_mem {tokens : List String} {t : String} {c : Char} (ht : t ∈ tokens)
    (hc : c ∈ t.toList) : c ∈ (" ".intercalate tokens).toList := by
  induction tokens with
  | nil => cases ht
  | cons u rest ih =>
    by_cases hr : rest = []
    · rw [hr, List.mem_singleton] at ht
      rw [hr, ← ht]
      simpa using hc
    · rw [String.intercalate_cons_of_ne_nil hr, String.toList_append, String.toList_append]
      rcases List.mem_cons.1 ht with rfl | ht
      · exact List.mem_append_left _ (List.mem_append_left _ hc)
      · exact List.mem_append_right _ (ih ht)

/-- An n-gram has no blanks but the spaces between its tokens. -/
theorem isBlank_extract {r : NGramRange} {text ngram : String}
    (h : ngram ∈ r.extract (tokenize text)) :
    ∀ c ∈ ngram.toList, c = ' ' ∨ isBlank c = false := by
  obtain ⟨w, hw, -, -, rfl⟩ := exists_window_of_mem_extract h
  intro c hc
  rcases mem_intercalate hc with hc | ⟨t, ht, hc⟩
  · exact .inl hc
  · exact .inr (isBlank_tokenize (hw t ht) c hc)

/-- So an n-gram is a line that reads back. -/
theorem isLine_extract {r : NGramRange} {text ngram : String}
    (h : ngram ∈ r.extract (tokenize text)) : IsLine ngram.toList :=
  isLine_of_isBlank (isBlank_extract h)

theorem empty_not_mem_extract (r : NGramRange) (text : String) :
    "" ∉ r.extract (tokenize text) := by
  intro h
  obtain ⟨w, hw, hleast, -, hempty⟩ := exists_window_of_mem_extract h
  -- The first token of the window is not empty, and its characters are in the n-gram.
  obtain ⟨t, rest, rfl⟩ := List.exists_cons_of_length_pos (Nat.lt_of_lt_of_le r.least_pos hleast)
  have hnone : t.toList = [] := List.eq_nil_iff_forall_not_mem.2 fun c hc => by
    have hmem : c ∈ (" ".intercalate (t :: rest)).toList :=
      mem_intercalate_of_mem List.mem_cons_self hc
    rw [hempty] at hmem
    cases hmem
  have ht : t ∈ tokenize text := hw t List.mem_cons_self
  exact empty_not_mem_tokenize text (String.toList_eq_nil_iff.1 hnone ▸ ht)

end Triage.Text
