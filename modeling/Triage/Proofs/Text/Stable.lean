/-
Tokens read again. A word character in lower case is a word character in lower case; so a token is
its own only token, and the tokens of a text, joined by spaces, have themselves as tokens. There is
one exception: a capital I with a dot becomes an i and a dot above, and the dot, being a combining
mark, separates. A token that has come from one falls apart, and a text with one never has the tokens
of its joined tokens.
-/
import Triage.Proofs.Text.Boundaries

namespace Triage.Text

variable {c : Char} {before word : List Char}

/-! ## Ranges of lower case -/

/-- Whether a range of word characters holds all that the characters of a range of upper case
become. -/
def CaseRange.inWords (r : CaseRange) : Bool :=
  wordRanges.any fun w => w.1 ≤ r.target.1 && r.target.2 ≤ w.2

/-- Whether no character that comes from one range of upper case is in the other. If the code points
overlap, it is every second one that is in the other, and those in between that come from the
first. -/
def CaseRange.misses (r s : CaseRange) : Bool :=
  r.target.2 < s.low || s.high < r.target.1 ||
    (r.step == 2 || r.low == r.high) && s.step == 2 && (r.target.1 + s.low) % 2 == 1

theorem wordRanges_valid :
    ∀ w ∈ wordRanges, 0 < w.1 ∧ (w.2 < 0xd800 ∨ 0xdfff < w.1 ∧ w.2 < 0x110000) := by
  decide +kernel

theorem caseRanges_inWords : caseRanges.all CaseRange.inWords = true := by
  decide +kernel

theorem caseRanges_misses : (caseRanges.all fun r => caseRanges.all r.misses) = true := by
  decide +kernel

/-- Nothing becomes an ideograph, or one of the two characters that have a rule of their own. -/
theorem caseRanges_apart_special : ∀ r ∈ caseRanges, Apart r.target (0x4e00, 0x9fa5) ∧
    Apart r.target ('İ'.toNat, 'İ'.toNat) ∧ Apart r.target ('Σ'.toNat, 'Σ'.toNat) := by
  decide +kernel

theorem CaseRange.exists_wordRange {r : CaseRange} (hr : r ∈ caseRanges) :
    ∃ w ∈ wordRanges, w.1 ≤ r.target.1 ∧ r.target.2 ≤ w.2 := by
  obtain ⟨w, hw, hin⟩ := List.any_eq_true.1 (List.all_eq_true.1 caseRanges_inWords r hr)
  simp only [Bool.and_eq_true, decide_eq_true_eq] at hin
  exact ⟨w, hw, hin⟩

theorem CaseRange.missed {r s : CaseRange} (hr : r ∈ caseRanges) (hs : s ∈ caseRanges) :
    Apart r.target (s.low, s.high) ∨
      (r.step = 2 ∨ r.low = r.high) ∧ s.step = 2 ∧ (r.target.1 + s.low) % 2 = 1 := by
  have h := List.all_eq_true.1 (List.all_eq_true.1 caseRanges_misses r hr) s hs
  simp only [misses, Bool.or_eq_true, Bool.and_eq_true, decide_eq_true_eq, beq_iff_eq] at h
  exact h.imp_right fun h => ⟨h.1.1, h.1.2, h.2⟩

/-! ## Characters in lower case -/

/-- A word character that is in lower case. -/
structure Settled (c : Char) : Prop where
  word : role c = .word
  lower : lowerOf c = c
  undotted : c ≠ 'İ'
  not_sigma : c ≠ 'Σ'

/-- What a character of a range of upper case becomes is as far from the first code point of the
target as the character is from that of the range. -/
theorem CaseRange.toNat_shifted {r : CaseRange} (hr : r ∈ caseRanges) (hlow : r.low ≤ c.toNat)
    (hhigh : c.toNat ≤ r.high) : ∃ w ∈ wordRanges, w.1 ≤ r.target.1 ∧ r.target.2 ≤ w.2 ∧
      (Char.ofNat (c.toNat + r.shift).toNat).toNat = r.target.1 + (c.toNat - r.low) ∧
      r.target.1 + (c.toNat - r.low) ≤ r.target.2 := by
  obtain ⟨w, hw, hfirst, hlast⟩ := CaseRange.exists_wordRange hr
  obtain ⟨hpos, hvalid⟩ := wordRanges_valid w hw
  refine ⟨w, hw, hfirst, hlast, ?_⟩
  unfold CaseRange.target at hfirst hlast ⊢
  dsimp only at hfirst hlast ⊢
  have hchar : (c.toNat + r.shift).toNat.isValidChar := by
    unfold Nat.isValidChar
    omega
  rw [Char.toNat_ofNat, if_pos hchar]
  omega

/-- The lower case of a word character is a word character in lower case. -/
theorem settled_lowerOf (hword : role c = .word) (hdot : c ≠ 'İ') (hsigma : c ≠ 'Σ') :
    Settled (lowerOf c) := by
  rcases lowerOf_cases c with h | ⟨r, hr, hlow, hhigh, hstep, h⟩
  · rw [h]
    exact ⟨hword, h, hdot, hsigma⟩
  obtain ⟨w, hw, hfirst, hlast, hchar, hend⟩ := CaseRange.toNat_shifted hr hlow hhigh
  obtain ⟨hideograph, hdot', hsigma'⟩ := caseRanges_apart_special r hr
  rw [← h] at hchar
  unfold Apart at hideograph hdot' hsigma'
  dsimp only at hideograph hdot' hsigma'
  constructor
  case word =>
    rw [role_eq_word]
    constructor
    · simp only [isIdeograph, Bool.and_eq_false_iff, decide_eq_false_iff_not]
      omega
    · refine List.any_eq_true.2 ⟨w, hw, ?_⟩
      simp only [Bool.and_eq_true, decide_eq_true_eq]
      omega
  case lower =>
    rcases lowerOf_cases (lowerOf c) with heq | ⟨s, hs, hslow, hshigh, hsstep, -⟩
    · exact heq
    rcases CaseRange.missed hr hs with hapart | ⟨heven | hone, hstwo, hodd⟩
    · unfold Apart at hapart
      dsimp only at hapart
      omega
    · -- Both code points are an even number away from the first ones of their ranges.
      rw [heven] at hstep
      rw [hstwo] at hsstep
      omega
    · rw [hstwo] at hsstep
      omega
  case undotted =>
    intro hc
    rw [hc] at hchar
    omega
  case not_sigma =>
    intro hc
    rw [hc] at hchar
    omega

theorem settled_lowerSigma (before after : List Char) : Settled (lowerSigma before after) := by
  unfold lowerSigma
  split <;> constructor <;> decide +kernel

theorem role_dot : role '\u0307' = .separator := by
  decide +kernel

theorem Settled.ne_dot (h : Settled c) : c ≠ '\u0307' := by
  rintro rfl
  exact absurd (h.word.symm.trans role_dot) (by decide)

/-! ## Words in lower case -/

theorem lowerAfter_of_settled (h : ∀ c ∈ word, Settled c) : lowerAfter before word = word := by
  induction word generalizing before with
  | nil => rfl
  | cons c rest ih =>
    obtain ⟨hc, hrest⟩ := List.forall_mem_cons.1 h
    unfold lowerAfter
    rw [if_neg hc.undotted, if_neg hc.not_sigma, hc.lower, ih hrest]
    rfl

/-- Lower case has only characters in lower case, and a dot above for every capital I with a dot. -/
theorem mem_lowerAfter (h : ∀ c ∈ word, role c = .word) :
    ∀ c ∈ lowerAfter before word, Settled c ∨ c = '\u0307' ∧ 'İ' ∈ word := by
  induction word generalizing before with
  | nil => exact List.forall_mem_nil _
  | cons d rest ih =>
    obtain ⟨hd, hrest⟩ := List.forall_mem_cons.1 h
    unfold lowerAfter
    refine List.forall_mem_append.2 ⟨?first, fun c hc => ?rest⟩
    case first =>
      split
      · rename_i hdot
        have hi : Settled 'i' := by constructor <;> decide +kernel
        simp [hi, hdot]
      · rename_i hdot
        split
        · exact List.forall_mem_singleton.2 (.inl (settled_lowerSigma before rest))
        · rename_i hsigma
          exact List.forall_mem_singleton.2 (.inl (settled_lowerOf hd hdot hsigma))
    case rest => exact (ih hrest c hc).imp_right fun h => ⟨h.1, List.mem_cons_of_mem d h.2⟩

theorem dot_mem_lowerAfter (h : 'İ' ∈ word) : '\u0307' ∈ lowerAfter before word := by
  induction word generalizing before with
  | nil => cases h
  | cons d rest ih =>
    unfold lowerAfter
    rcases List.mem_cons.1 h with rfl | h
    · simp
    · exact List.mem_append_right _ (ih h)

/-! ## Tokens -/

section

variable {text run chars token : List Char}

/-- No token has a capital I with a dot in it. -/
theorem IsToken.undotted (h : IsToken text token) : 'İ' ∉ token := by
  cases h with
  | ideograph h =>
    intro hmem
    rw [← List.mem_singleton.1 hmem] at h
    exact absurd h (by decide +kernel)
  | word _ h _ =>
    intro hmem
    rcases mem_lowerAfter h _ hmem with hsettled | ⟨heq, -⟩
    · exact hsettled.undotted rfl
    · exact absurd heq (by decide)

/-- A dot above in a token is left of a capital I with a dot. -/
theorem IsToken.dotted (h : IsToken text token) (hdot : '\u0307' ∈ token) : 'İ' ∈ text := by
  cases h with
  | ideograph h =>
    rw [← List.mem_singleton.1 hdot] at h
    exact absurd h (by decide +kernel)
  | word _ h hsub =>
    rcases mem_lowerAfter h _ hdot with hsettled | ⟨-, hmem⟩
    · exact absurd rfl hsettled.ne_dot
    · exact hsub hmem

/-- A token without a dot above is its own only token. -/
theorem IsToken.tokensAfter_self (h : IsToken text token) (hdot : '\u0307' ∉ token) :
    tokensAfter [] token = [token] := by
  cases h with
  | ideograph h => simp [tokensAfter, h, tokenOfRun]
  | @word word hne h _ =>
    have hsettled : ∀ c ∈ lowercase word, Settled c := fun c hc =>
      (mem_lowerAfter h c hc).resolve_right fun h => hdot (h.1 ▸ hc)
    have hself : lowercase (lowercase word) = lowercase word := lowerAfter_of_settled hsettled
    have hne : lowercase word ≠ [] := lowerAfter_ne_nil hne
    rw [tokensAfter_of_word fun c hc => (hsettled c hc).word]
    simp [tokenOfRun, hne, hself]

theorem dot_mem_tokenOfRun (h : 'İ' ∈ run) : ∃ token ∈ tokenOfRun run, '\u0307' ∈ token := by
  have hne : run ≠ [] := List.ne_nil_of_mem h
  refine ⟨lowercase run.reverse, by simp [tokenOfRun, hne], ?_⟩
  exact dot_mem_lowerAfter (List.mem_reverse.2 h)

/-- A capital I with a dot leaves its dot in one of the tokens. -/
theorem dot_mem_tokensAfter (h : 'İ' ∈ run ∨ 'İ' ∈ chars) :
    ∃ token ∈ tokensAfter run chars, '\u0307' ∈ token := by
  induction chars generalizing run with
  | nil => exact dot_mem_tokenOfRun (h.resolve_right List.not_mem_nil)
  | cons d rest ih =>
    have hword : role 'İ' = .word := by decide +kernel
    unfold tokensAfter
    cases hd : role d with
    | word => exact ih (by rw [List.mem_cons] at h ⊢; tauto)
    | ideograph | separator =>
      rw [List.mem_cons] at h
      rcases h with h | rfl | h
      · obtain ⟨token, ht, hdot⟩ := dot_mem_tokenOfRun h
        exact ⟨token, List.mem_append_left _ ht, hdot⟩
      · rw [hword] at hd
        cases hd
      · obtain ⟨token, ht, hdot⟩ := @ih [] (.inr h)
        exact ⟨token, by simp [ht], hdot⟩

end

/-! ## Texts joined from tokens -/

variable {text t : String} {words tokens : List String}

/-- Words joined by spaces have the tokens that they have one by one. -/
theorem tokenize_intercalate (words : List String) :
    tokenize (" ".intercalate words) = words.flatMap tokenize := by
  induction words with
  | nil => rfl
  | cons w rest ih =>
    by_cases hrest : rest = []
    · simp [hrest]
    · rw [String.intercalate_cons_of_ne_nil hrest, List.flatMap_cons, ← ih]
      exact isTokenizer_tokenize.separator w ' ' _ (by decide) (by decide +kernel)

/-- Tokens of a text that have no dot above are the tokens of themselves joined. -/
theorem tokenize_intercalate_self (h : ∀ t ∈ tokens, t ∈ tokenize text)
    (hdot : ∀ t ∈ tokens, '\u0307' ∉ t.toList) : tokenize (" ".intercalate tokens) = tokens := by
  have hself : ∀ t ∈ tokens, tokenize t = [t] := fun t ht => by
    unfold tokenize
    rw [(isToken_of_mem_tokenize (h t ht)).tokensAfter_self (hdot t ht)]
    simp
  calc tokenize (" ".intercalate tokens) = tokens.flatMap tokenize := tokenize_intercalate tokens
    _ = tokens.flatMap fun t => [t] := List.flatMap_congr hself
    _ = tokens := List.flatMap_singleton' tokens

/-- Joined from tokens, no text has a capital I with a dot in it, and so none of its tokens a dot. -/
theorem dot_not_mem_again (h : ∀ t ∈ tokens, t ∈ tokenize text)
    (ht : t ∈ tokenize (" ".intercalate tokens)) : '\u0307' ∉ t.toList := by
  intro hdot
  rcases mem_intercalate ((isToken_of_mem_tokenize ht).dotted hdot) with heq | ⟨u, hu, hmem⟩
  · exact absurd heq (by decide)
  · exact (isToken_of_mem_tokenize (h u hu)).undotted hmem

/-- The tokens of a text, joined by spaces, have themselves as tokens, unless a capital I with a dot
is in the text. -/
theorem tokenize_again_iff (text : String) :
    tokenize (" ".intercalate (tokenize text)) = tokenize text ↔ 'İ' ∉ text.toList := by
  constructor
  · intro h hmem
    obtain ⟨token, ht, hdot⟩ := @dot_mem_tokensAfter [] _ (.inr hmem)
    have ht : String.ofList token ∈ tokenize text := List.mem_map_of_mem ht
    have hnot := dot_not_mem_again (fun _ hu => hu) (h ▸ ht)
    rw [String.toList_ofList] at hnot
    exact hnot hdot
  · intro h
    exact tokenize_intercalate_self (fun _ ht => ht) fun t ht hdot =>
      h ((isToken_of_mem_tokenize ht).dotted hdot)

end Triage.Text
