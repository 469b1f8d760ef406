/-
The laws of the tokenizer. At a character between words the run before it is over, and nothing on
one side bears on the tokens of the other (`tokensAfter_append_cons`); so a text divided at a
separator has the tokens of both pieces, one divided at an ideograph has that too, and a run of word
characters without an ideograph is one token in lower case. Everything about the tokens follows from
these laws: every text is such a run or divided by such a character, so there is no other function
that obeys them (`IsTokenizer.unique`).
-/
import Triage.Proofs.Text.Token

namespace Triage.Text

variable {word : List Char} {c : Char} {f g : String → List String}

/-! ## Roles -/

theorem role_eq_ideograph : role c = .ideograph ↔ isIdeograph c = true := by
  unfold role
  cases isIdeograph c <;> cases isWordChar c <;> simp

theorem role_eq_word : role c = .word ↔ isIdeograph c = false ∧ isWordChar c = true := by
  unfold role
  cases isIdeograph c <;> cases isWordChar c <;> simp

theorem role_eq_separator : role c = .separator ↔ isIdeograph c = false ∧ isWordChar c = false := by
  unfold role
  cases isIdeograph c <;> cases isWordChar c <;> simp

/-! ## Texts divided -/

/-- What a character between words adds to the tokens: an ideograph itself, a separator nothing. -/
def ownToken (c : Char) : List (List Char) :=
  if role c = .ideograph then [[c]] else []

/-- At a character between words the run is over, and a new one begins behind it. -/
theorem tokensAfter_append_cons (hc : role c ≠ .word) (run a b : List Char) :
    tokensAfter run (a ++ c :: b) = tokensAfter run a ++ ownToken c ++ tokensAfter [] b := by
  -- By induction on what precedes; the run is what was read of the word before it.
  induction a generalizing run with
  | nil =>
    simp only [List.nil_append, tokensAfter, ownToken]
    cases hr : role c with
    | ideograph => simp
    | word => exact absurd hr hc
    | separator => simp
  | cons d rest ih =>
    simp only [List.cons_append, tokensAfter]
    cases role d <;> simp [ih]

/-- Word characters only add to the run. -/
theorem tokensAfter_of_word (h : ∀ c ∈ word, role c = .word) (run : List Char) :
    tokensAfter run word = tokenOfRun (word.reverse ++ run) := by
  induction word generalizing run with
  | nil => rfl
  | cons c rest ih =>
    obtain ⟨hc, hrest⟩ := List.forall_mem_cons.1 h
    simp only [tokensAfter, hc, ih hrest, List.reverse_cons, List.append_assoc,
      List.singleton_append]

/-- A text is divided at any character between words. -/
theorem tokenize_divided (hc : role c ≠ .word) (a b : String) :
    tokenize (a ++ String.singleton c ++ b) =
      tokenize a ++ (ownToken c).map String.ofList ++ tokenize b := by
  have htext : (a ++ String.singleton c ++ b).toList = a.toList ++ c :: b.toList := by simp
  unfold tokenize
  rw [htext, tokensAfter_append_cons hc, List.map_append, List.map_append]

/-! ## Laws -/

/-- The laws of a tokenizer. -/
structure IsTokenizer (f : String → List String) : Prop where
  empty : f "" = []
  separator : ∀ a s b, isIdeograph s = false → isWordChar s = false →
    f (a ++ String.singleton s ++ b) = f a ++ f b
  ideograph : ∀ a c b, isIdeograph c = true →
    f (a ++ String.singleton c ++ b) = f a ++ [String.singleton c] ++ f b
  word : ∀ w, w ≠ "" → (∀ c ∈ w.toList, isWordChar c = true ∧ isIdeograph c = false) →
    f w = [String.ofList (lowercase w.toList)]

theorem isTokenizer_tokenize : IsTokenizer tokenize where
  empty := rfl
  separator a s b hs hs' := by
    have hrole := role_eq_separator.2 ⟨hs, hs'⟩
    rw [tokenize_divided (by simp [hrole])]
    simp [ownToken, hrole]
  ideograph a c b hc := by
    have hrole := role_eq_ideograph.2 hc
    rw [tokenize_divided (by simp [hrole])]
    simp [ownToken, hrole]
  word w hne hw := by
    have hrole : ∀ c ∈ w.toList, role c = .word := fun c hc => role_eq_word.2 (hw c hc).symm
    have hlist : w.toList ≠ [] := by simpa using hne
    unfold tokenize
    rw [tokensAfter_of_word hrole, List.append_nil]
    simp [tokenOfRun, hlist]

/-- The laws leave no choice. -/
theorem IsTokenizer.unique (hf : IsTokenizer f) (hg : IsTokenizer g) (text : String) :
    f text = g text := by
  -- By induction on the length; a character between words divides a text into shorter ones.
  induction hlength : text.length using Nat.strong_induction_on generalizing text with
  | _ n ih =>
    by_cases hword : ∀ c ∈ text.toList, role c = .word
    · by_cases hne : text = ""
      · rw [hne, hf.empty, hg.empty]
      · have hw : ∀ c ∈ text.toList, isWordChar c = true ∧ isIdeograph c = false :=
          fun c hc => (role_eq_word.1 (hword c hc)).symm
        rw [hf.word text hne hw, hg.word text hne hw]
    · push Not at hword
      obtain ⟨c, hc, hrole⟩ := hword
      obtain ⟨before, behind, htext⟩ := List.append_of_mem hc
      obtain ⟨a, rfl⟩ : ∃ a : String, a.toList = before := ⟨String.ofList before, by simp⟩
      obtain ⟨b, rfl⟩ : ∃ b : String, b.toList = behind := ⟨String.ofList behind, by simp⟩
      have hsplit : text = a ++ String.singleton c ++ b := by
        rw [← String.toList_inj, htext]
        simp
      subst hsplit
      simp only [String.length_append, String.length_singleton] at hlength
      have ha := ih a.length (by omega) a rfl
      have hb := ih b.length (by omega) b rfl
      cases hr : role c with
      | ideograph =>
        have hc := role_eq_ideograph.1 hr
        rw [hf.ideograph a c b hc, hg.ideograph a c b hc, ha, hb]
      | word => exact absurd hr hrole
      | separator =>
        obtain ⟨hs, hs'⟩ := role_eq_separator.1 hr
        rw [hf.separator a c b hs hs', hg.separator a c b hs hs', ha, hb]

/-- The tokens of a text obey the laws, and each is a word without white space and line breaks. -/
theorem tokenize_lawful : IsTokenizer tokenize ∧ ∀ text, ∀ token ∈ tokenize text,
    token ≠ "" ∧ ∀ c ∈ token.toList, isBlank c = false ∧ c ≠ '\n' ∧ c ≠ '\r' := by
  refine ⟨isTokenizer_tokenize, fun text token ht => ⟨?_, fun c hc => ?_⟩⟩
  · rintro rfl
    exact empty_not_mem_tokenize text ht
  · have hblank := isBlank_tokenize ht c hc
    refine ⟨hblank, ?_, ?_⟩ <;> rintro rfl <;> exact absurd hblank (by decide)

example : tokenize "加VX8, Ok领" = ["加", "vx8", "ok", "领"] := by decide +kernel

end Triage.Text
