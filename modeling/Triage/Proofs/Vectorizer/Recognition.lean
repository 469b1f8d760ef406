/-
A vectorizer recognizes its own terms. A term is a window of the tokens of a document, joined; read
as a text it has the tokens of the window, and the window is then its longest n-gram. This fails for
the terms with a dot above, which are left of a capital I with a dot: the dot separates when they are
read again, so they are not among their own n-grams.
-/
import Triage.Proofs.Result
import Triage.Proofs.Text.Stable
import Triage.Proofs.Text.Windows
import Triage.Proofs.Vectorizer.Fit

namespace Triage

open Text

namespace Text

variable {r : NGramRange} {text ngram : String}

/-- An n-gram without a dot above is an n-gram of itself. -/
theorem mem_extract_self (h : ngram ∈ r.extract (tokenize text)) (hdot : '\u0307' ∉ ngram.toList) :
    ngram ∈ r.extract (tokenize ngram) := by
  obtain ⟨tokens, htokens, hleast, hmost, rfl⟩ := exists_window_of_mem_extract h
  rw [tokenize_intercalate_self htokens fun t ht hmem => hdot (mem_intercalate_of_mem ht hmem)]
  exact r.intercalate_mem_extract hleast hmost

/-- One with a dot above is not. -/
theorem not_mem_extract_self (h : ngram ∈ r.extract (tokenize text))
    (hdot : '\u0307' ∈ ngram.toList) : ngram ∉ r.extract (tokenize ngram) := by
  intro hself
  obtain ⟨tokens, htokens, -, -, rfl⟩ := exists_window_of_mem_extract h
  obtain ⟨again, hagain, -, -, heq⟩ := exists_window_of_mem_extract hself
  rw [← heq] at hdot
  rcases mem_intercalate hdot with hspace | ⟨t, ht, hmem⟩
  · exact absurd hspace (by decide)
  · exact dot_not_mem_again htokens (hagain t ht) hmem

/-- There is a dot above in an n-gram only if there is a capital I with a dot in the text. -/
theorem undotted_of_mem_extract (h : ngram ∈ r.extract (tokenize text)) (htext : 'İ' ∉ text.toList) :
    '\u0307' ∉ ngram.toList := by
  intro hdot
  obtain ⟨tokens, htokens, -, -, rfl⟩ := exists_window_of_mem_extract h
  rcases mem_intercalate hdot with hspace | ⟨t, ht, hmem⟩
  · exact absurd hspace (by decide)
  · exact htext ((isToken_of_mem_tokenize (htokens t ht)).dotted hmem)

end Text

namespace Vectorizer

/-- The tokens of a text, joined by spaces, have themselves as tokens if, and only if, there is no
capital I with a dot in the text. The terms of a fitted vectorizer that have no dot above are among
their own n-grams, so a vectorizer recognizes them; those that have one are not, and there are none
unless a document has a capital I with a dot. -/
theorem terms_recognized :
    (∀ text, tokenize (" ".intercalate (tokenize text)) = tokenize text ↔ 'İ' ∉ text.toList) ∧
    ∀ settings documents v, checkedFit settings documents = .ok v →
      (∀ term ∈ v.terms, '\u0307' ∉ term.toList → term ∈ v.ngrams term ∧ 1 ≤ v.matched term) ∧
      (∀ term ∈ v.terms, '\u0307' ∈ term.toList → term ∉ v.ngrams term) ∧
      ((∀ d ∈ documents, 'İ' ∉ d.toList) → ∀ term ∈ v.terms, '\u0307' ∉ term.toList) := by
  refine ⟨tokenize_again_iff, fun settings documents v h => ?_⟩
  obtain ⟨rfl, hmade, hngrams⟩ := fit_spec h
  refine ⟨fun term hterm hdot => ?_, fun term hterm hdot => ?_, fun hdocuments term hterm => ?_⟩
  · obtain ⟨d, -, hd⟩ := hngrams term hterm
    have hself : term ∈ v.ngrams term := mem_extract_self hd hdot
    exact ⟨hself, List.countP_pos_iff.2 ⟨term, hself, hmade.isTerm_iff.2 hterm⟩⟩
  · obtain ⟨d, -, hd⟩ := hngrams term hterm
    exact not_mem_extract_self hd hdot
  · obtain ⟨d, hmem, hd⟩ := hngrams term hterm
    exact undotted_of_mem_extract hd (hdocuments d hmem)

/-- A pair in capitals is a term in lower case, and recognized. -/
theorem terms_recognized_pair : ∃ v, checkedFit .standard ["GRATIS VX8"] = .ok v ∧
    "gratis vx8" ∈ v.terms ∧ "gratis vx8" ∈ v.ngrams "gratis vx8" ∧
      1 ≤ v.matched "gratis vx8" := by
  have hfit : ((checkedFit .standard ["GRATIS VX8"]).map terms).toOption =
      some #["gratis", "gratis vx8", "vx8"] := by decide +kernel
  obtain ⟨v, hv, hterms⟩ := ok_of_map (ok_of_toOption hfit)
  have hterm : "gratis vx8" ∈ v.terms := by simp [hterms]
  exact ⟨v, hv, hterm, (terms_recognized.2 _ _ v hv).1 _ hterm (by decide)⟩

/-- A capital I with a dot falls apart: its token read again is an i, and as the only term of a
vectorizer it is not recognized. -/
theorem dotted_term_missed : tokenize "İ" = ["i\u0307"] ∧
    tokenize (" ".intercalate (tokenize "İ")) = ["i"] ∧
    ∃ v, checkedFit .standard ["İ"] = .ok v ∧ "i\u0307" ∈ v.terms ∧
      "i\u0307" ∉ v.ngrams "i\u0307" ∧ v.matched "i\u0307" = 0 := by
  have hfit : ((checkedFit .standard ["İ"]).map fun v =>
      (v.terms, v.ngrams "i\u0307", v.matched "i\u0307")).toOption =
        some (#["i\u0307"], ["i"], 0) := by decide +kernel
  obtain ⟨v, hv, hparts⟩ := ok_of_map (ok_of_toOption hfit)
  obtain ⟨hterms, hngrams, hmatched⟩ : v.terms = #["i\u0307"] ∧ v.ngrams "i\u0307" = ["i"] ∧
      v.matched "i\u0307" = 0 := by simpa using hparts
  refine ⟨by decide +kernel, by decide +kernel, v, hv, ?_, ?_, hmatched⟩
  · simp [hterms]
  · rw [hngrams]
    decide

end Vectorizer

end Triage
