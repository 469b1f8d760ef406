/-
The index of a vocabulary. The terms are taken in one by one, and a term that is empty or was taken
in before ends it; so an index that is made gives for each term its place and for all else nothing,
and terms and index say the same. Together with the tests made before that, the parts of a vectorizer
are either sound, and make one, or refused for the first thing wrong with them.
-/
import Mathlib
import Triage.Proofs.Result
import Triage.Vectorizer.Basic

namespace Triage.Vectorizer

open Std (LawfulEqCmp TreeMap)

/-! ## Indices -/

/-- Whether an index gives the places of terms. -/
def Indexes (terms : List String) (index : TreeMap String Nat) : Prop :=
  ∀ (term : String) (i : Nat), index[term]? = some i ↔ terms[i]? = some term

section

variable {terms done : List String} {index : TreeMap String Nat} {term : String}

theorem indexes_nil : Indexes [] ∅ := by
  intro term i
  simp

theorem Indexes.mem_iff (h : Indexes terms index) : term ∈ index ↔ term ∈ terms := by
  rw [← TreeMap.isSome_getElem?_iff_mem, Option.isSome_iff_exists, List.mem_iff_getElem?]
  exact exists_congr fun i => h term i

/-- A new term is taken in behind the others. -/
theorem Indexes.concat (h : Indexes terms index) (hnew : term ∉ terms) :
    Indexes (terms ++ [term]) (index.insert term terms.length) := by
  intro other i
  rcases eq_or_ne term other with rfl | hne
  · rw [TreeMap.getElem?_insert_self, Option.some_inj]
    constructor
    · rintro rfl
      exact List.getElem?_concat_length
    · intro hi
      have hle : i < terms.length + 1 := by
        simpa using (List.getElem?_eq_some_iff.1 hi).1
      rcases Nat.lt_succ_iff_lt_or_eq.1 hle with hlt | rfl
      · rw [List.getElem?_append_left hlt] at hi
        exact absurd (List.mem_of_getElem? hi) hnew
      · rfl
  · rw [TreeMap.getElem?_insert, if_neg (mt LawfulEqCmp.eq_of_compare hne), h other i]
    constructor
    · intro hi
      rw [List.getElem?_append_left (List.getElem?_eq_some_iff.1 hi).1, hi]
    · intro hi
      rw [List.getElem?_append] at hi
      split at hi
      · exact hi
      · exact absurd (List.mem_singleton.1 (List.mem_of_getElem? hi)).symm hne

/-- Terms that can be numbered: none is empty, and no two are equal. -/
structure Numbered (terms : List String) : Prop where
  named : "" ∉ terms
  distinct : terms.Nodup

theorem Numbered.concat (h : Numbered terms) (hne : term ≠ "") (hnew : term ∉ terms) :
    Numbered (terms ++ [term]) := by
  refine ⟨?_, List.nodup_append.2 ⟨h.distinct, List.nodup_singleton term, ?_⟩⟩
  · rw [List.mem_append, List.mem_singleton, not_or]
    exact ⟨h.named, hne.symm⟩
  · rintro a ha b hb rfl
    exact hnew (List.mem_singleton.1 hb ▸ ha)

/-- The first term that ends the numbering of terms. -/
inductive Unnumbered (terms : List String) : ArtifactFault → Prop
  | empty {before after : List String} (here : terms = before ++ "" :: after)
      (numbered : Numbered before) : Unnumbered terms (.emptyTerm before.length)
  | again {before after : List String} {term : String} (here : terms = before ++ term :: after)
      (numbered : Numbered before) (found : term ∈ before) :
      Unnumbered terms (.duplicateTerm term before.length)

theorem Unnumbered.not_numbered {f : ArtifactFault} (h : Unnumbered terms f) : ¬Numbered terms := by
  intro hall
  cases h with
  | empty here numbered => exact hall.named (here ▸ by simp)
  | again here numbered found =>
    have hdistinct := hall.distinct
    rw [here, List.nodup_append] at hdistinct
    exact hdistinct.2.2 _ found _ List.mem_cons_self rfl

/-- Terms are taken in behind those that were, up to the first that cannot be. -/
theorem indexFrom_cases (hindex : Indexes done index) (hdone : Numbered done)
    (rest : List String) :
    (∃ full, indexFrom done.length index rest = .ok full ∧ Numbered (done ++ rest) ∧
      Indexes (done ++ rest) full) ∨
    ∃ f, indexFrom done.length index rest = .error f ∧ Unnumbered (done ++ rest) f := by
  -- By induction on what is still to be taken in; what was taken in is numbered and indexed.
  induction rest generalizing done index with
  | nil =>
    rw [List.append_nil]
    exact .inl ⟨index, rfl, hdone, hindex⟩
  | cons term rest ih =>
    unfold indexFrom
    split
    · rename_i hempty
      subst hempty
      exact .inr ⟨_, rfl, .empty rfl hdone⟩
    · rename_i hne
      split
      · rename_i hfound
        exact .inr ⟨_, rfl, .again rfl hdone (hindex.mem_iff.1 hfound)⟩
      · rename_i hnew
        have hnew' : term ∉ done := fun hmem => hnew (hindex.mem_iff.2 hmem)
        have hstep := ih (hindex.concat hnew') (hdone.concat hne hnew')
        rwa [List.length_append, List.length_singleton, List.append_assoc,
          List.singleton_append] at hstep

end

/-! ## Parts -/

/-- What the terms and weights of a vectorizer must be. -/
structure Sound (settings : VectorizerSettings) (terms : Array String) (weights : Array Float) :
    Prop where
  aligned : terms.size = weights.size
  few : terms.size ≤ settings.maxFeatures
  finite : ∀ w ∈ weights, w.isFinite = true
  named : "" ∉ terms
  distinct : terms.toList.Nodup

/-- Why terms and weights are refused: the first thing wrong with them. -/
inductive Refused (settings : VectorizerSettings) (terms : Array String) (weights : Array Float) :
    ArtifactFault → Prop
  | unaligned (h : terms.size ≠ weights.size) :
      Refused settings terms weights (.termCount terms.size weights.size)
  | many (h : settings.maxFeatures < terms.size) :
      Refused settings terms weights (.tooManyTerms terms.size settings.maxFeatures)
  | weight {before after : List Float} {w : Float} (here : weights.toList = before ++ w :: after)
      (finite : ∀ x ∈ before, x.isFinite = true) (found : w.isFinite = false) :
      Refused settings terms weights (.weightNotFinite before.length)
  | term {f : ArtifactFault} (h : Unnumbered terms.toList f) : Refused settings terms weights f

section

variable {settings : VectorizerSettings} {terms : Array String} {weights : Array Float}

theorem Sound.numbered (h : Sound settings terms weights) : Numbered terms.toList :=
  ⟨fun hmem => h.named (Array.mem_toList_iff.1 hmem), h.distinct⟩

theorem Refused.not_sound {f : ArtifactFault} (h : Refused settings terms weights f) :
    ¬Sound settings terms weights := by
  intro hsound
  cases h with
  | unaligned h => exact h hsound.aligned
  | many h => exact absurd hsound.few (Nat.not_le_of_lt h)
  | weight here finite found =>
    have hmem : _ ∈ weights.toList := here ▸ List.mem_append_right _ List.mem_cons_self
    have hw := hsound.finite _ (Array.mem_toList_iff.1 hmem)
    rw [found] at hw
    cases hw
  | term h => exact h.not_numbered hsound.numbered

/-- The first weight that is not finite stands behind finite ones. -/
theorem split_of_findIdx? {ws : List Float} {i : Nat}
    (h : ws.findIdx? (!Float.isFinite ·) = some i) : ∃ before w after, ws = before ++ w :: after ∧
      before.length = i ∧ (∀ x ∈ before, x.isFinite = true) ∧ w.isFinite = false := by
  obtain ⟨hi, hbad, hfirst⟩ := List.findIdx?_eq_some_iff_getElem.1 h
  refine ⟨ws.take i, ws[i], ws.drop (i + 1), ?_, ?_, ?_, ?_⟩
  · rw [← List.drop_eq_getElem_cons hi, List.take_append_drop]
  · rw [List.length_take]
    omega
  · intro x hx
    obtain ⟨j, hj, rfl⟩ := List.getElem_of_mem hx
    rw [List.length_take] at hj
    simpa using hfirst j (by omega)
  · simpa using hbad

/-- Parts are sound and make a vectorizer, whose index gives the places of its terms, or they are
refused. -/
theorem ofParts_cases (settings : VectorizerSettings) (terms : Array String)
    (weights : Array Float) :
    (∃ index, ofParts settings terms weights = .ok ⟨settings, terms, weights, index⟩ ∧
      Sound settings terms weights ∧ Indexes terms.toList index) ∨
    ∃ f, ofParts settings terms weights = .error f ∧ Refused settings terms weights f := by
  unfold ofParts
  split
  · rename_i hsize
    exact .inr ⟨_, rfl, .unaligned hsize⟩
  · rename_i hsize
    split
    · rename_i hmany
      exact .inr ⟨_, rfl, .many hmany⟩
    · rename_i hfew
      split
      · rename_i i hfound
        obtain ⟨before, w, after, here, rfl, finite, bad⟩ := split_of_findIdx? hfound
        exact .inr ⟨_, rfl, .weight here finite bad⟩
      · rename_i hfinite
        rcases indexFrom_cases indexes_nil ⟨List.not_mem_nil, List.nodup_nil⟩ terms.toList with
          ⟨full, hfull, hnumbered, hindex⟩ | ⟨f, hf, hun⟩
        · rw [List.length_nil] at hfull
          rw [List.nil_append] at hnumbered hindex
          rw [hfull]
          refine .inl ⟨full, rfl, ⟨Decidable.not_not.1 hsize, Nat.le_of_not_lt hfew, ?_, ?_,
            hnumbered.distinct⟩, hindex⟩
          · intro w hw
            simpa using List.findIdx?_eq_none_iff.1 hfinite w (Array.mem_toList_iff.2 hw)
          · exact fun hmem => hnumbered.named (Array.mem_toList_iff.2 hmem)
        · rw [List.length_nil] at hf
          rw [hf]
          exact .inr ⟨f, rfl, .term hun⟩

/-- Sound parts make a vectorizer. -/
theorem ofParts_of_sound (h : Sound settings terms weights) :
    ∃ v, ofParts settings terms weights = .ok v := by
  rcases ofParts_cases settings terms weights with ⟨index, hok, -, -⟩ | ⟨f, -, hrefused⟩
  · exact ⟨_, hok⟩
  · exact absurd h hrefused.not_sound

/-- A vectorizer that was made of parts has them, and they are sound. -/
theorem parts_of_ofParts {v : Vectorizer} (h : ofParts settings terms weights = .ok v) :
    v.settings = settings ∧ v.terms = terms ∧ v.weights = weights ∧
      Sound settings terms weights ∧ Indexes v.terms.toList v.index := by
  rcases ofParts_cases settings terms weights with ⟨index, hok, hsound, hindex⟩ | ⟨f, hf, -⟩
  · rw [h] at hok
    cases hok
    exact ⟨rfl, rfl, rfl, hsound, hindex⟩
  · rw [h] at hf
    cases hf

end

end Triage.Vectorizer
