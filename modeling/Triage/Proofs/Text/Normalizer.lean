/-
Normal forms. What is invisible is what a pattern finds, so a normal form is two substitutions with
a replacement of that pattern in between (`normalize_eq_steps`). A text is in normal form if no key
stands in it and nothing invisible does; such a text is its own normal form, and if a table leaves
no keys (`Settling`) every text comes to one. If the replacements of a table keep out of the way of
its keys, invisible characters have no say in what a text comes to: its normal form is that of the
text without them, which is a single substitution. Both hold of the look-alikes and split keywords
known to be used.
-/
import Mathlib
import Triage.Proofs.Pattern.Classes
import Triage.Proofs.Text.Substitution
import Triage.Text.Normalizer

namespace Triage.Text

/-! ## Invisible characters -/

theorem hasInvisible_eq_false {text : String} :
    hasInvisible text = false ↔ ∀ c ∈ text.toList, isInvisible c = false := by
  simp [hasInvisible]

theorem toList_visible (text : String) :
    (visible text).toList = text.toList.filter (!isInvisible ·) :=
  String.toList_ofList

theorem visible_of_hasInvisible {text : String} (h : hasInvisible text = false) :
    visible text = text := by
  apply String.toList_inj.1
  rw [toList_visible, List.filter_eq_self]
  intro c hc
  rw [hasInvisible_eq_false.1 h c hc]
  rfl

theorem hasInvisible_visible (text : String) : hasInvisible (visible text) = false := by
  rw [hasInvisible_eq_false, toList_visible]
  intro c hc
  simpa using (List.mem_filter.1 hc).2

/-! ## The pattern of invisible characters -/

/-- The class of the invisible characters, as the pattern writes it. -/
def invisible : CharSet :=
  .bracketed false (.either (.within [(0x200b, 0x200f)]) (.within [(0xfeff, 0xfeff)]))

theorem ofText_invisible : Pattern.ofText "[\u200b-\u200f\ufeff]" = .ok (.char invisible) := by
  cbv

theorem contains_invisible (c : Char) : invisible.contains c = isInvisible c := by
  have hmark : (decide (0xfeff ≤ c.toNat) && decide (c.toNat ≤ 0xfeff)) = (c.toNat == 0xfeff) := by
    rw [Bool.eq_iff_iff, Bool.and_eq_true, decide_eq_true_iff, decide_eq_true_iff, beq_iff_eq]
    omega
  simp [invisible, CharSet.contains, isInvisible, Ranges.contains, hmark]

/-- Removing what the pattern finds leaves the visible text. -/
theorem replace_invisible (text : String) :
    Pattern.replace (.char invisible) "" text = (visible text, text.toList.countP isInvisible) := by
  have hclass : invisible.contains = isInvisible := funext contains_invisible
  rw [Pattern.replace_char, String.toList_empty, Pattern.substituted_nil, hclass]
  rfl

namespace Substitution

/-- A normal form in steps: the pattern of invisible characters is replaced by nothing, and if it
was found, keys are replaced once more. -/
theorem normalize_eq_steps (s : Substitution) {p : Pattern}
    (hp : Pattern.ofText "[\u200b-\u200f\ufeff]" = .ok p) (text : String) :
    s.normalize text =
      let (shown, removed) := p.replace "" (s.replace text).1
      if removed = 0 then shown else (s.replace shown).1 := by
  rw [ofText_invisible] at hp
  cases hp
  unfold normalize
  simp only [replace_invisible]
  by_cases hv : hasInvisible (s.replace text).1 = true
  · have hremoved : (s.replace text).1.toList.countP isInvisible ≠ 0 := by
      simpa [hasInvisible] using hv
    rw [if_pos hv, if_neg hremoved]
  · have hnone : (s.replace text).1.toList.countP isInvisible = 0 := by
      simpa [hasInvisible] using hv
    rw [if_neg hv, if_pos hnone, visible_of_hasInvisible (Bool.eq_false_iff.2 hv)]

/-! ## Keys -/

/-- Whether no key stands in a text. -/
def KeyFree (entries : List (String × String)) (text : String) : Prop :=
  ∀ e ∈ entries, ¬e.1.toList <:+: text.toList

variable {s : Substitution} {text : String}

theorem keyFree_iff : KeyFree s.entries text ↔ ∀ e ∈ s.table, ¬e.1 <:+: text.toList := by
  unfold KeyFree table
  rw [List.forall_mem_map]

/-- A text without keys is left as it is. -/
theorem replace_of_keyFree (h : KeyFree s.entries text) : (s.replace text).1 = text := by
  rw [replace_of_pass (pass_of_no_key (keyFree_iff.1 h)), String.ofList_toList]

/-! ## Normal forms -/

/-- Whether a table leaves none of its keys in any text and puts nothing invisible there. -/
structure Settling (s : Substitution) : Prop where
  visible : ∀ e ∈ s.entries, hasInvisible e.2 = false
  keyFree : ∀ text, KeyFree s.entries (s.replace text).1

theorem hasInvisible_replace (hv : ∀ e ∈ s.entries, hasInvisible e.2 = false)
    (h : hasInvisible text = false) : hasInvisible (s.replace text).1 = false := by
  rw [hasInvisible_eq_false] at h ⊢
  intro c hc
  rcases (s.pass_replace text).partly.mem hc with hc | ⟨e, he, hc⟩
  · exact h c hc
  · obtain ⟨d, hd, rfl⟩ := List.mem_map.1 he
    exact hasInvisible_eq_false.1 (hv d hd) c hc

theorem normalize_of_normal (hk : KeyFree s.entries text) (hv : hasInvisible text = false) :
    s.normalize text = text := by
  unfold normalize
  simp only [replace_of_keyFree hk, hv, Bool.false_eq_true, if_false]

/-- Every text comes to one in normal form, whether or not it was substituted a second time. -/
theorem Settling.normal (h : s.Settling) (text : String) :
    KeyFree s.entries (s.normalize text) ∧ hasInvisible (s.normalize text) = false := by
  unfold normalize
  simp only
  split
  · exact ⟨h.keyFree _, hasInvisible_replace h.visible (hasInvisible_visible _)⟩
  · rename_i hv
    exact ⟨h.keyFree text, Bool.eq_false_iff.2 hv⟩

/-! ## Separate tables -/

theorem keyFree_replace (hs : Separate s.table) (text : String) :
    KeyFree s.entries (s.replace text).1 :=
  keyFree_iff.2 ((s.pass_replace text).no_key hs)

/-- What is replaced before invisible characters are removed is what would be replaced after. -/
theorem replace_visible_replace (hs : Separate s.table)
    (hv : ∀ e ∈ s.entries, hasInvisible e.1 = false ∧ hasInvisible e.2 = false) (text : String) :
    (s.replace (visible (s.replace text).1)).1 = (s.replace (visible text)).1 := by
  have hkept : ∀ e ∈ s.table, (∀ c ∈ e.1, (!isInvisible c) = true) ∧
      ∀ c ∈ e.2, (!isInvisible c) = true := by
    intro e he
    obtain ⟨d, hd, rfl⟩ := List.mem_map.1 he
    simpa [hasInvisible_eq_false] using hv d hd
  have hpartly := (s.pass_replace text).partly.filter hkept
  rw [← toList_visible, ← toList_visible] at hpartly
  obtain ⟨m, hm⟩ := (s.pass_replace (visible text)).of_partly hs hpartly
  rw [replace_of_pass hm, String.ofList_toList]

/-- Over a table whose replacements keep out of the way of its keys, and without invisible
characters in it, a normal form is a single substitution in the visible text. -/
theorem normalize_eq_replace (hs : Separate s.table)
    (hv : ∀ e ∈ s.entries, hasInvisible e.1 = false ∧ hasInvisible e.2 = false) (text : String) :
    s.normalize text = (s.replace (visible text)).1 := by
  rw [← replace_visible_replace hs hv]
  unfold normalize
  simp only
  split
  · rfl
  · rename_i hno
    rw [visible_of_hasInvisible (Bool.eq_false_iff.2 hno),
      replace_of_keyFree (keyFree_replace hs text)]

end Substitution

/-! ## Look-alikes and split keywords -/

open Substitution

theorem visible_confusables :
    ∀ e ∈ confusables.entries, hasInvisible e.1 = false ∧ hasInvisible e.2 = false := by
  decide +kernel

theorem separate_confusables : Separate confusables.table where
  keys := by decide +kernel
  ne_nil := by decide +kernel
  heads := by decide +kernel
  ends := by decide +kernel

theorem settling_confusables : confusables.Settling where
  visible := fun e he => (visible_confusables e he).2
  keyFree := keyFree_replace separate_confusables

/-- A normal form is a single substitution in the text without its invisible characters: one pass
that replaces the longest key wherever one begins. So texts that differ in those characters alone
have the same normal form. -/
theorem normalize_of_visible :
    (∀ text other, visible text = visible other → normalize text = normalize other) ∧
    ∀ text, normalize text = (confusables.replace (visible text)).1 ∧
      ∃ n, Pass confusables.table (text.toList.filter (!isInvisible ·))
        (normalize text).toList n := by
  have hsingle : ∀ text, normalize text = (confusables.replace (visible text)).1 :=
    normalize_eq_replace separate_confusables visible_confusables
  refine ⟨fun text other h => ?_, fun text => ⟨hsingle text, ?_⟩⟩
  · rw [hsingle, hsingle, h]
  · have hpass := confusables.pass_replace (visible text)
    rw [← hsingle, toList_visible] at hpass
    exact ⟨_, hpass⟩

/-- A keyword taken apart, with a mark in front of it that is not seen. -/
theorem normalize_of_visible_keyword :
    visible "\ufeff薇V\u200c\u200d.\u200fX" = visible "薇V.X" ∧
      normalize "\ufeff薇V\u200c\u200d.\u200fX" = normalize "薇V.X" := by
  have hvisible : visible "\ufeff薇V\u200c\u200d.\u200fX" = visible "薇V.X" := by decide +kernel
  exact ⟨hvisible, normalize_of_visible.1 _ _ hvisible⟩

example : normalize "V\u200c X" = "VX" := by
  decide +kernel

/-- Over an accepted table that leaves none of its keys in any text and puts nothing invisible
there, no key stands in a normal form and nothing invisible does, and it is its own normal form.
The look-alikes and split keywords known to be used make up such a table. -/
theorem normalize_normal :
    (∀ entries s, ofList entries = .ok s → (∀ e ∈ entries, hasInvisible e.2 = false) →
      (∀ text, KeyFree entries (s.replace text).1) → ∀ text,
        KeyFree entries (s.normalize text) ∧ hasInvisible (s.normalize text) = false ∧
        s.normalize (s.normalize text) = s.normalize text) ∧
    (ofList confusables.entries = .ok confusables ∧
      (∀ e ∈ confusables.entries, hasInvisible e.2 = false) ∧
      ∀ text, KeyFree confusables.entries (confusables.replace text).1) ∧
    ∀ text, normalize (normalize text) = normalize text := by
  have hall (s : Substitution) (hs : s.Settling) (text : String) :
      KeyFree s.entries (s.normalize text) ∧ hasInvisible (s.normalize text) = false ∧
        s.normalize (s.normalize text) = s.normalize text := by
    obtain ⟨hk, hv⟩ := hs.normal text
    exact ⟨hk, hv, normalize_of_normal hk hv⟩
  refine ⟨?_, ⟨rfl, settling_confusables.visible, settling_confusables.keyFree⟩, fun text => ?_⟩
  · intro entries s hs hv hk text
    obtain rfl := entries_of_ofList hs
    exact hall s ⟨hv, hk⟩ text
  · exact (hall confusables settling_confusables text).2.2

/-- A table with an invisible character inside its key. -/
def hiddenJoint : Substitution where
  entries := [("薇\u200b信", "微信")]
  keys_ne_empty := by decide
  keys_nodup := by decide

theorem separate_hiddenJoint : Separate hiddenJoint.table where
  keys := by decide +kernel
  ne_nil := by decide +kernel
  heads := by decide +kernel
  ends := by decide +kernel

theorem normalize_normal_hiddenJoint :
    ofList [("薇\u200b信", "微信")] = .ok hiddenJoint ∧
    KeyFree [("薇\u200b信", "微信")] (hiddenJoint.normalize "薇薇\u200b信\ufeff信") ∧
    hasInvisible (hiddenJoint.normalize "薇薇\u200b信\ufeff信") = false ∧
    hiddenJoint.normalize (hiddenJoint.normalize "薇薇\u200b信\ufeff信") =
      hiddenJoint.normalize "薇薇\u200b信\ufeff信" :=
  ⟨rfl, normalize_normal.1 _ hiddenJoint rfl (by decide +kernel)
    (keyFree_replace separate_hiddenJoint) _⟩

end Triage.Text
