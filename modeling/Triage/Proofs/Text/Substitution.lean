/-
Substitution as a relation. `Pass` says what one pass over a text may do, step by step: where no key
begins a character is kept, else the longest key beginning there is replaced and the pass goes on
behind it. On a table of keys that are told apart, `replaceFrom` is the one pass there is
(`pass_iff`).

A pass that left some keys alone may be finished later if the replacements keep out of the way of
the keys (`Separate`): no pass leaves a key then (`Pass.no_key`), and replacing some keys first does
not change what a pass comes to (`Pass.of_partly`).
-/
import Mathlib
import Triage.Text.Substitution

namespace Triage.Text

namespace Substitution

/-- A key and what replaces it, character by character. -/
abbrev Entry := List Char × List Char

section

variable {entries : List Entry} {e : Entry}
  {text rest out : List Char} {c : Char} {n : Nat}

/-! ## The longest key -/

/-- Whether an entry has the longest key a text begins with. -/
structure IsLongest (entries : List Entry) (text : List Char)
    (e : Entry) : Prop where
  mem : e ∈ entries
  begins : e.1 <+: text
  longest : ∀ a ∈ entries, a.1 <+: text → a.1.length ≤ e.1.length

theorem foldl_longer (entries : List Entry) (b : Entry) :
    ∃ e ∈ b :: entries, entries.foldl longer (some b) = some e ∧
      ∀ a ∈ b :: entries, a.1.length ≤ e.1.length := by
  induction entries generalizing b with
  | nil => exact ⟨b, List.mem_cons_self, rfl, by simp⟩
  | cons d entries ih =>
    have hlonger : longer (some b) d = some (if b.1.length < d.1.length then d else b) := by
      simp only [longer]
      split <;> rfl
    obtain ⟨e, he, hfold, hall⟩ := ih (if b.1.length < d.1.length then d else b)
    refine ⟨e, ?_, by rw [List.foldl_cons, hlonger, hfold], ?_⟩
    · rcases List.mem_cons.1 he with rfl | he
      · split <;> simp
      · exact List.mem_cons_of_mem _ (List.mem_cons_of_mem _ he)
    · obtain ⟨hbest, hrest⟩ := List.forall_mem_cons.1 hall
      refine List.forall_mem_cons.2 ⟨?_, List.forall_mem_cons.2 ⟨?_, hrest⟩⟩
      · split at hbest <;> omega
      · split at hbest <;> omega

theorem longest?_cases (entries : List Entry) (text : List Char) :
    (longest? entries text = none ∧ ∀ e ∈ entries, ¬e.1 <+: text) ∨
      ∃ e, longest? entries text = some e ∧ IsLongest entries text e := by
  have hmem (a : Entry) :
      a ∈ entries.filter (fun a => a.1.isPrefixOf text) ↔ a ∈ entries ∧ a.1 <+: text := by
    rw [List.mem_filter, List.isPrefixOf_iff_prefix]
  unfold longest?
  generalize entries.filter (fun a => a.1.isPrefixOf text) = found at hmem
  match found with
  | [] => exact .inl ⟨rfl, fun a ha hp => by cases (hmem a).2 ⟨ha, hp⟩⟩
  | b :: found =>
    obtain ⟨e, he, hfold, hall⟩ := foldl_longer found b
    refine .inr ⟨e, hfold, ((hmem e).1 he).1, ((hmem e).1 he).2, fun a ha hp => ?_⟩
    exact hall a ((hmem a).2 ⟨ha, hp⟩)

/-- What a table must be for its longest key to be one entry. -/
structure Distinct (entries : List Entry) : Prop where
  ne_nil : ∀ e ∈ entries, e.1 ≠ []
  nodup : (entries.map Prod.fst).Nodup

theorem Distinct.eq_of_isLongest (hd : Distinct entries) {a : Entry}
    (ha : IsLongest entries text a) (he : IsLongest entries text e) : a = e := by
  have hlength : a.1.length = e.1.length :=
    le_antisymm (he.longest a ha.mem ha.begins) (ha.longest e he.mem he.begins)
  have hkey : a.1 <+: e.1 := List.prefix_of_prefix_length_le ha.begins he.begins hlength.le
  exact List.inj_on_of_nodup_map hd.nodup ha.mem he.mem (hkey.eq_of_length hlength)

theorem Distinct.longest?_eq (hd : Distinct entries) (he : IsLongest entries text e) :
    longest? entries text = some e := by
  rcases longest?_cases entries text with ⟨-, hnone⟩ | ⟨a, hsome, ha⟩
  · exact absurd he.begins (hnone e he.mem)
  · rw [hsome, hd.eq_of_isLongest ha he]

/-! ## Passes -/

/-- What one pass makes of a text, and how many keys it replaces. -/
inductive Pass (entries : List Entry) : List Char → List Char → Nat → Prop
  | nil : Pass entries [] [] 0
  | keep {c : Char} {rest out : List Char} {n : Nat} :
      (∀ e ∈ entries, ¬e.1 <+: c :: rest) → Pass entries rest out n →
      Pass entries (c :: rest) (c :: out) n
  | swap {e : Entry} {rest out : List Char} {n : Nat} :
      IsLongest entries (e.1 ++ rest) e → Pass entries rest out n →
      Pass entries (e.1 ++ rest) (e.2 ++ out) (n + 1)

theorem replaceFrom_covered (front rest : List Char) :
    replaceFrom entries front.length (front ++ rest) = replaceFrom entries 0 rest := by
  induction front with
  | nil => rfl
  | cons c front ih => exact ih

theorem replaceFrom_keep (h : longest? entries (c :: rest) = none) :
    replaceFrom entries 0 (c :: rest) =
      (c :: (replaceFrom entries 0 rest).1, (replaceFrom entries 0 rest).2) := by
  rw [replaceFrom, h]

theorem replaceFrom_swap (hne : e.1 ≠ []) (h : longest? entries (e.1 ++ rest) = some e) :
    replaceFrom entries 0 (e.1 ++ rest) =
      (e.2 ++ (replaceFrom entries 0 rest).1, (replaceFrom entries 0 rest).2 + 1) := by
  obtain ⟨key, value⟩ := e
  match key, hne with
  | c :: key, _ =>
    rw [List.cons_append] at h ⊢
    rw [replaceFrom, h]
    simp only [List.length_cons, Nat.add_sub_cancel, replaceFrom_covered]

theorem Distinct.pass_replaceFrom (hd : Distinct entries) (text : List Char) :
    Pass entries text (replaceFrom entries 0 text).1 (replaceFrom entries 0 text).2 := by
  -- By induction on the length: behind a key the pass goes on with a shorter text.
  induction hl : text.length using Nat.strong_induction_on generalizing text with
  | _ l ih =>
    subst hl
    match text with
    | [] => exact .nil
    | c :: rest =>
      rcases longest?_cases entries (c :: rest) with ⟨hnone, hno⟩ | ⟨e, hsome, he⟩
      · rw [replaceFrom_keep hnone]
        exact .keep hno (ih rest.length (Nat.lt_succ_self _) rest rfl)
      · have hne := hd.ne_nil e he.mem
        obtain ⟨behind, hbehind⟩ := he.begins
        rw [← hbehind] at hsome he ⊢
        rw [replaceFrom_swap hne hsome]
        refine .swap he (ih behind.length ?_ behind rfl)
        rw [← hbehind, List.length_append]
        have := List.length_pos_of_ne_nil hne
        omega

/-- A pass is what is computed, and there is no other. -/
theorem Distinct.pass_iff (hd : Distinct entries) :
    Pass entries text out n ↔ replaceFrom entries 0 text = (out, n) := by
  constructor
  · intro h
    induction h with
    | nil => rfl
    | @keep c rest out n hno _ ih =>
      rcases longest?_cases entries (c :: rest) with ⟨hnone, -⟩ | ⟨e, -, he⟩
      · rw [replaceFrom_keep hnone, ih]
      · exact absurd he.begins (hno e he.mem)
    | @swap e rest out n he _ ih =>
      rw [replaceFrom_swap (hd.ne_nil e he.mem) (hd.longest?_eq he), ih]
  · intro h
    have hpass := hd.pass_replaceFrom text
    rwa [h] at hpass

/-- A text without keys is left as it is. -/
theorem pass_of_no_key (h : ∀ e ∈ entries, ¬e.1 <:+: text) : Pass entries text text 0 := by
  induction text with
  | nil => exact .nil
  | cons c rest ih =>
    refine .keep (fun e he hp => h e he hp.isInfix) (ih fun e he hi => ?_)
    exact h e he (hi.trans (List.suffix_cons c rest).isInfix)

/-! ## Some of the keys -/

/-- Whether a text comes of another when some of its keys are replaced. -/
inductive Partly (entries : List Entry) : List Char → List Char → Prop
  | nil : Partly entries [] []
  | keep {rest out : List Char} (c : Char) :
      Partly entries rest out → Partly entries (c :: rest) (c :: out)
  | swap {e : Entry} {rest out : List Char} :
      e ∈ entries → Partly entries rest out → Partly entries (e.1 ++ rest) (e.2 ++ out)

theorem Pass.partly (h : Pass entries text out n) : Partly entries text out := by
  induction h with
  | nil => exact .nil
  | keep _ _ ih => exact .keep _ ih
  | swap he _ ih => exact .swap he.mem ih

theorem Partly.mem (h : Partly entries text out) (hc : c ∈ out) :
    c ∈ text ∨ ∃ e ∈ entries, c ∈ e.2 := by
  induction h with
  | nil => cases hc
  | keep d _ ih =>
    rcases List.mem_cons.1 hc with rfl | hc
    · exact .inl List.mem_cons_self
    · exact (ih hc).imp_left (List.mem_cons_of_mem d)
  | @swap e _ _ he _ ih =>
    rcases List.mem_append.1 hc with hc | hc
    · exact .inr ⟨e, he, hc⟩
    · exact (ih hc).imp_left (List.mem_append_right _)

/-- Characters that stand in no entry may be left out before or after. -/
theorem Partly.filter {p : Char → Bool} (hp : ∀ e ∈ entries, (∀ c ∈ e.1, p c) ∧ ∀ c ∈ e.2, p c)
    (h : Partly entries text out) : Partly entries (text.filter p) (out.filter p) := by
  induction h with
  | nil => exact .nil
  | keep c _ ih =>
    by_cases hc : p c
    · rw [List.filter_cons_of_pos hc, List.filter_cons_of_pos hc]
      exact .keep c ih
    · rw [List.filter_cons_of_neg hc, List.filter_cons_of_neg hc]
      exact ih
  | @swap e _ _ he _ ih =>
    rw [List.filter_append, List.filter_append, List.filter_eq_self.2 (hp e he).1,
      List.filter_eq_self.2 (hp e he).2]
    exact .swap he ih

/-! ## Tables whose replacements keep out of the way -/

/-- Whether replacements keep out of the way of keys: no key is the beginning of another, nothing
is replaced by nothing, no key or replacement begins with a character from inside a key, and no end
of a replacement begins as a key does. -/
structure Separate (entries : List Entry) : Prop where
  keys : ∀ a ∈ entries, ∀ b ∈ entries, a.1 <+: b.1 → a = b
  ne_nil : ∀ a ∈ entries, a.1 ≠ [] ∧ a.2 ≠ []
  heads : ∀ a ∈ entries, ∀ b ∈ entries,
    a.1.head? ∉ b.1.tail.map some ∧ a.2.head? ∉ b.1.tail.map some
  ends : ∀ a ∈ entries, ∀ b ∈ entries, ∀ s ∈ a.2.tails, s ≠ [] → ¬b.1 <+: s ∧ ¬s <+: b.1

/-- Whether a character stands inside a key, behind its first. -/
def Inside (entries : List Entry) (c : Char) : Prop := ∃ e ∈ entries, c ∈ e.1.tail

theorem Separate.ne_of_inside (hs : Separate entries) (hc : Inside entries c) (he : e ∈ entries)
    {more : List Char} : c :: more ≠ e.1 ++ rest ∧ c :: more ≠ e.2 ++ rest := by
  obtain ⟨b, hb, hmem⟩ := hc
  obtain ⟨hkey, hvalue⟩ := hs.heads e he b hb
  have hne (front : List Char) (hf : front ≠ []) (hh : front.head? ∉ b.1.tail.map some) :
      c :: more ≠ front ++ rest := by
    intro heq
    obtain ⟨d, front, rfl⟩ := List.exists_cons_of_ne_nil hf
    cases heq
    exact hh (List.mem_map.2 ⟨c, hmem, rfl⟩)
  exact ⟨hne e.1 (hs.ne_nil e he).1 hkey, hne e.2 (hs.ne_nil e he).2 hvalue⟩

/-- Characters from inside a key are left alone. -/
theorem Partly.keeps_inside (hs : Separate entries) {key : List Char}
    (hk : ∀ c ∈ key, Inside entries c) (h : Partly entries (key ++ rest) out) :
    ∃ back, out = key ++ back ∧ Partly entries rest back := by
  induction key generalizing out with
  | nil => exact ⟨out, rfl, h⟩
  | cons c key ih =>
    obtain ⟨hc, hk⟩ := List.forall_mem_cons.1 hk
    generalize htext : c :: key ++ rest = text at h
    cases h with
    | nil => cases htext
    | keep d h =>
      cases htext
      obtain ⟨back, rfl, hback⟩ := ih hk h
      exact ⟨back, rfl, hback⟩
    | swap he _ => exact absurd htext (hs.ne_of_inside hc he).1

/-- Characters from inside a key were there before. -/
theorem Partly.had_inside (hs : Separate entries) {key : List Char}
    (hk : ∀ c ∈ key, Inside entries c) (h : Partly entries text (key ++ rest)) :
    ∃ back, text = key ++ back ∧ Partly entries back rest := by
  induction key generalizing text with
  | nil => exact ⟨text, rfl, h⟩
  | cons c key ih =>
    obtain ⟨hc, hk⟩ := List.forall_mem_cons.1 hk
    generalize hout : c :: key ++ rest = out at h
    cases h with
    | nil => cases hout
    | keep d h =>
      cases hout
      obtain ⟨back, rfl, hback⟩ := ih hk h
      exact ⟨back, rfl, hback⟩
    | swap he _ => exact absurd hout (hs.ne_of_inside hc he).2

/-- Where a key begins no other does. -/
theorem Separate.eq_of_begins (hs : Separate entries) {a : Entry} (ha : a ∈ entries)
    (he : e ∈ entries) (hp : a.1 <+: e.1 ++ rest) : a = e := by
  rcases List.prefix_or_prefix_of_prefix hp (List.prefix_append e.1 rest) with hp | hp
  · exact hs.keys a ha e he hp
  · exact (hs.keys e he a ha hp).symm

theorem Separate.isLongest (hs : Separate entries) (he : e ∈ entries) :
    IsLongest entries (e.1 ++ rest) e where
  mem := he
  begins := List.prefix_append e.1 rest
  longest := fun a ha hp => by rw [hs.eq_of_begins ha he hp]

/-- No key begins with the end of a replacement. -/
theorem Separate.not_begins (hs : Separate entries) {a : Entry} (ha : a ∈ entries)
    (he : e ∈ entries) {s : List Char} (hsuf : s <:+ a.2) (hne : s ≠ []) : ¬e.1 <+: s ++ rest := by
  intro hp
  obtain ⟨hkey, hend⟩ := hs.ends a ha e he s ((List.mem_tails s a.2).2 hsuf) hne
  rcases List.prefix_or_prefix_of_prefix hp (List.prefix_append s rest) with hp | hp
  · exact hkey hp
  · exact hend hp

theorem Pass.after_end (hs : Separate entries) {a : Entry} (ha : a ∈ entries) {s : List Char}
    (hsuf : s <:+ a.2) (h : Pass entries text out n) :
    Pass entries (s ++ text) (s ++ out) n := by
  induction s with
  | nil => exact h
  | cons c s ih =>
    refine .keep (fun e he => hs.not_begins ha he hsuf (List.cons_ne_nil c s)) (ih ?_)
    exact (List.suffix_cons c s).trans hsuf

/-- A key begins behind a character that is kept exactly if it did before. -/
theorem Partly.begins_iff (hs : Separate entries) (h : Partly entries rest out) (he : e ∈ entries) :
    e.1 <+: c :: rest ↔ e.1 <+: c :: out := by
  have hinside : ∀ d ∈ e.1.tail, Inside entries d := fun d hd => ⟨e, he, hd⟩
  have hne := (hs.ne_nil e he).1
  generalize e.1 = key at hinside hne
  match key, hne with
  | d :: key, _ =>
    rw [List.cons_prefix_cons, List.cons_prefix_cons]
    refine and_congr_right fun _ => ⟨?_, ?_⟩
    · rintro ⟨behind, rfl⟩
      obtain ⟨back, rfl, -⟩ := h.keeps_inside hs hinside
      exact List.prefix_append key back
    · rintro ⟨behind, rfl⟩
      obtain ⟨back, rfl, -⟩ := h.had_inside hs hinside
      exact List.prefix_append key back

/-- No pass leaves a key: none was kept, and no replacement makes one with its neighbours. -/
theorem Pass.no_key (hs : Separate entries) (h : Pass entries text out n) :
    ∀ e ∈ entries, ¬e.1 <:+: out := by
  intro e he
  induction h with
  | nil => exact fun hi => (hs.ne_nil e he).1 (List.infix_nil.1 hi)
  | keep hno h ih =>
    intro hi
    rcases List.infix_cons_iff.1 hi with hp | hi
    · exact hno e he ((h.partly.begins_iff hs he).2 hp)
    · exact ih hi
  | @swap a rest out n ha h ih =>
    have hends (s : List Char) (hsuf : s <:+ a.2) : ¬e.1 <:+: s ++ out := by
      induction s with
      | nil => exact ih
      | cons c s ihs =>
        intro hi
        rcases List.infix_cons_iff.1 hi with hp | hi
        · exact hs.not_begins ha.mem he hsuf (List.cons_ne_nil c s) hp
        · exact ihs ((List.suffix_cons c s).trans hsuf) hi
    exact hends a.2 List.suffix_rfl

/-- A pass over a text some of whose keys are replaced already comes to what a pass over the text
comes to. -/
theorem Pass.of_partly (hs : Separate entries) {some : List Char} (h : Pass entries text out n)
    (hp : Partly entries text some) : ∃ m, Pass entries some out m := by
  induction h generalizing some with
  | nil =>
    generalize htext : ([] : List Char) = text at hp
    cases hp with
    | nil => exact ⟨0, .nil⟩
    | keep => cases htext
    | swap he => exact absurd (List.append_eq_nil_iff.1 htext.symm).1 (hs.ne_nil _ he).1
  | @keep c rest out n hno h ih =>
    generalize htext : c :: rest = text at hp
    cases hp with
    | nil => cases htext
    | keep c hp =>
      cases htext
      obtain ⟨m, hm⟩ := ih hp
      exact ⟨m, .keep (fun e he hb => hno e he ((hp.begins_iff hs he).2 hb)) hm⟩
    | @swap e _ _ he hp =>
      exact absurd (htext ▸ List.prefix_append e.1 _) (hno e he)
  | @swap e rest out n he h ih =>
    generalize htext : e.1 ++ rest = text at hp
    cases hp with
    | nil => exact absurd (List.append_eq_nil_iff.1 htext).1 (hs.ne_nil e he.mem).1
    | @keep rest' out' c hp =>
      -- The key was left alone, so it stands there still.
      have hinside : ∀ d ∈ e.1.tail, Inside entries d := fun d hd => ⟨e, he.mem, hd⟩
      obtain ⟨d, key, hkey⟩ := List.exists_cons_of_ne_nil (hs.ne_nil e he.mem).1
      rw [hkey] at htext hinside
      cases htext
      obtain ⟨back, rfl, hback⟩ := hp.keeps_inside hs hinside
      obtain ⟨m, hm⟩ := ih hback
      have hpass := Pass.swap (hs.isLongest he.mem) hm
      rw [hkey] at hpass
      exact ⟨m + 1, hpass⟩
    | @swap a rest' out' ha hp =>
      -- It was this key that was replaced.
      have hae : a = e := hs.eq_of_begins ha he.mem (htext ▸ List.prefix_append a.1 rest')
      subst hae
      obtain ⟨m, hm⟩ := ih (List.append_cancel_left htext ▸ hp)
      exact ⟨m, hm.after_end hs ha List.suffix_rfl⟩

end

/-! ## Tables of strings -/

section

variable {s : Substitution} {text : String}

/-- The entries of a table, character by character. -/
def table (s : Substitution) : List Entry :=
  s.entries.map fun e => (e.1.toList, e.2.toList)

theorem distinct_table (s : Substitution) : Distinct s.table where
  ne_nil := by
    intro e he
    obtain ⟨d, hd, rfl⟩ := List.mem_map.1 he
    exact fun h => s.keys_ne_empty d hd (String.toList_eq_nil_iff.1 h)
  nodup := by
    have hmap : s.table.map Prod.fst = (s.entries.map Prod.fst).map String.toList := by
      simp [table]
    rw [hmap]
    exact s.keys_nodup.map fun a b h => String.toList_inj.1 h

theorem pass_replace (s : Substitution) (text : String) :
    Pass s.table text.toList (s.replace text).1.toList (s.replace text).2 := by
  have hpass := s.distinct_table.pass_replaceFrom text.toList
  unfold replace
  rw [String.toList_ofList]
  exact hpass

theorem replace_of_pass {out : List Char} {n : Nat} (h : Pass s.table text.toList out n) :
    s.replace text = (String.ofList out, n) := by
  have hfrom : replaceFrom (s.entries.map fun e => (e.1.toList, e.2.toList)) 0 text.toList =
      (out, n) := s.distinct_table.pass_iff.1 h
  unfold replace
  rw [hfrom]

/-! ## Acceptance -/

theorem entries_of_ofList {entries : List (String × String)} (h : ofList entries = .ok s) :
    s.entries = entries := by
  unfold ofList at h
  split at h
  · cases h
  · cases h
    rfl

theorem faultAfter_eq_none {seen : List String} {entries : List (String × String)}
    (hne : ∀ e ∈ entries, e.1 ≠ "") (hn : (seen ++ entries.map Prod.fst).Nodup) :
    faultAfter seen entries = none := by
  induction entries generalizing seen with
  | nil => rfl
  | cons e rest ih =>
    obtain ⟨key, value⟩ := e
    obtain ⟨hkey, hrest⟩ := List.forall_mem_cons.1 hne
    have hnew : key ∉ seen := fun h => (List.nodup_append.1 hn).2.2 key h key List.mem_cons_self rfl
    rw [faultAfter, if_neg hkey, if_neg hnew]
    exact ih hrest (by simpa using hn)

/-- A table is accepted just if no key is empty and no two are equal. -/
theorem exists_ofList_iff {entries : List (String × String)} :
    (∃ s, ofList entries = .ok s) ↔
      (∀ e ∈ entries, e.1 ≠ "") ∧ (entries.map Prod.fst).Nodup := by
  constructor
  · rintro ⟨s, hs⟩
    rw [← entries_of_ofList hs]
    exact ⟨s.keys_ne_empty, s.keys_nodup⟩
  · rintro ⟨hne, hn⟩
    have hnone : faultAfter [] entries = none := faultAfter_eq_none hne hn
    unfold ofList
    split
    · rename_i f hf
      rw [hnone] at hf
      cases hf
    · exact ⟨_, rfl⟩

end

end Substitution
end Triage.Text
