/-
The whole numbers in a text have at most 64 bits when they are read: the scanner keeps larger ones
as doubles. A reader takes tokens off the front and leaves the others, so what it makes of a record
has such numbers only.
-/
import Triage.Json.Reader
import Triage.Proofs.Result

namespace Triage.Json

/-! ## Scanning -/

/-- Whether the whole numbers among tokens have at most 64 bits. -/
def Words (ts : List Token) : Prop :=
  ∀ n, Token.number (some (.natural n)) ∈ ts → n < UInt64.size

theorem absorb_lt {n : Nat} {digits : List Char} (h : n < UInt64.size) :
    (absorb n digits).1 < UInt64.size := by
  induction digits generalizing n with
  | nil => exact h
  | cons c rest ih =>
    unfold absorb
    simp only
    split
    · exact ih ‹_›
    · exact h

theorem lt_of_wholeNumber {negative : Bool} {digits : List Char} {n : Nat}
    (h : wholeNumber negative digits = some (.natural n)) : n < UInt64.size := by
  have hlt : (absorb 0 digits).1 < UInt64.size := absorb_lt (by decide)
  unfold wholeNumber at h
  simp only at h
  split at h
  · split at h
    · cases h
      exact hlt
    · split at h <;> cases h
  · obtain ⟨x, -, hx⟩ := Option.map_eq_some_iff.1 h
    cases hx

theorem lt_of_scanNumber {negative : Bool} {cs rest : List Char} {n : Nat}
    (h : scanNumber negative cs = some (some (.natural n), rest)) : n < UInt64.size := by
  unfold scanNumber at h
  simp only [bind, Option.bind] at h
  split at h
  · cases h
  · split at h
    · cases h
    · rename_i tail _
      obtain ⟨fraction, e, more⟩ := tail
      simp only [pure] at h
      split at h
      · exact lt_of_wholeNumber (Prod.mk.inj (Option.some.inj h)).1
      · obtain ⟨x, -, hx⟩ := Option.map_eq_some_iff.1 (Prod.mk.inj (Option.some.inj h)).1
        cases hx

theorem lt_of_scanToken {cs rest : List Char} {n : Nat}
    (h : scanToken cs = some (.number (some (.natural n)), rest)) : n < UInt64.size := by
  unfold scanToken at h
  split at h
  case h_10 =>
    obtain ⟨x, -, hx⟩ := Option.map_eq_some_iff.1 h
    cases hx
  case h_11 | h_12 =>
    obtain ⟨⟨m, more⟩, hm, heq⟩ := Option.map_eq_some_iff.1 h
    cases heq
    exact lt_of_scanNumber hm
  all_goals cases h

theorem words_scan (fuel : Nat) (cs : List Char) : Words (scan fuel cs) := by
  induction fuel generalizing cs with
  | zero =>
    intro n hn
    cases hn
  | succ fuel ih =>
    intro n hn
    unfold scan at hn
    split at hn
    · cases hn
    · split at hn
      · rename_i hscan
        rcases List.mem_cons.1 hn with rfl | hn
        · exact lt_of_scanToken hscan
        · exact ih _ n hn
      · cases List.mem_singleton.1 hn

theorem words_tokens (s : String) : Words (tokens s) :=
  words_scan _ _

theorem Words.tail {t : Token} {ts : List Token} (h : Words (t :: ts)) : Words ts :=
  fun n hn => h n (List.mem_cons_of_mem t hn)

/-! ## Skipping -/

/-- What is left when a value, the items of an array or the members of an object were skipped. -/
theorem words_of_skipped (fuel : Nat) {ts rest : List Token} (hw : Words ts) :
    (skipValue fuel ts = .ok rest → Words rest) ∧ (skipItems fuel ts = .ok rest → Words rest) ∧
      (skipMembers fuel ts = .ok rest → Words rest) := by
  induction fuel generalizing ts rest with
  | zero => simp [skipValue, skipItems, skipMembers]
  | succ fuel ih =>
    refine ⟨?_, ?_, ?_⟩
    · intro h
      unfold skipValue at h
      split at h
      · cases h
      · cases ‹fuel + 1 = Nat.succ _›
        split at h
        -- The cases: a value of one token, four times; an array; an object; no value.
        iterate 4
          cases h
          exact hw.tail
        · split at h
          · cases h
            exact hw.tail.tail
          · exact (ih hw.tail).2.1 h
        · split at h
          · cases h
            exact hw.tail.tail
          · exact (ih hw.tail).2.2 h
        · cases h
      · cases h
    · intro h
      unfold skipItems at h
      split at h
      · cases h
      · exact (ih ((ih hw).1 ‹_›).tail).2.1 h
      · cases h
        exact ((ih hw).1 ‹_›).tail
      · cases h
    · intro h
      unfold skipMembers at h
      split at h
      · cases h
      · cases ‹fuel + 1 = Nat.succ _›
        split at h
        · cases h
        · exact (ih ((ih hw.tail.tail).1 ‹_›).tail).2.2 h
        · cases h
          exact ((ih hw.tail.tail).1 ‹_›).tail
        · cases h
      · cases h

/-! ## Records -/

/-- Whether a reader, of tokens with whole numbers of at most 64 bits, makes what has a property and
leaves such tokens. -/
def Reads {α : Type} (P : α → Prop) (r : Reader α) : Prop :=
  ∀ ⦃ts a rest⦄, Words ts → r ts = .ok (a, rest) → P a ∧ Words rest

theorem reads_natural : Reads (· < UInt64.size) readNatural := by
  intro ts n rest hw h
  unfold readNatural at h
  split at h
  · cases h
    exact ⟨hw _ List.mem_cons_self, hw.tail⟩
  · cases h

section

variable {σ α : Type} {P : α → Prop} {Q : σ → Prop} {fields : List (FieldReader σ)}

/-- A field that is put into a record keeps what holds of the record. -/
theorem reads_field {name : String} {read : Reader α} {put : α → σ → σ} (hread : Reads P read)
    (hput : ∀ a s, P a → Q s → Q (put a s)) {s : σ} (hs : Q s) :
    Reads Q ((FieldReader.of name read put).read s) := by
  intro ts next rest hw h
  obtain ⟨⟨a, more⟩, ha, heq⟩ := ok_of_map h
  cases heq
  obtain ⟨hp, hmore⟩ := hread hw ha
  exact ⟨hput a s hp hs, hmore⟩

/-- The members of an object keep what each field keeps, in whatever order they stand. -/
theorem reads_members (hfields : ∀ f ∈ fields, ∀ s, Q s → Reads Q (f.read s)) (fuel : Nat)
    {given : List String} {s : σ} (hs : Q s) :
    Reads (fun g : Given σ => Q g.1) (readMembers fields given s fuel) := by
  intro ts g rest hw h
  induction fuel generalizing given s ts with
  | zero => cases h
  | succ fuel ih =>
    unfold readMembers at h
    split at h
    · cases h
    · cases ‹fuel + 1 = Nat.succ _›
      split at h
      · rename_i hfind
        have hf := hfields _ (List.mem_of_find?_eq_some hfind)
        split at h
        · cases h
        · split at h
          · split at h
            · cases h
            · obtain ⟨hnext, hmore⟩ := hf s hs hw.tail.tail ‹_›
              exact ih hnext hmore.tail h
            · obtain ⟨hnext, hmore⟩ := hf s hs hw.tail.tail ‹_›
              cases h
              exact ⟨hnext, hmore.tail⟩
            · cases h
          · cases h
      · split at h
        · split at h
          · cases h
          · exact ih hs ((words_of_skipped _ hw.tail.tail).1 ‹_›).tail h
          · cases h
            exact ⟨hs, ((words_of_skipped _ hw.tail.tail).1 ‹_›).tail⟩
          · cases h
        · cases h
    · cases h

/-- So do the items of an array, which are the fields in their order. -/
theorem reads_positions (hfields : ∀ f ∈ fields, ∀ s, Q s → Reads Q (f.read s))
    {given : List String} {s : σ} (hs : Q s) :
    Reads (fun g : Given σ => Q g.1) (readPositions given s fields) := by
  intro ts g rest hw h
  induction fields generalizing given s ts with
  | nil => cases h
  | cons f fields ih =>
    have hf := hfields f List.mem_cons_self s hs
    unfold readPositions at h
    split at h
    · cases h
    · obtain ⟨hnext, hmore⟩ := hf hw ‹_›
      exact ih (fun f hmem => hfields f (List.mem_cons_of_mem _ hmem)) hnext hmore.tail h
    · obtain ⟨hnext, hmore⟩ := hf hw ‹_›
      cases h
      exact ⟨hnext, hmore.tail⟩
    · cases h

/-- What holds of the record that is begun with, and is kept by each field, holds of a record with
all fields. -/
theorem reads_complete (hfields : ∀ f ∈ fields, ∀ s, Q s → Reads Q (f.read s)) {s : σ}
    (hs : Q s) : Reads Q (readComplete fields s) := by
  intro ts a rest hw h
  have hrecord : Reads (fun g : Given σ => Q g.1) (readRecord fields s) := by
    intro ts g rest hw h
    unfold readRecord at h
    split at h
    · cases h
      exact ⟨hs, hw.tail.tail⟩
    · exact reads_members hfields _ hs hw.tail h
    · cases h
      exact ⟨hs, hw.tail.tail⟩
    · exact reads_positions hfields hs hw.tail h
    · cases h
  obtain ⟨⟨⟨b, given⟩, more⟩, hread, h⟩ := ok_of_bind h
  obtain ⟨hb, hmore⟩ := hrecord hw hread
  simp only at h
  split at h
  · cases h
    exact ⟨hb, hmore⟩
  · split at h <;> cases h

end

/-- What is read of a whole text. -/
theorem of_readAll {α : Type} {P : α → Prop} {r : Reader α} (hr : Reads P r) {text : String} {a : α}
    (h : readAll r (tokens text) = .ok a) : P a := by
  unfold readAll at h
  split at h
  · cases h
  · cases h
    exact (hr (words_tokens text) ‹_›).1
  · cases h

end Triage.Json
