/-
Substitution of keys in a text. The text is scanned once from left to right; where a key begins, the
longest key beginning there is replaced and the scan goes on behind it, so what was put in is never
looked at again.
-/
import Triage.Error

namespace Triage.Text

/-- A table of keys and what replaces them: the keys are not empty and no two are equal. -/
structure Substitution where
  entries : List (String × String)
  keys_ne_empty : ∀ e ∈ entries, e.1 ≠ ""
  keys_nodup : (entries.map Prod.fst).Nodup

namespace Substitution

/-- The first fault of a table, `seen` being the keys already accepted. -/
def faultAfter (seen : List String) : List (String × String) → Option ArgumentFault
  | [] => none
  | (key, _) :: rest =>
    if key = "" then some .emptyKey
    else if key ∈ seen then some (.duplicateKey key)
    else faultAfter (seen ++ [key]) rest

theorem keys_of_faultAfter {seen : List String} {entries : List (String × String)}
    (hs : seen.Nodup) (h : faultAfter seen entries = none) :
    (∀ e ∈ entries, e.1 ≠ "") ∧ (seen ++ entries.map Prod.fst).Nodup := by
  induction entries generalizing seen with
  | nil => simpa using hs
  | cons e rest ih =>
    obtain ⟨key, value⟩ := e
    unfold faultAfter at h
    split at h
    · cases h
    · rename_i hne
      split at h
      · cases h
      · rename_i hnew
        have hs' : (seen ++ [key]).Nodup := by
          refine List.nodup_append.2 ⟨hs, by simp, ?_⟩
          intro a ha b hb
          rw [List.mem_singleton.1 hb]
          rintro rfl
          exact hnew ha
        obtain ⟨h1, h2⟩ := ih hs' h
        refine ⟨?_, by simpa using h2⟩
        intro e he
        rcases List.mem_cons.1 he with rfl | he
        · exact hne
        · exact h1 e he

/-- A table from its entries, refused at the first empty or repeated key. -/
def ofList (entries : List (String × String)) : Except Error Substitution :=
  match h : faultAfter [] entries with
  | some f => .error (.argument f)
  | none =>
    have k := keys_of_faultAfter List.nodup_nil h
    .ok ⟨entries, k.1, by simpa using k.2⟩

/-- The longer of two keys with their replacements. -/
def longer (best : Option (List Char × List Char)) (e : List Char × List Char) :
    Option (List Char × List Char) :=
  match best with
  | some b => if b.1.length < e.1.length then some e else some b
  | none => some e

/-- The longest key a text begins with, and its replacement. -/
def longest? (entries : List (List Char × List Char)) (text : List Char) :
    Option (List Char × List Char) :=
  (entries.filter fun e => e.1.isPrefixOf text).foldl longer none

/-- The text with the keys in it replaced, and how many were; the first `covered` characters belong
to a key already replaced. -/
def replaceFrom (entries : List (List Char × List Char)) (covered : Nat) :
    List Char → List Char × Nat
  | [] => ([], 0)
  | c :: rest =>
    match covered with
    | k + 1 => replaceFrom entries k rest
    | 0 =>
      match longest? entries (c :: rest) with
      | some (key, value) =>
        let (out, n) := replaceFrom entries (key.length - 1) rest
        (value ++ out, n + 1)
      | none =>
        let (out, n) := replaceFrom entries 0 rest
        (c :: out, n)

/-- A text with the keys in it replaced, and how many were. -/
def replace (s : Substitution) (text : String) : String × Nat :=
  let (out, n) := replaceFrom (s.entries.map fun e => (e.1.toList, e.2.toList)) 0 text.toList
  (String.ofList out, n)

end Substitution

end Triage.Text
