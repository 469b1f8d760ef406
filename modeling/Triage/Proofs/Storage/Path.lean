/-
The names in paths. A name with no stroke in it stays one name behind a directory. Where names lead,
if they lead anywhere, can be read off the names alone.
-/
import Triage.Storage.Tree

namespace Triage.Storage

/-! ## Names behind a directory -/

theorem splitFrom_of_no_stroke {part l : List Char} (h : '/' ∉ l) :
    splitFrom part l = [String.ofList (part.reverse ++ l)] := by
  induction l generalizing part with
  | nil => simp [splitFrom]
  | cons c rest ih =>
    obtain ⟨hc, hrest⟩ := not_or.1 (fun e => h (List.mem_cons.2 e))
    unfold splitFrom
    rw [if_neg fun e => hc e.symm, ih hrest]
    simp

/-- A text with no stroke in it is a single name. -/
structure SingleName (name : String) : Prop where
  nonempty : name ≠ ""
  noStroke : '/' ∉ name.toList

namespace SingleName

variable {name : String}

theorem namesIn_eq (h : SingleName name) : namesIn name = [name] := by
  unfold namesIn
  rw [splitFrom_of_no_stroke h.noStroke]
  simp [h.nonempty]

theorem getLast?_ne (h : SingleName name) (start : List Char) :
    (start ++ name.toList).getLast? ≠ some '/' := by
  have hne : name.toList ≠ [] := by simpa using h.nonempty
  rw [List.getLast?_append, List.getLast?_eq_some_getLast hne, Option.some_or,
    ← List.getLast?_eq_some_getLast hne]
  exact fun e => h.noStroke (List.mem_of_getLast? e)

theorem opens (h : SingleName name) : opensWithStroke name = false := by
  unfold opensWithStroke
  rw [decide_eq_false_iff_not]
  exact fun e => h.noStroke (List.mem_of_head? e)

/-- Behind a directory it is one name more. -/
theorem child_names (h : SingleName name) (dir : Path) :
    (dir.child name).names = dir.names ++ [name] := by
  unfold Path.child
  rw [h.opens]
  simp [h.namesIn_eq]

/-- No text that ends in it ends in a stroke. -/
theorem ends_append (h : SingleName name) (text : String) :
    endsInStroke (text ++ name) = false := by
  unfold endsInStroke
  rw [decide_eq_false_iff_not, String.toList_append]
  exact h.getLast?_ne _

theorem child_closed (h : SingleName name) (dir : Path) : (dir.child name).closed = false := by
  unfold Path.child
  rw [h.opens]
  show endsInStroke (Path.join dir.text name) = false
  unfold Path.join
  split
  · exact h.ends_append _
  · exact h.ends_append _

end SingleName

/-! ## Following names -/

/-- The place names lead to from another, read off the names alone. -/
def follow (p : Place) : List String → Except FileFault Place
  | [] => .ok p
  | name :: rest =>
    match step p name with
    | .error f => .error f
    | .ok q => follow q rest

/-- The places on the way of names: those that their beginnings lead to. -/
def OnWay (names : List String) (q : Place) : Prop :=
  ∃ start, start <+: names ∧ follow [] start = .ok q

theorem OnWay.longer {names more : List String} {q : Place} (h : OnWay names q)
    (hp : names <+: more) : OnWay more q := by
  obtain ⟨start, hs, hf⟩ := h
  exact ⟨start, hs.trans hp, hf⟩

theorem enclosing_starts (names : List String) : enclosing names <+: names := by
  have trimmed (l : List String) : (l.dropWhile fun name => name = ".") <:+ l :=
    List.dropWhile_suffix _
  unfold enclosing
  rw [← List.reverse_suffix, List.reverse_reverse]
  exact (trimmed _).trans ((List.tail_suffix _).trans (trimmed _))

theorem follow_append (p : Place) (names more : List String) :
    follow p (names ++ more) = (follow p names).bind fun q => follow q more := by
  induction names generalizing p with
  | nil => rfl
  | cons n rest ih =>
    simp only [List.cons_append, follow]
    cases step p n with
    | error f => rfl
    | ok q => exact ih q

theorem prefix_of_step {p q : Place} {name : String} (hn : name ≠ "..") (h : step p name = .ok q) :
    p <+: q := by
  unfold step at h
  rw [if_neg hn] at h
  split at h
  · cases h; exact List.prefix_refl p
  · split at h
    · cases h
    · cases h; exact List.prefix_append p _

/-- Names none of which leads back lead further. -/
theorem prefix_of_follow {p q : Place} {names : List String} (hn : ".." ∉ names)
    (h : follow p names = .ok q) : p <+: q := by
  induction names generalizing p with
  | nil => cases h; exact List.prefix_refl _
  | cons n rest ih =>
    obtain ⟨hne, hrest⟩ := not_or.1 fun e => hn (List.mem_cons.2 e)
    unfold follow at h
    cases hs : step p n with
    | error f => rw [hs] at h; cases h
    | ok x =>
      rw [hs] at h
      exact (prefix_of_step (Ne.symm hne) hs).trans (ih hrest h)

end Triage.Storage
