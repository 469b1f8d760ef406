/-
Machines that are trees, but refuse some changes for reasons of their own. What is refused changes
nothing. A directory of a new name is where nothing was, and nothing was below it either, since its
name is longer than every name in use that begins like it.
-/
import Triage.Proofs.Storage.Tree

namespace Triage.Storage

namespace Tree

/-! ## New names -/

theorem foldl_ge {α : Type} {f : Nat → α → Nat} (hf : ∀ n a, n ≤ f n a) (l : List α) (n : Nat) :
    n ≤ l.foldl f n := by
  induction l generalizing n with
  | nil => exact Nat.le_refl n
  | cons a rest ih => exact Nat.le_trans (hf n a) (ih (f n a))

theorem foldl_ge_of_mem {α : Type} {f : Nat → α → Nat} (hf : ∀ n a, n ≤ f n a) {a : α} {b : Nat}
    (ha : ∀ n, b ≤ f n a) {l : List α} (h : a ∈ l) (n : Nat) : b ≤ l.foldl f n := by
  induction l generalizing n with
  | nil => cases h
  | cons c rest ih =>
    rcases List.mem_cons.1 h with rfl | h
    · exact Nat.le_trans (ha n) (foldl_ge hf rest _)
    · exact ih h _

/-- No name in use that begins with a text is longer than the longest such name. -/
theorem length_le_longestName {t : Tree} {start name : String} {p : Place} (hp : p ∈ t.entries)
    (hn : name ∈ p) (hs : start.toList <+: name.toList) : name.length ≤ t.longestName start := by
  have inner (n : Nat) (x : String) :
      n ≤ if start.toList.isPrefixOf x.toList then max n x.length else n := by
    split
    · exact Nat.le_max_left _ _
    · exact Nat.le_refl n
  refine foldl_ge_of_mem (fun n a => foldl_ge inner a n) (fun n => ?_)
    (Std.TreeMap.mem_keys.2 hp) 0
  refine foldl_ge_of_mem inner (fun k => ?_) hn n
  rw [if_pos (List.isPrefixOf_iff_prefix.2 hs)]
  exact Nat.le_max_right _ _

theorem foldl_le {α : Type} {f : Nat → α → Nat} {l : List α} {b : Nat}
    (hf : ∀ a ∈ l, ∀ n ≤ b, f n a ≤ b) {n : Nat} (hn : n ≤ b) : l.foldl f n ≤ b := by
  induction l generalizing n with
  | nil => exact hn
  | cons a rest ih =>
    exact ih (fun a ha => hf a (List.mem_cons_of_mem _ ha)) (hf a List.mem_cons_self n hn)

/-- The longest name that begins with a text is no longer than in a tree where all such names are in
use too. -/
theorem longestName_le {t u : Tree} {start : String}
    (h : ∀ p ∈ t.entries, ∀ name ∈ p, start.toList <+: name.toList → ∃ q ∈ u.entries, name ∈ q) :
    t.longestName start ≤ u.longestName start := by
  unfold longestName
  refine foldl_le (fun p hp n hn => ?_) (Nat.zero_le _)
  refine foldl_le (fun name hname k hk => ?_) hn
  split
  · rename_i hs
    have hprefix := List.isPrefixOf_iff_prefix.1 hs
    obtain ⟨q, hq, hmem⟩ := h p (Std.TreeMap.mem_keys.1 hp) name hname hprefix
    exact Nat.max_le.2 ⟨hk, length_le_longestName hq hmem hprefix⟩
  · exact hk

/-- Trees in which the same names that begin with a text are in use get the same new name. -/
theorem freshName_congr {t u : Tree} {start : String}
    (h : ∀ p ∈ t.entries, ∀ name ∈ p, start.toList <+: name.toList → ∃ q ∈ u.entries, name ∈ q)
    (h' : ∀ p ∈ u.entries, ∀ name ∈ p, start.toList <+: name.toList → ∃ q ∈ t.entries, name ∈ q) :
    t.freshName start = u.freshName start := by
  unfold freshName
  rw [Nat.le_antisymm (longestName_le h) (longestName_le h')]

theorem length_freshName (t : Tree) (start : String) :
    (t.freshName start).length = start.length + (t.longestName start + 1) := by
  simp [freshName]

theorem start_prefix_freshName (t : Tree) (start : String) :
    start.toList <+: (t.freshName start).toList := by
  simp [freshName]

/-- Nothing is at a place with a new name in it. -/
theorem entry?_freshName (t : Tree) {start : String} (hs : start ≠ "") {p : Place}
    (h : t.freshName start ∈ p) : t.entry? p = none := by
  have hl := length_freshName t start
  have hpos : 0 < start.length := by
    rw [Nat.pos_iff_ne_zero]
    exact fun h0 => hs (by simpa using h0)
  have hp : ¬(p = [] ∨ p = root) := by
    rintro (rfl | rfl)
    · cases h
    · have : t.freshName start = "/" := by simpa [root] using h
      rw [this, show "/".length = 1 from rfl] at hl
      omega
  unfold entry?
  rw [if_neg hp, Std.TreeMap.getElem?_eq_none]
  intro hm
  have := length_le_longestName hm h (start_prefix_freshName t start)
  omega

end Tree

/-! ## Refusals -/

/-- What a machine refuses to do, given the files that are there, and the fault it names. -/
structure Refusals where
  change : Tree → Change → Option FileFault
  fresh : Tree → Option FileFault

namespace Refusals

/-- No refusals. -/
def none : Refusals := ⟨fun _ _ => .none, fun _ => .none⟩

/-- Whether what is refused does not depend on the files that are there. -/
structure Static (r : Refusals) : Prop where
  change : ∀ t u c, r.change t c = r.change u c
  fresh : ∀ t u, r.fresh t = r.fresh u

theorem none_static : none.Static := ⟨fun _ _ _ => rfl, fun _ _ => rfl⟩

end Refusals

/-- What a machine that refuses some changes does with its files. -/
def Refusing (_ : Refusals) (α : Type) : Type := StateM Tree α

namespace Refusing

variable {r : Refusals}

instance : Monad (Refusing r) := inferInstanceAs (Monad (StateM Tree))

/-- Makes a change if it is not refused. -/
def change (r : Refusals) (c : Change) (t : Tree) : Except FileFault Unit × Tree :=
  match r.change t c with
  | some f => (.error f, t)
  | .none => Tree.change c t

/-- Makes a directory of a new name if that is not refused. -/
def makeFresh (r : Refusals) (dir : Path) (start : String) (t : Tree) :
    Except FileFault Path × Tree :=
  match r.fresh t with
  | some f => (.error f, t)
  | .none => Tree.makeFresh dir start t

instance : Host (Refusing r) where
  read p := fun t => (t.read p, t)
  change := change r
  makeFresh := makeFresh r
  clock := fun t => (0, t)

/-- How something ends on a machine, with the files it leaves. -/
def on {α : Type} (t : Tree) (x : Refusing r α) : α × Tree := x t

theorem on_pure {α : Type} (t : Tree) (a : α) : on t (pure a : Refusing r α) = (a, t) := rfl

theorem on_bind {α β : Type} (t : Tree) (x : Refusing r α) (f : α → Refusing r β) :
    on t (x >>= f) = on (on t x).2 (f (on t x).1) := rfl

theorem on_change (t : Tree) (c : Change) :
    on t (Host.change c : Refusing r (Except FileFault Unit)) = change r c t := rfl

theorem on_makeFresh (t : Tree) (dir : Path) (start : String) :
    on t (Host.makeFresh dir start : Refusing r (Except FileFault Path)) =
      makeFresh r dir start t := rfl

/-- A refused change leaves the files as they are. -/
theorem change_cases (r : Refusals) (c : Change) (t : Tree) :
    (∃ f, change r c t = (.error f, t)) ∨ change r c t = Tree.change c t := by
  unfold change
  cases r.change t c with
  | none => exact .inr rfl
  | some f => exact .inl ⟨f, rfl⟩

theorem change_of_not_refused {c : Change} {t : Tree} (h : r.change t c = .none) :
    change r c t = Tree.change c t := by
  unfold change
  rw [h]

theorem write_cases (r : Refusals) (p : Path) (bytes : List UInt8) (t : Tree) :
    (∃ f, change r (.write p bytes) t = (.error f, t)) ∨
      ∃ u, change r (.write p bytes) t = (.ok (), u) ∧ t.write p bytes = .ok u := by
  rcases change_cases r (.write p bytes) t with h | h
  · exact .inl h
  · rw [h]
    show (∃ f, t.settle (t.write p bytes) = (.error f, t)) ∨
      ∃ u, t.settle (t.write p bytes) = (.ok (), u) ∧ _
    cases t.write p bytes with
    | error f => exact .inl ⟨f, rfl⟩
    | ok u => exact .inr ⟨u, rfl, rfl⟩

theorem move_cases (r : Refusals) (p target : Path) (t : Tree) :
    (∃ f, change r (.move p target) t = (.error f, t) ∧
        (r = .none → t.move p target = .error f)) ∨
      ∃ u, change r (.move p target) t = (.ok (), u) ∧ t.move p target = .ok u := by
  have settled (h : change r (.move p target) t = t.settle (t.move p target)) :
      (∃ f, change r (.move p target) t = (.error f, t) ∧
          (r = .none → t.move p target = .error f)) ∨
        ∃ u, change r (.move p target) t = (.ok (), u) ∧ t.move p target = .ok u := by
    rw [h]
    cases t.move p target with
    | error f => exact .inl ⟨f, rfl, fun _ => rfl⟩
    | ok u => exact .inr ⟨u, rfl, rfl⟩
  by_cases hr : r = .none
  · subst hr
    exact settled rfl
  · rcases change_cases r (.move p target) t with ⟨f, h⟩ | h
    · exact .inl ⟨f, h, fun e => absurd e hr⟩
    · exact settled h

/-- A directory of a new name, if one is made at all, is made like any other. -/
theorem makeFresh_cases (r : Refusals) (dir : Path) (start : String) (t : Tree) :
    (∃ f, makeFresh r dir start t = (.error f, t)) ∨
      ∃ u, makeFresh r dir start t = (.ok (dir.child (t.freshName start)), u) ∧
        t.makeDirectory (dir.child (t.freshName start)).names = .ok u := by
  unfold makeFresh
  cases r.fresh t with
  | some f => exact .inl ⟨f, rfl⟩
  | none =>
    simp only [Tree.makeFresh]
    cases t.makeDirectory (dir.child (t.freshName start)).names with
    | error f => exact .inl ⟨f, rfl⟩
    | ok u => exact .inr ⟨u, rfl, rfl⟩

end Refusing

end Triage.Storage
