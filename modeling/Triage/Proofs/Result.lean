/-
What is known of the parts of a computation that came to a result: each part came to one. Two
computations that go through related parts end alike.
-/

namespace Triage

section

variable {ε δ α β : Type} {x : Except ε α}

theorem ok_bind (a : α) (f : α → Except ε β) : (Except.ok a >>= f) = f a :=
  rfl

theorem mapError_ok (f : ε → δ) (a : α) : (Except.ok a : Except ε α).mapError f = .ok a :=
  rfl

theorem ok_of_isOk (h : x.isOk = true) : ∃ a, x = .ok a := by
  cases x with
  | error e => cases h
  | ok a => exact ⟨a, rfl⟩

theorem error_of_isOk (h : x.isOk = false) : ∃ e, x = .error e := by
  cases x with
  | error e => exact ⟨e, rfl⟩
  | ok a => cases h

theorem ok_of_toOption {a : α} (h : x.toOption = some a) : x = .ok a := by
  cases x with
  | error e => cases h
  | ok b =>
    cases h
    rfl

/-- Both parts of a sequence came to a result. -/
theorem ok_of_bind {f : α → Except ε β} {b : β} (h : (x >>= f) = .ok b) :
    ∃ a, x = .ok a ∧ f a = .ok b := by
  cases x with
  | error e => cases h
  | ok a => exact ⟨a, rfl, h⟩

/-- One of the parts of a sequence failed. -/
theorem error_of_bind {f : α → Except ε β} {e : ε} (h : (x >>= f) = .error e) :
    x = .error e ∨ ∃ a, x = .ok a ∧ f a = .error e := by
  cases x with
  | error d =>
    cases h
    exact .inl rfl
  | ok a => exact .inr ⟨a, rfl, h⟩

theorem ok_of_map {f : α → β} {b : β} (h : x.map f = .ok b) : ∃ a, x = .ok a ∧ f a = b := by
  cases x with
  | error e => cases h
  | ok a =>
    cases h
    exact ⟨a, rfl, rfl⟩

theorem map_eq_error_iff {f : α → β} {e : ε} : x.map f = .error e ↔ x = .error e := by
  cases x with
  | error d => simp [Except.map]
  | ok a => exact ⟨nofun, nofun⟩

theorem ok_of_mapError {f : ε → δ} {a : α} (h : x.mapError f = .ok a) : x = .ok a := by
  cases x with
  | error e => cases h
  | ok b =>
    cases h
    rfl

/-- A check that stops with an error was passed. -/
theorem ok_of_check {c : Prop} [Decidable c] {e : ε} {f : α → Except ε β} {y : Except ε β} {b : β}
    (h : (if c then (.error e : Except ε α) >>= f else y) = .ok b) : ¬c ∧ y = .ok b := by
  split at h
  · cases h
  · exact ⟨‹_›, h⟩

/-! ## Faults -/

/-- A value, unless there is a fault. -/
def unlessFault (fault : Option ε) (a : α) : Except ε α :=
  match fault with
  | some f => .error f
  | none => .ok a

theorem unlessFault_eq_ok {fault : Option ε} {a b : α} :
    unlessFault fault a = .ok b ↔ fault = none ∧ a = b := by
  cases fault with
  | none => simp [unlessFault]
  | some f => simp [unlessFault]

/-- What comes after a value that may have a fault has its own fault only if that one has none. -/
theorem unlessFault_bind {first second : Option ε} {a : α} {b : β} {f : α → Except ε β}
    (h : f a = unlessFault second b) :
    (unlessFault first a >>= f) = unlessFault (first.or second) b := by
  cases first with
  | none => exact h
  | some e => rfl

/-! ## Computations that end alike -/

/-- Whether two computations end alike: with values that are related, or with errors that are. -/
def Alike (E : ε → δ → Prop) (R : α → β → Prop) : Except ε α → Except δ β → Prop
  | .ok a, .ok b => R a b
  | .error e, .error f => E e f
  | _, _ => False

variable {γ η : Type} {E : ε → δ → Prop} {R : α → β → Prop} {S : γ → η → Prop} {y : Except δ β}

theorem Alike.cases (h : Alike E R x y) :
    (∃ e f, x = .error e ∧ y = .error f ∧ E e f) ∨ ∃ a b, x = .ok a ∧ y = .ok b ∧ R a b := by
  match x, y, h with
  | .ok a, .ok b, h => exact .inr ⟨a, b, rfl, rfl, h⟩
  | .error e, .error f, h => exact .inl ⟨e, f, rfl, rfl, h⟩

/-- What goes on alike from related values ends alike. -/
theorem Alike.bind {f : α → Except ε γ} {g : β → Except δ η} (h : Alike E R x y)
    (hk : ∀ a b, x = .ok a → y = .ok b → R a b → Alike E S (f a) (g b)) :
    Alike E S (x >>= f) (y >>= g) := by
  match x, y, h with
  | .ok a, .ok b, h => exact hk a b rfl rfl h
  | .error _, .error _, h => exact h

/-- Computations with a common beginning end alike if they go on alike. -/
theorem alike_of_bind {f : α → Except ε γ} {g : α → Except ε η}
    (hk : ∀ a, x = .ok a → Alike Eq S (f a) (g a)) : Alike Eq S (x >>= f) (x >>= g) := by
  cases x with
  | ok a => exact hk a rfl
  | error e => exact rfl

theorem Alike.map {f : α → γ} {g : β → η} (h : Alike E R x y) (hfg : ∀ a b, R a b → S (f a) (g b)) :
    Alike E S (x.map f) (y.map g) := by
  match x, y, h with
  | .ok a, .ok b, h => exact hfg a b h
  | .error _, .error _, h => exact h

end

end Triage
