/-
Programs that keep out of each other's way. An operation keeps to the places of its program if it
changes no others, and on trees that are alike outside the places of another program is answered
alike and leaves them alike. Programs all of whose operations keep to their places come to the same
side by side as each of them alone, in whatever order their operations take turns.
-/
import Triage.Proofs.Storage.Program

namespace Triage.Storage

/-! ## Operations -/

/-- Whether there is the same in two trees at all places but some. -/
def Tree.AlikeOutside (places : Place → Prop) (t u : Tree) : Prop :=
  ∀ q, ¬places q → u.entry? q = t.entry? q

namespace Tree.AlikeOutside

variable {places : Place → Prop} {t u v : Tree}

theorem refl (places : Place → Prop) (t : Tree) : t.AlikeOutside places t :=
  fun _ _ => rfl

theorem symm (h : t.AlikeOutside places u) : u.AlikeOutside places t :=
  fun q hq => (h q hq).symm

theorem trans (h : t.AlikeOutside places u) (h' : u.AlikeOutside places v) :
    t.AlikeOutside places v :=
  fun q hq => (h' q hq).trans (h q hq)

end Tree.AlikeOutside

/-- The places of a program and of another one beside it, and the trees they are meant for. -/
structure Division where
  valid : Tree → Prop
  own : Place → Prop
  foreign : Place → Prop

/-- The division as the other program has it. -/
def Division.swap (d : Division) : Division :=
  ⟨d.valid, d.foreign, d.own⟩

variable {r : Refusals} {time : Nat → Float} {d : Division} {α β α' β' : Type}

/-- Whether an operation keeps to the places of its program. -/
structure Operation.Keeps (r : Refusals) (d : Division) (op : Operation) : Prop where
  timeless : op ≠ .clock
  valid : ∀ t, d.valid t → d.valid (op.on r t).2
  within : ∀ t, d.valid t → t.AlikeOutside d.own (op.on r t).2
  alike : ∀ t u, d.valid t → d.valid u → t.AlikeOutside d.foreign u →
    (op.on r u).1 = (op.on r t).1 ∧ (op.on r t).2.AlikeOutside d.foreign (op.on r u).2

/-! ## Changes at places -/

/-- Two outcomes of an operation on trees: the same answer, and the same put at the same places, all
of them of the program. -/
structure SameChanges {ξ : Type} (own : Place → Prop) (t u : Tree) (x y : ξ × Tree) : Prop where
  answer : y.1 = x.1
  changes : ∃ put : Place → Option (Option Entry),
    (∀ q, Tree.entry? x.2 q = (put q).getD (t.entry? q)) ∧
    (∀ q, Tree.entry? y.2 q = (put q).getD (u.entry? q)) ∧ ∀ q e, put q = some e → own q

namespace SameChanges

variable {ξ : Type} {own : Place → Prop} {t u t' u' : Tree} {x y : ξ × Tree}

theorem none (own : Place → Prop) (t u : Tree) (answer : ξ) :
    SameChanges own t u (answer, t) (answer, u) :=
  ⟨rfl, fun _ => .none, fun _ => rfl, fun _ => rfl, fun _ _ h => by cases h⟩

/-- One place was changed. -/
theorem at_place {q : Place} {e : Option Entry} (ht : t.ChangedAt q e t') (hu : u.ChangedAt q e u')
    (hq : own q) (answer : ξ) : SameChanges own t u (answer, t') (answer, u') := by
  have put {w w' : Tree} (hw : w.ChangedAt q e w') (x : Place) :
      Tree.entry? w' x = (if x = q then some e else .none).getD (w.entry? x) := by
    rw [hw x]
    by_cases hx : x = q
    · rw [if_pos hx, if_pos hx]
      rfl
    · rw [if_neg hx, if_neg hx]
      rfl
  refine ⟨rfl, fun x => if x = q then some e else .none, put ht, put hu, fun x f h => ?_⟩
  by_cases hx : x = q
  · rwa [hx]
  · simp [hx] at h

/-- Changes one after the other. -/
theorem trans {ζ : Type} {a : ζ} (h : SameChanges own t u (a, t') (a, u'))
    (h' : SameChanges own t' u' x y) : SameChanges own t u x y := by
  obtain ⟨-, put, ht, hu, hput⟩ := h
  obtain ⟨hanswer, put', ht', hu', hput'⟩ := h'
  have merged (q : Place) (e : Option Entry) :
      ((put' q).or (put q)).getD e = (put' q).getD ((put q).getD e) := by
    cases put' q <;> rfl
  refine ⟨hanswer, fun q => (put' q).or (put q), fun q => ?_, fun q => ?_, fun q e h => ?_⟩
  · rw [ht', merged]
    exact congrArg _ (ht q)
  · rw [hu', merged]
    exact congrArg _ (hu q)
  · rcases Option.or_eq_some_iff.1 h with h | ⟨-, h⟩
    · exact hput' q e h
    · exact hput q e h

theorem within (h : SameChanges own t u x y) : t.AlikeOutside own x.2 := by
  obtain ⟨-, put, ht, -, hput⟩ := h
  intro q hq
  rw [ht q]
  cases he : put q with
  | none => rfl
  | some e => exact absurd (hput q e he) hq

theorem alike {foreign : Place → Prop} (h : SameChanges own t u x y)
    (htu : t.AlikeOutside foreign u) : x.2.AlikeOutside foreign y.2 := by
  obtain ⟨-, put, ht, hu, -⟩ := h
  intro q hq
  rw [ht q, hu q, htu q hq]

end SameChanges

/-- Whether a path leads to the same place in all trees that are valid and alike outside the places
of others, if it leads anywhere, and that is a place of the program. -/
structure Path.Located (d : Division) (path : Path) : Prop where
  same : ∀ t u, d.valid t → d.valid u → t.AlikeOutside d.foreign u →
    u.locate path.names = t.locate path.names
  own : ∀ t q, d.valid t → t.locate path.names = .ok q → d.own q ∧ ¬d.foreign q

namespace Path.Located

variable {path target : Path} {t u : Tree} (ht : d.valid t) (hu : d.valid u)
  (htu : t.AlikeOutside d.foreign u)

include ht hu htu

theorem write (h : path.Located d) (bytes : List UInt8) :
    SameChanges d.own t u (t.settle (t.write path bytes)) (u.settle (u.write path bytes)) := by
  unfold Tree.write
  rw [h.same t u ht hu htu]
  cases hl : t.locate path.names with
  | error f => exact .none d.own t u _
  | ok q =>
    obtain ⟨hown, hforeign⟩ := h.own t q ht hl
    simp only [bind, Except.bind, htu q hforeign]
    by_cases hc : path.closed = true ∨ t.entry? q = some .directory
    · rw [if_pos hc, if_pos hc]
      exact .none d.own t u _
    · obtain ⟨-, hd⟩ := not_or.1 hc
      rw [if_neg hc, if_neg hc]
      exact .at_place (Tree.entry?_put hd _) (Tree.entry?_put (htu q hforeign ▸ hd) _) hown _

theorem fileAt (h : path.Located d) : u.fileAt path = t.fileAt path := by
  unfold Tree.fileAt
  rw [h.same t u ht hu htu]
  cases hl : t.locate path.names with
  | error f => rfl
  | ok q => simp only [bind, Except.bind, htu q (h.own t q ht hl).2]

theorem remove (h : path.Located d) :
    SameChanges d.own t u (t.settle (t.remove path)) (u.settle (u.remove path)) := by
  unfold Tree.remove
  rw [h.fileAt ht hu htu]
  cases hf : t.fileAt path with
  | error f => exact .none d.own t u _
  | ok found =>
    obtain ⟨q, bytes⟩ := found
    obtain ⟨hl, he⟩ := Tree.fileAt_ok hf
    obtain ⟨hown, hforeign⟩ := h.own t q ht hl
    have hd : t.entry? q ≠ some .directory := by rw [he]; simp
    exact .at_place (Tree.entry?_erase hd) (Tree.entry?_erase (htu q hforeign ▸ hd)) hown _

theorem move (h : path.Located d) (h' : target.Located d) :
    SameChanges d.own t u (t.settle (t.move path target)) (u.settle (u.move path target)) := by
  unfold Tree.move
  rw [h.fileAt ht hu htu, h'.same t u ht hu htu]
  cases hf : t.fileAt path with
  | error f => exact .none d.own t u _
  | ok found =>
    obtain ⟨q, bytes⟩ := found
    obtain ⟨hl, he⟩ := Tree.fileAt_ok hf
    obtain ⟨hown, hforeign⟩ := h.own t q ht hl
    cases hg : t.locate target.names with
    | error f => exact .none d.own t u _
    | ok goal =>
      obtain ⟨hown', hforeign'⟩ := h'.own t goal ht hg
      simp only [bind, Except.bind, htu goal hforeign']
      by_cases hc : target.closed = true
      · rw [if_pos hc, if_pos hc]
        exact .none d.own t u _
      · rw [if_neg hc, if_neg hc]
        by_cases hd : t.entry? goal = some .directory
        · rw [if_pos hd, if_pos hd]
          exact .none d.own t u _
        · rw [if_neg hd, if_neg hd]
          have hq : t.entry? q ≠ some .directory := by rw [he]; simp
          have hq' : u.entry? q ≠ some .directory := htu q hforeign ▸ hq
          have hd' : u.entry? goal ≠ some .directory := htu goal hforeign' ▸ hd
          have erased {w : Tree} (hw : w.entry? q ≠ some .directory)
              (hg : w.entry? goal ≠ some .directory) :
              Tree.entry? ⟨w.entries.erase q⟩ goal ≠ some .directory := by
            rw [Tree.entry?_erase hw]
            split
            · simp
            · exact hg
          exact .trans (.at_place (Tree.entry?_erase hq) (Tree.entry?_erase hq') hown ())
            (.at_place (Tree.entry?_put (erased hq hd) _) (Tree.entry?_put (erased hq' hd') _)
              hown' _)

end Path.Located

/-! ## Programs -/

/-- Two programs that ask the same of a machine, whatever its clock shows, and keep to the same
places; what they end with is related. -/
inductive Paired (r : Refusals) (d : Division) (related : α → α' → Prop) :
    Program α → Program α' → Prop
  | done {a : α} {a' : α'} (h : related a a') : Paired r d related (.done a) (.done a')
  | clock {next : Float → Program α} {next' : Float → Program α'}
      (rest : ∀ x y, Paired r d related (next x) (next' y)) :
    Paired r d related (.ask .clock next) (.ask .clock next')
  | ask {op : Operation} {next : op.Answer → Program α} {next' : op.Answer → Program α'}
      (keeps : op.Keeps r d)
      (rest : ∀ t, d.valid t → Paired r d related (next (op.on r t).1) (next' (op.on r t).1)) :
    Paired r d related (.ask op next) (.ask op next')

namespace Paired

variable {related : α → α' → Prop} {related' : β → β' → Prop} {x : Program α} {x' : Program α'}
  {y : Program β} {y' : Program β'} {n : Nat} {t u v w : Tree}

theorem bind (h : Paired r d related x x') {f : α → Program β} {f' : α' → Program β'}
    (hf : ∀ a a', related a a' → Paired r d related' (f a) (f' a')) :
    Paired r d related' (x >>= f) (x' >>= f') := by
  induction h with
  | done h => exact hf _ _ h
  | clock rest ih => exact .clock fun a b => ih a b
  | ask keeps rest ih => exact .ask keeps fun t ht => ih t ht

/-- What a program comes to on a tree, given what its counterpart comes to on one that is alike
outside the places of others. -/
structure Agree (d : Division) (related : α → α' → Prop) (t : Tree) (outcome : α × Nat × Tree)
    (outcome' : α' × Tree) : Prop where
  related : related outcome.1 outcome'.1
  valid : d.valid outcome.2.2
  within : t.AlikeOutside d.own outcome.2.2
  alike : outcome'.2.AlikeOutside d.foreign outcome.2.2

/-- A program comes to what its counterpart comes to. -/
theorem agree (h : Paired r d related x x') (time : Nat → Float) (n : Nat) (ht : d.valid t)
    (hu : d.valid u) (htu : u.AlikeOutside d.foreign t) :
    Agree d related t (Clocked.on n t (x.perform : Clocked r time α))
      (Refusing.on u (x'.perform : Refusing r α')) := by
  induction h generalizing n t u with
  | done h => exact ⟨h, ht, .refl d.own t, htu⟩
  | clock rest ih => exact ih (time n) (0 : Float) (n + 1) ht hu htu
  | @ask op next next' keeps rest ih =>
    obtain ⟨hanswer, halike⟩ := keeps.alike u t hu ht htu
    obtain ⟨hrelated, hvalid, hwithin, hends⟩ :=
      ih u hu n (keeps.valid t ht) (keeps.valid u hu) halike
    show Agree d related t (Clocked.on n t (op.ask >>= _)) _
    rw [Clocked.on_bind, Operation.clocked_ask keeps.timeless, hanswer]
    exact ⟨hrelated, hvalid, (keeps.within t ht).trans hwithin, hends⟩

/-- What two programs side by side come to, given what their counterparts come to alone. -/
structure AgreeBoth (d : Division) (related : α → α' → Prop) (related' : β → β' → Prop)
    (outcome : (α × β) × Nat × Tree) (left : α' × Tree) (right : β' × Tree) : Prop where
  first : related outcome.1.1 left.1
  second : related' outcome.1.2 right.1
  valid : d.valid outcome.2.2
  alike : left.2.AlikeOutside d.foreign outcome.2.2
  alike' : right.2.AlikeOutside d.own outcome.2.2

/-- Two programs side by side, each on its own places, come to what their counterparts come to
alone, whatever the schedule. -/
theorem interleave (hx : Paired r d related x x') (hy : Paired r d.swap related' y y')
    (time : Nat → Float) (schedule : List Bool) (n : Nat) (ht : d.valid t) (hu : d.valid u)
    (hv : d.valid v) (htu : u.AlikeOutside d.foreign t) (htv : v.AlikeOutside d.own t) :
    AgreeBoth d related related'
      (Clocked.on n t ((Program.interleave schedule x y).perform : Clocked r time (α × β)))
      (Refusing.on u (x'.perform : Refusing r α'))
      (Refusing.on v (y'.perform : Refusing r β')) := by
  -- By induction on the schedule: each turn is one operation of a program and of its counterpart.
  induction schedule generalizing x x' y y' n t u v with
  | nil =>
    have left := hx.agree time n ht hu htu
    have right := hy.agree time (Clocked.on n t (x.perform : Clocked r time α)).2.1
      left.valid hv (htv.trans left.within)
    rw [Program.interleave, Program.perform_bind, Clocked.on_bind, Program.perform_bind,
      Clocked.on_bind]
    exact ⟨left.related, right.related, right.valid, left.alike.trans right.within, right.alike⟩
  | cons turn rest ih =>
    cases turn with
    | true =>
      cases hx with
      | done h => exact ih (.done h) hy n ht hu hv htu htv
      | clock next => exact ih (next (time n) (0 : Float)) hy (n + 1) ht hu hv htu htv
      | @ask op next next' keeps later =>
        obtain ⟨hanswer, halike⟩ := keeps.alike u t hu ht htu
        have agreed := ih (later u hu) hy n (keeps.valid t ht) (keeps.valid u hu) hv halike
          (htv.trans (keeps.within t ht))
        show AgreeBoth d related related' (Clocked.on n t (op.ask >>= _)) _ _
        rw [Clocked.on_bind, Operation.clocked_ask keeps.timeless, hanswer]
        exact agreed
    | false =>
      cases hy with
      | done h => exact ih hx (.done h) n ht hu hv htu htv
      | clock next => exact ih hx (next (time n) (0 : Float)) (n + 1) ht hu hv htu htv
      | @ask op next next' keeps later =>
        obtain ⟨hanswer, halike⟩ := keeps.alike v t hv ht htv
        have agreed := ih hx (later v hv) n (keeps.valid t ht) hu (keeps.valid v hv)
          (htu.trans (keeps.within t ht)) halike
        show AgreeBoth d related related' (Clocked.on n t (op.ask >>= _)) _ _
        rw [Clocked.on_bind, Operation.clocked_ask keeps.timeless, hanswer]
        exact agreed

end Paired

/-! ## The first change -/

/-- Whether a program asks for a change before anything else, the clock apart. -/
inductive Opens (c : Change) : Program α → Prop
  | clock {next : Float → Program α} (rest : ∀ x, Opens c (next x)) : Opens c (.ask .clock next)
  | ask {next : Except FileFault Unit → Program α} : Opens c (.ask (.change c) next)

/-- Whether a program asks for nothing but the clock. -/
inductive Idle : Program α → Prop
  | done (a : α) : Idle (.done a)
  | clock {next : Float → Program α} (rest : ∀ x, Idle (next x)) : Idle (.ask .clock next)

/-- Whether a program, as long as a change fails, asks for nothing else but the clock, for the
change no more than a number of times, and ends well. -/
inductive Stuck (c : Change) (fails : FileFault → Prop) (good : α → Prop) : Nat → Program α → Prop
  | done {k : Nat} {a : α} (h : good a) : Stuck c fails good k (.done a)
  | clock {k : Nat} {next : Float → Program α} (rest : ∀ x, Stuck c fails good k (next x)) :
    Stuck c fails good k (.ask .clock next)
  | ask {k : Nat} {next : Except FileFault Unit → Program α}
      (rest : ∀ f, fails f → Stuck c fails good k (next (.error f))) :
    Stuck c fails good (k + 1) (.ask (.change c) next)

variable {c : Change} {x : Program α} {y : Program β} {n : Nat} {t u : Tree}
  {fails : FileFault → Prop} {good : α → Prop} {good' : β → Prop}

theorem Opens.bind (h : Opens c x) (f : α → Program β) : Opens c (x >>= f) := by
  induction h with
  | clock rest ih => exact .clock ih
  | ask => exact .ask

theorem Idle.bind (h : Idle x) {f : α → Program β} (hf : ∀ a, Opens c (f a)) :
    Opens c (x >>= f) := by
  induction h with
  | done a => exact hf a
  | clock rest ih => exact .clock ih

/-- Of two programs one that opens with the change is enough if the other one asks for nothing
else first. -/
theorem Opens.interleave (h : Opens c x ∧ (Opens c y ∨ Idle y) ∨ Idle x ∧ Opens c y)
    (schedule : List Bool) : Opens c (Program.interleave schedule x y) := by
  induction schedule generalizing x y with
  | nil =>
    rcases h with ⟨hx, -⟩ | ⟨hx, hy⟩
    · exact hx.bind _
    · exact hx.bind fun a => hy.bind _
  | cons turn rest ih =>
    cases turn with
    | true =>
      rcases h with ⟨hx, hy⟩ | ⟨hx, hy⟩
      · cases hx with
        | clock later => exact .clock fun b => ih (.inl ⟨later b, hy⟩)
        | ask => exact .ask
      · cases hx with
        | done a => exact ih (.inr ⟨.done a, hy⟩)
        | clock later => exact .clock fun b => ih (.inr ⟨later b, hy⟩)
    | false =>
      rcases h with ⟨hx, hy | hy⟩ | ⟨hx, hy⟩
      · cases hy with
        | clock later => exact .clock fun b => ih (.inl ⟨hx, .inl (later b)⟩)
        | ask => exact .ask
      · cases hy with
        | done a => exact ih (.inl ⟨hx, .inr (.done a)⟩)
        | clock later => exact .clock fun b => ih (.inl ⟨hx, .inr (later b)⟩)
      · cases hy with
        | clock later => exact .clock fun b => ih (.inr ⟨hx, later b⟩)
        | ask => exact .ask

/-- On trees on which the change comes to the same, so does what opens with it. -/
theorem Opens.same (h : Opens c x) (he : Refusing.change r c t = Refusing.change r c u) (n : Nat) :
    Clocked.on n t (x.perform : Clocked r time α) =
      Clocked.on n u (x.perform : Clocked r time α) := by
  induction h generalizing n with
  | clock rest ih => exact ih (time n) (n + 1)
  | @ask next =>
    show Clocked.on n (Refusing.change r c t).2
        ((next (Refusing.change r c t).1).perform : Clocked r time α) =
      Clocked.on n (Refusing.change r c u).2
        ((next (Refusing.change r c u).1).perform : Clocked r time α)
    rw [he]

variable {i j k : Nat}

theorem Stuck.mono (h : Stuck c fails good j x) (i : Nat) : Stuck c fails good (i + j) x := by
  induction h with
  | done h => exact .done h
  | clock rest ih => exact .clock ih
  | ask rest ih => exact .ask ih

theorem Stuck.bind (h : Stuck c fails good i x) {f : α → Program β}
    (hf : ∀ a, good a → Stuck c fails good' j (f a)) : Stuck c fails good' (i + j) (x >>= f) := by
  induction h with
  | done h => exact (hf _ h).mono _
  | clock rest ih => exact .clock ih
  | @ask i next rest ih =>
    rw [Nat.succ_add]
    exact .ask ih

/-- Side by side two programs ask for the change as often as both of them together. -/
theorem Stuck.interleave (hx : Stuck c fails good i x) (hy : Stuck c fails good' j y)
    (schedule : List Bool) : Stuck c fails (fun both => good both.1 ∧ good' both.2) (i + j)
      (Program.interleave schedule x y) := by
  induction schedule generalizing i j x y with
  | nil =>
    refine hx.bind fun a ha => ?_
    rw [← Nat.add_zero j]
    exact hy.bind fun b hb => .done ⟨ha, hb⟩
  | cons turn rest ih =>
    cases turn with
    | true =>
      cases hx with
      | done h => exact ih (.done h) hy
      | clock later => exact .clock fun b => ih (later b) hy
      | ask later =>
        rw [Nat.succ_add]
        exact .ask fun f hf => ih (later f hf) hy
    | false =>
      cases hy with
      | done h => exact ih hx (.done h)
      | clock later => exact .clock fun b => ih hx (later b)
      | ask later => exact .ask fun f hf => ih hx (later f hf)

/-- Where the change fails and leaves everything as it is, what is stuck ends well and leaves
everything as it is too. -/
theorem Stuck.run (h : Stuck c fails good k x) {g : FileFault} (hg : 0 < k → fails g)
    (hu : Refusing.change r c u = (.error g, u)) (n : Nat) :
    ∃ a l, Clocked.on n u (x.perform : Clocked r time α) = (a, l, u) ∧ good a := by
  induction h generalizing n with
  | done h => exact ⟨_, n, rfl, h⟩
  | clock rest ih => exact ih (time n) hg (n + 1)
  | @ask k next rest ih =>
    have hfails := hg (Nat.succ_pos k)
    show ∃ a l, Clocked.on n (Refusing.change r c u).2
      ((next (Refusing.change r c u).1).perform : Clocked r time α) = (a, l, u) ∧ good a
    rw [hu]
    exact ih g hfails (fun _ => hfails) n

/-- What opens with a change that fails, and fails in another way when it is asked for again, ends
well with what the change leaves. -/
theorem Opens.stuck_run (h : Opens c x) (time : Nat → Float) (hstuck : Stuck c fails good k x)
    {f g : FileFault} (hf : fails f) (hg : 1 < k → fails g)
    (ht : Refusing.change r c t = (.error f, u)) (hu : Refusing.change r c u = (.error g, u))
    (n : Nat) :
    ∃ a l, Clocked.on n t (x.perform : Clocked r time α) = (a, l, u) ∧ good a := by
  induction h generalizing n with
  | clock rest ih =>
    cases hstuck with
    | clock later => exact ih (time n) (later _) (n + 1)
  | @ask next =>
    cases hstuck with
    | ask later =>
      show ∃ a l, Clocked.on n (Refusing.change r c t).2
        ((next (Refusing.change r c t).1).perform : Clocked r time α) = (a, l, u) ∧ good a
      rw [ht]
      exact (later f hf).run (fun hk => hg (Nat.succ_lt_succ hk)) hu n

end Triage.Storage
