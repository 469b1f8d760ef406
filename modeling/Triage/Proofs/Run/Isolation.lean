/-
Two tasks in one directory do not come into each other's way. Side by side, in whatever order their
operations take turns, each of them comes to what it comes to alone, and the files are those that
are left when one is run after the other, in either order. The one thing they share is the making of
the directory: if that fails, both fail, and where names lead back the second one may fail for
another reason, since the first may have made some of the directories.
-/
import Triage.Proofs.Bundle.Apart
import Triage.Proofs.Run.HeldOut

namespace Triage

open Storage (Change Clocked Division Idle Opens Paired Path Place Program Refusals Refusing Stuck
  Tree)

open Triage.Bundle (Own division)

/-! ## Runs as programs -/

/-- A run with the duration left out. -/
def Run.untimed (x : Run) : Run :=
  { x with result := x.result.map fun report => { report with seconds := 0 } }

variable {r : Refusals} {settings : Settings} {samples : List Sample} {dir : Path}
  {time : Nat → Float} {t u v w : Tree} {p : Place} {a b task : Task}

section

variable {m : Type → Type} [Monad m] [LawfulMonad m] [Storage.Host m]

/-- A run written down and carried out is the run itself. -/
theorem perform_run (task : Task) (settings : Settings) (samples : List Sample) (dir : Path) :
    (run (m := Program) task settings samples dir).perform =
      (run task settings samples dir : m Run) := by
  unfold run
  simp only [Program.perform_bind, Program.perform_clock]
  refine congrArg _ (funext fun start => ?_)
  cases Trained.of task settings samples with
  | error e => rfl
  | ok trained =>
    simp only [Program.perform_bind, Program.perform_clock, Bundle.perform_publish]
    rfl

end

/-- A run that trains nothing asks for nothing but the clock. -/
theorem run_idle {e : Error} (h : Trained.of task settings samples = .error e) (dir : Path) :
    Idle (run (m := Program) task settings samples dir) := by
  unfold run
  rw [h]
  exact .clock fun _ => .done _

theorem run_paired_of_error {e : Error} (h : Trained.of task settings samples = .error e)
    (d : Division) (dir : Path) :
    Paired r d (fun x y => x.untimed = y.untimed)
      (run (m := Program) task settings samples dir)
      (run (m := Program) task settings samples dir) := by
  unfold run
  rw [h]
  exact .clock fun _ _ => .done rfl

/-- A run that trains a classifier makes the directory before anything else. -/
theorem run_opens {trained : Trained} (h : Trained.of task settings samples = .ok trained)
    (dir : Path) :
    Opens (.makeDirectories dir) (run (m := Program) task settings samples dir) := by
  unfold run
  rw [h]
  exact .clock fun _ => .ask

/-- The duration is all that a run has from the clock. -/
theorem untimed_report (trained : Trained) (result : Except FileFault Unit)
    (warnings : List Warning) (seconds other : Float) (dir : Path) :
    Run.untimed ⟨(result.map fun () => trained.report seconds dir).mapError .file, warnings⟩ =
      Run.untimed ⟨(result.map fun () => trained.report other dir).mapError .file, warnings⟩ := by
  cases result with
  | error fault => rfl
  | ok _ => rfl

/-- Whatever is trained, a run keeps to the places of its task. -/
theorem run_paired (hr : r.Static) (hne : a ≠ b) (hv : v.Leads dir.names p) (settings : Settings)
    (samples : List Sample) :
    Paired r (division v dir p a b) (fun x y => x.untimed = y.untimed)
      (run (m := Program) a settings samples dir)
      (run (m := Program) a settings samples dir) := by
  cases h : Trained.of a settings samples with
  | error e => exact run_paired_of_error h _ dir
  | ok trained =>
    unfold run
    rw [h]
    refine .clock fun start start' => (Bundle.publish_paired hr hne hv trained.bundle).bind ?_
    rintro placement _ rfl
    exact .clock fun stop stop' => .done (untimed_report _ _ _ _ _ dir)

/-! ## Side by side -/

/-- What a task comes to alone, with the files it leaves. -/
def alone (r : Refusals) (settings : Settings) (samples : List Sample) (dir : Path) (t : Tree)
    (task : Task) : Run × Tree :=
  Refusing.on t (run (m := Refusing r) task settings samples dir)

/-- Two tasks side by side on a machine with a clock. -/
def sideBySide (r : Refusals) (time : Nat → Float) (schedule : List Bool) (settings : Settings)
    (samples : List Sample) (dir : Path) (t : Tree) (a b : Task) : (Run × Run) × Nat × Tree :=
  Clocked.on 0 t ((Program.interleave schedule (run (m := Program) a settings samples dir)
    (run (m := Program) b settings samples dir)).perform : Clocked r time (Run × Run))

/-- Two tasks one after the other are two side by side the second of which waits. -/
theorem runTasks_pair (r : Refusals) (settings : Settings) (samples : List Sample) (dir : Path)
    (t : Tree) (a b : Task) : ∃ x y n u,
      sideBySide r (fun _ => 0) [] settings samples dir t a b = ((x, y), n, u) ∧
      Refusing.on t (runTasks (m := Refusing r) [a, b] settings samples dir) =
        ([(a, x), (b, y)], u) := by
  have hperform : (Program.interleave [] (run (m := Program) a settings samples dir)
      (run (m := Program) b settings samples dir)).perform = (do
        let x ← run a settings samples dir
        let y ← run b settings samples dir
        pure (x, y) : Refusing r (Run × Run)) := by
    simp only [Program.interleave, Program.perform_bind, perform_run]
    rfl
  obtain ⟨n, hn⟩ := Program.clocked_perform (r := r) (Program.interleave []
    (run (m := Program) a settings samples dir) (run (m := Program) b settings samples dir)) 0 t
  rw [hperform] at hn
  exact ⟨_, _, n, _, hn, rfl⟩

/-- What two tasks come to if the directory cannot be made and names lead back: both fail, as each
of them does alone, but for which reason may depend on which of them was the first. -/
structure Unmade (r : Refusals) (settings : Settings) (samples : List Sample) (dir : Path)
    (t : Tree) (a b : Task) (both : Run × Run) : Prop where
  leadsBack : ".." ∈ dir.names
  unmade : ∃ fault, (Refusing.change r (.makeDirectories dir) t).1 = .error fault
  together : (∃ fault, both.1.result = .error (.file fault)) ∧
    ∃ fault, both.2.result = .error (.file fault)
  apart : (∃ fault, (alone r settings samples dir t a).1.result = .error (.file fault)) ∧
    ∃ fault, (alone r settings samples dir t b).1.result = .error (.file fault)

/-- Whether two tasks came to what each of them comes to alone, the duration apart. -/
def AsAlone (r : Refusals) (settings : Settings) (samples : List Sample) (dir : Path) (t : Tree)
    (a b : Task) (both : Run × Run) : Prop :=
  (both.1.untimed = (alone r settings samples dir t a).1.untimed ∧
      both.2.untimed = (alone r settings samples dir t b).1.untimed) ∨
    Unmade r settings samples dir t a b both

/-! ## The making of the directory -/

/-- If the directory can be made, it is there the second time. -/
theorem change_again (hr : r.Static)
    (h : Refusing.change r (.makeDirectories dir) t = (.ok (), v)) :
    Refusing.change r (.makeDirectories dir) v = (.ok (), v) ∧ (∃ p, v.Leads dir.names p) ∧
      t.MadeOnWay dir.names v := by
  unfold Refusing.change at h ⊢
  rw [hr.change v t]
  cases hrefused : r.change t (.makeDirectories dir) with
  | some f =>
    rw [hrefused] at h
    cases h
  | none =>
    rw [hrefused] at h
    have hmade : t.makeDirectories dir.names = (.ok (), v) := h
    obtain ⟨made, leads⟩ := t.makeDirectories_spec dir.names
    rw [hmade] at made leads
    exact ⟨Tree.makeDirectories_again hmade, leads rfl, made⟩

/-- If it cannot be made, it cannot be made the second time, and unless names lead back for the same
reason. -/
theorem change_fails (hr : r.Static) {f : FileFault}
    (h : Refusing.change r (.makeDirectories dir) t = (.error f, u)) :
    t.MadeOnWay dir.names u ∧ ∃ g, Refusing.change r (.makeDirectories dir) u = (.error g, u) ∧
      (t.Closed → ".." ∉ dir.names → g = f) := by
  unfold Refusing.change at h ⊢
  rw [hr.change u t]
  cases hrefused : r.change t (.makeDirectories dir) with
  | some fault =>
    rw [hrefused] at h
    cases h
    exact ⟨.refl dir.names t, f, rfl, fun _ _ => rfl⟩
  | none =>
    rw [hrefused] at h
    have hfailed : t.makeDirectories dir.names = (.error f, u) := h
    obtain ⟨made, -⟩ := t.makeDirectories_spec dir.names
    rw [hfailed] at made
    obtain ⟨g, hg⟩ := Tree.makeDirectories_fails hfailed
    refine ⟨made, g, hg, fun hclosed hnames => ?_⟩
    obtain ⟨hagain, -⟩ := Tree.makeDirectories_fails_alike hclosed hnames hfailed
    rw [hagain] at hg
    cases hg
    rfl

/-! ## Tasks alone -/

theorem alone_of_error {e : Error} (h : Trained.of task settings samples = .error e) :
    alone r settings samples dir t task = (⟨.error e, []⟩, t) := by
  unfold alone
  rw [on_run, h]

/-- What is published depends on what the making of the directory comes to. -/
theorem publish_congr (h : Refusing.change r (.makeDirectories dir) t =
      Refusing.change r (.makeDirectories dir) v) (bundle : Bundle) (task : Task) :
    Refusing.on t (bundle.publish (m := Refusing r) dir task) =
      Refusing.on v (bundle.publish (m := Refusing r) dir task) := by
  unfold Bundle.publish
  simp only [Refusing.on_bind, Refusing.on_change, h]

theorem alone_congr {trained : Trained} (htrained : Trained.of task settings samples = .ok trained)
    (h : Refusing.change r (.makeDirectories dir) t = Refusing.change r (.makeDirectories dir) v) :
    alone r settings samples dir t task = alone r settings samples dir v task := by
  unfold alone
  rw [on_run, on_run, htrained]
  simp only [publish_congr h]

theorem alone_unmade {trained : Trained} (htrained : Trained.of task settings samples = .ok trained)
    {f : FileFault} (h : Refusing.change r (.makeDirectories dir) t = (.error f, u)) :
    alone r settings samples dir t task = (⟨.error (.file f), trained.warnings⟩, u) := by
  have hpublish : Refusing.on t (trained.bundle.publish (m := Refusing r) dir task) =
      (⟨.error f, []⟩, u) := by
    unfold Bundle.publish
    simp only [Refusing.on_bind, Refusing.on_change, h]
    rfl
  unfold alone
  rw [on_run, htrained]
  simp only [hpublish, List.map_nil, List.append_nil]
  rfl

/-! ## What two tasks leave -/

/-- Whether one of two tasks trains a classifier. -/
def OneTrained (settings : Settings) (samples : List Sample) (a b : Task) : Prop :=
  (∃ trained, Trained.of a settings samples = .ok trained) ∨
    ∃ trained, Trained.of b settings samples = .ok trained

theorem OneTrained.opens (h : OneTrained settings samples a b) (schedule : List Bool) (dir : Path) :
    Opens (.makeDirectories dir) (Program.interleave schedule
      (run (m := Program) a settings samples dir) (run (m := Program) b settings samples dir)) := by
  refine Opens.interleave ?_ schedule
  cases ha : Trained.of a settings samples with
  | ok trained =>
    refine .inl ⟨run_opens ha dir, ?_⟩
    cases hb : Trained.of b settings samples with
    | ok trained => exact .inl (run_opens hb dir)
    | error e => exact .inr (run_idle hb dir)
  | error e =>
    obtain ⟨trained, hb⟩ := h.resolve_left (by rw [ha]; simp)
    exact .inr ⟨run_idle ha dir, run_opens hb dir⟩

/-- The files that two tasks leave: those that were there if nothing was trained; in the directory
that was made, at the places of each task what it leaves alone; or what is left if the directory
could not be made. -/
inductive Left (r : Refusals) (settings : Settings) (samples : List Sample) (dir : Path) (t : Tree)
    (a b : Task) (w : Tree) : Prop where
  | untrained (untrained : ¬OneTrained settings samples a b) (same : ∀ q, w.entry? q = t.entry? q)
  | made {v : Tree} {p : Place} (trained : OneTrained settings samples a b)
      (made : Refusing.change r (.makeDirectories dir) t = (.ok (), v))
      (leads : v.Leads dir.names p) (still : w.Leads dir.names p)
      (first : (alone r settings samples dir v a).2.AlikeOutside (Own v p b) w)
      (second : (alone r settings samples dir v b).2.AlikeOutside (Own v p a) w)
  | unmade {fault : FileFault} (trained : OneTrained settings samples a b)
      (unmade : Refusing.change r (.makeDirectories dir) t = (.error fault, w))

theorem Left.swap (h : Left r settings samples dir t a b w) :
    Left r settings samples dir t b a w := by
  cases h with
  | untrained untrained same => exact .untrained (fun h => untrained h.symm) same
  | made trained made leads still first second =>
    exact .made trained.symm made leads still second first
  | unmade trained unmade => exact .unmade trained.symm unmade

/-- Two tasks leave the same files however they take turns. -/
theorem Left.unique (hne : a ≠ b) (h : Left r settings samples dir t a b v)
    (h' : Left r settings samples dir t a b w) (q : Place) : v.entry? q = w.entry? q := by
  cases h with
  | untrained untrained same =>
    cases h' with
    | untrained untrained' same' => rw [same, same']
    | made trained => exact absurd trained untrained
    | unmade trained => exact absurd trained untrained
  | @made x p trained made leads still first second =>
    cases h' with
    | untrained untrained => exact absurd trained untrained
    | made _ made' leads' _ first' second' =>
      rw [made] at made'
      cases made'
      cases leads.unique leads'
      -- A place is not that of both tasks, so one of them leaves there what is left alone.
      by_cases hown : Own x p b q
      · have hother : ¬Own x p a q := fun h => hne (h.unique hown)
        rw [second q hother, second' q hother]
      · rw [first q hown, first' q hown]
    | unmade _ unmade =>
      rw [made] at unmade
      cases unmade
  | unmade trained unmade =>
    cases h' with
    | untrained untrained => exact absurd trained untrained
    | made _ made =>
      rw [made] at unmade
      cases unmade
    | unmade _ unmade' =>
      rw [unmade] at unmade'
      cases unmade'
      rfl

/-- At the places of the files of a task is what the task leaves alone, or a directory that was made
on the way to the one of the bundles. -/
theorem Left.keptAt (hr : r.Static) (hne : a ≠ b) (h : Left r settings samples dir t a b w)
    (hp : w.Leads dir.names p) (f : BundleFile) :
    (alone r settings samples dir t a).2.KeptAt dir.names w (f.place p a) := by
  cases h with
  | untrained untrained same =>
    cases ha : Trained.of a settings samples with
    | ok trained => exact absurd (.inl ⟨trained, ha⟩) untrained
    | error e =>
      rw [alone_of_error ha]
      exact .inl (same _)
  | @made v x trained made leads still first second =>
    cases hp.unique still
    have hown : Own v p a (f.place p a) := .file f
    obtain ⟨hagain, -, hmade⟩ := change_again hr made
    have hleft := first _ fun h => hne (hown.unique h)
    cases ha : Trained.of a settings samples with
    | ok trained =>
      rw [alone_congr ha (made.trans hagain.symm)]
      exact .inl hleft
    | error e =>
      rw [alone_of_error ha] at hleft ⊢
      exact (hmade _).congr hleft
  | unmade trained unmade =>
    cases ha : Trained.of a settings samples with
    | ok trained =>
      rw [alone_unmade ha unmade]
      exact .inl rfl
    | error e =>
      rw [alone_of_error ha]
      exact (change_fails hr unmade).1 _

/-! ## What two tasks come to -/

/-- Side by side two tasks that keep to their places come to what they come to alone. -/
theorem agree_of_paired {d : Division}
    (ha : Paired r d (fun x y => x.untimed = y.untimed)
      (run (m := Program) a settings samples dir) (run (m := Program) a settings samples dir))
    (hb : Paired r d.swap (fun x y => x.untimed = y.untimed)
      (run (m := Program) b settings samples dir) (run (m := Program) b settings samples dir))
    (ht : d.valid t) (time : Nat → Float) (schedule : List Bool) :
    Paired.AgreeBoth d (fun x y => x.untimed = y.untimed) (fun x y => x.untimed = y.untimed)
      (sideBySide r time schedule settings samples dir t a b)
      (alone r settings samples dir t a) (alone r settings samples dir t b) := by
  have agreed := ha.interleave hb time schedule 0 ht ht ht (.refl d.foreign t)
    (.refl d.own t)
  rwa [perform_run, perform_run] at agreed

/-- Where the directory can be made. -/
theorem sideBySide_made (hr : r.Static) (hne : a ≠ b) (trained : OneTrained settings samples a b)
    (made : Refusing.change r (.makeDirectories dir) t = (.ok (), v)) (time : Nat → Float)
    (schedule : List Bool) :
    AsAlone r settings samples dir t a b
        (sideBySide r time schedule settings samples dir t a b).1 ∧
      Left r settings samples dir t a b
        (sideBySide r time schedule settings samples dir t a b).2.2 := by
  obtain ⟨hagain, ⟨p, leads⟩, -⟩ := change_again hr made
  have hchange := made.trans hagain.symm
  have hsame : sideBySide r time schedule settings samples dir t a b =
      sideBySide r time schedule settings samples dir v a b :=
    (trained.opens schedule dir).same hchange 0
  have hresult (task : Task) : (alone r settings samples dir t task).1 =
      (alone r settings samples dir v task).1 := by
    cases h : Trained.of task settings samples with
    | error e => rw [alone_of_error h, alone_of_error h]
    | ok trained => rw [alone_congr h hchange]
  have agreed := agree_of_paired (run_paired hr hne leads settings samples)
    (run_paired hr hne.symm leads settings samples) (Bundle.division_self leads) time schedule
  rw [hsame]
  refine ⟨.inl ⟨?_, ?_⟩, .made trained made leads agreed.valid.1 agreed.alike agreed.alike'⟩
  · rw [hresult, agreed.first]
  · rw [hresult, agreed.second]

/-- Where nothing is trained. -/
theorem sideBySide_untrained (untrained : ¬OneTrained settings samples a b)
    (time : Nat → Float) (schedule : List Bool) :
    AsAlone r settings samples dir t a b
        (sideBySide r time schedule settings samples dir t a b).1 ∧
      Left r settings samples dir t a b
        (sideBySide r time schedule settings samples dir t a b).2.2 := by
  cases ha : Trained.of a settings samples with
  | ok trained => exact absurd (.inl ⟨trained, ha⟩) untrained
  | error e =>
    cases hb : Trained.of b settings samples with
    | ok trained => exact absurd (.inr ⟨trained, hb⟩) untrained
    | error e' =>
      have agreed := agree_of_paired (t := t) (r := r)
        (d := ⟨fun _ => True, fun _ => False, fun _ => False⟩) (run_paired_of_error ha _ dir)
        (run_paired_of_error hb _ dir) trivial time schedule
      refine ⟨.inl ⟨agreed.first, agreed.second⟩, .untrained untrained fun q => ?_⟩
      rw [agreed.alike q id, alone_of_error ha]

theorem run_stuck_of_error {e : Error} (h : Trained.of task settings samples = .error e)
    (fails : FileFault → Prop) (dir : Path) :
    Stuck (.makeDirectories dir) fails (· = ⟨.error e, []⟩) 0
      (run (m := Program) task settings samples dir) := by
  unfold run
  rw [h]
  exact .clock fun _ => .done rfl

theorem run_stuck {trained : Trained} (h : Trained.of task settings samples = .ok trained)
    (fails : FileFault → Prop) (dir : Path) :
    Stuck (.makeDirectories dir) fails
      (fun x => ∃ f, fails f ∧ x = ⟨.error (.file f), trained.warnings⟩) 1
      (run (m := Program) task settings samples dir) := by
  unfold run
  rw [h]
  exact .clock fun start => .ask fun f hf => .clock fun stop => .done ⟨f, hf, by simp; rfl⟩

/-- Where the directory cannot be made. -/
theorem sideBySide_unmade (hr : r.Static) (hclosed : t.Closed)
    (trained : OneTrained settings samples a b) {f : FileFault}
    (unmade : Refusing.change r (.makeDirectories dir) t = (.error f, u)) (time : Nat → Float)
    (schedule : List Bool) :
    AsAlone r settings samples dir t a b
        (sideBySide r time schedule settings samples dir t a b).1 ∧
      Left r settings samples dir t a b
        (sideBySide r time schedule settings samples dir t a b).2.2 := by
  obtain ⟨-, g, hagain, hsame⟩ := change_fails hr unmade
  have hopens := trained.opens schedule dir
  cases ha : Trained.of a settings samples with
  | error e =>
    obtain ⟨_, hb⟩ := trained.resolve_left (by rw [ha]; simp)
    obtain ⟨⟨x, y⟩, n, hrun, rfl, f', rfl, rfl⟩ := hopens.stuck_run time
      ((run_stuck_of_error ha (· = f) dir).interleave (run_stuck hb (· = f) dir) schedule) rfl
      (fun h => absurd h (by decide)) unmade hagain 0
    unfold sideBySide
    rw [hrun]
    refine ⟨.inl ⟨?_, ?_⟩, .unmade trained unmade⟩
    · rw [alone_of_error ha]
    · rw [alone_unmade hb unmade]
  | ok first =>
    cases hb : Trained.of b settings samples with
    | error e =>
      obtain ⟨⟨x, y⟩, n, hrun, ⟨f', rfl, rfl⟩, rfl⟩ := hopens.stuck_run time
        ((run_stuck ha (· = f) dir).interleave (run_stuck_of_error hb (· = f) dir) schedule) rfl
        (fun h => absurd h (by decide)) unmade hagain 0
      unfold sideBySide
      rw [hrun]
      refine ⟨.inl ⟨?_, ?_⟩, .unmade trained unmade⟩
      · rw [alone_unmade ha unmade]
      · rw [alone_of_error hb]
    | ok second =>
      obtain ⟨⟨x, y⟩, n, hrun, ⟨fx, hx, rfl⟩, fy, hy, rfl⟩ := hopens.stuck_run time
        ((run_stuck ha (fun e => e = f ∨ e = g) dir).interleave
          (run_stuck hb (fun e => e = f ∨ e = g) dir) schedule) (.inl rfl) (fun _ => .inr rfl)
        unmade hagain 0
      unfold sideBySide
      rw [hrun]
      refine ⟨?_, .unmade trained unmade⟩
      unfold AsAlone
      rw [alone_unmade ha unmade, alone_unmade hb unmade]
      by_cases hnames : ".." ∈ dir.names
      · refine .inr ⟨hnames, ⟨f, by rw [unmade]⟩, ⟨⟨fx, rfl⟩, fy, rfl⟩, ?_, ?_⟩
        · rw [alone_unmade ha unmade]
          exact ⟨f, rfl⟩
        · rw [alone_unmade hb unmade]
          exact ⟨f, rfl⟩
      · -- Where no name leads back both fail for the same reason.
        obtain rfl := hsame hclosed hnames
        obtain rfl : fx = g := hx.elim id id
        obtain rfl : fy = fx := hy.elim id id
        exact .inl ⟨rfl, rfl⟩

/-- Two tasks side by side come to what each of them comes to alone, and leave files that do not
depend on how they take turns. -/
theorem sideBySide_spec (hr : r.Static) (hclosed : t.Closed) (hne : a ≠ b) (settings : Settings)
    (samples : List Sample) (dir : Path) (time : Nat → Float) (schedule : List Bool) :
    AsAlone r settings samples dir t a b
        (sideBySide r time schedule settings samples dir t a b).1 ∧
      Left r settings samples dir t a b
        (sideBySide r time schedule settings samples dir t a b).2.2 := by
  by_cases trained : OneTrained settings samples a b
  · rcases hmade : Refusing.change r (.makeDirectories dir) t with ⟨result, u⟩
    cases result with
    | ok _ => exact sideBySide_made hr hne trained hmade time schedule
    | error f => exact sideBySide_unmade hr hclosed trained hmade time schedule
  · exact sideBySide_untrained trained time schedule

/-! ## Samples -/

/-- A task is trained on the texts and on its own labels. -/
theorem Trained.of_congr {others : List Sample}
    (hlabels : Trained.encodeLabels task others = Trained.encodeLabels task samples)
    (htexts : others.map Sample.text = samples.map Sample.text) :
    Trained.of task settings others = Trained.of task settings samples := by
  have hnormal : (others.map fun s => Text.normalizeOption s.text) =
      samples.map fun s => Text.normalizeOption s.text := by
    have h := congrArg (List.map Text.normalizeOption) htexts
    rwa [List.map_map, List.map_map] at h
  have hlength : others.length = samples.length := by
    rw [← List.length_map Sample.text, htexts, List.length_map]
  unfold Trained.of Trained.ofSamples
  rw [hlabels, hnormal, hlength]

theorem run_congr {m : Type → Type} [Monad m] [Storage.Host m] {others : List Sample}
    (h : Trained.of task settings others = Trained.of task settings samples) :
    run (m := m) task settings others dir = run task settings samples dir := by
  unfold run
  rw [h]

/-! ## Isolation -/

theorem AsAlone.swap {x y : Run} (h : AsAlone r settings samples dir t a b (x, y)) :
    AsAlone r settings samples dir t b a (y, x) :=
  h.imp And.symm fun h => ⟨h.leadsBack, h.unmade, h.together.symm, h.apart.symm⟩

/-- What two tasks in one directory come to side by side, and what that has to do with each of them
alone and with both of them one after the other. -/
structure Isolated (r : Refusals) (settings : Settings) (samples : List Sample) (dir : Path)
    (t : Tree) (a b : Task) (both : Run × Run) (w : Tree) : Prop where
  results : AsAlone r settings samples dir t a b both
  /-- One after the other they come to the same and leave the same. -/
  inTurn : ∃ x y u, Refusing.on t (runTasks (m := Refusing r) [a, b] settings samples dir) =
      ([(a, x), (b, y)], u) ∧ AsAlone r settings samples dir t a b (x, y) ∧
    ∀ q, w.entry? q = u.entry? q
  /-- In the other order they do so too. -/
  inTurnBack : ∃ x y u, Refusing.on t (runTasks (m := Refusing r) [b, a] settings samples dir) =
      ([(b, y), (a, x)], u) ∧ AsAlone r settings samples dir t a b (x, y) ∧
    ∀ q, w.entry? q = u.entry? q
  /-- At the places of its files is what each of them leaves alone, whatever became of the other; a
  directory may have been made there on the way to the one the bundles were meant for. -/
  files : ∀ p, w.Leads dir.names p → ∀ f : BundleFile,
    (alone r settings samples dir t a).2.KeptAt dir.names w (f.place p a) ∧
      (alone r settings samples dir t b).2.KeptAt dir.names w (f.place p b)

/-- Two messages of each class of both tasks. -/
def bothSamples : List Sample :=
  [⟨some "a", "ad", some "x"⟩, ⟨some "a", "ad", some "x"⟩, ⟨some "b", "normal", some "y"⟩,
    ⟨some "b", "normal", some "y"⟩]

/-- If the directory cannot be made either time, each of the tasks fails for its own reason. -/
theorem runTasks_unmade {first second : Trained} (ha : Trained.of a settings samples = .ok first)
    (hb : Trained.of b settings samples = .ok second) {f g : FileFault}
    (h : Refusing.change r (.makeDirectories dir) t = (.error f, u))
    (hagain : Refusing.change r (.makeDirectories dir) u = (.error g, v)) :
    Refusing.on t (runTasks (m := Refusing r) [a, b] settings samples dir) =
      ([(a, ⟨.error (.file f), first.warnings⟩), (b, ⟨.error (.file g), second.warnings⟩)], v) := by
  have hfirst := alone_unmade ha h
  have hsecond := alone_unmade hb hagain
  unfold alone at hfirst hsecond
  simp only [runTasks, Refusing.on_bind, hfirst, hsecond]
  rfl

/-- Without topics these are the samples of the small run. -/
theorem of_bothSamples : Trained.of .ad smallSettings bothSamples =
    Trained.of .ad smallSettings smallSamples := by
  refine Trained.of_congr ?_ rfl
  unfold Trained.encodeLabels
  rfl

theorem trained_ad : ∃ trained, Trained.of .ad smallSettings bothSamples = .ok trained := by
  have succeeding := smallRun_ok
  unfold smallRun at succeeding
  obtain ⟨report, h⟩ := succeeding
  obtain ⟨trained, -, htrained, -⟩ := run_ok h
  exact ⟨trained, of_bothSamples.trans htrained⟩

/-- The labels of the topics of these samples. -/
def bothTopics : Labels := ⟨["x", "y"], by decide, by decide⟩

set_option maxRecDepth 100000 in
theorem encodeLabels_bothSamples :
    Trained.encodeLabels .topic bothSamples = .ok (bothTopics, [0, 0, 1, 1]) := by
  decide +kernel

set_option maxRecDepth 100000 in
theorem isOk_topic : (Trained.of .topic smallSettings bothSamples).isOk = true := by
  unfold Trained.of Trained.ofSamples
  rw [encodeLabels_bothSamples]
  decide +kernel

theorem trained_topic : ∃ trained, Trained.of .topic smallSettings bothSamples = .ok trained :=
  ok_of_isOk isOk_topic

/-- A tree with a file where the way to a directory goes on. -/
def fileTree : Tree :=
  ⟨(∅ : Std.TreeMap Place Storage.Entry).insert ["f"] (.file [])⟩

/-- What the first making of a directory leaves there. -/
def partlyMade : Tree :=
  (Refusing.change .none (.makeDirectories (Path.ofText "a/../f/x")) fileTree).2

/-- At first the way cannot be made for the file on it, and then it cannot be gone for that file. -/
theorem change_fileTree :
    Refusing.change .none (.makeDirectories (Path.ofText "a/../f/x")) fileTree =
        (.error .alreadyExists, partlyMade) ∧
      Refusing.change .none (.makeDirectories (Path.ofText "a/../f/x")) partlyMade =
        (.error .notADirectory,
          (Refusing.change .none (.makeDirectories (Path.ofText "a/../f/x")) partlyMade).2) := by
  refine ⟨Prod.ext ?_ rfl, Prod.ext ?_ rfl⟩
  · decide +kernel
  · decide +kernel

end Triage
