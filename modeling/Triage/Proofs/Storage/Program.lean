/-
Programs written down. What is written for any machine can be kept as the tree of the operations it
asks for and carried out on a machine later, which comes to the same as writing it for that machine
at once. Two programs that run side by side are one program, in which operations of both take turns
as a schedule says.
-/
import Triage.Proofs.Storage.Machine

namespace Triage.Storage

/-! ## Operations -/

/-- What is asked of a machine. -/
inductive Operation where
  | read (p : Path)
  | change (c : Change)
  | makeFresh (dir : Path) (start : String)
  | clock

namespace Operation

/-- What a machine answers. -/
def Answer : Operation → Type
  | .read _ => Except FileFault (List UInt8)
  | .change _ => Except FileFault Unit
  | .makeFresh _ _ => Except FileFault Path
  | .clock => Float

/-- Asks a machine. -/
def ask {m : Type → Type} [Host m] : (op : Operation) → m op.Answer
  | .read p => Host.read p
  | .change c => Host.change c
  | .makeFresh dir start => Host.makeFresh dir start
  | .clock => Host.clock

end Operation

/-! ## Programs -/

/-- What is asked of a machine one after the other, given its answers. -/
inductive Program (α : Type) : Type where
  | done (a : α)
  | ask (op : Operation) (next : op.Answer → Program α)

namespace Program

variable {α β γ : Type}

/-- One program after another. -/
def bind : Program α → (α → Program β) → Program β
  | .done a, f => f a
  | .ask op next, f => .ask op fun x => (next x).bind f

instance : Monad Program where
  pure := .done
  bind := bind

instance : Host Program where
  read p := .ask (.read p) .done
  change c := .ask (.change c) .done
  makeFresh dir start := .ask (.makeFresh dir start) .done
  clock := .ask .clock .done

/-- Carries out a program on a machine. -/
def perform {m : Type → Type} [Monad m] [Host m] : Program α → m α
  | .done a => pure a
  | .ask op next => op.ask >>= fun x => (next x).perform

section

variable {m : Type → Type} [Monad m] [LawfulMonad m] [Host m]

theorem perform_bind (x : Program α) (f : α → Program β) :
    (x >>= f).perform = (x.perform >>= fun a => (f a).perform : m β) := by
  induction x with
  | done a =>
    show (f a).perform = (pure a >>= fun a => (f a).perform : m β)
    rw [pure_bind]
  | ask op next ih =>
    show (op.ask >>= fun x => ((next x).bind f).perform : m β) =
      (op.ask >>= fun x => (next x).perform) >>= fun a => (f a).perform
    rw [bind_assoc]
    exact congrArg _ (funext ih)

theorem perform_change (c : Change) : (Host.change c : Program _).perform = (Host.change c : m _) :=
  bind_pure _

theorem perform_makeFresh (dir : Path) (start : String) :
    (Host.makeFresh dir start : Program _).perform = (Host.makeFresh dir start : m _) :=
  bind_pure _

theorem perform_clock : (Host.clock : Program _).perform = (Host.clock : m _) :=
  bind_pure _

end

/-! ## Side by side -/

/-- Goes on with what is left of a program after its next operation. -/
def advance : Program α → (Program α → Program γ) → Program γ
  | .done a, go => go (.done a)
  | .ask op next, go => .ask op fun x => go (next x)

/-- Two programs side by side. The schedule says whose turn it is; when it ends, what is left of the
first one is carried out before what is left of the second. -/
def interleave : List Bool → Program α → Program β → Program (α × β)
  | [], x, y => do
    let a ← x
    let b ← y
    pure (a, b)
  | true :: rest, x, y => x.advance fun x => interleave rest x y
  | false :: rest, x, y => y.advance fun y => interleave rest x y

end Program

/-! ## Machines with a clock -/

/-- What a machine does whose clock shows given times, one at each reading. -/
def Clocked (_ : Refusals) (_ : Nat → Float) (α : Type) : Type := StateM (Nat × Tree) α

namespace Clocked

variable {r : Refusals} {time : Nat → Float} {α β : Type}

instance : Monad (Clocked r time) := inferInstanceAs (Monad (StateM (Nat × Tree)))

instance : LawfulMonad (Clocked r time) := inferInstanceAs (LawfulMonad (StateM (Nat × Tree)))

/-- An operation during which the clock is not read. -/
def unread {α : Type} (op : Tree → α × Tree) (s : Nat × Tree) : α × Nat × Tree :=
  ((op s.2).1, s.1, (op s.2).2)

instance : Host (Clocked r time) where
  read p := unread fun t => (t.read p, t)
  change c := unread (Refusing.change r c)
  makeFresh dir start := unread (Refusing.makeFresh r dir start)
  clock := fun s => (time s.1, s.1 + 1, s.2)

/-- How something ends on a machine whose clock was read `n` times, with the files it leaves. -/
def on (n : Nat) (t : Tree) (x : Clocked r time α) : α × Nat × Tree := x (n, t)

theorem on_pure (n : Nat) (t : Tree) (a : α) : on n t (pure a : Clocked r time α) = (a, n, t) := rfl

theorem on_bind (n : Nat) (t : Tree) (x : Clocked r time α) (f : α → Clocked r time β) :
    on n t (x >>= f) = on (on n t x).2.1 (on n t x).2.2 (f (on n t x).1) := rfl

end Clocked

namespace Operation

/-- What an operation does to files on a machine that refuses some changes and has no clock. -/
def on (r : Refusals) (op : Operation) (t : Tree) : op.Answer × Tree :=
  Refusing.on t (op.ask : Refusing r op.Answer)

theorem clocked_ask {r : Refusals} {time : Nat → Float} {op : Operation} (h : op ≠ .clock)
    (n : Nat) (t : Tree) : Clocked.on n t (op.ask : Clocked r time op.Answer) =
      ((op.on r t).1, n, (op.on r t).2) := by
  cases op with
  | clock => exact absurd rfl h
  | _ => rfl

end Operation

instance {r : Refusals} : LawfulMonad (Refusing r) := inferInstanceAs (LawfulMonad (StateM Tree))

/-- A machine without a clock is one whose clock stands still. -/
theorem Program.clocked_perform {r : Refusals} {α : Type} (x : Program α) (n : Nat) (t : Tree) :
    ∃ k, Clocked.on n t (x.perform : Clocked r (fun _ => 0) α) =
      ((Refusing.on t (x.perform : Refusing r α)).1, k,
        (Refusing.on t (x.perform : Refusing r α)).2) := by
  induction x generalizing n t with
  | done a => exact ⟨n, rfl⟩
  | ask op next ih =>
    by_cases h : op = .clock
    · subst h
      exact ih (0 : Float) (n + 1) t
    · obtain ⟨k, hk⟩ := ih (op.on r t).1 n (op.on r t).2
      refine ⟨k, ?_⟩
      show Clocked.on n t (op.ask >>= _) = _
      rw [Clocked.on_bind, Operation.clocked_ask h]
      exact hk

end Triage.Storage
