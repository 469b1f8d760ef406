/-
Moves of layers among the tables of a training. The means of the gradients stand in one list and the
means of their squares in another, two places for each layer, and parameters are moved one at a time,
each with its entry in the gradient and in both means. No entry and no place is missing, and the
layers become what a move of each as a whole makes of them: an entry that is moved is asked for before
any of its arrays has changed there, and the two places of a layer are its own.
-/
import Triage.Proofs.Training.Shapes

namespace Triage.Training

/-! ## Parameters one at a time -/

/-- Moves parameter number `k`, unless something it is moved by is not there. -/
def Moving.moveAt? (rate : Float32) (step : Nat) (gradient : Singles) (p : Moving) (k : Nat) :
    Option Moving := do
  let g ← gradient[k]?
  let m ← p.means[k]?
  let v ← p.squares[k]?
  let w ← p.values[k]?
  let m := nextMean m g
  let v := nextSquare v g
  let meanPart := 1 - power meanDecay step
  let squarePart := 1 - power squareDecay step
  let w := w - rate * (m / meanPart) / ((v / squarePart).sqrt + smallest)
  pure ⟨p.values.setIfInBounds k w, p.means.setIfInBounds k m, p.squares.setIfInBounds k v⟩

/-- Moves parameters from the first to the last. -/
def Moving.move? (rate : Float32) (step : Nat) (gradient : Singles) (p : Moving) : Option Moving :=
  (List.range p.values.size).foldlM (moveAt? rate step gradient) p

/-- An array that was replaced by another up to a place. -/
def replaced (k : Nat) (new old : Singles) : Singles :=
  old.mapIdx fun i x => if i < k then new.getD i x else x

section

variable {k : Nat} {new old : Singles}

theorem replaced_zero : replaced 0 new old = old :=
  Array.ext (by simp [replaced]) fun i _ _ => by simp [replaced]

theorem replaced_all (h : new.size = old.size) : replaced old.size new old = new :=
  Array.ext (by simp [replaced, h]) fun i hi hnew => by
    have hold : i < old.size := h ▸ hnew
    simp [replaced, hold, hnew]

theorem getElem?_replaced : (replaced k new old)[k]? = old[k]? := by
  simp [replaced]

theorem replaced_succ (hk : k < new.size) :
    (replaced k new old).setIfInBounds k new[k] = replaced (k + 1) new old := by
  refine Array.ext (by simp [replaced]) fun i hi _ => ?_
  rw [Array.getElem_setIfInBounds (by simpa using hi)]
  rcases Nat.lt_trichotomy i k with hlt | rfl | hgt
  · simp [replaced, hlt.ne', hlt, hlt.le]
  · simp [replaced, hk]
  · simp [replaced, hgt.ne, Nat.not_lt.2 hgt.le, Nat.not_le.2 hgt]

end

/-- No entry is missing for a gradient as long as the parameters. -/
theorem Moving.Sized.move?_eq {p : Moving} {n : Nat} (h : p.Sized n) (rate : Float32) (step : Nat)
    {gradient : Singles} (hg : gradient.size = n) :
    p.move? rate step gradient = some (p.move rate step gradient) := by
  have hnew := h.move rate step hg
  generalize hq : p.move rate step gradient = q at hnew
  have hupto (k : Nat) (hk : k ≤ n) : (List.range k).foldlM (moveAt? rate step gradient) p =
      some ⟨replaced k q.values p.values, replaced k q.means p.means,
        replaced k q.squares p.squares⟩ := by
    induction k with
    | zero =>
      simp only [replaced_zero]
      rfl
    | succ k ih =>
      have hv : k < p.values.size := h.values ▸ hk
      have hm : k < p.means.size := h.means ▸ hk
      have hs : k < p.squares.size := h.squares ▸ hk
      have hgk : k < gradient.size := hg ▸ hk
      rw [List.range_succ, List.foldlM_append, ih (Nat.le_of_succ_le hk), Option.bind_eq_bind,
        Option.bind_some, ← replaced_succ (hnew.values ▸ hk), ← replaced_succ (hnew.means ▸ hk),
        ← replaced_succ (hnew.squares ▸ hk)]
      subst hq
      simp [moveAt?, getElem?_replaced, hv, hm, hs, hgk, Moving.move]
  rw [move?, h.values, hupto n (Nat.le_refl n)]
  have hvalues := replaced_all (hnew.values.trans h.values.symm)
  have hmeans := replaced_all (hnew.means.trans h.means.symm)
  have hsquares := replaced_all (hnew.squares.trans h.squares.symm)
  rw [h.values] at hvalues
  rw [h.means] at hmeans
  rw [h.squares] at hsquares
  rw [hvalues, hmeans, hsquares]

/-! ## Layers one after the other -/

/-- The means of all parameters: the weights of layer number `l` have place `2 * l`, its biases the
one after that. -/
structure Memory where
  means : List Singles
  squares : List Singles

/-- Moves the parameters whose means have a place, unless there is no such place. -/
def Memory.update? (rate : Float32) (step : Nat) (t : Memory) (place : Nat)
    (values gradient : Singles) : Option (Singles × Memory) := do
  let m ← t.means[place]?
  let v ← t.squares[place]?
  let p ← Moving.move? rate step gradient ⟨values, m, v⟩
  pure (p.values, ⟨t.means.set place p.means, t.squares.set place p.squares⟩)

/-- Moves layers, the first of which has number `l`. -/
def moveFrom? (rate : Float32) (step : Nat) (gs : List Gradient) (l : Nat) (t : Memory) :
    List Layer → Option (List Layer × Memory)
  | [] => some ([], t)
  | layer :: rest => do
    let g ← gs[l]?
    let (w, t) ← t.update? rate step (2 * l) layer.weights g.weights
    let (b, t) ← t.update? rate step (2 * l + 1) layer.bias g.bias
    let (rest, t) ← moveFrom? rate step gs (l + 1) t rest
    pure ({ layer with weights := w, bias := b } :: rest, t)

/-- What is kept of each layer's two parts. -/
def places (part : Moving → Singles) (ls : List MovingLayer) : List Singles :=
  ls.flatMap fun l => [part l.weights, part l.bias]

/-- The means that layers under training have. -/
def memoryOf (ls : List MovingLayer) : Memory :=
  ⟨places Moving.means ls, places Moving.squares ls⟩

section

variable {part : Moving → Singles} {before after : List MovingLayer}

theorem length_places : (places part before).length = 2 * before.length := by
  induction before with
  | nil => rfl
  | cons l rest ih =>
    simp only [places, List.flatMap_cons, List.length_append, List.length_cons, List.length_nil]
      at ih ⊢
    omega

theorem places_append (l : MovingLayer) : places part (before ++ l :: after) =
    places part before ++ part l.weights :: part l.bias :: places part after := by
  simp [places]

end

/-- No place of a layer is missing, and no other is changed. -/
theorem Memory.update?_eq {means squares : List Singles} {place : Nat} {p : Moving} {n : Nat}
    (hp : p.Sized n) (rate : Float32) (step : Nat) {gradient : Singles} (hg : gradient.size = n)
    (hm : means[place]? = some p.means) (hs : squares[place]? = some p.squares) :
    Memory.update? rate step ⟨means, squares⟩ place p.values gradient =
      some ((p.move rate step gradient).values,
        ⟨means.set place (p.move rate step gradient).means,
          squares.set place (p.move rate step gradient).squares⟩) := by
  rw [Memory.update?, hm, hs]
  simp only [Option.bind_eq_bind, Option.bind_some]
  rw [show Moving.move? rate step gradient ⟨p.values, p.means, p.squares⟩ =
    some (p.move rate step gradient) from hp.move?_eq rate step hg]
  rfl

/-- A layer is moved with the means at its two places. -/
theorem moveFrom?_cons {l : MovingLayer} {g : Gradient} {gs : List Gradient} (rate : Float32)
    (step : Nat) (hl : l.Sized) (hg : g.Fits l.current) (before after : List MovingLayer)
    (hget : gs[before.length]? = some g) (rest : List Layer) :
    moveFrom? rate step gs before.length (memoryOf (before ++ l :: after)) (l.current :: rest) =
      (moveFrom? rate step gs (before.length + 1)
        (memoryOf (before ++ l.move rate step g :: after)) rest).map
          fun (ls, t) => ((l.move rate step g).current :: ls, t) := by
  have hmeans : (places Moving.means before).length = 2 * before.length := length_places
  have hsquares : (places Moving.squares before).length = 2 * before.length := length_places
  have hweights : (memoryOf (before ++ l :: after)).update? rate step (2 * before.length)
      l.weights.values g.weights = some ((l.weights.move rate step g.weights).values,
        memoryOf (before ++ { l with weights := l.weights.move rate step g.weights } :: after)) := by
    refine (Memory.update?_eq hl.weights rate step hg.weights
      (by simp [places_append, ← hmeans]) (by simp [places_append, ← hsquares])).trans ?_
    simp [memoryOf, places_append, ← hmeans, hsquares.trans hmeans.symm]
  -- When the biases are moved, the weights have moved already.
  have hbias : (memoryOf (before ++
      { l with weights := l.weights.move rate step g.weights } :: after)).update? rate step
        (2 * before.length + 1) l.bias.values g.bias =
      some ((l.bias.move rate step g.bias).values,
        memoryOf (before ++ l.move rate step g :: after)) := by
    refine (Memory.update?_eq hl.bias rate step hg.bias
      (by simp [places_append, ← hmeans]) (by simp [places_append, ← hsquares])).trans ?_
    simp [memoryOf, places_append, ← hmeans, hsquares.trans hmeans.symm, MovingLayer.move]
  rw [moveFrom?, hget]
  simp only [Option.bind_eq_bind, Option.bind_some]
  rw [show l.current.weights = l.weights.values from rfl, hweights]
  simp only [Option.bind_some]
  rw [show l.current.bias = l.bias.values from rfl, hbias, Option.map_eq_bind]
  rfl

/-- Layers moved one after the other are moved each by itself. Those that were moved already keep
their places before the others, so the induction is on those to come. -/
theorem moveFrom?_eq {ls : List MovingLayer} {gs : List Gradient} (rate : Float32) (step : Nat)
    (hs : ∀ l ∈ ls, l.Sized) (hfits : List.Forall₂ Gradient.Fits gs (ls.map MovingLayer.current))
    (before : List MovingLayer) (front : List Gradient) (hb : front.length = before.length) :
    moveFrom? rate step (front ++ gs) before.length (memoryOf (before ++ ls))
        (ls.map MovingLayer.current) =
      some ((ls.zipWith (MovingLayer.move rate step) gs).map MovingLayer.current,
        memoryOf (before ++ ls.zipWith (MovingLayer.move rate step) gs)) := by
  induction ls generalizing gs before front with
  | nil => simp [moveFrom?]
  | cons l ls ih =>
    obtain ⟨g, gs, hg, hgs, rfl⟩ := List.forall₂_cons_right_iff.1 hfits
    obtain ⟨hl, hrest⟩ := List.forall_mem_cons.1 hs
    have hget : (front ++ g :: gs)[before.length]? = some g := by simp [← hb]
    have hnext := ih hrest hgs (before ++ [l.move rate step g]) (front ++ [g]) (by simp [hb])
    rw [List.map_cons, moveFrom?_cons rate step hl hg before ls hget]
    simp only [List.append_assoc, List.singleton_append, List.length_append,
      List.length_singleton] at hnext
    rw [hnext]
    rfl

end Triage.Training
