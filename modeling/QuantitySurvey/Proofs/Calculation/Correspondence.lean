import QuantitySurvey.Proofs.Calculation.World

/-! # Engines that work alike

The engine is the same in every monad, so what is known of it in one can be carried over to another.
A `Correspondence` relates computations of two monads and is kept when they are put together. If the
operations of two engines correspond, then so does everything that the engines do.

* `AlikeInParts.attempt`, `AlikeInParts.settle`: the parts of a calculation.
* `AlikeInParts.calculate`, `Alike.recalculate`: the whole.
-/

set_option autoImplicit false

namespace QuantitySurvey.Calculation

/-- A relation between computations of two monads that goes along with putting them together. -/
structure Correspondence (m n : Type → Type) [Monad m] [Monad n] where
  Holds : {α : Type} → m α → n α → Prop
  pure : ∀ {α : Type} (a : α), Holds (pure a) (pure a)
  bind : ∀ {α β : Type} {x : m α} {y : n α} {f : α → m β} {g : α → n β},
    Holds x y → (∀ a, Holds (f a) (g a)) → Holds (x >>= f) (y >>= g)

variable {m n : Type → Type} [Monad m] [Monad n] {R : Correspondence m n}

/-- Two engines have the same settings and corresponding operations, but for the replacement of all
quantities of an element. -/
structure AlikeInParts (R : Correspondence m n) (engine : Engine m) (other : Engine n) : Prop where
  settings : engine.settings = other.settings
  now : R.Holds engine.surroundings.now other.surroundings.now
  ticks : R.Holds engine.surroundings.ticks other.surroundings.ticks
  freshId : R.Holds engine.surroundings.freshId other.surroundings.freshId
  record : ∀ r, R.Holds (engine.recorder.record r) (other.recorder.record r)
  insert : ∀ q, R.Holds (engine.keeper.insert q) (other.keeper.insert q)
  remove : ∀ e id, R.Holds (engine.keeper.remove e id) (other.keeper.remove e id)

/-- Two engines have the same settings and corresponding operations. -/
structure Alike (R : Correspondence m n) (engine : Engine m) (other : Engine n) : Prop
    extends AlikeInParts R engine other where
  replaceFor : ∀ e qs, R.Holds (engine.keeper.replaceFor e qs) (other.keeper.replaceFor e qs)

variable {engine : Engine m} {other : Engine n}

namespace AlikeInParts

variable (h : AlikeInParts R engine other)
include h

/-! ## The parts of a calculation -/

theorem attempt (e : Option Element) (a : Option Assembly) :
    R.Holds (engine.attempt e a) (other.attempt e a) := by
  refine R.bind h.now fun instant => R.bind h.ticks fun ticks => ?_
  rw [h.settings]
  cases compute other.settings e a with
  | error f => exact R.pure _
  | ok r => exact R.bind h.now fun calculatedAt => R.bind h.freshId fun id => R.pure _

theorem settle (start : Start) (e : Option Element) (a : Option Assembly) (actor : Actor)
    (outcome : Except Failure Quantity) :
    R.Holds (engine.settle start e a actor outcome) (other.settle start e a actor outcome) := by
  refine R.bind h.ticks fun ticks => ?_
  rw [h.settings]
  refine R.bind (h.record _) fun recorded => ?_
  cases recorded with
  | ok k => exact R.pure _
  | error refusal =>
    cases outcome with
    | error f => exact R.pure _
    | ok q => exact R.bind (h.remove q.elementId q.id) fun _ => R.pure _

theorem calculate (e : Option Element) (a : Option Assembly) (actor : Actor) :
    R.Holds (engine.calculate e a actor) (other.calculate e a actor) := by
  refine R.bind (h.attempt e a) fun r => ?_
  obtain ⟨start, outcome⟩ := r
  cases outcome with
  | error f => exact h.settle start e a actor (.error f)
  | ok q =>
    refine R.bind (h.insert q) fun stored => ?_
    cases stored with
    | ok _ => exact h.settle start e a actor (.ok q)
    | error f => exact h.settle start e a actor (.error f)

/-! ## All quantities of an element -/

theorem attemptAll {stop : Nat → m Bool} {stop' : Nat → n Bool}
    (hstop : ∀ k, R.Holds (stop k) (stop' k)) (element : Element) (assemblies : List Assembly)
    (made : List Attempt) :
    R.Holds (engine.attemptAll stop element assemblies made)
      (other.attemptAll stop' element assemblies made) := by
  induction assemblies generalizing made with
  | nil => exact R.pure _
  | cons a rest ih =>
    refine R.bind (hstop made.length) fun stops => ?_
    cases stops with
    | true => exact R.pure _
    | false => exact R.bind (h.attempt (some element) (some a)) fun r => ih _

theorem settleAll (element : Element) (actor : Actor) (notStored : Option Failure)
    (attempts : List Attempt) :
    R.Holds (engine.settleAll element actor notStored attempts)
      (other.settleAll element actor notStored attempts) := by
  induction attempts with
  | nil => exact R.pure _
  | cons t rest ih =>
    refine R.bind (h.settle _ _ _ _ _) fun settled => R.bind ih fun r => ?_
    cases settled with
    | ok q => exact R.pure _
    | error f => exact R.pure _

end AlikeInParts

theorem Alike.recalculate (h : Alike R engine other) {stop : Nat → m Bool} {stop' : Nat → n Bool}
    (hstop : ∀ k, R.Holds (stop k) (stop' k)) (element : Element) (catalog : Catalog)
    (actor : Actor) :
    R.Holds (engine.recalculate element catalog actor stop)
      (other.recalculate element catalog actor stop') := by
  unfold Engine.recalculate
  cases element.classification with
  | none => exact R.pure _
  | some classification =>
    refine R.bind (h.attemptAll hstop element _ []) fun r => ?_
    obtain ⟨stopped, attempts⟩ := r
    cases stopped with
    | true => exact R.bind (h.settleAll element actor _ attempts) fun _ => R.pure _
    | false =>
      refine R.bind (h.replaceFor _ _) fun replaced => ?_
      cases replaced with
      | ok _ => exact R.bind (h.settleAll element actor none attempts) fun _ => R.pure _
      | error f => exact R.bind (h.settleAll element actor _ attempts) fun _ => R.pure _

end QuantitySurvey.Calculation
