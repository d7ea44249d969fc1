import QuantitySurvey.Proofs.Calculation.World

/-! # Batches, attempt by attempt

A recalculation evaluates all assemblies, replaces the stored quantities once, and settles the
attempts one by one. A `Trial` is what became of one assembly over all three passes.

* `play_attemptAll`: the evaluated assemblies are a prefix of the list, all of it without a stop.
* `play_settleAll`: the report and the ledger are read off one list of trials.
* `play_recalculate`: the four ways in which a recalculation ends.
-/

set_option autoImplicit false

namespace QuantitySurvey.Calculation

/-! ## Trials -/

/-- An assembly of a batch, what its attempt came to, and how the log took it. -/
structure Trial where
  assembly : Assembly
  /-- What the attempt came to; the quantity of a batch that was not stored is a failure. -/
  outcome : Except Failure Quantity
  /-- The record that was offered to the log. -/
  record : Audit.Record
  refusal : Option Failure

namespace Trial

def reported (t : Trial) : Except Failure Quantity := verdict t.outcome t.refusal

def created? (t : Trial) : Option Quantity := t.reported.toOption

def failure? (t : Trial) : Option BatchFailure :=
  match t.reported with
  | .ok _ => none
  | .error e => some ⟨t.assembly.id, t.assembly.code, e⟩

def isAccepted (t : Trial) : Bool := t.refusal.isNone

def offer (t : Trial) : Audit.Record × Option Failure := (t.record, t.refusal)

/-- The record is one of this attempt for an element. -/
def IsRecorded (settings : Settings) (element : Element) (actor : Actor) (t : Trial) : Prop :=
  ∃ start ticks, t.record = Engine.recordOf settings.engineVersion start ticks (some element)
    (some t.assembly) actor t.outcome

end Trial

/-- What an attempt comes to in a batch that may not have been stored. -/
def unlessLost : Option Failure → Except Failure Quantity → Except Failure Quantity
  | some e, .ok _ => .error e
  | _, outcome => outcome

@[simp] theorem unlessLost_none (outcome : Except Failure Quantity) :
    unlessLost none outcome = outcome := by
  cases outcome <;> rfl

@[simp] theorem unlessLost_error (lost : Option Failure) (f : Failure) :
    unlessLost lost (.error f) = .error f := by
  cases lost <;> rfl

@[simp] theorem unlessLost_ok (e : Failure) (q : Quantity) :
    unlessLost (some e) (.ok q) = .error e := rfl

/-- The trials are those of attempts of one batch, in the same order. -/
structure Settles (settings : Settings) (element : Element) (actor : Actor)
    (lost : Option Failure) (attempts : List Attempt) (trials : List Trial) : Prop where
  outcomes : trials.map (fun t => (t.assembly, t.outcome))
    = attempts.map (fun t => (t.assembly, unlessLost lost t.outcome))
  recorded : ∀ t ∈ trials, t.IsRecorded settings element actor

def Ledger.tried (l : Ledger) (trials : List Trial) : Ledger :=
  trials.foldl (fun l t => l.settled t.record t.outcome t.refusal) l

variable {σ : Type}

def World.tried (w : World σ) (trials : List Trial) (state : σ) : World σ where
  ledger := w.ledger.tried trials
  history :=
    { w.history with state := state, offers := w.history.offers ++ trials.map Trial.offer }

/-! ## The two loops -/

def idsOf (attempts : List Attempt) : List Identifier :=
  (Engine.successes attempts).map Quantity.id

section Loops

variable (c : Circumstances σ) (settings : Settings) (element : Element)

/-- The loop over the assemblies makes attempts for a prefix of them, and for all of them unless a
stop was asked for. -/
theorem play_attemptAll (assemblies : List Assembly) (made : List Attempt) (w : World σ) :
    ∃ stopped more state,
      play ((c.engine settings).attemptAll c.stopping element assemblies made) w
        = ((stopped, made.reverse ++ more), w.gave (idsOf more) state)
      ∧ (∀ t ∈ more, Yields settings (some element) (some t.assembly) t.outcome)
      ∧ more.map Attempt.assembly <+: assemblies
      ∧ (stopped = false → more.map Attempt.assembly = assemblies)
      ∧ (stopped = true → ∃ n s, (c.stop n s).1 = true) := by
  induction assemblies generalizing made w with
  | nil =>
    refine ⟨false, [], w.history.state, ?_, by simp, List.nil_prefix, fun _ => rfl, by simp⟩
    simp only [Engine.attemptAll, play_pure, idsOf, Engine.successes, List.filterMap_nil,
      List.map_nil, World.gave_nil, List.append_nil]
    rfl
  | cons a rest ih =>
    let stop := c.stop made.length w.history.state
    have hstop : play (c.stopping made.length) w = (stop.1, w.moved stop.2) := rfl
    simp only [Engine.attemptAll, play_bind, hstop]
    cases hs : stop.1 with
    | true =>
      refine ⟨true, [], stop.2, ?_, by simp, List.nil_prefix, by simp, fun _ => ⟨_, _, hs⟩⟩
      simp only [if_true, play_pure, idsOf, Engine.successes, List.filterMap_nil, List.map_nil,
        World.gave_nil, List.append_nil]
    | false =>
      obtain ⟨start, outcome, state, hyields, hattempt⟩ :=
        play_attempt c settings (w.moved stop.2) (some element) (some a)
      obtain ⟨stopped, more, state', hrun, hall, hsub, hwhole, hasked⟩ :=
        ih (⟨a, start, outcome⟩ :: made) ((w.moved stop.2).gave (newIds outcome) state)
      refine ⟨stopped, ⟨a, start, outcome⟩ :: more, state', ?_, ?_, ?_, ?_, hasked⟩
      · simp only [Bool.false_eq_true, if_false, play_bind, hattempt, hrun]
        cases outcome <;>
          simp [World.gave, World.moved, idsOf, Engine.successes, Except.toOption]
      · intro t ht
        rcases List.mem_cons.1 ht with rfl | ht
        · exact hyields
        · exact hall t ht
      · simpa using hsub
      · intro h
        rw [List.map_cons, hwhole h]

/-- The loop over the attempts settles the first one and goes on. -/
theorem settleAll_cons {m : Type → Type} [Monad m] (engine : Engine m) (actor : Actor)
    (lost : Option Failure) (t : Attempt) (rest : List Attempt) :
    engine.settleAll element actor lost (t :: rest) = do
      let settled ← engine.settle t.start (some element) (some t.assembly) actor
        (unlessLost lost t.outcome)
      let (created, failures) ← engine.settleAll element actor lost rest
      match settled with
      | .ok q => return (q :: created, failures)
      | .error e => return (created, ⟨t.assembly.id, t.assembly.code, e⟩ :: failures) := by
  obtain ⟨a, start, outcome⟩ := t
  cases lost <;> cases outcome <;> rfl

/-- The loop over the attempts settles each in turn: the report and the ledger come from one list
of trials, in the order of the attempts. -/
theorem play_settleAll (actor : Actor) (lost : Option Failure) (attempts : List Attempt)
    (w : World σ) :
    ∃ trials state,
      play ((c.engine settings).settleAll element actor lost attempts) w
        = ((trials.filterMap Trial.created?, trials.filterMap Trial.failure?),
          w.tried trials state)
      ∧ Settles settings element actor lost attempts trials := by
  induction attempts generalizing w with
  | nil =>
    refine ⟨[], w.history.state, ?_, rfl, by simp⟩
    simp only [Engine.settleAll, play_pure, World.tried, Ledger.tried]
    rw [List.map_nil, List.append_nil]
    rfl
  | cons t rest ih =>
    obtain ⟨ticks, refusal, state, hsettle⟩ := play_settle c settings w t.start (some element)
      (some t.assembly) actor (unlessLost lost t.outcome)
    let trial : Trial := ⟨t.assembly, unlessLost lost t.outcome,
      Engine.recordOf settings.engineVersion t.start ticks (some element) (some t.assembly) actor
        (unlessLost lost t.outcome), refusal⟩
    obtain ⟨trials, state', hrun, hmap, hall⟩ :=
      ih (w.settled trial.record trial.outcome refusal state)
    refine ⟨trial :: trials, state', ?_, ?_, ?_⟩
    · have hworld : (w.settled trial.record trial.outcome refusal state).tried trials state'
          = w.tried (trial :: trials) state' := by
        simp [World.settled, World.tried, Ledger.tried, Trial.offer, trial]
      simp only [settleAll_cons, play_bind, hsettle, ← hworld]
      rw [hrun]
      cases h : verdict (unlessLost lost t.outcome) refusal <;>
        simp [Trial.created?, Trial.failure?, Trial.reported, trial, h, Except.toOption]
    · rw [List.map_cons, List.map_cons, hmap]
    · intro u hu
      rcases List.mem_cons.1 hu with rfl | hu
      · exact ⟨_, _, rfl⟩
      · exact hall u hu

end Loops

/-! ## The batch -/

section Recalculation

variable (c : Circumstances σ) (settings : Settings) (element : Element) (catalog : Catalog)
  (actor : Actor) (w : World σ)

/-- The attempts of a batch, each for its assembly. -/
def AreAttempts (attempts : List Attempt) : Prop :=
  ∀ t ∈ attempts, Yields settings (some element) (some t.assembly) t.outcome

/-- The ways in which a recalculation ends: its outcome, and the world after it. -/
inductive Recalculated : Except Failure Report × World σ → Prop
  | unclassified (h : element.classification = none) :
      Recalculated (.error (.missingInput "classification"), w)
  | stopped (k : String) (attempts : List Attempt) (trials : List Trial) (given state : σ)
      (h : element.classification = some k) (attempted : AreAttempts settings element attempts)
      (sub : attempts.map Attempt.assembly <+: catalog.assembliesFor k)
      (asked : ∃ n s, (c.stop n s).1 = true)
      (settled : Settles settings element actor (some cancellation) attempts trials) :
      Recalculated (.ok ⟨element.id, [], trials.filterMap Trial.failure?, true⟩,
        (w.gave (idsOf attempts) given).tried trials state)
  | lost (k : String) (attempts : List Attempt) (trials : List Trial) (given state : σ)
      (f : Failure) (h : element.classification = some k)
      (attempted : AreAttempts settings element attempts)
      (whole : attempts.map Attempt.assembly = catalog.assembliesFor k)
      (fault : ∃ s, (c.replaceFault? element.id (Engine.successes attempts) s).1 = some f)
      (settled : Settles settings element actor (some f) attempts trials) :
      Recalculated (.error f, (w.gave (idsOf attempts) given).tried trials state)
  | replaced (k : String) (attempts : List Attempt) (trials : List Trial) (given state : σ)
      (h : element.classification = some k) (attempted : AreAttempts settings element attempts)
      (whole : attempts.map Attempt.assembly = catalog.assembliesFor k)
      (settled : Settles settings element actor none attempts trials) :
      Recalculated
        (.ok ⟨element.id, trials.filterMap Trial.created?, trials.filterMap Trial.failure?, false⟩,
          ({ w.gave (idsOf attempts) given with
            ledger := { w.ledger with
              store := w.ledger.store.set element.id (Engine.successes attempts) } }).tried
            trials state)

theorem successes_owner {attempts : List Attempt} (h : AreAttempts settings element attempts) :
    ∀ q ∈ Engine.successes attempts, q.elementId = element.id := by
  intro q hq
  obtain ⟨t, ht, hok⟩ := List.mem_filterMap.1 hq
  have hyields := h t ht
  rw [toOption_eq_some.1 hok] at hyields
  simpa using hyields.owner.1.symm

/-- A recalculation ends in one of four ways. -/
theorem play_recalculate :
    Recalculated c settings element catalog actor w
      (play ((c.engine settings).recalculate element catalog actor c.stopping) w) := by
  unfold Engine.recalculate
  cases hk : element.classification with
  | none => exact .unclassified hk
  | some k =>
    obtain ⟨stopped, attempts, given, hattempts, hyields, hsub, hwhole, hasked⟩ :=
      play_attemptAll c settings element (catalog.assembliesFor k) [] w
    simp only [List.reverse_nil, List.nil_append] at hattempts
    simp only [play_bind, hattempts]
    cases stopped with
    | true =>
      obtain ⟨trials, state, hrun, hsettles⟩ := play_settleAll c settings element actor
        (some cancellation) attempts (w.gave (idsOf attempts) given)
      simp only [if_true, play_bind, play_pure, hrun]
      exact .stopped k attempts trials given state hk hyields hsub (hasked rfl) hsettles
    | false =>
      simp only [Bool.false_eq_true, if_false, play_bind]
      obtain ⟨f, moved, hfault, hrep⟩ | ⟨moved, hrep⟩ := play_replaceFor c settings
        (w.gave (idsOf attempts) given) element.id (Engine.successes attempts)
        (successes_owner settings element hyields)
      · obtain ⟨trials, state, hrun, hsettles⟩ := play_settleAll c settings element actor (some f)
          attempts ((w.gave (idsOf attempts) given).moved moved)
        simp only [hrep, play_bind, play_pure, hrun]
        exact .lost k attempts trials moved state f hk hyields (hwhole rfl) hfault hsettles
      · obtain ⟨trials, state, hrun, hsettles⟩ := play_settleAll c settings element actor none
          attempts { (w.gave (idsOf attempts) given).moved moved with
            ledger := { w.ledger with
              store := w.ledger.store.set element.id (Engine.successes attempts) } }
        have hledger : (w.gave (idsOf attempts) given).ledger = w.ledger := rfl
        simp only [hrep, play_bind, play_pure, hledger, hrun]
        exact .replaced k attempts trials moved state hk hyields (hwhole rfl) hsettles

end Recalculation

end QuantitySurvey.Calculation
