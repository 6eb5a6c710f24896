import FlvMeta.Base.Loop

/-!
# Loops in lockstep

Two loops over one input, with states and results of their own. As long as related states are taken
to related states and the input is moved alike, both loops see the same items. The second loop may
also stop where the first goes on: `Ahead` then relates the state of the first to the result of the
second for the rest of the run (`Lockstep.loop`).
-/

namespace Loop

variable {State State' Input Item Result Result' : Type}

/-! ## One loop -/

/-- What holds of the state at the end of a loop, or of the result of the turn that stopped it. -/
def End.Holds (I : State → Prop) (P : Result → Prop) : End State Result → Prop
  | finished st => I st
  | noItem st => I st
  | stopped result => P result

/-- What every turn keeps holds at the end, and what it gives when it stops holds of the result. -/
theorem loop_keeps {goesOn : Input → Bool} {fetch : Input → Option Item × Input}
    {turn : Item → State → Input → Turn State Result × Input} {I : State → Prop}
    {P : Result → Prop}
    (hnext : ∀ {item st st' input input'}, I st → turn item st input = (.next st', input') → I st')
    (hstop : ∀ {item st result input input'}, I st → turn item st input = (.stop result, input') →
      P result)
    {fuel : Nat} {st : State} {input input' : Input} {e : End State Result} (hst : I st)
    (h : loop goesOn fetch turn fuel st input = some (e, input')) : e.Holds I P := by
  induction fuel generalizing st input with
  | zero => cases h
  | succ fuel ih =>
    rw [loop] at h
    split at h
    · cases hfetch : fetch input with
      | mk item input₁ =>
        rw [hfetch] at h
        cases item with
        | none =>
          cases h
          exact hst
        | some item =>
          dsimp only at h
          cases hturn : turn item st input₁ with
          | mk t input₂ =>
            rw [hturn] at h
            cases t with
            | stop result =>
              cases h
              exact hstop hst hturn
            | next st₁ => exact ih (hnext hst hturn) h
    · cases h
      exact hst

/-! ## Two loops -/

/-- The first loop, which may still be running, is past the result of the second. -/
def Turn.Ahead (Ahead : State → Result' → Prop) (S : Result → Result' → Prop) (r' : Result') :
    Turn State Result → Prop
  | next st => Ahead st r'
  | stop r => S r r'

/-- Two turns on the same item, with the inputs that they leave. -/
inductive Turn.Related (R : State → State' → Prop) (Ahead : State → Result' → Prop)
    (S : Result → Result' → Prop) :
    Turn State Result × Input → Turn State' Result' × Input → Prop
  | next {st : State} {st' : State'} (input : Input) (h : R st st') :
    Turn.Related R Ahead S (.next st, input) (.next st', input)
  | stop {turn : Turn State Result} {r' : Result'} (input input' : Input)
    (h : turn.Ahead Ahead S r') : Turn.Related R Ahead S (turn, input) (.stop r', input')

/-- Two ends of a loop, with the inputs that are left. -/
inductive End.Related (R : State → State' → Prop) (Ahead : State → Result' → Prop)
    (S : Result → Result' → Prop) :
    End State Result × Input → End State' Result' × Input → Prop
  | finished {st : State} {st' : State'} (input : Input) (h : R st st') :
    End.Related R Ahead S (.finished st, input) (.finished st', input)
  | noItem {st : State} {st' : State'} (input : Input) (h : R st st') :
    End.Related R Ahead S (.noItem st, input) (.noItem st', input)
  | stopped {r : Result} {r' : Result'} (input input' : Input) (h : S r r') :
    End.Related R Ahead S (.stopped r, input) (.stopped r', input')
  | ahead {e : End State Result} {st : State} {r' : Result'} (input input' : Input)
    (he : e.state? = some st) (h : Ahead st r') :
    End.Related R Ahead S (e, input) (.stopped r', input')

/-- The turns of two loops keep the relations. -/
structure Lockstep (turn : Item → State → Input → Turn State Result × Input)
    (turn' : Item → State' → Input → Turn State' Result' × Input) (R : State → State' → Prop)
    (Ahead : State → Result' → Prop) (S : Result → Result' → Prop) : Prop where
  step : ∀ item {st st'} input, R st st' →
    Turn.Related R Ahead S (turn item st input) (turn' item st' input)
  ahead : ∀ item {st r'} input, Ahead st r' → (turn item st input).1.Ahead Ahead S r'

namespace Lockstep

variable {goesOn : Input → Bool} {fetch : Input → Option Item × Input}
  {turn : Item → State → Input → Turn State Result × Input}
  {turn' : Item → State' → Input → Turn State' Result' × Input} {R : State → State' → Prop}
  {Ahead : State → Result' → Prop} {S : Result → Result' → Prop}

/-- After the second loop has stopped the first one stays ahead. -/
theorem loop_ahead (h : Lockstep turn turn' R Ahead S) {r' : Result'} (input' : Input) {fuel : Nat}
    {st : State} {input : Input} {e : End State Result × Input} (hahead : Ahead st r')
    (hloop : loop goesOn fetch turn fuel st input = some e) :
    End.Related R Ahead S e (.stopped r', input') := by
  induction fuel generalizing st input with
  | zero => cases hloop
  | succ fuel ih =>
    rw [Loop.loop] at hloop
    split at hloop
    · cases hfetch : fetch input with
      | mk item input₁ =>
        rw [hfetch] at hloop
        cases item with
        | none =>
          cases hloop
          exact .ahead _ _ rfl hahead
        | some item =>
          have hturn := h.ahead item input₁ hahead
          dsimp only at hloop
          generalize turn item st input₁ = t at hloop hturn
          obtain ⟨t, input₂⟩ := t
          cases t with
          | stop r =>
            cases hloop
            exact .stopped _ _ hturn
          | next st₁ => exact ih hturn hloop
    · cases hloop
      exact .ahead _ _ rfl hahead

/-- Loops in lockstep end alike, or the second one has stopped and the first one is ahead. -/
theorem loop (h : Lockstep turn turn' R Ahead S) {fuel : Nat} {st : State} {st' : State'}
    {input : Input} {e : End State Result × Input} (hR : R st st')
    (hloop : loop goesOn fetch turn fuel st input = some e) :
    ∃ e', Loop.loop goesOn fetch turn' fuel st' input = some e' ∧ End.Related R Ahead S e e' := by
  induction fuel generalizing st st' input with
  | zero => cases hloop
  | succ fuel ih =>
    rw [Loop.loop] at hloop ⊢
    split at hloop
    · rename_i hgoes
      rw [if_pos hgoes]
      cases hfetch : fetch input with
      | mk item input₁ =>
        rw [hfetch] at hloop
        cases item with
        | none =>
          cases hloop
          exact ⟨_, rfl, .noItem input₁ hR⟩
        | some item =>
          have hturn := h.step item input₁ hR
          dsimp only at hloop ⊢
          generalize turn item st input₁ = t at hloop hturn
          generalize turn' item st' input₁ = t' at hturn ⊢
          cases hturn with
          | next input₂ hR₁ => exact ih hR₁ hloop
          | @stop t _ input₂ input₃ hahead =>
            refine ⟨_, rfl, ?_⟩
            cases t with
            | next st₁ => exact h.loop_ahead input₃ hahead hloop
            | stop r =>
              cases hloop
              exact .stopped _ _ hahead
    · rename_i hgoes
      rw [if_neg hgoes]
      cases hloop
      exact ⟨_, rfl, .finished input hR⟩

end Lockstep

end Loop
