import Mathlib.Algebra.Order.Ring.Nat
import Mathlib.Data.List.Basic

/-!
# Loops over an input

A loop fetches an item from an input and takes a turn on it, which may read more of the input,
until the loop is not to go on, there is no item, or a turn stops it. It is written by recursion
on a fuel. `Advances` says that every turn leaves the input behind the item it was taken on,
by a key of the input that is bounded. Then the keys of the items increase (`pairwise_keys`) and
the bound is enough fuel (`loop_isSome`).
-/

namespace Loop

variable {State Input Item Result : Type}

/-- How a turn ends. -/
inductive Turn (State Result : Type) where
  | next (st : State)
  | stop (result : Result)

/-- How a loop ends. -/
inductive End (State Result : Type) where
  | finished (st : State)
  | noItem (st : State)
  | stopped (result : Result)

section

variable (goesOn : Input → Bool) (fetch : Input → Option Item × Input)
  (turn : Item → State → Input → Turn State Result × Input)

def loop : Nat → State → Input → Option (End State Result × Input)
  | 0, _, _ => none
  | fuel + 1, st, input =>
    if goesOn input then
      match fetch input with
      | (none, input) => some (.noItem st, input)
      | (some item, input) =>
        match turn item st input with
        | (.stop result, input) => some (.stopped result, input)
        | (.next st, input) => loop fuel st input
    else some (.finished st, input)

/-- The items on which a turn is taken, each with the state and the input at its start. -/
def visits : Nat → State → Input → List (Item × State × Input)
  | 0, _, _ => []
  | fuel + 1, st, input =>
    if goesOn input then
      match fetch input with
      | (none, _) => []
      | (some item, input) =>
        (item, st, input) ::
          match turn item st input with
          | (.stop _, _) => []
          | (.next st, input) => visits fuel st input
    else []

/-- `Behind p input` says that the next item has a key of at least `p`. -/
structure Advances (key : Input → Nat) (bound : Nat) (Behind : Nat → Input → Prop) : Prop where
  inside : ∀ {p input item input'}, Behind p input → fetch input = (some item, input') →
    p ≤ key input' ∧ key input' < bound
  behind : ∀ {p input item input' st st' input''}, Behind p input →
    fetch input = (some item, input') → turn item st input' = (.next st', input'') →
    Behind (key input' + 1) input''

variable {goesOn fetch turn}

theorem loop_isSome {key : Input → Nat} {bound : Nat} {Behind : Nat → Input → Prop}
    (h : Advances fetch turn key bound Behind) {fuel p : Nat} {st : State} {input : Input}
    (hp : Behind p input) (hle : p ≤ bound) (hfuel : bound < fuel + p) :
    (loop goesOn fetch turn fuel st input).isSome := by
  induction fuel generalizing p st input with
  | zero => omega
  | succ fuel ih =>
    rw [loop]
    split
    · cases hfetch : fetch input with
      | mk item input' =>
        cases item with
        | none => rfl
        | some item =>
          obtain ⟨hge, hlt⟩ := h.inside hp hfetch
          dsimp only
          cases hturn : turn item st input' with
          | mk t input'' =>
            cases t with
            | stop result => rfl
            | next st' => exact ih (h.behind hp hfetch hturn) (by omega) (by omega)
    · rfl

/-- The keys of the items on which turns are taken. -/
def keys (key : Input → Nat) (vs : List (Item × State × Input)) : List Nat :=
  vs.map fun v => key v.2.2

theorem le_of_mem_keys {key : Input → Nat} {bound : Nat} {Behind : Nat → Input → Prop}
    (h : Advances fetch turn key bound Behind) {fuel p : Nat} {st : State} {input : Input}
    (hp : Behind p input) :
    ∀ k ∈ keys key (visits goesOn fetch turn fuel st input), p ≤ k := by
  induction fuel generalizing p st input with
  | zero => simp [visits, keys]
  | succ fuel ih =>
    rw [visits]
    split
    · cases hfetch : fetch input with
      | mk item input' =>
        cases item with
        | none => simp [keys]
        | some item =>
          obtain ⟨hge, -⟩ := h.inside hp hfetch
          dsimp only
          intro k hk
          rcases List.mem_cons.mp hk with rfl | hk
          · exact hge
          · cases hturn : turn item st input' with
            | mk t input'' =>
              rw [hturn] at hk
              cases t with
              | stop result => cases hk
              | next st' =>
                have hle := ih (h.behind hp hfetch hturn) k hk
                omega
    · simp [keys]

/-- The keys of the items increase. -/
theorem pairwise_keys {key : Input → Nat} {bound : Nat} {Behind : Nat → Input → Prop}
    (h : Advances fetch turn key bound Behind) {fuel p : Nat} {st : State} {input : Input}
    (hp : Behind p input) :
    (keys key (visits goesOn fetch turn fuel st input)).Pairwise (· < ·) := by
  induction fuel generalizing p st input with
  | zero => exact .nil
  | succ fuel ih =>
    rw [visits]
    split
    · cases hfetch : fetch input with
      | mk item input' =>
        cases item with
        | none => exact .nil
        | some item =>
          dsimp only
          cases hturn : turn item st input' with
          | mk t input'' =>
            cases t with
            | stop result => exact .cons (fun _ hk => by cases hk) .nil
            | next st' =>
              have hbehind := h.behind hp hfetch hturn
              exact .cons (fun k hk => le_of_mem_keys h hbehind k hk) (ih hbehind)
    · exact .nil

/-- The result of a loop that was stopped is that of a turn. -/
theorem loop_stopped {P : Result → Prop}
    (hstop : ∀ {item st input result input'}, turn item st input = (.stop result, input') →
      P result)
    {fuel : Nat} {st : State} {input input' : Input} {result : Result}
    (h : loop goesOn fetch turn fuel st input = some (.stopped result, input')) : P result := by
  induction fuel generalizing st input with
  | zero => cases h
  | succ fuel ih =>
    rw [loop] at h
    split at h
    · cases hfetch : fetch input with
      | mk item input₁ =>
        rw [hfetch] at h
        cases item with
        | none => cases h
        | some item =>
          dsimp only at h
          cases hturn : turn item st input₁ with
          | mk t input₂ =>
            rw [hturn] at h
            cases t with
            | stop result =>
              cases h
              exact hstop hturn
            | next st₁ => exact ih h
    · cases h

/-! ## What is made of the items -/

/-- The state at the end of a loop that was not stopped. -/
def End.state? : End State Result → Option State
  | finished st => some st
  | noItem st => some st
  | stopped _ => none

/-- If every turn makes something of its item, a loop that is not stopped makes the list of these
from the items on which turns are taken. -/
theorem forall₂_visits {V : Type} (Of : Item × State × Input → V → Prop)
    (Makes : State → State → List V → Prop) (hnil : ∀ st, Makes st st [])
    (hcons : ∀ {input item input' st st' input'' st'' vs}, fetch input = (some item, input') →
      turn item st input' = (.next st', input'') → Makes st' st'' vs →
      ∃ v, Of (item, st, input') v ∧ Makes st st'' (v :: vs))
    {fuel : Nat} {st st' : State} {input input' : Input} {e : End State Result}
    (h : loop goesOn fetch turn fuel st input = some (e, input')) (he : e.state? = some st') :
    ∃ vs, List.Forall₂ Of (visits goesOn fetch turn fuel st input) vs ∧ Makes st st' vs := by
  induction fuel generalizing st input with
  | zero => cases h
  | succ fuel ih =>
    rw [loop] at h
    rw [visits]
    split at h
    · rename_i hgoes
      rw [if_pos hgoes]
      cases hfetch : fetch input with
      | mk item input₁ =>
        rw [hfetch] at h
        cases item with
        | none =>
          cases h
          cases he
          exact ⟨[], .nil, hnil st'⟩
        | some item =>
          dsimp only at h ⊢
          cases hturn : turn item st input₁ with
          | mk t input₂ =>
            rw [hturn] at h
            cases t with
            | stop result =>
              cases h
              cases he
            | next st₁ =>
              obtain ⟨vs, hvs, hmakes⟩ := ih h
              obtain ⟨v, hv, hmakes'⟩ := hcons hfetch hturn hmakes
              exact ⟨v :: vs, .cons hv hvs, hmakes'⟩
    · rename_i hgoes
      rw [if_neg hgoes]
      cases h
      cases he
      exact ⟨[], .nil, hnil st'⟩

/-! ## Invariants -/

/-- An invariant that relates the state to the items seen so far, on inputs that are `Ready`. -/
structure Invariant {V : Type} (fetch : Input → Option Item × Input)
    (turn : Item → State → Input → Turn State Result × Input) (of : Item × State × Input → V)
    (Ready : Input → Prop) (Inv : List V → State → Prop) : Prop where
  step : ∀ {seen item st st' input input' input''}, Ready input →
    fetch input = (some item, input') → turn item st input' = (.next st', input'') →
    Inv seen st → Inv (seen ++ [of (item, st, input')]) st' ∧ Ready input''

/-- An invariant holds at the start of every turn. -/
theorem Invariant.visits {V : Type} {of : Item × State × Input → V} {Ready : Input → Prop}
    {Inv : List V → State → Prop} (h : Invariant fetch turn of Ready Inv) {fuel : Nat}
    {seen : List V} {st : State} {input : Input} (hinv : Inv seen st) (hready : Ready input)
    {before after : List (Item × State × Input)} {v : Item × State × Input}
    (hsplit : visits goesOn fetch turn fuel st input = before ++ v :: after) :
    Inv (seen ++ before.map of) v.2.1 := by
  induction fuel generalizing seen st input before with
  | zero =>
    rw [Loop.visits] at hsplit
    simp at hsplit
  | succ fuel ih =>
    rw [Loop.visits] at hsplit
    split at hsplit
    · cases hfetch : fetch input with
      | mk item input₁ =>
        rw [hfetch] at hsplit
        cases item with
        | none => simp at hsplit
        | some item =>
          dsimp only at hsplit
          cases before with
          | nil =>
            obtain ⟨rfl, -⟩ := List.cons.inj hsplit
            simpa using hinv
          | cons w before =>
            obtain ⟨rfl, hrest⟩ := List.cons.inj hsplit
            cases hturn : turn item st input₁ with
            | mk t input₂ =>
              rw [hturn] at hrest
              cases t with
              | stop result => simp at hrest
              | next st₁ =>
                obtain ⟨hinv₁, hready₁⟩ := h.step hready hfetch hturn hinv
                have hlater := ih hinv₁ hready₁ hrest
                rw [List.append_assoc] at hlater
                exact hlater
    · simp at hsplit

/-- It holds at the end of a loop that was not stopped. -/
theorem Invariant.loop {V : Type} {of : Item × State × Input → V} {Ready : Input → Prop}
    {Inv : List V → State → Prop} (h : Invariant fetch turn of Ready Inv) {fuel : Nat}
    {seen : List V} {st st' : State} {input input' : Input} {e : End State Result}
    (hinv : Inv seen st) (hready : Ready input)
    (hloop : loop goesOn fetch turn fuel st input = some (e, input')) (he : e.state? = some st') :
    Inv (seen ++ (Loop.visits goesOn fetch turn fuel st input).map of) st' := by
  induction fuel generalizing seen st input with
  | zero => cases hloop
  | succ fuel ih =>
    rw [Loop.loop] at hloop
    rw [Loop.visits]
    split at hloop
    · rename_i hgoes
      rw [if_pos hgoes]
      cases hfetch : fetch input with
      | mk item input₁ =>
        rw [hfetch] at hloop
        cases item with
        | none =>
          cases hloop
          cases he
          simpa using hinv
        | some item =>
          dsimp only at hloop ⊢
          cases hturn : turn item st input₁ with
          | mk t input₂ =>
            rw [hturn] at hloop
            cases t with
            | stop result =>
              cases hloop
              cases he
            | next st₁ =>
              obtain ⟨hinv₁, hready₁⟩ := h.step hready hfetch hturn hinv
              have hlater := ih hinv₁ hready₁ hloop
              rw [List.append_assoc] at hlater
              exact hlater
    · rename_i hgoes
      rw [if_neg hgoes]
      cases hloop
      cases he
      simpa using hinv

end

end Loop
