import Mathlib.Algebra.Order.Ring.Int
import Mathlib.Algebra.Order.Ring.Nat
import Mathlib.Data.List.Basic

/-!
# YAML events

A YAML document is written as a sequence of events. `events` writes a node, and `stream` a stream of
one document. `emit` is the state machine of an emitter: what event it expects next. It takes the
events of a node wherever a node may stand (`emitAll_events`), so that it takes a whole stream
(`accepts_stream`). It refuses the end of a document in which something is left open
(`emitAll_of_depth`).
-/

namespace Yaml

/-- An event. The only scalars are plain or quoted texts without anchors and tags. -/
inductive Event
  | streamStart
  | streamEnd
  | documentStart
  | documentEnd
  | sequenceStart
  | sequenceEnd
  | mappingStart
  | mappingEnd
  | scalar (value : List UInt8)

inductive Node
  | scalar (value : List UInt8)
  | sequence (items : List Node)
  | mapping (members : List (Node × Node))

/-! ## Writing -/

mutual

def events : Node → List Event
  | .scalar value => [.scalar value]
  | .sequence items => .sequenceStart :: (itemEvents items ++ [.sequenceEnd])
  | .mapping members => .mappingStart :: (memberEvents members ++ [.mappingEnd])

def itemEvents : List Node → List Event
  | [] => []
  | item :: items => events item ++ itemEvents items

def memberEvents : List (Node × Node) → List Event
  | [] => []
  | (key, value) :: members => events key ++ (events value ++ memberEvents members)

end

/-- A stream of one document. -/
def stream (root : Node) : List Event :=
  .streamStart :: .documentStart :: (events root ++ [.documentEnd, .streamEnd])

theorem memberEvents_append (xs ys : List (Node × Node)) :
    memberEvents (xs ++ ys) = memberEvents xs ++ memberEvents ys := by
  induction xs with
  | nil => rfl
  | cons x xs ih =>
    obtain ⟨key, value⟩ := x
    rw [List.cons_append, memberEvents, memberEvents, ih, List.append_assoc, List.append_assoc]

/-! ## The emitter -/

/-- What is expected. The states for the first and for later items, for flow and for block styles,
and for simple and other keys expect the same events. -/
inductive State
  | streamStart
  | documentStart
  | documentContent
  | documentEnd
  | sequenceItem
  | mappingKey
  | mappingValue
  | finished

/-- The state, and those to return to. -/
structure Emitter where
  state : State
  states : List State

def pop : List State → Option Emitter
  | [] => none
  | state :: states => some ⟨state, states⟩

/-- A node is expected. -/
def emitNode (event : Event) (states : List State) : Option Emitter :=
  match event with
  | .scalar _ => pop states
  | .sequenceStart => some ⟨.sequenceItem, states⟩
  | .mappingStart => some ⟨.mappingKey, states⟩
  | _ => none

/-- The state machine. There is no result for an event that is not expected. -/
def emit (emitter : Emitter) (event : Event) : Option Emitter :=
  match emitter.state, event with
  | .streamStart, .streamStart => some { emitter with state := .documentStart }
  | .streamStart, _ => none
  | .documentStart, .documentStart => some { emitter with state := .documentContent }
  | .documentStart, .streamEnd => some { emitter with state := .finished }
  | .documentStart, _ => none
  | .documentContent, event => emitNode event (.documentEnd :: emitter.states)
  | .documentEnd, .documentEnd => some { emitter with state := .documentStart }
  | .documentEnd, _ => none
  | .sequenceItem, .sequenceEnd => pop emitter.states
  | .sequenceItem, event => emitNode event (.sequenceItem :: emitter.states)
  | .mappingKey, .mappingEnd => pop emitter.states
  | .mappingKey, event => emitNode event (.mappingValue :: emitter.states)
  | .mappingValue, event => emitNode event (.mappingKey :: emitter.states)
  | .finished, _ => none

def emitAll (emitter : Emitter) : List Event → Option Emitter
  | [] => some emitter
  | event :: rest => (emit emitter event).bind fun emitter => emitAll emitter rest

/-- A new emitter takes the events and is finished. -/
def Accepts (es : List Event) : Prop := emitAll ⟨.streamStart, []⟩ es = some ⟨.finished, []⟩

theorem emitAll_append (emitter : Emitter) (xs ys : List Event) :
    emitAll emitter (xs ++ ys) =
      (emitAll emitter xs).bind fun emitter => emitAll emitter ys := by
  induction xs generalizing emitter with
  | nil => rfl
  | cons x xs ih =>
    rw [List.cons_append, emitAll, emitAll, Option.bind_assoc]
    exact congrArg _ (funext fun emitter => ih emitter)

/-! ## Nodes -/

/-- The state after a node, where one is expected. -/
def State.next? : State → Option State
  | documentContent => some documentEnd
  | sequenceItem => some sequenceItem
  | mappingKey => some mappingValue
  | mappingValue => some mappingKey
  | _ => none

/-- An event that starts a node. -/
def Event.StartsNode : Event → Prop
  | scalar _ => True
  | sequenceStart => True
  | mappingStart => True
  | _ => False

theorem scalar_startsNode {value : List UInt8} : (Event.scalar value).StartsNode := trivial

theorem sequenceStart_startsNode : Event.sequenceStart.StartsNode := trivial

theorem mappingStart_startsNode : Event.mappingStart.StartsNode := trivial

/-- Wherever a node is expected its first event is taken alike. -/
theorem emit_of_startsNode {event : Event} (h : event.StartsNode) {state next : State}
    (hnext : state.next? = some next) (states : List State) :
    emit ⟨state, states⟩ event = emitNode event (next :: states) := by
  cases state with
  | documentContent =>
    cases hnext
    rfl
  | sequenceItem =>
    cases hnext
    cases event <;> first | rfl | exact h.elim
  | mappingKey =>
    cases hnext
    cases event <;> first | rfl | exact h.elim
  | mappingValue =>
    cases hnext
    rfl
  | _ => cases hnext

mutual

/-- The events of a node are taken where one is expected. -/
theorem emitAll_events (node : Node) {state next : State} (hnext : state.next? = some next)
    (states : List State) : emitAll ⟨state, states⟩ (events node) = some ⟨next, states⟩ := by
  cases node with
  | scalar value =>
    rw [events, emitAll, emit_of_startsNode scalar_startsNode hnext]
    rfl
  | sequence items =>
    rw [events, emitAll, emit_of_startsNode sequenceStart_startsNode hnext, emitNode,
      Option.bind_some, emitAll_append, emitAll_itemEvents items]
    rfl
  | mapping members =>
    rw [events, emitAll, emit_of_startsNode mappingStart_startsNode hnext, emitNode,
      Option.bind_some, emitAll_append, emitAll_memberEvents members]
    rfl

theorem emitAll_itemEvents (items : List Node) (states : List State) :
    emitAll ⟨.sequenceItem, states⟩ (itemEvents items) = some ⟨.sequenceItem, states⟩ :=
  match items with
  | [] => rfl
  | item :: items => by
    rw [itemEvents, emitAll_append, emitAll_events item rfl, Option.bind_some]
    exact emitAll_itemEvents items states

theorem emitAll_memberEvents (members : List (Node × Node)) (states : List State) :
    emitAll ⟨.mappingKey, states⟩ (memberEvents members) = some ⟨.mappingKey, states⟩ :=
  match members with
  | [] => rfl
  | (key, value) :: members => by
    rw [memberEvents, emitAll_append, emitAll_events key rfl, Option.bind_some, emitAll_append,
      emitAll_events value rfl, Option.bind_some]
    exact emitAll_memberEvents members states

end

theorem accepts_stream (root : Node) : Accepts (stream root) := by
  have hstart : ∀ es, emitAll ⟨.streamStart, []⟩ (.streamStart :: .documentStart :: es) =
      emitAll ⟨.documentContent, []⟩ es := fun _ => rfl
  rw [Accepts, stream, hstart, emitAll_append, emitAll_events root rfl]
  rfl

/-! ## What is left open -/

/-- What an event opens or closes. -/
def Event.delta : Event → Int
  | streamStart | documentStart | sequenceStart | mappingStart => 1
  | streamEnd | documentEnd | sequenceEnd | mappingEnd => -1
  | scalar _ => 0

/-- How much events leave open. -/
def depth (es : List Event) : Int := (es.map Event.delta).sum

@[simp] theorem depth_nil : depth [] = 0 := rfl

@[simp] theorem depth_cons (event : Event) (es : List Event) :
    depth (event :: es) = event.delta + depth es := by
  rw [depth, depth, List.map_cons, List.sum_cons]

@[simp] theorem depth_append (xs ys : List Event) : depth (xs ++ ys) = depth xs + depth ys := by
  rw [depth, depth, depth, List.map_append, List.sum_append]

mutual

/-- A node leaves nothing open. -/
@[simp] theorem depth_events (node : Node) : depth (events node) = 0 := by
  cases node with
  | scalar value => rfl
  | sequence items =>
    simp [events, depth_itemEvents items, Event.delta]
  | mapping members =>
    simp [events, depth_memberEvents members, Event.delta]

@[simp] theorem depth_itemEvents (items : List Node) : depth (itemEvents items) = 0 :=
  match items with
  | [] => rfl
  | item :: items => by
    rw [itemEvents, depth_append, depth_events item, depth_itemEvents items]
    rfl

@[simp] theorem depth_memberEvents (members : List (Node × Node)) :
    depth (memberEvents members) = 0 :=
  match members with
  | [] => rfl
  | (key, value) :: members => by
    rw [memberEvents, depth_append, depth_append, depth_events key, depth_events value,
      depth_memberEvents members]
    rfl

end

/-- What is open around the place of a state. -/
def State.level : State → Int
  | streamStart | finished => 0
  | documentStart => 1
  | documentContent | documentEnd => 2
  | sequenceItem | mappingKey | mappingValue => 1

/-- A state to return to stands for a container, and the last one for the document. -/
def Emitter.level (emitter : Emitter) : Int :=
  emitter.state.level + (emitter.states.map State.level).sum

theorem level_pop {states : List State} {emitter : Emitter} (h : pop states = some emitter) :
    emitter.level = (states.map State.level).sum := by
  cases states with
  | nil => cases h
  | cons state states =>
    cases h
    rw [Emitter.level, List.map_cons, List.sum_cons]

theorem level_emitNode {event : Event} {states : List State} {emitter : Emitter}
    (h : emitNode event states = some emitter) :
    emitter.level = (states.map State.level).sum + event.delta := by
  unfold emitNode at h
  split at h
  · rw [level_pop h]
    exact (Int.add_zero _).symm
  · cases h
    exact Int.add_comm _ _
  · cases h
    exact Int.add_comm _ _
  · cases h

/-- The level changes by what the event opens or closes. -/
theorem level_emit {event : Event} {emitter emitter' : Emitter}
    (h : emit emitter event = some emitter') : emitter'.level = emitter.level + event.delta := by
  obtain ⟨state, states⟩ := emitter
  have hnode : ∀ next : State, next.level = state.level →
      emitNode event (next :: states) = some emitter' →
      emitter'.level = Emitter.level ⟨state, states⟩ + event.delta := by
    intro next hlevel hemit
    rw [level_emitNode hemit, List.map_cons, List.sum_cons, hlevel]
    rfl
  have hpop : state.level = 1 → event.delta = -1 → pop states = some emitter' →
      emitter'.level = Emitter.level ⟨state, states⟩ + event.delta := by
    intro hlevel hdelta hemit
    rw [level_pop hemit, hdelta]
    simp only [Emitter.level, hlevel]
    omega
  have hmove : ∀ {next : State}, next.level = state.level + event.delta →
      some (Emitter.mk next states) = some emitter' →
      emitter'.level = Emitter.level ⟨state, states⟩ + event.delta := by
    rintro next hlevel ⟨⟩
    simp only [Emitter.level, hlevel]
    omega
  cases state with
  | streamStart =>
    cases event with
    | streamStart => exact hmove rfl h
    | _ => cases h
  | documentStart =>
    cases event with
    | documentStart => exact hmove rfl h
    | streamEnd => exact hmove rfl h
    | _ => cases h
  | documentContent => exact hnode .documentEnd rfl h
  | documentEnd =>
    cases event with
    | documentEnd => exact hmove rfl h
    | _ => cases h
  | sequenceItem =>
    cases event with
    | sequenceEnd => exact hpop rfl rfl h
    | _ => exact hnode .sequenceItem rfl h
  | mappingKey =>
    cases event with
    | mappingEnd => exact hpop rfl rfl h
    | _ => exact hnode .mappingValue rfl h
  | mappingValue => exact hnode .mappingKey rfl h
  | finished => cases event <;> cases h

theorem level_emitAll {es : List Event} {emitter emitter' : Emitter}
    (h : emitAll emitter es = some emitter') : emitter'.level = emitter.level + depth es := by
  induction es generalizing emitter with
  | nil =>
    cases h
    exact (Int.add_zero _).symm
  | cons event es ih =>
    obtain ⟨emitter₁, hemit, hrest⟩ := Option.bind_eq_some_iff.mp h
    rw [ih hrest, level_emit hemit, depth_cons, Int.add_assoc]

/-! ## Streams that are refused -/

def State.InContainer : State → Prop
  | sequenceItem | mappingKey | mappingValue => True
  | _ => False

/-- The states to return to inside of a container: those of the containers around it, and at last
the end of the document. -/
inductive Returns : List State → Prop
  | document : Returns [.documentEnd]
  | container {state : State} {states : List State} (hstate : state.InContainer)
    (h : Returns states) : Returns (state :: states)

/-- There are states to return to exactly in a container. -/
inductive Emitter.Proper : Emitter → Prop
  | inside {state : State} {states : List State} (hstate : state.InContainer)
    (h : Returns states) : Proper ⟨state, states⟩
  | outside {state : State} (hstate : ¬ state.InContainer) : Proper ⟨state, []⟩

theorem Returns.pop {states : List State} (h : Returns states) {emitter : Emitter}
    (hpop : pop states = some emitter) : emitter.Proper := by
  cases h with
  | document =>
    cases hpop
    exact .outside id
  | container hstate h =>
    cases hpop
    exact .inside hstate h

theorem Returns.emitNode {states : List State} (h : Returns states) {event : Event}
    {emitter : Emitter} (hemit : emitNode event states = some emitter) : emitter.Proper := by
  unfold Yaml.emitNode at hemit
  split at hemit
  · exact h.pop hemit
  · cases hemit
    exact .inside trivial h
  · cases hemit
    exact .inside trivial h
  · cases hemit

/-- In a container an event ends it or starts a node, after which the container goes on. -/
theorem emit_inside {state : State} (hstate : state.InContainer) {states : List State}
    {event : Event} {emitter : Emitter} (hemit : emit ⟨state, states⟩ event = some emitter) :
    pop states = some emitter ∨
      ∃ next : State, next.InContainer ∧ emitNode event (next :: states) = some emitter := by
  cases state with
  | sequenceItem =>
    cases event with
    | sequenceEnd => exact .inl hemit
    | _ => exact .inr ⟨.sequenceItem, trivial, hemit⟩
  | mappingKey =>
    cases event with
    | mappingEnd => exact .inl hemit
    | _ => exact .inr ⟨.mappingValue, trivial, hemit⟩
  | mappingValue => exact .inr ⟨.mappingKey, trivial, hemit⟩
  | _ => exact hstate.elim

theorem Emitter.Proper.emit {emitter emitter' : Emitter} (h : emitter.Proper) {event : Event}
    (hemit : emit emitter event = some emitter') : emitter'.Proper := by
  cases h with
  | inside hstate h =>
    rcases emit_inside hstate hemit with hpop | ⟨next, hnext, hnode⟩
    · exact h.pop hpop
    · exact (h.container hnext).emitNode hnode
  | @outside state hstate =>
    cases state with
    | documentContent => exact Returns.document.emitNode hemit
    | sequenceItem => exact absurd trivial hstate
    | mappingKey => exact absurd trivial hstate
    | mappingValue => exact absurd trivial hstate
    | _ => cases event <;> cases hemit <;> exact .outside id

theorem Emitter.Proper.emitAll {emitter emitter' : Emitter} (h : emitter.Proper) {es : List Event}
    (hemit : emitAll emitter es = some emitter') : emitter'.Proper := by
  induction es generalizing emitter with
  | nil =>
    cases hemit
    exact h
  | cons event es ih =>
    obtain ⟨emitter₁, hevent, hrest⟩ := Option.bind_eq_some_iff.mp hemit
    exact ih (h.emit hevent) hrest

/-- Where the end of the document is expected, the stream and the document are all that is open. -/
theorem Emitter.Proper.level_documentEnd {emitter emitter' : Emitter} (h : emitter.Proper)
    (hemit : Yaml.emit emitter .documentEnd = some emitter') : emitter.level = 2 := by
  cases h with
  | @inside state states hstate =>
    cases state with
    | sequenceItem => cases hemit
    | mappingKey => cases hemit
    | mappingValue => cases hemit
    | _ => exact hstate.elim
  | @outside state hstate =>
    cases state with
    | documentEnd => rfl
    | _ => cases hemit

/-- A document that is ended while something in it is open is refused. -/
theorem emitAll_of_depth {es : List Event} (h : depth es ≠ 2) (rest : List Event) :
    emitAll ⟨.streamStart, []⟩ (es ++ .documentEnd :: rest) = none := by
  rw [emitAll_append]
  cases hemit : emitAll ⟨.streamStart, []⟩ es with
  | none => rfl
  | some emitter =>
    have hproper : emitter.Proper := (Emitter.Proper.outside id).emitAll hemit
    rw [Option.bind_some, emitAll]
    cases hend : emit emitter .documentEnd with
    | none => rfl
    | some emitter' =>
      have hlevel := level_emitAll hemit
      rw [hproper.level_documentEnd hend] at hlevel
      exact absurd (hlevel.trans (Int.zero_add _)).symm h

end Yaml
