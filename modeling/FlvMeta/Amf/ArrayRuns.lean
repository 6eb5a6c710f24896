import FlvMeta.Amf.List

/-!
# Runs of array operations

The five operations that change an AMF array, and the walks over its nodes. Inserting before the
first node or after the last one forgets a link of the old end; every run that avoids the two, and
stays below `2 ^ 32` nodes, keeps the nodes chained both ways and changes their sequence as the
operation says (`reached_walks`).
-/

namespace FlvMeta

variable {α : Type}

namespace AmfList

/-! ## Inserting and walking -/

/-- `amf_list_insert_before`, with the data that it returns. -/
def insertBefore (list : AmfList α) (p : Option Nat) (data : α) : Option α × AmfList α :=
  match p with
  | none => (none, list)
  | some p =>
    match list.nodes p with
    | none => (none, list)
    | some node =>
      let newNode := list.fresh
      let list := list.alloc ⟨data, node.prev, some p⟩
      let list :=
        match node.prev with
        | some prev =>
          let list := list.modify prev fun n => { n with next := some newNode }
          list.modify p fun n => { n with prev := some newNode }
        -- the old first node keeps its NULL
        | none => { list with first := some newNode }
      (some data, { list with size := (list.size + 1) % 2 ^ 32 })

/-- `amf_list_insert_after`. -/
def insertAfter (list : AmfList α) (p : Option Nat) (data : α) : Option α × AmfList α :=
  match p with
  | none => (none, list)
  | some p =>
    match list.nodes p with
    | none => (none, list)
    | some node =>
      let newNode := list.fresh
      let list := list.alloc ⟨data, some p, node.next⟩
      let list :=
        match node.next with
        | some next =>
          let list := list.modify next fun n => { n with prev := some newNode }
          list.modify p fun n => { n with next := some newNode }
        -- the old last node keeps its NULL
        | none => { list with last := some newNode }
      (some data, { list with size := (list.size + 1) % 2 ^ 32 })

/-- The loop of `amf_list_get_at`. -/
def getAtLoop (list : AmfList α) : Nat → Option Nat → Option α
  | _, none => none
  | 0, some p => (list.nodes p).map AmfNode.data
  | n + 1, some p => list.getAtLoop n ((list.nodes p).bind AmfNode.next)

/-- `amf_list_get_at`, `none` for NULL. -/
def getAt (list : AmfList α) (n : Nat) : Option α :=
  if n < list.size then list.getAtLoop n list.first else none

/-- Following `next` from a node until NULL, for at most so many nodes. -/
def forward (list : AmfList α) : Nat → Option Nat → List (Nat × α)
  | 0, _ => []
  | _ + 1, none => []
  | fuel + 1, some p =>
    match list.nodes p with
    | none => []
    | some node => (p, node.data) :: list.forward fuel node.next

/-- Following `prev`. -/
def backward (list : AmfList α) : Nat → Option Nat → List (Nat × α)
  | 0, _ => []
  | _ + 1, none => []
  | fuel + 1, some p =>
    match list.nodes p with
    | none => []
    | some node => (p, node.data) :: list.backward fuel node.prev

/-- The nodes `ns`, walked in both directions and counted. -/
structure Walks (list : AmfList α) (ns : List (Nat × α)) : Prop where
  size : list.size = ns.length
  first : list.first = ns.head?.map Prod.fst
  last : list.last = ns.getLast?.map Prod.fst
  forward : ∀ fuel, ns.length ≤ fuel → list.forward fuel list.first = ns
  backward : ∀ fuel, ns.length ≤ fuel → list.backward fuel list.last = ns.reverse
  getAt : ∀ n, list.getAt n = ns[n]?.map Prod.snd

/-! ## Chained nodes are walked -/

theorem Consistent.forward_eq {list : AmfList α} {ns bs : List (Nat × α)}
    (h : list.Consistent ns) (as : List (Nat × α)) (hns : ns = as ++ bs) (fuel : Nat) :
    list.forward fuel (bs.head?.map Prod.fst) = bs.take fuel := by
  induction bs generalizing as fuel with
  | nil => cases fuel <;> rfl
  | cons b bs ih =>
    cases fuel with
    | zero => rfl
    | succ fuel =>
      have hrest := ih (as ++ [b]) (by simpa using hns) fuel
      rw [List.head?_cons, Option.map_some, AmfList.forward, h.node as b bs hns,
        List.take_succ_cons]
      exact congrArg _ hrest

theorem Consistent.backward_eq {list : AmfList α} {ns as : List (Nat × α)}
    (h : list.Consistent ns) (bs : List (Nat × α)) (hns : ns = as ++ bs) {fuel : Nat}
    (hfuel : as.length ≤ fuel) :
    list.backward fuel (as.getLast?.map Prod.fst) = as.reverse := by
  induction as using List.reverseRecOn generalizing bs fuel with
  | nil => cases fuel <;> rfl
  | append_singleton as a ih =>
    rw [List.length_append, List.length_singleton] at hfuel
    obtain ⟨fuel, rfl⟩ := Nat.exists_eq_succ_of_ne_zero (Nat.ne_of_gt (Nat.zero_lt_of_lt hfuel))
    have hsplit : ns = as ++ a :: bs := by simpa using hns
    have hrest := ih (a :: bs) hsplit (Nat.le_of_succ_le_succ hfuel)
    rw [List.getLast?_concat, Option.map_some, AmfList.backward, h.node as a bs hsplit,
      List.reverse_append]
    exact congrArg _ hrest

theorem Consistent.getAtLoop_eq {list : AmfList α} {ns bs : List (Nat × α)}
    (h : list.Consistent ns) (as : List (Nat × α)) (hns : ns = as ++ bs) (n : Nat) :
    list.getAtLoop n (bs.head?.map Prod.fst) = bs[n]?.map Prod.snd := by
  induction n generalizing as bs with
  | zero =>
    cases bs with
    | nil => rfl
    | cons b bs => simp [getAtLoop, h.node as b bs hns]
  | succ n ih =>
    cases bs with
    | nil => rfl
    | cons b bs =>
      have hrest := ih (as ++ [b]) (by simpa using hns)
      rw [List.head?_cons, Option.map_some, getAtLoop, h.node as b bs hns, List.getElem?_cons_succ]
      exact hrest

theorem Consistent.walks {list : AmfList α} {ns : List (Nat × α)} (h : list.Consistent ns) :
    list.Walks ns := by
  refine ⟨h.size, h.first, h.last, fun fuel hfuel => ?_, fun fuel hfuel => ?_, fun n => ?_⟩
  · rw [h.first, h.forward_eq [] rfl, List.take_of_length_le hfuel]
  · rw [h.last]
    exact h.backward_eq [] (List.append_nil ns).symm hfuel
  · rw [AmfList.getAt, h.size, h.first, h.getAtLoop_eq [] rfl]
    split
    · rfl
    · rw [List.getElem?_eq_none (by omega), Option.map_none]

/-! ## Linking a node between two others -/

/-- The list after a new node was linked between `a` and `n`. -/
structure LinkedBetween (list after : AmfList α) (a n : Nat × α) (data : α) : Prop where
  newNode : after.nodes list.fresh = some ⟨data, some a.1, some n.1⟩
  before : after.nodes a.1 = (list.nodes a.1).map fun node => { node with next := some list.fresh }
  behind : after.nodes n.1 = (list.nodes n.1).map fun node => { node with prev := some list.fresh }
  others : ∀ q, q ≠ list.fresh → q ≠ a.1 → q ≠ n.1 → after.nodes q = list.nodes q
  fresh : after.fresh = list.fresh + 1
  size : after.size = (list.size + 1) % 2 ^ 32
  first : after.first = list.first
  last : after.last = list.last

theorem Consistent.link {list after : AmfList α} {as bs : List (Nat × α)} {a n : Nat × α} {data : α}
    (h : list.Consistent (as ++ a :: n :: bs)) (hlink : LinkedBetween list after a n data)
    (hlt : (as ++ a :: n :: bs).length + 1 < 2 ^ 32) :
    after.Consistent (as ++ a :: (list.fresh, data) :: n :: bs) := by
  have hfresh : ∀ m ∈ as ++ a :: n :: bs, m.1 ≠ list.fresh := fun m hm =>
    Nat.ne_of_lt (h.allocated m hm)
  have hold : as ++ a :: n :: bs = (as ++ [a]) ++ n :: bs := by simp
  have hnew : as ++ a :: (list.fresh, data) :: n :: bs =
      (as ++ [a]) ++ (list.fresh, data) :: n :: bs := by simp
  have hgetLast : (as ++ [a]).getLast? = some a := List.getLast?_concat
  refine ⟨?_, ?_, ?_, ?_, ?_, ?_⟩
  · have hnodup := h.nodup
    rw [hold, List.map_append] at hnodup
    rw [hnew, List.map_append, List.map_cons, List.nodup_middle, List.nodup_cons]
    refine ⟨fun hmem => ?_, hnodup⟩
    rw [← List.map_append, ← hold] at hmem
    obtain ⟨m, hm, heq⟩ := List.mem_map.mp hmem
    exact hfresh m hm heq
  · intro m hm
    rw [hlink.fresh]
    have hm : m ∈ as ++ a :: n :: bs ∨ m = (list.fresh, data) := by
      simp only [List.mem_append, List.mem_cons] at hm ⊢
      tauto
    rcases hm with hm | rfl
    · exact Nat.lt_succ_of_lt (h.allocated m hm)
    · exact Nat.lt_succ_self _
  · rw [hlink.size, h.size, Nat.mod_eq_of_lt hlt]
    simp only [List.length_append, List.length_cons]
    omega
  · rw [hlink.first, h.first]
    cases as <;> rfl
  · rw [hlink.last, h.last]
    simp [List.getLast?_append, List.getLast?_cons]
  · intro xs m ys hsplit
    rw [hnew] at hsplit
    rcases split_append hsplit with ⟨es, rfl, htail⟩ | ⟨es, hhead, rfl⟩
    · cases es with
      | nil =>
        -- the new node
        obtain ⟨rfl, rfl⟩ := List.cons.inj htail
        rw [List.append_nil, hgetLast]
        exact hlink.newNode
      | cons e es =>
        obtain ⟨rfl, hbehind⟩ := List.cons.inj htail
        cases es with
        | nil =>
          -- the node behind it
          obtain ⟨rfl, rfl⟩ := List.cons.inj hbehind
          rw [hlink.behind, h.node (as ++ [a]) n bs hold, hgetLast, List.getLast?_concat]
          rfl
        | cons e es =>
          obtain ⟨rfl, hbs⟩ := List.cons.inj hbehind
          have hbs : bs = es ++ m :: ys := hbs
          subst hbs
          have hsplit' : as ++ a :: n :: (es ++ m :: ys) = (as ++ a :: n :: es) ++ m :: ys := by
            simp
          have hm := h.node _ m ys hsplit'
          rw [hsplit'] at h
          have hne : ∀ x ∈ as ++ a :: n :: es, m.1 ≠ x.1 := fun x hx heq =>
            h.address_ne (Or.inl hx) heq.symm
          rw [hlink.others m.1 (hfresh m (by simp)) (hne a (by simp)) (hne n (by simp)), hm]
          simp [List.getLast?_append, List.getLast?_cons]
    · rcases List.eq_nil_or_concat es with rfl | ⟨es, e, rfl⟩
      · -- the node before it
        obtain ⟨rfl, hm⟩ := List.append_inj' hhead rfl
        obtain rfl := (List.cons.inj hm).1
        rw [hlink.before, h.node as a (n :: bs) rfl]
        rfl
      · rw [List.concat_eq_append, ← List.cons_append, ← List.append_assoc] at hhead
        obtain ⟨rfl, he⟩ := List.append_inj' hhead rfl
        obtain rfl := (List.cons.inj he).1
        have hsplit' : xs ++ m :: es ++ a :: n :: bs = xs ++ m :: (es ++ a :: n :: bs) := by simp
        have hm := h.node xs m _ hsplit'
        rw [hsplit'] at h
        have hne : ∀ x ∈ es ++ a :: n :: bs, m.1 ≠ x.1 := fun x hx heq =>
          h.address_ne (Or.inr hx) heq.symm
        rw [hlink.others m.1 (hfresh m (by simp)) (hne a (by simp)) (hne n (by simp)), hm]
        cases es <;> simp

/-- A node that is not the first one has a node before it. -/
theorem Consistent.insertBefore {list : AmfList α} {as bs : List (Nat × α)} {a n : Nat × α}
    (h : list.Consistent (as ++ a :: n :: bs))
    (hlt : (as ++ a :: n :: bs).length + 1 < 2 ^ 32) (data : α) :
    (list.insertBefore (some n.1) data).1 = some data ∧
      (list.insertBefore (some n.1) data).2.Consistent
        (as ++ a :: (list.fresh, data) :: n :: bs) := by
  have hn : list.nodes n.1 = some ⟨n.2, some a.1, bs.head?.map Prod.fst⟩ := by
    rw [h.node (as ++ [a]) n bs (by simp), List.getLast?_concat, Option.map_some]
  have hfreshA : a.1 ≠ list.fresh := Nat.ne_of_lt (h.allocated a (by simp))
  have hfreshN : n.1 ≠ list.fresh := Nat.ne_of_lt (h.allocated n (by simp))
  have hne : n.1 ≠ a.1 := h.address_ne (Or.inr List.mem_cons_self)
  refine ⟨by simp [AmfList.insertBefore, hn], h.link ?_ hlt⟩
  simp only [AmfList.insertBefore, hn]
  refine ⟨?_, ?_, ?_, fun q hq hqa hqn => ?_, rfl, rfl, rfl, rfl⟩
  · simp [modify, alloc, hfreshA.symm, hfreshN.symm]
  · simp [modify, alloc, hfreshA, hne.symm]
  · simp [modify, alloc, hfreshN, hne]
  · simp [modify, alloc, hq, hqa, hqn]

/-- A node that is not the last one has a node behind it. -/
theorem Consistent.insertAfter {list : AmfList α} {as bs : List (Nat × α)} {a n : Nat × α}
    (h : list.Consistent (as ++ a :: n :: bs))
    (hlt : (as ++ a :: n :: bs).length + 1 < 2 ^ 32) (data : α) :
    (list.insertAfter (some a.1) data).1 = some data ∧
      (list.insertAfter (some a.1) data).2.Consistent
        (as ++ a :: (list.fresh, data) :: n :: bs) := by
  have ha : list.nodes a.1 = some ⟨a.2, as.getLast?.map Prod.fst, some n.1⟩ :=
    h.node as a (n :: bs) rfl
  have hfreshA : a.1 ≠ list.fresh := Nat.ne_of_lt (h.allocated a (by simp))
  have hfreshN : n.1 ≠ list.fresh := Nat.ne_of_lt (h.allocated n (by simp))
  have hne : n.1 ≠ a.1 := h.address_ne (Or.inr List.mem_cons_self)
  refine ⟨by simp [AmfList.insertAfter, ha], h.link ?_ hlt⟩
  simp only [AmfList.insertAfter, ha]
  refine ⟨?_, ?_, ?_, fun q hq hqa hqn => ?_, rfl, rfl, rfl, rfl⟩
  · simp [modify, alloc, hfreshA.symm, hfreshN.symm]
  · simp [modify, alloc, hfreshA, hne.symm]
  · simp [modify, alloc, hfreshN, hne]
  · simp [modify, alloc, hq, hqa, hqn]

/-! ## Runs -/

end AmfList

/-- A call that changes an array. -/
inductive ArrayCall (α : Type)
  | push (data : α)
  | pop
  | insertBefore (node : Nat) (data : α)
  | insertAfter (node : Nat) (data : α)
  | delete (node : Nat)

namespace ArrayCall

/-- The nodes among its arguments are nodes of the array. -/
def NodeOf (list : AmfList α) : ArrayCall α → Prop
  | insertBefore p _ | insertAfter p _ | delete p =>
    ∃ fuel, p ∈ (list.forward fuel list.first).map Prod.fst
  | _ => True

/-- It inserts nothing outside of the old ends, and the size does not wrap. -/
def Avoids (list : AmfList α) : ArrayCall α → Prop
  | push _ => list.size + 1 < 2 ^ 32
  | insertBefore p _ => list.first ≠ some p ∧ list.size + 1 < 2 ^ 32
  | insertAfter p _ => list.last ≠ some p ∧ list.size + 1 < 2 ^ 32
  | _ => True

/-- What the call returns, and the list after it. -/
def apply (list : AmfList α) : ArrayCall α → Option α × AmfList α
  | push data => (some data, list.push data)
  | pop => list.pop
  | insertBefore p data => list.insertBefore (some p) data
  | insertAfter p data => list.insertAfter (some p) data
  | delete p => list.delete (some p)

/-- The insertion or removal that the call stands for, on the sequence of nodes; the new node is at
`fresh`. -/
def Effect (fresh : Nat) (ns : List (Nat × α)) :
    ArrayCall α → Option α → List (Nat × α) → Prop
  | push data, result, ns' => result = some data ∧ ns' = ns ++ [(fresh, data)]
  | pop, result, ns' => result = ns.getLast?.map Prod.snd ∧ ns' = ns.dropLast
  | insertBefore p data, result, ns' => result = some data ∧
    ∃ as n bs, ns = as ++ n :: bs ∧ n.1 = p ∧ ns' = as ++ (fresh, data) :: n :: bs
  | insertAfter p data, result, ns' => result = some data ∧
    ∃ as n bs, ns = as ++ n :: bs ∧ n.1 = p ∧ ns' = as ++ n :: (fresh, data) :: bs
  | delete p, result, ns' =>
    ∃ as n bs, ns = as ++ n :: bs ∧ n.1 = p ∧ result = some n.2 ∧ ns' = as ++ bs

end ArrayCall

open AmfList

/-- The arrays that calls make of a new one, where all calls are `ok` when they are made. -/
inductive Reached (ok : AmfList α → ArrayCall α → Prop) : AmfList α → Prop
  | new : Reached ok init
  | call {list : AmfList α} (h : Reached ok list) (c : ArrayCall α) (hc : ok list c) :
    Reached ok (c.apply list).2

/-- A node of the array splits the sequence. -/
theorem AmfList.Consistent.split_of_nodeOf {list : AmfList α} {ns : List (Nat × α)}
    (h : list.Consistent ns)
    {p : Nat} (hp : ∃ fuel, p ∈ (list.forward fuel list.first).map Prod.fst) :
    ∃ as n bs, ns = as ++ n :: bs ∧ n.1 = p := by
  obtain ⟨fuel, hmem⟩ := hp
  rw [h.first, h.forward_eq [] rfl] at hmem
  obtain ⟨n, hn, rfl⟩ := List.mem_map.mp hmem
  obtain ⟨as, bs, hsplit⟩ := List.append_of_mem (List.mem_of_mem_take hn)
  exact ⟨as, n, bs, hsplit, rfl⟩

/-- One call keeps the chain and has its effect. -/
theorem AmfList.Consistent.apply {list : AmfList α} {ns : List (Nat × α)} (h : list.Consistent ns)
    (hsize : ns.length < 2 ^ 32) {c : ArrayCall α} (hnode : c.NodeOf list)
    (havoids : c.Avoids list) :
    ∃ ns', ns'.length < 2 ^ 32 ∧ c.Effect list.fresh ns (c.apply list).1 ns' ∧
      (c.apply list).2.Consistent ns' := by
  cases c with
  | push data =>
    have hlt : ns.length + 1 < 2 ^ 32 := h.size ▸ havoids
    exact ⟨_, by simpa using hlt, ⟨rfl, rfl⟩, h.push hlt data⟩
  | pop =>
    rcases List.eq_nil_or_concat ns with rfl | ⟨ns, n, rfl⟩
    · have hpop : list.pop = (none, list) := by rw [AmfList.pop, h.last]; rfl
      refine ⟨[], by simp, ?_, ?_⟩
      · rw [ArrayCall.apply, hpop]
        exact ⟨rfl, rfl⟩
      · rw [ArrayCall.apply, hpop]
        exact h
    · rw [List.concat_eq_append] at h hsize ⊢
      obtain ⟨hdata, hrest⟩ := h.pop hsize
      refine ⟨ns, ?_, ⟨?_, ?_⟩, hrest⟩
      · rw [List.length_append] at hsize
        exact Nat.lt_of_le_of_lt (Nat.le_add_right _ _) hsize
      · rw [List.getLast?_concat]
        exact hdata
      · rw [List.dropLast_concat]
  | insertBefore p data =>
    obtain ⟨as, n, bs, rfl, rfl⟩ := h.split_of_nodeOf hnode
    obtain ⟨hfirst, hlt⟩ := havoids
    rw [h.size] at hlt
    rcases List.eq_nil_or_concat as with rfl | ⟨as, a, rfl⟩
    · exact absurd h.first hfirst
    · have hsplit : as.concat a ++ n :: bs = as ++ a :: n :: bs := by simp
      rw [hsplit] at h hlt
      obtain ⟨hdata, hrest⟩ := h.insertBefore hlt data
      refine ⟨as ++ a :: (list.fresh, data) :: n :: bs, ?_,
        ⟨hdata, as.concat a, n, bs, rfl, rfl, by simp⟩, hrest⟩
      simp only [List.length_append, List.length_cons] at hlt ⊢
      omega
  | insertAfter p data =>
    obtain ⟨as, a, bs, rfl, rfl⟩ := h.split_of_nodeOf hnode
    obtain ⟨hlast, hlt⟩ := havoids
    rw [h.size] at hlt
    cases bs with
    | nil =>
      have hlast' := h.last
      rw [List.getLast?_concat] at hlast'
      exact absurd hlast' hlast
    | cons n bs =>
      obtain ⟨hdata, hrest⟩ := h.insertAfter hlt data
      refine ⟨_, ?_, ⟨hdata, as, a, n :: bs, rfl, rfl, rfl⟩, hrest⟩
      simp only [List.length_append, List.length_cons] at hlt ⊢
      omega
  | delete p =>
    obtain ⟨as, n, bs, rfl, rfl⟩ := h.split_of_nodeOf hnode
    obtain ⟨hdata, hrest, -⟩ := h.delete hsize
    refine ⟨as ++ bs, ?_, ⟨as, n, bs, rfl, rfl, hdata, rfl⟩, hrest⟩
    simp only [List.length_append, List.length_cons] at hsize ⊢
    omega

/-- What the calls keep. -/
theorem Reached.consistent {list : AmfList α}
    (h : Reached (fun list c => c.NodeOf list ∧ c.Avoids list) list) :
    ∃ ns, ns.length < 2 ^ 32 ∧ list.Consistent ns := by
  induction h with
  | new => exact ⟨[], by simp, consistent_init⟩
  | call _ c hc ih =>
    obtain ⟨ns, hsize, hns⟩ := ih
    obtain ⟨ns', hsize', -, hns'⟩ := hns.apply hsize hc.1 hc.2
    exact ⟨ns', hsize', hns'⟩

/-- Every array that is reached without an insertion outside of its ends is chained both ways, and
the next such call changes its sequence as it should. -/
theorem reached_walks (list : AmfList α)
    (h : Reached (fun list c => c.NodeOf list ∧ c.Avoids list) list) :
    ∃ ns, list.Walks ns ∧ ∀ c : ArrayCall α, c.NodeOf list → c.Avoids list →
      ∃ ns', c.Effect list.fresh ns (c.apply list).1 ns' ∧ (c.apply list).2.Walks ns' := by
  obtain ⟨ns, hsize, hns⟩ := h.consistent
  refine ⟨ns, hns.walks, fun c hnode havoids => ?_⟩
  obtain ⟨ns', -, heffect, hns'⟩ := hns.apply hsize hnode havoids
  exact ⟨ns', heffect, hns'.walks⟩

/-- Two elements, one between them, the first one deleted and another one behind. -/
def fiveCalls : AmfList Nat :=
  [ArrayCall.push 7, .push 8, .insertAfter 0 9, .delete 0, .push 6].foldl
    (fun list c => (c.apply list).2) init

theorem consistent_fiveCalls :
    Reached (fun list c => c.NodeOf list ∧ c.Avoids list) fiveCalls ∧
      fiveCalls.Consistent [(2, 9), (1, 8), (3, 6)] := by
  have h₂ : ((init.push 7).push 8 : AmfList Nat).Consistent [(0, 7), (1, 8)] :=
    (consistent_init.push (by decide) 7).push (by decide) 8
  have h₃ := (@Consistent.insertAfter _ _ [] [] (0, 7) (1, 8) h₂ (by decide) 9).2
  have h₄ := (@Consistent.delete _ _ [] [(2, 9), (1, 8)] (0, 7) h₃ (by decide)).2.1
  have hsize := h₄.size
  refine ⟨?_, h₄.push (by decide) 6⟩
  refine .call (.call (.call (.call (.call .new (.push 7) ?_) (.push 8) ?_) (.insertAfter 0 9) ?_)
    (.delete 0) ?_) (.push 6) ?_
  · exact ⟨trivial, show 0 + 1 < 2 ^ 32 by decide⟩
  · exact ⟨trivial, show 1 + 1 < 2 ^ 32 by decide⟩
  · exact ⟨⟨1, by decide⟩, by decide, show 2 + 1 < 2 ^ 32 by decide⟩
  · exact ⟨⟨1, by decide⟩, trivial⟩
  · exact ⟨trivial, (Nat.le_of_eq (congrArg (· + 2) hsize)).trans (by decide)⟩

/-- Three elements are left, which are chained both ways, and a pop leaves two. -/
theorem reached_walks_fiveCalls :
    fiveCalls.Walks [(2, 9), (1, 8), (3, 6)] ∧ fiveCalls.pop.2.Walks [(2, 9), (1, 8)] := by
  obtain ⟨hreached, hlist⟩ := consistent_fiveCalls
  obtain ⟨ns, hwalks, hnext⟩ := reached_walks fiveCalls hreached
  obtain ⟨ns', ⟨-, rfl⟩, hpop⟩ := hnext .pop trivial trivial
  obtain rfl : ns = [(2, 9), (1, 8), (3, 6)] := by
    rw [← hwalks.forward 3 (Nat.le_of_eq (hwalks.size.symm.trans hlist.size)), hlist.first]
    exact hlist.forward_eq [] rfl 3
  exact ⟨hwalks, hpop⟩

/-- Inserting before the only element: backwards the new node is not reached. -/
theorem not_reached_walks :
    ¬ ∀ list : AmfList Nat, Reached (fun list c => c.NodeOf list) list → ∃ ns, list.Walks ns := by
  intro h
  have hreached : Reached (fun list c => c.NodeOf list)
      ((init.push 7).insertBefore (some 0) 8 : Option Nat × AmfList Nat).2 :=
    .call (.call .new (.push 7) trivial) (.insertBefore 0 8) ⟨1, by decide⟩
  obtain ⟨ns, hns⟩ := h _ hreached
  have hlength : ns.length = 2 := hns.size.symm
  have hback := hns.backward 2 (Nat.le_of_eq hlength)
  have hone : ((init.push 7).insertBefore (some 0) 8 : Option Nat × AmfList Nat).2.backward 2
      (some 0) = [(0, 7)] := by decide
  have hreverse : [(0, 7)] = ns.reverse := hone.symm.trans hback
  have hcount := congrArg List.length hreverse
  rw [List.length_reverse, hlength] at hcount
  cases hcount

end FlvMeta
