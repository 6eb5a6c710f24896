import Mathlib.Algebra.Order.Ring.Nat
import Mathlib.Data.List.Induction
import Mathlib.Data.List.Nodup
import Mathlib.Logic.Function.Basic

/-!
# Doubly linked lists

`AmfList` is an `amf_list` with the memory of its nodes, whose addresses are numbers that are given
out in order. The other modules work with the sequence of the data of its nodes.
`Consistent` ties the two together: the nodes form a chain in both directions, from the first to
the last, and the size is their number. A list that is made by pushing is consistent
(`exists_consistent_ofList`) as long as its size, a `uint32`, does not wrap.
-/

namespace FlvMeta

variable {α : Type}

/-- `amf_node`. -/
structure AmfNode (α : Type) where
  data : α
  prev : Option Nat
  next : Option Nat

/-- `amf_list`, with the memory of its nodes and the next address to be allocated. -/
structure AmfList (α : Type) where
  nodes : Nat → Option (AmfNode α)
  fresh : Nat
  size : Nat
  first : Option Nat
  last : Option Nat

namespace AmfList

/-- `amf_list_init`. -/
def init : AmfList α := ⟨fun _ => none, 0, 0, none, none⟩

/-- `malloc` of a node. -/
def alloc (list : AmfList α) (node : AmfNode α) : AmfList α :=
  { list with
    nodes := Function.update list.nodes list.fresh (some node)
    fresh := list.fresh + 1 }

/-- An assignment to a field of the node at an address. -/
def modify (list : AmfList α) (p : Nat) (f : AmfNode α → AmfNode α) : AmfList α :=
  { list with nodes := Function.update list.nodes p ((list.nodes p).map f) }

/-- `amf_list_push`, with the address of the new node. -/
def push (list : AmfList α) (data : α) : AmfList α :=
  let node := list.fresh
  let list := list.alloc ⟨data, none, none⟩
  let list :=
    if list.size = 0 then { list with first := some node, last := some node }
    else
      match list.last with
      | none => list
      | some last =>
        let list := list.modify last fun n => { n with next := some node }
        let list := list.modify node fun n => { n with prev := some last }
        { list with last := some node }
  { list with size := (list.size + 1) % 2 ^ 32 }

/-- The list made by pushing values in order. -/
def ofList (xs : List α) : AmfList α := xs.foldl push init

/-- The nodes `ns`, given by their addresses and data, are chained in order. -/
structure Consistent (list : AmfList α) (ns : List (Nat × α)) : Prop where
  nodup : (ns.map Prod.fst).Nodup
  allocated : ∀ n ∈ ns, n.1 < list.fresh
  size : list.size = ns.length
  first : list.first = ns.head?.map Prod.fst
  last : list.last = ns.getLast?.map Prod.fst
  node : ∀ as n bs, ns = as ++ n :: bs →
    list.nodes n.1 = some ⟨n.2, as.getLast?.map Prod.fst, bs.head?.map Prod.fst⟩

theorem consistent_init : (init : AmfList α).Consistent [] where
  nodup := List.nodup_nil
  allocated := by simp
  size := rfl
  first := rfl
  last := rfl
  node := by simp

theorem push_nil {list : AmfList α} (h : list.Consistent []) (data : α) :
    (list.push data).Consistent [(list.fresh, data)] := by
  have hpush : list.push data =
      { nodes := Function.update list.nodes list.fresh (some ⟨data, none, none⟩)
        fresh := list.fresh + 1
        size := 1
        first := some list.fresh
        last := some list.fresh } := by
    have hsize : list.size = 0 := h.size
    simp [push, alloc, hsize]
  rw [hpush]
  refine ⟨List.nodup_singleton _, by simp, rfl, rfl, rfl, ?_⟩
  intro as n bs hsplit
  rcases List.append_eq_singleton_iff.mp hsplit.symm with ⟨rfl, hn⟩ | ⟨-, hn⟩
  · obtain ⟨rfl, rfl⟩ := List.cons.inj hn
    simp
  · cases hn

theorem push_concat {list : AmfList α} {ns : List (Nat × α)} {m : Nat × α}
    (h : list.Consistent (ns ++ [m])) (hlt : ns.length + 2 < 2 ^ 32) (data : α) :
    (list.push data).Consistent (ns ++ [m] ++ [(list.fresh, data)]) := by
  have hm : m.1 < list.fresh := h.allocated m (by simp)
  have hlast : list.nodes m.1 = some ⟨m.2, ns.getLast?.map Prod.fst, none⟩ := h.node ns m [] rfl
  have hpush : list.push data =
      { nodes := Function.update
          (Function.update (Function.update list.nodes list.fresh (some ⟨data, none, none⟩)) m.1
            (some ⟨m.2, ns.getLast?.map Prod.fst, some list.fresh⟩))
          list.fresh (some ⟨data, some m.1, none⟩)
        fresh := list.fresh + 1
        size := ns.length + 2
        first := list.first
        last := some list.fresh } := by
    have hsize : list.size = ns.length + 1 := by simp [h.size]
    have hlastp : list.last = some m.1 := by simp [h.last]
    have hne : m.1 ≠ list.fresh := Nat.ne_of_lt hm
    have hlt' : ns.length + 1 + 1 < 4294967296 := hlt
    simp [push, alloc, modify, hsize, hlastp, hlast, hne, hne.symm, hlt']
  have hfresh : ∀ n ∈ ns ++ [m], n.1 ≠ list.fresh := fun n hn => Nat.ne_of_lt (h.allocated n hn)
  rw [hpush]
  refine ⟨?_, ?_, by simp, ?_, by simp, ?_⟩
  · rw [List.map_append, List.nodup_append]
    refine ⟨h.nodup, List.nodup_singleton _, ?_⟩
    intro a ha b hb
    obtain ⟨n, hn, rfl⟩ := List.mem_map.mp ha
    obtain rfl : b = list.fresh := by simpa using hb
    exact hfresh n hn
  · intro n hn
    rcases List.mem_append.mp hn with hn | hn
    · exact Nat.lt_succ_of_lt (h.allocated n hn)
    · obtain rfl := List.mem_singleton.mp hn
      exact Nat.lt_succ_self _
  · rw [h.first]
    cases ns <;> rfl
  · intro as n bs hsplit
    rcases List.eq_nil_or_concat bs with rfl | ⟨bs', b, rfl⟩
    · obtain ⟨rfl, hn⟩ := List.append_inj' hsplit rfl
      obtain rfl := (List.cons.inj hn).1
      simp
    · rw [List.concat_eq_append, ← List.cons_append, ← List.append_assoc] at hsplit
      obtain ⟨hns, hb⟩ := List.append_inj' hsplit rfl
      obtain rfl := (List.cons.inj hb).1
      have hmem : n ∈ ns ++ [m] := by rw [hns]; simp
      have hnode := h.node as n bs' hns
      have hnf := hfresh n hmem
      rcases List.eq_nil_or_concat bs' with rfl | ⟨bs'', c, rfl⟩
      · obtain ⟨rfl, hn⟩ := List.append_inj' hns rfl
        obtain rfl := (List.cons.inj hn).1
        simp [hnf]
      · have hne : n.1 ≠ m.1 := by
          have hnodup := h.nodup
          rw [List.concat_eq_append, ← List.cons_append, ← List.append_assoc] at hns
          obtain ⟨rfl, hc⟩ := List.append_inj' hns rfl
          rw [List.map_append, List.nodup_append] at hnodup
          exact hnodup.2.2 n.1 (by simp) m.1 (by simp)
        simp [hnf, hne, hnode]

/-- Pushing a value appends its node. -/
theorem Consistent.push {list : AmfList α} {ns : List (Nat × α)} (h : list.Consistent ns)
    (hlt : ns.length + 1 < 2 ^ 32) (data : α) :
    (list.push data).Consistent (ns ++ [(list.fresh, data)]) := by
  rcases List.eq_nil_or_concat ns with rfl | ⟨ns', m, rfl⟩
  · exact push_nil h data
  · rw [List.concat_eq_append] at h hlt ⊢
    exact push_concat h (by simpa using hlt) data

theorem ofList_concat (xs : List α) (x : α) : ofList (xs ++ [x]) = (ofList xs).push x := by
  simp [ofList]

theorem size_push (list : AmfList α) (data : α) :
    (list.push data).size = (list.size + 1) % 2 ^ 32 := by
  unfold push alloc modify
  dsimp only
  split
  · rfl
  · split <;> rfl

/-- The size is the number of nodes as a `uint32`. -/
theorem size_ofList (xs : List α) : (ofList xs).size = xs.length % 2 ^ 32 := by
  induction xs using List.reverseRecOn with
  | nil => rfl
  | append_singleton xs x ih =>
    rw [ofList_concat, size_push, ih, List.length_append, List.length_singleton, Nat.mod_add_mod]

/-- A list made by pushing fewer than `2^32` values is consistent and holds these values. -/
theorem exists_consistent_ofList {xs : List α} (h : xs.length < 2 ^ 32) :
    ∃ ns, (ofList xs).Consistent ns ∧ ns.map Prod.snd = xs := by
  induction xs using List.reverseRecOn with
  | nil => exact ⟨[], consistent_init, rfl⟩
  | append_singleton xs x ih =>
    rw [List.length_append, List.length_singleton] at h
    obtain ⟨ns, hns, hxs⟩ := ih (by omega)
    have hlength : ns.length = xs.length := by rw [← hxs, List.length_map]
    refine ⟨ns ++ [((ofList xs).fresh, x)], ?_, by simp [hxs]⟩
    rw [ofList_concat]
    exact hns.push (by omega) x

/-! ## Deleting a node -/

/-- An assignment to a field of a node, unless the pointer is NULL. -/
def modifyAt (list : AmfList α) (p : Option Nat) (f : AmfNode α → AmfNode α) : AmfList α :=
  match p with
  | none => list
  | some p => list.modify p f

/-- `--` on a `uint32`. -/
def pred (size : Nat) : Nat := (size + (2 ^ 32 - 1)) % 2 ^ 32

theorem pred_succ {size : Nat} (h : size + 1 < 2 ^ 32) : pred (size + 1) = size := by
  unfold pred
  omega

/-- `amf_list_delete`: the data of the node, and the list after it. The memory of the node is
free afterwards. -/
def delete (list : AmfList α) : Option Nat → Option α × AmfList α
  | none => (none, list)
  | some p =>
    match list.nodes p with
    | none => (none, list)
    | some node =>
      let list := list.modifyAt node.next fun n => { n with prev := node.prev }
      let list := list.modifyAt node.prev fun n => { n with next := node.next }
      let list := if list.first = some p then { list with first := node.next } else list
      let list := if list.last = some p then { list with last := node.prev } else list
      (some node.data, { list with
        nodes := Function.update list.nodes p none
        size := pred list.size })

/-- `amf_list_pop`. -/
def pop (list : AmfList α) : Option α × AmfList α := list.delete list.last

theorem nodes_modifyAt (list : AmfList α) (p : Option Nat) (f : AmfNode α → AmfNode α) (q : Nat) :
    (list.modifyAt p f).nodes q = if p = some q then (list.nodes q).map f else list.nodes q := by
  cases p with
  | none => rfl
  | some p =>
    by_cases h : p = q
    · subst h
      simp [modifyAt, modify]
    · simp [modifyAt, modify, h, Function.update_of_ne (Ne.symm h)]

/-- What `amf_list_delete` does to the fields of the list. -/
theorem delete_of_node {list : AmfList α} {p : Nat} {node : AmfNode α}
    (h : list.nodes p = some node) : list.delete (some p) =
      (some node.data,
        { nodes := Function.update
            ((list.modifyAt node.next fun n => { n with prev := node.prev }).modifyAt node.prev
              fun n => { n with next := node.next }).nodes p none
          fresh := list.fresh
          size := pred list.size
          first := if list.first = some p then node.next else list.first
          last := if list.last = some p then node.prev else list.last }) := by
  have hfields : ∀ (l : AmfList α) (q : Option Nat) (f : AmfNode α → AmfNode α),
      (l.modifyAt q f).fresh = l.fresh ∧ (l.modifyAt q f).size = l.size ∧
        (l.modifyAt q f).first = l.first ∧ (l.modifyAt q f).last = l.last := by
    intro l q f
    cases q <;> exact ⟨rfl, rfl, rfl, rfl⟩
  simp only [delete, h]
  generalize hl₁ : list.modifyAt node.next (fun n => { n with prev := node.prev }) = l₁
  generalize hl₂ : l₁.modifyAt node.prev (fun n => { n with next := node.next }) = l₂
  obtain ⟨hfresh₁, hsize₁, hfirst₁, hlast₁⟩ := hl₁ ▸ hfields list _ _
  obtain ⟨hfresh₂, hsize₂, hfirst₂, hlast₂⟩ := hl₂ ▸ hfields l₁ _ _
  rw [hfresh₁] at hfresh₂
  rw [hsize₁] at hsize₂
  rw [hfirst₁] at hfirst₂
  rw [hlast₁] at hlast₂
  by_cases hfirst : list.first = some p
  · by_cases hlast : list.last = some p
    · simp [hfirst₂, hlast₂, hfirst, hlast, hfresh₂, hsize₂]
    · simp [hfirst₂, hlast₂, hfirst, hlast, hfresh₂, hsize₂]
  · by_cases hlast : list.last = some p
    · simp [hfirst₂, hlast₂, hfirst, hlast, hfresh₂, hsize₂]
    · simp [hfirst₂, hlast₂, hfirst, hlast, hfresh₂, hsize₂]

/-- No other node has the address of a node. -/
theorem Consistent.address_ne {list : AmfList α} {as bs : List (Nat × α)} {n m : Nat × α}
    (h : list.Consistent (as ++ n :: bs)) (hm : m ∈ as ∨ m ∈ bs) : m.1 ≠ n.1 := by
  have hnodup := h.nodup
  rw [List.map_append, List.map_cons, List.nodup_append] at hnodup
  obtain ⟨-, htail, hne⟩ := hnodup
  rcases hm with hm | hm
  · exact hne m.1 (List.mem_map_of_mem hm) n.1 List.mem_cons_self
  · intro heq
    have hnot := (List.nodup_cons.mp htail).1
    exact hnot (heq ▸ List.mem_map_of_mem hm)

/-- Where an element of two lists is. -/
theorem split_append {as bs cs ds : List α} {x : α} (h : as ++ bs = cs ++ x :: ds) :
    (∃ es, cs = as ++ es ∧ bs = es ++ x :: ds) ∨ ∃ es, as = cs ++ x :: es ∧ ds = es ++ bs := by
  rcases List.append_eq_append_iff.mp h with ⟨es, hcs, hbs⟩ | ⟨es, has, hds⟩
  · exact Or.inl ⟨es, hcs, hbs⟩
  · cases es with
    | nil => exact Or.inl ⟨[], by simpa using has.symm, by simpa using hds.symm⟩
    | cons e es =>
      obtain ⟨rfl, htail⟩ := List.cons.inj hds
      exact Or.inr ⟨es, has, htail⟩

/-- Deleting a node takes it out of the chain. -/
theorem Consistent.delete {list : AmfList α} {as bs : List (Nat × α)} {n : Nat × α}
    (h : list.Consistent (as ++ n :: bs)) (hlt : (as ++ n :: bs).length < 2 ^ 32) :
    (list.delete (some n.1)).1 = some n.2 ∧ (list.delete (some n.1)).2.Consistent (as ++ bs) ∧
      (list.delete (some n.1)).2.nodes n.1 = none := by
  have hnode := h.node as n bs rfl
  have hfirst : list.first = (as ++ n :: bs).head?.map Prod.fst := h.first
  have hlast : list.last = (as ++ n :: bs).getLast?.map Prod.fst := h.last
  have hlength : list.size = (as ++ bs).length + 1 := by
    rw [h.size]
    simp only [List.length_append, List.length_cons]
    omega
  rw [delete_of_node hnode]
  refine ⟨rfl, ⟨?_, ?_, ?_, ?_, ?_, ?_⟩, by simp⟩
  · have hsub : (as ++ bs).Sublist (as ++ n :: bs) :=
      List.Sublist.append_left (List.sublist_cons_self n bs) as
    exact h.nodup.sublist (hsub.map Prod.fst)
  · intro m hm
    refine h.allocated m ?_
    rcases List.mem_append.mp hm with hm | hm
    · exact List.mem_append_left _ hm
    · exact List.mem_append_right _ (List.mem_cons_of_mem n hm)
  · have hfits : (as ++ bs).length + 1 < 2 ^ 32 := by
      rw [← hlength, h.size]
      exact hlt
    have hsize := pred_succ hfits
    rw [← hlength] at hsize
    exact hsize
  · cases as with
    | nil => simp [hfirst]
    | cons a as =>
      have hne : a.1 ≠ n.1 := h.address_ne (Or.inl List.mem_cons_self)
      simp [hfirst, hne]
  · rcases List.eq_nil_or_concat bs with rfl | ⟨bs, b, rfl⟩
    · simp [hlast]
    · have hne : b.1 ≠ n.1 := h.address_ne (Or.inr (by simp))
      have hget : (as ++ n :: bs.concat b).getLast? = some b := by
        rw [List.concat_eq_append, ← List.cons_append, ← List.append_assoc, List.getLast?_concat]
      have hget' : (as ++ bs.concat b).getLast? = some b := by
        rw [List.concat_eq_append, ← List.append_assoc, List.getLast?_concat]
      dsimp only
      rw [hlast, hget, hget', Option.map_some, if_neg (by simpa using hne)]
  · intro as' m bs' hsplit
    have hmn : m.1 ≠ n.1 := by
      refine h.address_ne ?_
      rw [← List.mem_append, hsplit]
      simp
    dsimp only
    rw [Function.update_of_ne hmn, nodes_modifyAt, nodes_modifyAt]
    rcases split_append hsplit with ⟨cs, rfl, rfl⟩ | ⟨cs, rfl, rfl⟩
    · -- the node is behind the deleted one
      have hold := h.node (as ++ n :: cs) m bs' (by simp)
      have hprev : as.getLast?.map Prod.fst ≠ some m.1 := by
        intro heq
        obtain ⟨a, ha, ham⟩ := Option.map_eq_some_iff.mp heq
        have hmem : a ∈ as := List.mem_of_getLast? ha
        have hsplit' : as ++ n :: (cs ++ m :: bs') = (as ++ n :: cs) ++ m :: bs' := by simp
        rw [hsplit'] at h
        exact h.address_ne (Or.inl (List.mem_append_left _ hmem)) ham
      rw [if_neg hprev, hold]
      cases cs with
      | nil => simp
      | cons c cs =>
        have hne : c.1 ≠ m.1 := by
          have hsplit' : as ++ n :: (c :: cs ++ m :: bs') = (as ++ n :: c :: cs) ++ m :: bs' := by
            simp
          rw [hsplit'] at h
          exact h.address_ne (Or.inl (by simp))
        simp [hne]
    · -- the node is before the deleted one
      have hsplit' : as' ++ m :: cs ++ n :: bs = as' ++ m :: (cs ++ n :: bs) := by simp
      have hold := h.node as' m (cs ++ n :: bs) hsplit'
      rw [hsplit'] at h
      have hnext : bs.head?.map Prod.fst ≠ some m.1 := by
        intro heq
        obtain ⟨b, hb, hbm⟩ := Option.map_eq_some_iff.mp heq
        have hmem : b ∈ bs := List.mem_of_head? hb
        exact h.address_ne (Or.inr (by simp [hmem])) hbm
      rw [if_neg hnext, hold]
      rcases List.eq_nil_or_concat cs with rfl | ⟨cs, c, rfl⟩
      · simp
      · have hne : c.1 ≠ m.1 := h.address_ne (Or.inr (by simp))
        have hget : (as' ++ m :: cs.concat c).getLast? = some c := by
          rw [List.concat_eq_append, ← List.cons_append, ← List.append_assoc, List.getLast?_concat]
        rw [hget, Option.map_some, if_neg (by simpa using hne)]
        cases cs <;> simp

theorem Consistent.pop {list : AmfList α} {ns : List (Nat × α)} {n : Nat × α}
    (h : list.Consistent (ns ++ [n])) (hlt : (ns ++ [n]).length < 2 ^ 32) :
    list.pop.1 = some n.2 ∧ list.pop.2.Consistent ns := by
  have hlast : list.last = some n.1 := by rw [h.last, List.getLast?_concat, Option.map_some]
  obtain ⟨hdata, hrest, -⟩ := h.delete hlt
  rw [AmfList.pop, hlast]
  rw [List.append_nil] at hrest
  exact ⟨hdata, hrest⟩

/-- The size after a push and a pop, also when it wraps in between. -/
theorem Consistent.size_pop_push {list : AmfList α} {ns : List (Nat × α)} (h : list.Consistent ns)
    (data : α) : (list.push data).pop.2.size = AmfList.pred (list.push data).size := by
  have hnode : ∃ node, (list.push data).last = some list.fresh ∧
      (list.push data).nodes list.fresh = some node := by
    rcases List.eq_nil_or_concat ns with rfl | ⟨ns, m, rfl⟩
    · have hsize : list.size = 0 := h.size
      simp [AmfList.push, alloc, hsize]
    · rw [List.concat_eq_append] at h
      have hsize : list.size ≠ 0 := by simp [h.size]
      have hlast : list.last = some m.1 := by simp [h.last]
      have hne : list.fresh ≠ m.1 := Nat.ne_of_gt (h.allocated m (by simp))
      simp [AmfList.push, alloc, modify, hsize, hlast, hne]
  obtain ⟨node, hlast, hget⟩ := hnode
  rw [AmfList.pop, hlast, delete_of_node hget]

/-- Memory that is free stays free. -/
theorem nodes_delete_of_none {list : AmfList α} {q : Nat} (h : list.nodes q = none)
    (p : Option Nat) : (list.delete p).2.nodes q = none := by
  cases p with
  | none => exact h
  | some p =>
    cases hp : list.nodes p with
    | none =>
      simp only [AmfList.delete, hp]
      exact h
    | some node =>
      rw [delete_of_node hp]
      by_cases heq : q = p
      · simp [heq]
      · dsimp only
        rw [Function.update_of_ne heq, nodes_modifyAt, nodes_modifyAt, h]
        simp

/-- A node whose memory is free is one of two that are missing in the chain. -/
theorem Consistent.index_of_free {list : AmfList α} {ns as bs cs ds : List (Nat × α)}
    {n p v : Nat × α} (hnodup : (ns.map Prod.fst).Nodup) (hns : ns = as ++ p :: v :: bs)
    (h : list.Consistent (as ++ bs)) (hn : ns = cs ++ n :: ds) (hfree : list.nodes n.1 = none) :
    cs.length = as.length ∨ cs.length = as.length + 1 := by
  have hnot : n ∉ as ++ bs := by
    intro hmem
    obtain ⟨es, fs, hsplit⟩ := List.append_of_mem hmem
    rw [h.node es n fs hsplit] at hfree
    cases hfree
  have hget : (ns.map Prod.fst)[cs.length]? = some n.1 := by
    rw [hn]
    simp
  have hlt : cs.length < (ns.map Prod.fst).length := by
    rw [hn]
    simp
  have hmem : n ∈ as ++ p :: v :: bs := by
    rw [← hns, hn]
    simp
  simp only [List.mem_append, List.mem_cons, not_or] at hnot hmem
  rcases hmem with hmem | rfl | rfl | hmem
  · exact absurd hmem hnot.1
  · refine Or.inl ((List.getElem?_inj hlt hnodup).mp ?_)
    rw [hget, hns]
    simp
  · refine Or.inr ((List.getElem?_inj hlt hnodup).mp ?_)
    rw [hget, hns]
    simp
  · exact absurd hmem hnot.2

end AmfList

end FlvMeta
