import Mathlib.Data.List.Chain
import FlvMeta.Info.Timeline

/-!
# Unwrapping timestamps

A file may store a timestamp in full, or only its lower 24 bits. Each type of tag has a clock, and
tags of other types do not change it. If the times of a type do not go back and grow by less than
`0x100000` from tag to tag, its clock holds what was stored for the last of them and the number of
times that the lower bits have wrapped (`Storage.clock`), so the fixed timestamps are the times
(`timeline_true`).
-/

namespace FlvMeta

/-! ## True timestamps -/

/-- The times of tags of one type. -/
structure TrueTimes (truth : Nat × FlvTag → Nat) (tags : List (Nat × FlvTag)) : Prop where
  lt : ∀ x ∈ tags, truth x < 2 ^ 31
  start : ∀ x ∈ tags.head?, truth x < 2 ^ 24
  steps : tags.IsChain fun x y => truth x ≤ truth y ∧ truth y - truth x < 0x100000

/-- Audio, video and script tags in any order, with the times of each type. -/
structure TrueTimestamps (truth : Nat × FlvTag → Nat) (tags : List (Nat × FlvTag)) : Prop where
  known : ∀ x ∈ tags, x.2.Known
  ofType : ∀ type, TrueTimes truth (tags.filter fun x => x.2.type = type)

/-- It is enough to look at the three known types. -/
theorem TrueTimestamps.of_types {truth : Nat × FlvTag → Nat} {tags : List (Nat × FlvTag)}
    (known : ∀ x ∈ tags, x.2.Known)
    (audio : TrueTimes truth (tags.filter fun x => x.2.type = flvTagTypeAudio))
    (video : TrueTimes truth (tags.filter fun x => x.2.type = flvTagTypeVideo))
    (script : TrueTimes truth (tags.filter fun x => x.2.type = flvTagTypeMeta)) :
    TrueTimestamps truth tags := by
  refine ⟨known, fun type => ?_⟩
  by_cases htype : type = flvTagTypeMeta ∨ type = flvTagTypeAudio ∨ type = flvTagTypeVideo
  · rcases htype with rfl | rfl | rfl
    · exact script
    · exact audio
    · exact video
  · have hnone : tags.filter (fun x => x.2.type = type) = [] := by
      refine List.filter_eq_nil_iff.mpr fun x hx heq => htype ?_
      rw [← of_decide_eq_true heq]
      exact known x hx
    rw [hnone]
    exact ⟨by simp, by simp, .nil⟩

/-- Every timestamp is stored modulo `2^24`, with a zero extension byte. -/
def StoredModulo (truth : Nat × FlvTag → Nat) (tags : List (Nat × FlvTag)) : Prop :=
  ∀ x ∈ tags, x.2.timestampExtended = 0 ∧ uint24BeToUint32 x.2.timestamp = truth x % 2 ^ 24

/-- Every timestamp is stored in full. -/
def StoredInFull (truth : Nat × FlvTag → Nat) (tags : List (Nat × FlvTag)) : Prop :=
  ∀ x ∈ tags, flvTagGetTimestamp x.2 = truth x

/-! ## One clock -/

inductive Storage where
  | modulo
  | full

namespace Storage

def stored : Storage → Nat → Nat
  | modulo, time => time % 2 ^ 24
  | full, time => time

/-- The clock of a type after a tag with a given time. -/
def clock : Storage → Nat → Clock
  | modulo, time => ⟨time % 2 ^ 24, time / 2 ^ 24⟩
  | full, time => ⟨time, 0⟩

/-- A time and the next one of the same type; the times of a type start before the first wrap. -/
def Follows (time next : Nat) : Prop :=
  time ≤ next ∧ (next - time < 0x100000 ∨ next / 2 ^ 24 = time / 2 ^ 24) ∧ next < 2 ^ 31

/-- A clock that shows the last time shows the next one. -/
theorem fix_clock (s : Storage) {time next : Nat} (h : Follows time next) :
    (s.clock time).fix (s.stored next) = (next, s.clock next) := by
  obtain ⟨hle, hstep, hlt⟩ := h
  cases s with
  | full =>
    have hnowrap : ¬ (next < time ∧ 0xF00000 < time - next) := by omega
    unfold clock stored Clock.fix
    dsimp only
    rw [if_neg hnowrap]
    rfl
  | modulo =>
    -- the lower bits go back by more than 0xF00000 exactly when the next time has wrapped
    have hextended : (if next % 2 ^ 24 < time % 2 ^ 24 ∧ 0xF00000 < time % 2 ^ 24 - next % 2 ^ 24
        then (time / 2 ^ 24 + 1) % 2 ^ 8 else time / 2 ^ 24) = next / 2 ^ 24 := by
      split <;> omega
    have htime : (if 0 < next / 2 ^ 24 then (next % 2 ^ 24 + next / 2 ^ 24 * 2 ^ 24) % 2 ^ 32
        else next % 2 ^ 24) = next := by
      split <;> omega
    unfold clock stored Clock.fix
    dsimp only
    rw [hextended, htime]

end Storage

/-! ## Three clocks -/

namespace Clocks

/-- The clock of a type of tag. -/
def get (clocks : Clocks) (type : UInt8) : Clock :=
  if type = flvTagTypeMeta then clocks.script
  else if type = flvTagTypeAudio then clocks.audio
  else clocks.video

theorem fix_fst {clocks : Clocks} {tag : FlvTag} (h : tag.Known) :
    (clocks.fix tag).1 = ((clocks.get tag.type).fix (flvTagGetTimestamp tag)).1 := by
  unfold fix get
  rcases h with h | h | h <;> simp [h, flvTagTypeMeta, flvTagTypeAudio, flvTagTypeVideo]

/-- Only the clock of the type of the tag changes. -/
theorem get_fix {clocks : Clocks} {tag : FlvTag} (h : tag.Known) {type : UInt8}
    (ht : type = flvTagTypeMeta ∨ type = flvTagTypeAudio ∨ type = flvTagTypeVideo) :
    (clocks.fix tag).2.get type =
      if tag.type = type then ((clocks.get type).fix (flvTagGetTimestamp tag)).2
      else clocks.get type := by
  unfold fix get
  rcases h with h | h | h <;> rcases ht with rfl | rfl | rfl <;>
    simp [h, flvTagTypeMeta, flvTagTypeAudio, flvTagTypeVideo]

end Clocks

/-- The clock of a type shows a time from which the times of its tags go on. -/
def GoesOn (s : Storage) (truth : Nat × FlvTag → Nat) (tags : List (Nat × FlvTag))
    (clocks : Clocks) (type : UInt8) : Prop :=
  ∃ time, clocks.get type = s.clock time ∧
    (time :: (tags.filter fun x => x.2.type = type).map truth).IsChain Storage.Follows

theorem goesOn_step {s : Storage} {truth : Nat × FlvTag → Nat} {x : Nat × FlvTag}
    {tags : List (Nat × FlvTag)} {clocks : Clocks} (hknown : x.2.Known)
    (hstored : flvTagGetTimestamp x.2 = s.stored (truth x)) {type : UInt8}
    (ht : type = flvTagTypeMeta ∨ type = flvTagTypeAudio ∨ type = flvTagTypeVideo)
    (h : GoesOn s truth (x :: tags) clocks type) :
    GoesOn s truth tags (clocks.fix x.2).2 type ∧
      (x.2.type = type → (clocks.fix x.2).1 = truth x) := by
  obtain ⟨time, hclock, hchain⟩ := h
  by_cases htype : x.2.type = type
  · rw [List.filter_cons_of_pos (by simpa using htype), List.map_cons,
      List.isChain_cons_cons] at hchain
    have hfix := s.fix_clock hchain.1
    refine ⟨⟨truth x, ?_, hchain.2⟩, fun _ => ?_⟩
    · rw [Clocks.get_fix hknown ht, if_pos htype, hclock, hstored, hfix]
    · rw [Clocks.fix_fst hknown, htype, hclock, hstored, hfix]
  · rw [List.filter_cons_of_neg (by simpa using htype)] at hchain
    refine ⟨⟨time, ?_, hchain⟩, fun h => absurd h htype⟩
    rw [Clocks.get_fix hknown ht, if_neg htype, hclock]

theorem timeline_goesOn {s : Storage} {truth : Nat × FlvTag → Nat} {tags : List (Nat × FlvTag)}
    {clocks : Clocks} (hknown : ∀ x ∈ tags, x.2.Known)
    (hstored : ∀ x ∈ tags, flvTagGetTimestamp x.2 = s.stored (truth x))
    (h : ∀ type, (type = flvTagTypeMeta ∨ type = flvTagTypeAudio ∨ type = flvTagTypeVideo) →
      GoesOn s truth tags clocks type) :
    ∀ t ∈ timeline clocks tags, t.fixed = truth (t.offset, t.tag) := by
  induction tags generalizing clocks with
  | nil => simp [timeline]
  | cons x tags ih =>
    obtain ⟨p, tag⟩ := x
    have hx := hknown _ List.mem_cons_self
    have hsx := hstored _ List.mem_cons_self
    have hrest := ih (fun y hy => hknown y (List.mem_cons_of_mem _ hy))
      (fun y hy => hstored y (List.mem_cons_of_mem _ hy))
      (fun type ht => (goesOn_step hx hsx ht (h type ht)).1)
    intro t ht
    rcases List.mem_cons.mp ht with rfl | ht
    · exact (goesOn_step hx hsx hx (h tag.type hx)).2 rfl
    · exact hrest t ht

/-- The times of one type go on from a clock that shows zero. -/
theorem TrueTimes.isChain {truth : Nat × FlvTag → Nat} {tags : List (Nat × FlvTag)}
    (h : TrueTimes truth tags) : (0 :: tags.map truth).IsChain Storage.Follows := by
  obtain ⟨hlt, hstart, hsteps⟩ := h
  cases tags with
  | nil => exact .singleton 0
  | cons x tags =>
    have hx := hstart x rfl
    have hfirst : Storage.Follows 0 (truth x) := ⟨Nat.zero_le _, Or.inr (by omega), by omega⟩
    refine .cons_cons hfirst ((List.isChain_map truth (l := x :: tags)).mpr ?_)
    refine hsteps.imp_of_mem_imp fun y z hy hz hyz => ?_
    exact ⟨hyz.1, Or.inl hyz.2, hlt z hz⟩

/-- The fixed timestamps are the true ones. -/
theorem timeline_true {truth : Nat × FlvTag → Nat} {tags : List (Nat × FlvTag)}
    (h : TrueTimestamps truth tags) (hstored : StoredModulo truth tags ∨ StoredInFull truth tags) :
    ∀ t ∈ timeline Clocks.init tags, t.fixed = truth (t.offset, t.tag) := by
  rcases hstored with hstored | hstored
  · refine timeline_goesOn (s := .modulo) h.known ?_ fun type ht => ?_
    · intro x hx
      obtain ⟨hzero, htime⟩ := hstored x hx
      rw [flvTagGetTimestamp, hzero, htime]
      rfl
    · refine ⟨0, ?_, (h.ofType type).isChain⟩
      rcases ht with rfl | rfl | rfl <;> rfl
  · refine timeline_goesOn (s := .full) h.known hstored fun type ht => ?_
    refine ⟨0, ?_, (h.ofType type).isChain⟩
    rcases ht with rfl | rfl | rfl <;> rfl

end FlvMeta
