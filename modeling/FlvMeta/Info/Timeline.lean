import Mathlib.Data.List.Induction
import FlvMeta.Info.Read

/-!
# The timeline of a file

Both passes fix the timestamps of the tags in the order of the file. `timeline` is the list of the
tags with their fixed timestamps, and what the passes derive from it: the first timestamp, the
timestamps written, the last of them, and the keyframes that are indexed.
-/

namespace FlvMeta

/-- A tag of a file, with its offset and its fixed timestamp. -/
structure TimedTag where
  offset : Nat
  tag : FlvTag
  fixed : Nat
deriving DecidableEq, Repr

/-- The clocks after a list of tags. -/
def clocksAfter (clocks : Clocks) (tags : List (Nat × FlvTag)) : Clocks :=
  tags.foldl (fun clocks x => (clocks.fix x.2).2) clocks

def timeline (clocks : Clocks) : List (Nat × FlvTag) → List TimedTag
  | [] => []
  | (p, tag) :: tags => ⟨p, tag, (clocks.fix tag).1⟩ :: timeline (clocks.fix tag).2 tags

/-- The tags of a file with a given content. -/
def timedTags (content : Bytes) : List TimedTag := timeline Clocks.init (tagsFrom content 13)

theorem timeline_append (clocks : Clocks) (xs ys : List (Nat × FlvTag)) :
    timeline clocks (xs ++ ys) = timeline clocks xs ++ timeline (clocksAfter clocks xs) ys := by
  induction xs generalizing clocks with
  | nil => rfl
  | cons x xs ih =>
    obtain ⟨p, tag⟩ := x
    simp [timeline, ih, clocksAfter]

theorem timeline_mono (clocks : Clocks) {xs ys : List (Nat × FlvTag)} (h : xs <+: ys) :
    timeline clocks xs <+: timeline clocks ys := by
  obtain ⟨zs, rfl⟩ := h
  rw [timeline_append]
  exact List.prefix_append _ _

theorem map_timeline (clocks : Clocks) (tags : List (Nat × FlvTag)) :
    (timeline clocks tags).map (fun t => (t.offset, t.tag)) = tags := by
  induction tags generalizing clocks with
  | nil => rfl
  | cons x tags ih =>
    obtain ⟨p, tag⟩ := x
    simp [timeline, ih]

theorem mem_tags_of_mem_timeline {clocks : Clocks} {tags : List (Nat × FlvTag)} {t : TimedTag}
    (h : t ∈ timeline clocks tags) : (t.offset, t.tag) ∈ tags := by
  have hmem := List.mem_map_of_mem (f := fun t : TimedTag => (t.offset, t.tag)) h
  rwa [map_timeline] at hmem

/-! ## Fixed timestamps are `uint32` values -/

theorem Clock.fix_lt (clock : Clock) {timestamp : Nat} (h : timestamp < 2 ^ 32) :
    (clock.fix timestamp).1 < 2 ^ 32 := by
  have key : ∀ extended, (if 0 < extended then (timestamp + extended * 2 ^ 24) % 2 ^ 32
      else timestamp) < 2 ^ 32 := fun extended => by
    split
    · exact Nat.mod_lt _ (by decide)
    · exact h
  exact key _

theorem Clocks.fix_lt (clocks : Clocks) (tag : FlvTag) : (clocks.fix tag).1 < 2 ^ 32 := by
  have h := flvTagGetTimestamp_lt tag
  unfold Clocks.fix
  dsimp only
  split
  · exact clocks.script.fix_lt h
  · split
    · exact clocks.audio.fix_lt h
    · split
      · exact clocks.video.fix_lt h
      · exact h

theorem fixed_lt_of_mem_timeline {clocks : Clocks} {tags : List (Nat × FlvTag)} {t : TimedTag}
    (h : t ∈ timeline clocks tags) : t.fixed < 2 ^ 32 := by
  induction tags generalizing clocks with
  | nil => cases h
  | cons x tags ih =>
    obtain ⟨p, tag⟩ := x
    rcases List.mem_cons.mp h with rfl | h
    · exact clocks.fix_lt tag
    · exact ih h

/-! ## Offsets -/

/-- The bytes that tags take in a file, with their previous tag sizes. -/
def span (ts : List TimedTag) : Nat := (ts.map fun t => flvTagGetBodyLength t.tag + 15).sum

/-- A tag is found behind the tags before it. -/
theorem offset_timeline {content : Bytes} (p : Nat) : ∀ {clocks : Clocks} {xs ys : List TimedTag}
    {t : TimedTag}, timeline clocks (tagsFrom content p) = xs ++ t :: ys →
      t.offset = p + span xs := by
  induction p using tagsFrom_induction content with
  | nil p hlt =>
    intro clocks xs ys t h
    simp [timeline] at h
  | cons p tag hle htag ih =>
    intro clocks xs ys t h
    rw [timeline] at h
    cases xs with
    | nil =>
      rw [← (List.cons.inj h).1]
      rfl
    | cons x xs =>
      obtain ⟨rfl, hrest⟩ := List.cons.inj h
      rw [ih hrest, nextTag, span, span, List.map_cons, List.sum_cons]
      dsimp only
      omega

/-! ## Timestamps written -/

/-- A fixed timestamp, perhaps made relative to the first one. -/
def relative {N : Type} (opts : FlvmetaOpts N) (first timestamp : Nat) : Nat :=
  if opts.resetTimestamps ∧ 0 < timestamp then subUint32 timestamp first else timestamp

theorem relative_lt {N : Type} (opts : FlvmetaOpts N) (first : Nat) {timestamp : Nat}
    (h : timestamp < 2 ^ 32) : relative opts first timestamp < 2 ^ 32 := by
  unfold relative
  split
  · exact Nat.mod_lt _ (by decide)
  · exact h

/-- The first timestamp of a tag that is not a script tag, zero if there is none. -/
def firstTimestamp : List TimedTag → Nat
  | [] => 0
  | t :: ts => if t.tag.type ≠ flvTagTypeMeta then t.fixed else firstTimestamp ts

theorem firstTimestamp_append_of_media {xs : List TimedTag}
    (h : ∃ t ∈ xs, t.tag.type ≠ flvTagTypeMeta) (ys : List TimedTag) :
    firstTimestamp (xs ++ ys) = firstTimestamp xs := by
  induction xs with
  | nil =>
    obtain ⟨t, ht, -⟩ := h
    simp at ht
  | cons x xs ih =>
    rw [List.cons_append, firstTimestamp, firstTimestamp]
    split
    · rfl
    · rename_i hx
      obtain ⟨t, ht, hmedia⟩ := h
      rcases List.mem_cons.mp ht with rfl | ht
      · exact absurd hmedia hx
      · exact ih ⟨t, ht, hmedia⟩

theorem firstTimestamp_append_of_scripts {xs : List TimedTag}
    (h : ∀ t ∈ xs, t.tag.type = flvTagTypeMeta) (ys : List TimedTag) :
    firstTimestamp (xs ++ ys) = firstTimestamp ys := by
  induction xs with
  | nil => rfl
  | cons x xs ih =>
    rw [List.cons_append, firstTimestamp, if_neg (by simp [h x (by simp)])]
    exact ih fun t ht => h t (by simp [ht])

/-- The timestamp written for the last tag, zero if there is none. -/
def lastTime {N : Type} (opts : FlvmetaOpts N) (ts : List TimedTag) : Nat :=
  match ts.getLast? with
  | none => 0
  | some t => relative opts (firstTimestamp ts) t.fixed

/-! ## Sizes -/

/-- The size of the tags of one type, their previous tag sizes not counted. -/
def sizeOfType (type : UInt8) : List FlvTag → Nat
  | [] => 0
  | tag :: tags =>
    (if tag.type = type then flvTagGetBodyLength tag + flvTagSize else 0) + sizeOfType type tags

@[simp] theorem sizeOfType_append (type : UInt8) (xs ys : List FlvTag) :
    sizeOfType type (xs ++ ys) = sizeOfType type xs + sizeOfType type ys := by
  induction xs with
  | nil => simp [sizeOfType]
  | cons tag xs ih => simp [sizeOfType, ih, Nat.add_assoc]

/-! ## The index of keyframes -/

/-- The first byte of the body of a keyframe. -/
def IsKeyframeByte (b : UInt8) : Prop :=
  flvVideoTagFrameType ⟨b, 0⟩ = flvVideoTagFrameTypeKeyframe

instance (b : UInt8) : Decidable (IsKeyframeByte b) := inferInstanceAs (Decidable (_ = _))

/-- A video tag that starts with a keyframe byte. -/
def IsKeyframe (content : Bytes) (t : TimedTag) : Prop :=
  t.tag.type = flvTagTypeVideo ∧ flvTagGetBodyLength t.tag ≠ 0 ∧
    IsKeyframeByte (content.getD (t.offset + 11) 0)

instance (content : Bytes) (t : TimedTag) : Decidable (IsKeyframe content t) :=
  inferInstanceAs (Decidable (_ ∧ _ ∧ _))

/-- A keyframe is indexed unless the one indexed before it has the same timestamp. -/
def indexKeyframe {N : Type} (opts : FlvmetaOpts N) (content : Bytes) (first : Nat)
    (index : List TimedTag) (t : TimedTag) : List TimedTag :=
  if IsKeyframe content t ∧
    ((∀ k ∈ index.getLast?, relative opts first k.fixed ≠ relative opts first t.fixed) ∨
      opts.allKeyframes) then index ++ [t]
  else index

/-- The keyframes that are indexed. -/
def indexed {N : Type} (opts : FlvmetaOpts N) (content : Bytes) (first : Nat)
    (ts : List TimedTag) : List TimedTag :=
  ts.foldl (indexKeyframe opts content first) []

theorem indexed_concat {N : Type} (opts : FlvmetaOpts N) (content : Bytes) (first : Nat)
    (ts : List TimedTag) (t : TimedTag) :
    indexed opts content first (ts ++ [t]) =
      indexKeyframe opts content first (indexed opts content first ts) t := by
  simp [indexed]

/-- Where all keyframes are indexed, a list of keyframes is its own index. -/
theorem indexed_keyframes {N : Type} {opts : FlvmetaOpts N} {content : Bytes} {ts : List TimedTag}
    (hall : opts.allKeyframes = true) (first : Nat) (h : ∀ t ∈ ts, IsKeyframe content t) :
    indexed opts content first ts = ts := by
  induction ts using List.reverseRecOn with
  | nil => rfl
  | append_singleton ts t ih =>
    rw [indexed_concat, ih fun t ht => h t (List.mem_append_left _ ht), indexKeyframe,
      if_pos ⟨h t (by simp), Or.inr hall⟩]

/-- What is indexed is a keyframe of the file. -/
theorem mem_indexed {N : Type} {opts : FlvmetaOpts N} {content : Bytes} {first : Nat}
    {ts : List TimedTag} {k : TimedTag} (h : k ∈ indexed opts content first ts) :
    k ∈ ts ∧ IsKeyframe content k := by
  induction ts using List.reverseRecOn with
  | nil => simp [indexed] at h
  | append_singleton ts t ih =>
    rw [indexed_concat, indexKeyframe] at h
    split at h
    · rename_i hindex
      rcases List.mem_append.mp h with hk | hk
      · exact ⟨List.mem_append_left _ (ih hk).1, (ih hk).2⟩
      · obtain rfl : k = t := by simpa using hk
        exact ⟨by simp, hindex.1⟩
    · exact ⟨List.mem_append_left _ (ih h).1, (ih h).2⟩

theorem indexed_of_scripts {N : Type} (opts : FlvmetaOpts N) (content : Bytes) (first : Nat)
    {ts : List TimedTag} (h : ∀ t ∈ ts, t.tag.type = flvTagTypeMeta) :
    indexed opts content first ts = [] := by
  refine List.eq_nil_iff_forall_not_mem.mpr fun k hk => ?_
  obtain ⟨hmem, hkey⟩ := mem_indexed hk
  exact absurd ((h k hmem).symm.trans hkey.1) (by decide)

/-- A statement about every element and the elements before it, at the first one and behind it. -/
theorem forall_split_cons {α : Type} {P : List α → α → Prop} {y : α} {ys : List α} :
    (∀ earlier z later, y :: ys = earlier ++ z :: later → P earlier z) ↔
      P [] y ∧ ∀ earlier z later, ys = earlier ++ z :: later → P (y :: earlier) z := by
  constructor
  · exact fun h => ⟨h [] y ys rfl, fun earlier z later heq => h (y :: earlier) z later (by
      rw [heq, List.cons_append])⟩
  · rintro ⟨hfirst, hrest⟩ earlier z later heq
    cases earlier with
    | nil =>
      cases heq
      exact hfirst
    | cons e earlier =>
      cases heq
      exact hrest earlier z later rfl

end FlvMeta
