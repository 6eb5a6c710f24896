import FlvMeta.Update.Keyframes

/-!
# The `onLastSecond` event

Whether an `onLastSecond` tag is inserted, and where, is decided twice: when the metadata are
computed, for each keyframe by its timestamp (`AfterOnLastSecond`), and when the output is written,
at the first copied tag whose distance to the last timestamp, as a `uint32`, is at most one second
(`Qualifies`). The two decisions agree just on the files whose keyframes are in order with respect
to the last second (`onLastSecond_agrees_iff`).
-/

namespace FlvMeta

open Endian Stdio

/-! ## Where the tag is inserted -/

section

variable {N : Type} (opts : FlvmetaOpts N) (info : FlvInfo N)

/-- A copied tag within the last second. -/
def Qualifies (t : TimedTag) : Prop :=
  ¬ t.Replaced info ∧ subUint32 info.lastTimestamp (t.time opts info) ≤ 1000

instance (t : TimedTag) : Decidable (Qualifies opts info t) := inferInstanceAs (Decidable (_ ∧ _))

variable {opts info}

theorem length_layout [NumberImage N] (opts : FlvmetaOpts N) (info : FlvInfo N)
    (metadata : FlvMetadata N) (content : Bytes) (seen : Bool) (ts : List TimedTag) :
    (layout opts info metadata content seen ts).length = ts.length := by
  induction ts generalizing seen with
  | nil => rfl
  | cons t ts ih =>
    unfold layout
    split
    · simp [ih]
    · split <;> simp [ih]

/-- One of the first groups has an `onLastSecond` tag when one of their tags is within the last
second. -/
theorem exists_inserted_iff [NumberImage N] (hinsert : opts.insertOnlastsecond = true)
    (hhave : info.haveOnLastSecond = false) (metadata : FlvMetadata N) (content : Bytes)
    (ts : List TimedTag) (n : Nat) :
    (∃ group ∈ (layout opts info metadata content false ts).take n, group.length ≠ 1) ↔
      ∃ t ∈ ts.take n, Qualifies opts info t := by
  induction ts generalizing n with
  | nil => simp [layout]
  | cons t ts ih =>
    cases n with
    | zero => simp
    | succ n =>
      rw [layout]
      by_cases hreplaced : t.Replaced info
      · simp [hreplaced, Qualifies, ih]
      · by_cases hnear : subUint32 info.lastTimestamp (t.time opts info) ≤ 1000
        · simp [hreplaced, InsertsOnLastSecond, hinsert, hhave, Qualifies, hnear]
        · simp [hreplaced, InsertsOnLastSecond, hinsert, hhave, Qualifies, hnear, ih]

/-- Exactly one `onLastSecond` tag is inserted when some tag is within the last second. -/
theorem inserted_once_iff [NumberImage N] (hinsert : opts.insertOnlastsecond = true)
    (hhave : info.haveOnLastSecond = false) (metadata : FlvMetadata N) (content : Bytes)
    (ts : List TimedTag) :
    ((layout opts info metadata content false ts).filter (·.length ≠ 1)).length = 1 ↔
      ∃ t ∈ ts, Qualifies opts info t := by
  have hlength := length_layout opts info metadata content false ts
  have hexists := exists_inserted_iff hinsert hhave metadata content ts ts.length
  rw [List.take_length, ← hlength, List.take_length] at hexists
  rw [← hexists]
  have hle := layout_inserted_le opts info metadata content false ts
  have hpos : 0 < ((layout opts info metadata content false ts).filter (·.length ≠ 1)).length ↔
      ∃ group ∈ layout opts info metadata content false ts, group.length ≠ 1 := by
    simp [List.length_pos_iff_exists_mem]
  rw [← hpos]
  simp only [Bool.false_eq_true, if_false] at hle
  omega

end

/-! ## The two decisions -/

section

variable [NumberImage ℚ] (env : Environment) (opts : FlvmetaOpts ℚ) (info : FlvInfo ℚ)
  (content : Bytes)

/-- The groups of pieces written for the tags of a file. -/
def writtenGroups : List (List Piece) :=
  layout opts info (computeMetadata env opts info) content false (timedTags content)

/-- The keyframes that are indexed. -/
def indexedKeyframes : List TimedTag :=
  indexed opts content (firstTimestamp (timedTags content)) (timedTags content)

/-- Exactly one `onLastSecond` tag is inserted if it is counted in the sizes, and it is counted in
the positions of the keyframes that it comes before. -/
def LastSecondAgrees : Prop :=
  (countsOnLastSecond opts info = true →
    ((writtenGroups env opts info content).filter (·.length ≠ 1)).length = 1) ∧
  ∀ xs k ys, timedTags content = xs ++ k :: ys → k ∈ indexedKeyframes opts content →
    (AfterOnLastSecond opts info (seconds (k.time opts info)) ↔
      ∃ group ∈ (writtenGroups env opts info content).take (xs.length + 1), group.length ≠ 1)

/-- A keyframe `k` that comes after the tags `xs` is in order with respect to the last second. -/
def InOrder (xs : List TimedTag) (k : TimedTag) : Prop :=
  (k.time opts info + 1000 < info.lastTimestamp → ∀ t ∈ xs, ¬ Qualifies opts info t) ∧
  (info.lastTimestamp < k.time opts info → ∃ t ∈ xs ++ [k], Qualifies opts info t)

variable {opts info content}

theorem afterOnLastSecond_iff (hinsert : opts.insertOnlastsecond = true)
    (hhave : info.haveOnLastSecond = false) (timestamp : Nat) :
    AfterOnLastSecond opts info (seconds timestamp) ↔ info.lastTimestamp ≤ timestamp + 1000 := by
  have hmul : (Number64.mul (seconds timestamp) (number 1000) : ℚ) = timestamp := by
    rw [← thousand_mul_seconds, mul_comm]
    rfl
  have hle : Number64.le (Number64.sub (number info.lastTimestamp)
      (Number64.mul (seconds timestamp) (number 1000))) (number 1000 : ℚ) =
        decide ((info.lastTimestamp : ℚ) - timestamp ≤ (1000 : Nat)) := by
    rw [hmul, number_natCast, show (1000 : Int) = (1000 : Nat) from rfl, number_natCast]
    rfl
  rw [AfterOnLastSecond, hinsert, hhave, hle, decide_eq_true_eq, sub_le_iff_le_add, ← Nat.cast_add,
    Rat.natCast_le_natCast, Nat.add_comm]
  simp

/-- For a keyframe the decisions agree just when it is in order. -/
theorem decisions_iff (hinsert : opts.insertOnlastsecond = true)
    (hhave : info.haveOnLastSecond = false) (hlast : info.lastTimestamp < 2 ^ 32)
    {xs : List TimedTag} {k : TimedTag} (hk : ¬ k.Replaced info)
    (htime : k.time opts info < 2 ^ 32) :
    (AfterOnLastSecond opts info (seconds (k.time opts info)) ↔
      ∃ t ∈ xs ++ [k], Qualifies opts info t) ↔ InOrder opts info xs k := by
  rw [afterOnLastSecond_iff hinsert hhave, InOrder]
  have hself : Qualifies opts info k ↔
      subUint32 info.lastTimestamp (k.time opts info) ≤ 1000 := and_iff_right hk
  rcases Nat.lt_or_ge info.lastTimestamp (k.time opts info) with hlate | hle
  · -- a keyframe after the last timestamp is counted, the difference of its timestamp wraps
    have hcount : info.lastTimestamp ≤ k.time opts info + 1000 := by omega
    have hnear : ¬ k.time opts info + 1000 < info.lastTimestamp := by omega
    simp only [hcount, hnear, hlate, true_iff, true_implies, false_implies, true_and]
  · have hsub : subUint32 info.lastTimestamp (k.time opts info) =
        info.lastTimestamp - k.time opts info := by
      rw [subUint32_of_le htime hle]
      omega
    have hnot : ¬ info.lastTimestamp < k.time opts info := by omega
    by_cases hcount : info.lastTimestamp ≤ k.time opts info + 1000
    · have hqualifies : Qualifies opts info k := hself.mpr (by omega)
      have hnear : ¬ k.time opts info + 1000 < info.lastTimestamp := by omega
      simp only [hcount, hnear, hnot, true_iff, false_implies, and_true, iff_true]
      exact ⟨k, by simp, hqualifies⟩
    · have hqualifies : ¬ Qualifies opts info k := fun h => by
        have := hself.mp h
        omega
      have hfar : k.time opts info + 1000 < info.lastTimestamp := by omega
      simp only [hcount, hfar, hnot, true_implies, false_iff, false_implies, and_true]
      simp [hqualifies]

theorem lastTimestamp_lt (hplain : PlainFile content) {stream : FlvStream}
    (hinfo : getFlvInfo opts (flvOpen content) = (.ok info, stream)) :
    info.lastTimestamp < 2 ^ 32 := by
  obtain ⟨header, st, rfl, -, -, hgathered⟩ := getFlvInfo_plain hplain hinfo
  rw [hgathered.last, lastTime]
  split
  · decide
  · rename_i t ht
    exact relative_lt opts _ (fixed_lt_of_mem_timeline (List.mem_of_getLast? ht))

/-- The last tag is within the last second, so there is such a copied tag when there is a copied
tag at all. -/
theorem exists_qualifies_iff (hplain : PlainFile content) {stream : FlvStream}
    (hinfo : getFlvInfo opts (flvOpen content) = (.ok info, stream))
    (hfirst : info.onMetadataSize = 0 ∨ info.onMetadataOffset = 13) :
    (∃ t ∈ timedTags content, Qualifies opts info t) ↔
      ∃ t ∈ timedTags content, ¬ t.Replaced info := by
  obtain ⟨header, st, rfl, -, -, hgathered⟩ := getFlvInfo_plain hplain hinfo
  refine ⟨fun ⟨t, ht, h⟩ => ⟨t, ht, h.1⟩, fun ⟨u, hu, hcopied⟩ => ?_⟩
  rcases List.eq_nil_or_concat (timedTags content) with hnil | ⟨xs, t, hts⟩
  · rw [hnil] at hu
    cases hu
  · rw [List.concat_eq_append] at hts
    have hself : t.time opts st.info = st.info.lastTimestamp := by
      rw [hgathered.last, lastTime, hts, List.getLast?_concat, ← hts]
      simp only [TimedTag.time, hgathered.first]
    have hlast : ¬ t.Replaced st.info := by
      intro hreplaced
      rcases hgathered.selected_split with ⟨-, hnone⟩ | ⟨_, t', _, _, _, _, hsize, _⟩
      · exact hnone t (by rw [hts]; simp) hreplaced
      · obtain rfl := eq_nil_of_replaced hts hreplaced (hfirst.resolve_left (by omega))
        rw [hts, List.nil_append, List.mem_singleton] at hu
        exact hcopied (hu ▸ hreplaced)
    refine ⟨t, by rw [hts]; simp, hlast, ?_⟩
    rw [hself, subUint32]
    omega

/-- An indexed keyframe is copied. -/
theorem not_replaced_of_indexed (hplain : PlainFile content) {stream : FlvStream}
    (hinfo : getFlvInfo opts (flvOpen content) = (.ok info, stream)) {k : TimedTag}
    (hk : k ∈ indexedKeyframes opts content) : ¬ k.Replaced info := by
  obtain ⟨hmem, hkey⟩ := mem_indexed hk
  obtain ⟨header, st, rfl, -, -, hgathered⟩ := getFlvInfo_plain hplain hinfo
  intro hreplaced
  rcases hgathered.selected_split with ⟨-, hnone⟩ | ⟨xs, t, ys, hts, -, htype, -, hrest⟩
  · exact hnone k hmem hreplaced
  · rw [hts, List.mem_append, List.mem_cons] at hmem
    rcases hmem with hxs | rfl | hys
    · exact hrest k (List.mem_append_left _ hxs) hreplaced
    · exact absurd (htype.symm.trans hkey.1) (by decide)
    · exact hrest k (List.mem_append_right _ hys) hreplaced

/-- When an update with `onLastSecond` tags succeeds on a plain file whose selected tag, if any, is
the first one, and which has no tag that is taken for `onLastSecond`, exactly one such tag is
inserted and it is counted for the keyframes behind it if and only if some tag is copied and every
indexed keyframe is in order. -/
theorem onLastSecond_agrees_iff (hinsert : opts.insertOnlastsecond = true)
    {files : UpdateFiles} (hinput : files.input = some content) (hplain : PlainFile content)
    {stream : FlvStream} (hinfo : getFlvInfo opts (flvOpen content) = (.ok info, stream))
    (hfirst : info.onMetadataSize = 0 ∨ info.onMetadataOffset = 13)
    (hhave : info.haveOnLastSecond = false) {out : OutFile}
    (hupdate : updateMetadata env opts files = (.ok, some out)) :
    (∃ first : List Piece, out.written = content.take 9 ++ ([0, 0, 0, 0] ++
      (first ++ (writtenGroups env opts info content).flatten).flatMap Piece.bytes)) ∧
    List.Forall₂ (Appears content info.onMetadataOffset
      (onMetadataPiece (computeMetadata env opts info))
      (onLastSecondPiece opts info (computeMetadata env opts info)))
      (tagsFrom content 13) (writtenGroups env opts info content) ∧
    (info.times = (indexedKeyframes opts content).map fun k => seconds (k.time opts info)) ∧
    (LastSecondAgrees env opts info content ↔
      (∃ t ∈ timedTags content, ¬ t.Replaced info) ∧
      ∀ xs k ys, timedTags content = xs ++ k :: ys → k ∈ indexedKeyframes opts content →
        InOrder opts info xs k) := by
  refine ⟨?_, ?_, ?_, ?_⟩
  · rw [updateMetadata_plain env hinput hplain hinfo hupdate, outputPieces_plain env hplain hinfo]
    exact ⟨_, rfl⟩
  · have happears := layout_appears opts (computeMetadata env opts info)
      (copiedWhole_of_plain hplain hinfo) false
    rwa [timedTags, map_timeline] at happears
  · obtain ⟨header, st, rfl, -, -, hgathered⟩ := getFlvInfo_plain hplain hinfo
    rw [hgathered.times]
    simp only [TimedTag.time, hgathered.first]
    rfl
  · have hcounts : countsOnLastSecond opts info = true := by
      simp [countsOnLastSecond, hinsert, hhave]
    refine and_congr ?_ (forall_congr' fun xs => forall_congr' fun k => forall_congr' fun ys =>
      forall_congr' fun hsplit => forall_congr' fun hk => ?_)
    · rw [← exists_qualifies_iff hplain hinfo hfirst, writtenGroups,
        inserted_once_iff hinsert hhave]
      simp [hcounts]
    · have htake : (timedTags content).take (xs.length + 1) = xs ++ [k] := by
        rw [hsplit, List.take_length_add_append]
        rfl
      rw [writtenGroups, exists_inserted_iff hinsert hhave, htake]
      exact decisions_iff hinsert hhave (lastTimestamp_lt hplain hinfo)
        (not_replaced_of_indexed hplain hinfo hk)
        (relative_lt opts info.firstTimestamp (fixed_lt_of_mem_timeline (mem_indexed hk).1))

end

/-! ## A keyframe after the last timestamp -/

/-- A file of a video tag, a keyframe at 5000 ms, and an audio tag at 2000 ms. -/
def lateKeyframe : Bytes :=
  [0x46, 0x4C, 0x56, 1, 5, 0, 0, 0, 9, 0, 0, 0, 0,
    9, 0, 0, 1, 0, 0x13, 0x88, 0, 0, 0, 0, 0x11, 0, 0, 0, 12,
    8, 0, 0, 1, 0, 0x07, 0xD0, 0, 0, 0, 0, 0x2F, 0, 0, 0, 12]

theorem plainFile_lateKeyframe : PlainFile lateKeyframe := by
  have htags : tagsFrom lateKeyframe 13 =
      [(13, ⟨9, ⟨0, 0, 1⟩, ⟨0, 0x13, 0x88⟩, 0, ⟨0, 0, 0⟩⟩),
        (29, ⟨8, ⟨0, 0, 1⟩, ⟨0, 0x07, 0xD0⟩, 0, ⟨0, 0, 0⟩⟩)] := by
    rfl
  apply PlainFile.of_scripts
  · rw [htags]
    decide
  · rw [htags]
    exact List.forall_mem_nil _

/-- The decisions on this file agree just when its keyframe is in order. -/
theorem onLastSecond_agrees_iff_lateKeyframe :
    letI := blankImage
    letI opts : FlvmetaOpts ℚ := defaultOptions
    letI env : Environment := ⟨[], 0⟩
    ∃ (info : FlvInfo ℚ) (stream : FlvStream) (out : OutFile),
      getFlvInfo opts (flvOpen lateKeyframe) = (.ok info, stream) ∧
      updateMetadata env opts ⟨some lateKeyframe, false, none, some ⟨none⟩⟩ = (.ok, some out) ∧
      (∃ first : List Piece, out.written = lateKeyframe.take 9 ++ ([0, 0, 0, 0] ++
        (first ++ (writtenGroups env opts info lateKeyframe).flatten).flatMap Piece.bytes)) ∧
      List.Forall₂ (Appears lateKeyframe info.onMetadataOffset
        (onMetadataPiece (computeMetadata env opts info))
        (onLastSecondPiece opts info (computeMetadata env opts info)))
        (tagsFrom lateKeyframe 13) (writtenGroups env opts info lateKeyframe) ∧
      (info.times =
        (indexedKeyframes opts lateKeyframe).map fun k => seconds (k.time opts info)) ∧
      (LastSecondAgrees env opts info lateKeyframe ↔
        (∃ t ∈ timedTags lateKeyframe, ¬ t.Replaced info) ∧
        ∀ xs k ys, timedTags lateKeyframe = xs ++ k :: ys →
          k ∈ indexedKeyframes opts lateKeyframe → InOrder opts info xs k) := by
  let := blankImage
  let opts : FlvmetaOpts ℚ := defaultOptions
  let env : Environment := ⟨[], 0⟩
  have hpass : infoTest opts lateKeyframe (fun info =>
      decide (info.onMetadataSize = 0 ∧ info.haveOnLastSecond = false)) = true := by
    rfl
  obtain ⟨info, stream, hinfo, htest⟩ := of_infoTest hpass
  obtain ⟨hzero, hhave⟩ := of_decide_eq_true htest
  obtain ⟨out, hupdate⟩ := exists_updateMetadata_plain env plainFile_lateKeyframe hinfo
  exact ⟨info, stream, out, hinfo, hupdate, onLastSecond_agrees_iff env rfl rfl
    plainFile_lateKeyframe hinfo (Or.inl hzero) hhave hupdate⟩

/-- The keyframe is counted as one after the `onLastSecond` tag, which is inserted behind it. -/
theorem onLastSecond_disagrees :
    letI := blankImage
    letI opts : FlvmetaOpts ℚ := defaultOptions
    letI env : Environment := ⟨[], 0⟩
    opts.insertOnlastsecond = true ∧ opts.errorHandling = .exitOnError ∧
    PlainFile lateKeyframe ∧
    ∃ (info : FlvInfo ℚ) (stream : FlvStream) (out : OutFile),
      getFlvInfo opts (flvOpen lateKeyframe) = (.ok info, stream) ∧
      info.onMetadataSize = 0 ∧ info.haveOnLastSecond = false ∧
      updateMetadata env opts ⟨some lateKeyframe, false, none, some ⟨none⟩⟩ = (.ok, some out) ∧
      (∃ first : List Piece, out.written = lateKeyframe.take 9 ++ ([0, 0, 0, 0] ++
        (first ++ (writtenGroups env opts info lateKeyframe).flatten).flatMap Piece.bytes)) ∧
      ¬ LastSecondAgrees env opts info lateKeyframe := by
  let := blankImage
  let opts : FlvmetaOpts ℚ := defaultOptions
  let env : Environment := ⟨[], 0⟩
  let k : TimedTag := ⟨13, ⟨9, ⟨0, 0, 1⟩, ⟨0, 0x13, 0x88⟩, 0, ⟨0, 0, 0⟩⟩, 5000⟩
  let t : TimedTag := ⟨29, ⟨8, ⟨0, 0, 1⟩, ⟨0, 0x07, 0xD0⟩, 0, ⟨0, 0, 0⟩⟩, 2000⟩
  have htags : timedTags lateKeyframe = [] ++ k :: [t] := by decide +kernel
  have hindexed : k ∈ indexedKeyframes opts lateKeyframe := by decide +kernel
  have hpass : infoTest opts lateKeyframe (fun info =>
      decide (info.onMetadataSize = 0 ∧ info.haveOnLastSecond = false ∧
        AfterOnLastSecond opts info (seconds (k.time opts info)) ∧ ¬ Qualifies opts info k)) =
        true := by
    decide +kernel
  obtain ⟨info, stream, hinfo, htest⟩ := of_infoTest hpass
  obtain ⟨hzero, hhave, hafter, hnot⟩ := of_decide_eq_true htest
  obtain ⟨out, hupdate⟩ := exists_updateMetadata_plain env plainFile_lateKeyframe hinfo
  have hwritten := updateMetadata_plain env rfl plainFile_lateKeyframe hinfo hupdate
  rw [outputPieces_plain env plainFile_lateKeyframe hinfo] at hwritten
  refine ⟨rfl, rfl, plainFile_lateKeyframe, info, stream, out, hinfo, hzero, hhave, hupdate,
    ⟨_, hwritten⟩, fun ⟨_, hagrees⟩ => ?_⟩
  have hinserted := (hagrees [] k [t] htags hindexed).mp hafter
  rw [writtenGroups, exists_inserted_iff (show opts.insertOnlastsecond = true from rfl) hhave,
    htags] at hinserted
  obtain ⟨u, hu, hqualifies⟩ := hinserted
  obtain rfl : u = k := by simpa using hu
  exact hnot hqualifies

end FlvMeta
