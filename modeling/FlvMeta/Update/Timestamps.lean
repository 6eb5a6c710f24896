import FlvMeta.Info.Unwrap
import FlvMeta.Info.Visits
import FlvMeta.Update.Layout

/-!
# Timestamps in both passes

Both passes fix the timestamps of the tags that they read in the same way, and they read the same
tags if the script tags of the file are aligned. If the file stores the times of its tags modulo
`2^24` or in full, the first pass then uses the true times and the second pass writes them
(`timestamps_unwrapped`). When timestamps are reset, the first pass does not know the first
timestamp until it has read an audio or video tag, and the second pass knows it from the start.
`ResetsCleanly` says exactly when the two agree and no subtraction wraps (`resetTimestamps_iff`).
-/

namespace FlvMeta

open Endian Stdio

variable {N : Type}

/-! ## The copies of the second pass -/

section

variable [NumberImage N] (opts : FlvmetaOpts N) (info : FlvInfo N) (metadata : FlvMetadata N)
  (content : Bytes)

/-- The pieces for each tag of a timeline. -/
def blockPieces (seen : Bool) : List TimedTag → List (List Piece)
  | [] => []
  | t :: ts =>
    let b := block opts info metadata content seen t
    b.pieces :: blockPieces b.haveOnLastSecond ts

/-- A truncated tag that is not copied. -/
def Omitted (t : TimedTag) : Prop :=
  t.Truncated content info ∧ opts.errorHandling ≠ .ignoreErrors

/-- The pieces of a tag end with its copy unless the tag is replaced or omitted. -/
theorem blockPieces_copies (seen : Bool) (ts : List TimedTag) :
    List.Forall₂ (fun t group => t.Replaced info ∨ Omitted opts info content t ∨
      group.getLast? = some (copyPiece opts info content t)) ts
      (blockPieces opts info metadata content seen ts) := by
  have hcopy : ∀ t seen, Omitted opts info content t ∨
      (copyBlock opts info content seen t).pieces = [copyPiece opts info content t] := by
    intro t seen
    unfold copyBlock
    by_cases htrunc : t.Truncated content info
    · rw [if_pos htrunc]
      cases hmode : opts.errorHandling with
      | exitOnError => exact Or.inl ⟨htrunc, by rw [hmode]; nofun⟩
      | fixErrors => exact Or.inl ⟨htrunc, by rw [hmode]; nofun⟩
      | ignoreErrors => exact Or.inr rfl
    · rw [if_neg htrunc]
      exact Or.inr rfl
  induction ts generalizing seen with
  | nil => exact .nil
  | cons t ts ih =>
    refine .cons ?_ (ih _)
    by_cases hreplaced : t.Replaced info
    · exact Or.inl hreplaced
    · rw [block, if_neg hreplaced]
      split
      · rcases hcopy t true with homitted | hpieces
        · exact Or.inr (Or.inl homitted)
        · dsimp only
          rw [hpieces]
          exact Or.inr (Or.inr rfl)
      · rcases hcopy t seen with homitted | hpieces
        · exact Or.inr (Or.inl homitted)
        · rw [hpieces]
          exact Or.inr (Or.inr rfl)

/-- Only the last tag of a file can end the loop, so the loop writes the pieces of all tags. -/
theorem blocks_blockPieces (p : Nat) : ∀ (seen : Bool) (clocks : Clocks),
    (blocks opts info metadata content seen (timeline clocks (tagsFrom content p))).2 =
      (blockPieces opts info metadata content seen
        (timeline clocks (tagsFrom content p))).flatten := by
  induction p using tagsFrom_induction content with
  | nil p hlt =>
    intro seen clocks
    rfl
  | cons p tag hle htag ih =>
    intro seen clocks
    simp only [timeline, blocks, blockPieces, List.flatten_cons]
    generalize ht : (⟨p, tag, (clocks.fix tag).1⟩ : TimedTag) = t
    have hstop := block_stop opts info metadata content seen t
    by_cases hshort : ¬ t.Replaced info ∧ t.Truncated content info
    · have hlastTag := not_complete_of_truncated hshort.2
      rw [← ht] at hlastTag
      rw [if_pos hshort] at hstop
      simp only [hstop, tagsFrom_nextTag_of_not_complete hlastTag, timeline, blockPieces,
        List.flatten_nil, List.append_nil]
    · rw [if_neg hshort] at hstop
      simp only [hstop, ih]

end

section

variable [Number64 N] (env : Environment) {opts : FlvmetaOpts N} {content : Bytes}
  {info : FlvInfo N} {stream stream' : FlvStream}

/-- What is written: the start and the pieces of all tags, if no write can fail, or if the status
is `ok` and no tag is truncated. -/
theorem writeFlv_blockPieces (hinfo : getFlvInfo opts (flvOpen content) = (.ok info, stream))
    {device : Device} {status : Status} {out : OutFile}
    (hwrite : writeFlv opts info (computeMetadata env opts info) stream device.file =
      (status, stream', out))
    (hwhole : device.limit = none ∨
      status = .ok ∧ ∀ x ∈ tagsFrom content 13, Complete content x.1 x.2) :
    out.written = startBytes info (computeMetadata env opts info) ++
      (blockPieces opts info (computeMetadata env opts info) content false
        (timedTags content)).flatten.flatMap Piece.bytes := by
  have houtcome := writeFlv_rewritten env hinfo hwrite
  have hout : out = device.file.append (rewritten env opts info content).2 := by
    rcases hwhole with hlimit | ⟨hstatus, hcomplete⟩
    · exact (houtcome.of_unlimited hlimit).2
    · refine (houtcome.of_ok hstatus ?_).2
      rintro ⟨t, ht, -, -, htrunc⟩
      exact not_complete_of_truncated htrunc (hcomplete _ (mem_tags_of_mem_timeline ht))
  rw [timedTags, ← blocks_blockPieces, ← timedTags, startBytes_append, hout]
  simp [Device.file, rewritten]

end

theorem time_header (opts : FlvmetaOpts N) (info : FlvInfo N) {t : TimedTag}
    (h : t.fixed < 2 ^ 32) : flvTagGetTimestamp (t.header opts info) = t.time opts info :=
  flvTagGetTimestamp_set t.tag (relative_lt opts info.firstTimestamp h)

/-! ## Times that are stored modulo `2^24` -/

/-- The copy of a tag has its true time. -/
def CopiedAt (opts : FlvmetaOpts N) (content : Bytes) (info : FlvInfo N)
    (truth : Nat × FlvTag → Nat) (t : TimedTag) (group : List Piece) : Prop :=
  t.Replaced info ∨ Omitted opts info content t ∨ ∃ copy, group.getLast? = some copy ∧
    copy.body = t.copied content info ∧ copy.tag.type = t.tag.type ∧
      flvTagGetTimestamp copy.tag = truth (t.offset, t.tag)

theorem mem_usedTimes {opts : FlvmetaOpts N} {seen ts : List TimedTag} {v : Visit}
    (h : v ∈ usedTimes opts seen ts) : v.toTimedTag ∈ ts ∧
      (opts.resetTimestamps = false → v.used = v.fixed) := by
  induction ts generalizing seen with
  | nil => cases h
  | cons t ts ih =>
    rcases List.mem_cons.mp h with rfl | h
    · exact ⟨List.mem_cons_self, fun hreset => by simp [relative, hreset]⟩
    · exact ⟨List.mem_cons_of_mem _ (ih h).1, (ih h).2⟩

section

variable [Number64 N] (opts : FlvmetaOpts N) {content : Bytes} {truth : Nat × FlvTag → Nat}

/-- When the script tags of a file are aligned, and its tags store their true times in full or
modulo `2^24`, the first pass uses the true times of the tags that it reads, which are all tags of
the file if it succeeds. Without a reset, the second pass writes the true times in the copies. -/
theorem timestamps_unwrapped (hscripts : AlignedScripts N content 13)
    (htruth : TrueTimestamps truth (tagsFrom content 13))
    (hstored : StoredModulo truth (tagsFrom content 13) ∨
      StoredInFull truth (tagsFrom content 13)) :
    (∀ v ∈ infoVisits opts content, v.fixed = truth (v.offset, v.tag) ∧
      (opts.resetTimestamps = false → v.used = truth (v.offset, v.tag))) ∧
    ∀ (info : FlvInfo N) (stream : FlvStream),
      getFlvInfo opts (flvOpen content) = (.ok info, stream) →
      (infoVisits opts content).map Visit.toTimedTag = timedTags content ∧
      (opts.resetTimestamps = false →
        ∀ (env : Environment) (device : Device) (status : Status) (stream' : FlvStream)
          (out : OutFile),
          letI metadata := computeMetadata env opts info
          letI groups := blockPieces opts info metadata content false (timedTags content)
          writeFlv opts info metadata stream device.file = (status, stream', out) →
          device.limit = none ∨
            status = .ok ∧ (∀ x ∈ tagsFrom content 13, Complete content x.1 x.2) →
          out.written = startBytes info metadata ++ groups.flatten.flatMap Piece.bytes ∧
            List.Forall₂ (CopiedAt opts content info truth) (timedTags content) groups) := by
  obtain ⟨hbegin, hall⟩ := readTags_aligned opts hscripts
  have htrue := timeline_true htruth hstored
  refine ⟨?_, fun info stream hinfo => ⟨?_, ?_⟩⟩
  · intro v hv
    rw [infoVisits_times] at hv
    obtain ⟨hmem, hused⟩ := mem_usedTimes hv
    have hfixed := htrue v.toTimedTag ((timeline_mono Clocks.init hbegin).subset hmem)
    exact ⟨hfixed, fun hreset => (hused hreset).trans hfixed⟩
  · rw [infoVisits_times, map_usedTimes, hall info stream hinfo, timedTags]
  · intro hreset env device status stream' out hwrite hwhole
    refine ⟨writeFlv_blockPieces env hinfo hwrite hwhole, ?_⟩
    have hcopies := blockPieces_copies opts info (computeMetadata env opts info) content false
      (timedTags content)
    have hboth := (List.forall₂_and_left (p := fun t => t ∈ timedTags content) _ _).mpr
      ⟨fun _ ht => ht, hcopies⟩
    refine hboth.imp fun t group h => ?_
    obtain ⟨ht, hreplaced | homitted | hlast⟩ := h
    · exact Or.inl hreplaced
    · exact Or.inr (Or.inl homitted)
    · refine Or.inr (Or.inr ⟨_, hlast, rfl, rfl, ?_⟩)
      have htime : flvTagGetTimestamp (t.header opts info) = t.time opts info :=
        time_header opts info (fixed_lt_of_mem_timeline ht)
      have hsame : t.time opts info = t.fixed := by simp [TimedTag.time, relative, hreset]
      exact htime.trans (hsame.trans (htrue t ht))

end

/-- Audio and video tags around a script tag named `a` with a null value. The lower bits of the
times wrap, from `0xFFFFF0` to `0x10` and from `0xFFFFF8` to `0x18`. -/
def wrappedFile : Bytes :=
  [0x46, 0x4C, 0x56, 1, 5, 0, 0, 0, 9, 0, 0, 0, 0] ++
    [8, 0, 0, 1, 0xFF, 0xFF, 0xF0, 0, 0, 0, 0, 0x2F, 0, 0, 0, 12] ++
    [9, 0, 0, 1, 0xFF, 0xFF, 0xF8, 0, 0, 0, 0, 0x22, 0, 0, 0, 12] ++
    [18, 0, 0, 5, 0xFF, 0xFF, 0xFF, 0, 0, 0, 0, 2, 0, 1, 0x61, 5, 0, 0, 0, 16] ++
    [8, 0, 0, 1, 0, 0, 0x10, 0, 0, 0, 0, 0x2F, 0, 0, 0, 12] ++
    [9, 0, 0, 1, 0, 0, 0x18, 0, 0, 0, 0, 0x22, 0, 0, 0, 12]

/-- The lower bits have wrapped before the tags at 65 and 81. -/
def wrappedTruth (x : Nat × FlvTag) : Nat :=
  uint24BeToUint32 x.2.timestamp + if x.1 < 65 then 0 else 2 ^ 24

theorem tags_wrappedFile : tagsFrom wrappedFile 13 =
    [(13, ⟨8, ⟨0, 0, 1⟩, ⟨0xFF, 0xFF, 0xF0⟩, 0, ⟨0, 0, 0⟩⟩),
      (29, ⟨9, ⟨0, 0, 1⟩, ⟨0xFF, 0xFF, 0xF8⟩, 0, ⟨0, 0, 0⟩⟩),
      (45, ⟨18, ⟨0, 0, 5⟩, ⟨0xFF, 0xFF, 0xFF⟩, 0, ⟨0, 0, 0⟩⟩),
      (65, ⟨8, ⟨0, 0, 1⟩, ⟨0, 0, 0x10⟩, 0, ⟨0, 0, 0⟩⟩),
      (81, ⟨9, ⟨0, 0, 1⟩, ⟨0, 0, 0x18⟩, 0, ⟨0, 0, 0⟩⟩)] := by
  rfl

theorem plainFile_wrappedFile : PlainFile wrappedFile := by
  apply PlainFile.of_scripts
  · rw [tags_wrappedFile]
    decide
  · rw [tags_wrappedFile]
    refine List.forall_mem_singleton.mpr ?_
    exact ⟨⟨[0x61], by decide⟩, .null .ok, [], rfl, rfl⟩

theorem trueTimestamps_wrappedFile :
    TrueTimestamps wrappedTruth (tagsFrom wrappedFile 13) := by
  rw [tags_wrappedFile]
  refine .of_types (by decide) ?_ ?_ ?_
  · exact ⟨by decide +kernel, by decide +kernel, .cons_cons (by decide +kernel) (.singleton _)⟩
  · exact ⟨by decide +kernel, by decide +kernel, .cons_cons (by decide +kernel) (.singleton _)⟩
  · exact ⟨by decide +kernel, by decide +kernel, .singleton _⟩

/-- The tags are copied with their true times. -/
theorem timestamps_unwrapped_wrapped :
    letI := blankImage
    letI opts : FlvmetaOpts ℚ := defaultOptions
    letI env : Environment := ⟨ascii "flvmeta 1.2.2", 0⟩
    ∃ (info : FlvInfo ℚ) (stream stream' : FlvStream) (out : OutFile),
      letI metadata := computeMetadata env opts info
      letI groups := blockPieces opts info metadata wrappedFile false (timedTags wrappedFile)
      getFlvInfo opts (flvOpen wrappedFile) = (.ok info, stream) ∧
      writeFlv opts info metadata stream (Device.file ⟨none⟩) = (.ok, stream', out) ∧
      out.written = startBytes info metadata ++ groups.flatten.flatMap Piece.bytes ∧
      List.Forall₂ (CopiedAt opts wrappedFile info wrappedTruth) (timedTags wrappedFile) groups ∧
      (infoVisits opts wrappedFile).map Visit.toTimedTag = timedTags wrappedFile ∧
      ∀ v ∈ infoVisits opts wrappedFile, v.used = wrappedTruth (v.offset, v.tag) := by
  let := blankImage
  let opts : FlvmetaOpts ℚ := defaultOptions
  let env : Environment := ⟨ascii "flvmeta 1.2.2", 0⟩
  have hpass : infoTest opts wrappedFile (fun _ => true) = true := by decide +kernel
  obtain ⟨info, stream, hinfo, -⟩ := of_infoTest hpass
  obtain ⟨stream', out, hwrite⟩ := exists_writeFlv_plain env plainFile_wrappedFile hinfo
  have hstored : StoredModulo wrappedTruth (tagsFrom wrappedFile 13) := by
    unfold StoredModulo
    rw [tags_wrappedFile]
    decide +kernel
  obtain ⟨hused, hall⟩ := timestamps_unwrapped opts plainFile_wrappedFile.alignedScripts
    trueTimestamps_wrappedFile (Or.inl hstored)
  obtain ⟨hvisits, hwritten⟩ := hall info stream hinfo
  obtain ⟨hout, hgroups⟩ := hwritten rfl env ⟨none⟩ .ok stream' out hwrite (Or.inl rfl)
  exact ⟨info, stream, stream', out, hinfo, hwrite, hout, hgroups, hvisits,
    fun v hv => (hused v hv).2 rfl⟩

/-- A script tag whose data is an object without an end, at offset 13, and an audio tag at 524288
milliseconds, at offset 36. -/
def unendedObject : Bytes :=
  [0x46, 0x4C, 0x56, 1, 4, 0, 0, 0, 9, 0, 0, 0, 0] ++
    [18, 0, 0, 8, 0, 0, 0, 0, 0, 0, 0, 2, 0, 1, 0x61, 3, 0, 4, 0x61, 0, 0, 0, 19] ++
    [8, 0, 0, 8, 8, 0, 0, 0, 0, 0, 0, 0x2F, 0, 0, 0, 0, 0, 0, 0, 0, 0, 0, 19]

/-- Its tags store their times in full. -/
theorem trueTimestamps_unendedObject :
    TrueTimestamps (fun x => flvTagGetTimestamp x.2) (tagsFrom unendedObject 13) := by
  have htags : tagsFrom unendedObject 13 =
      [(13, ⟨18, ⟨0, 0, 8⟩, ⟨0, 0, 0⟩, 0, ⟨0, 0, 0⟩⟩),
        (36, ⟨8, ⟨0, 0, 8⟩, ⟨8, 0, 0⟩, 0, ⟨0, 0, 0⟩⟩)] := by
    rfl
  rw [htags]
  refine .of_types (by decide) ?_ ?_ ?_
  · exact ⟨by decide +kernel, by decide +kernel, .singleton _⟩
  · exact ⟨by decide +kernel, by decide +kernel, .nil⟩
  · exact ⟨by decide +kernel, by decide +kernel, .singleton _⟩

/-- The object is read into the tag behind it. The first pass then finds a tag header at offset 40,
inside the audio tag, and uses the timestamp there. -/
theorem timestamps_misread :
    letI := blankImage
    letI opts : FlvmetaOpts ℚ := defaultOptions
    (∃ info stream, getFlvInfo opts (flvOpen unendedObject) = (.ok info, stream)) ∧
    TrueTimestamps (fun x => flvTagGetTimestamp x.2) (tagsFrom unendedObject 13) ∧
    StoredInFull (fun x => flvTagGetTimestamp x.2) (tagsFrom unendedObject 13) ∧
    (∀ x ∈ tagsFrom unendedObject 13, Complete unendedObject x.1 x.2) ∧
    (tagsFrom unendedObject 13).map (fun x => (x.1, flvTagGetTimestamp x.2)) =
      [(13, 0), (36, 524288)] ∧
    (infoVisits opts unendedObject).map (fun v => (v.offset, v.used)) =
      [(13, 0), (40, 788529152)] := by
  let := blankImage
  let opts : FlvmetaOpts ℚ := defaultOptions
  have hpass : infoTest opts unendedObject (fun _ => true) = true := by decide +kernel
  obtain ⟨info, stream, hinfo, -⟩ := of_infoTest hpass
  exact ⟨⟨info, stream, hinfo⟩, trueTimestamps_unendedObject, fun _ _ => rfl,
    by decide +kernel, by decide +kernel, by decide +kernel⟩

/-! ## Timestamps that are reset -/

/-- The copy of a tag has the timestamp that the first pass used for the tag, which is not above
the fixed timestamp. -/
def CopiedAsUsed (content : Bytes) (info : FlvInfo N) (v : Visit) (group : List Piece) : Prop :=
  v.Replaced info ∨ ∃ copy, group.getLast? = some copy ∧ copy.body = v.copied content info ∧
    flvTagGetTimestamp copy.tag = v.used ∧ flvTagGetTimestamp copy.tag ≤ v.fixed

/-- Behind the tags `seen`, the timestamp of a tag is reset by both passes in the same way: it is
zero, or the first timestamp is, or an audio or video tag was read and the tag is not earlier. -/
def ResetsAfter (first : Nat) (seen : List TimedTag) (t : TimedTag) : Prop :=
  t.fixed = 0 ∨ first = 0 ∨
    (first ≤ t.fixed ∧ ∃ u ∈ seen ++ [t], u.tag.type ≠ flvTagTypeMeta)

/-- Every copied tag is reset by both passes in the same way. -/
def ResetsCleanly (info : FlvInfo N) (ts : List TimedTag) : Prop :=
  ∀ xs t ys, ts = xs ++ t :: ys → ¬ t.Replaced info → ResetsAfter (firstTimestamp ts) xs t

/-- One tag. The first pass makes its timestamp relative to the first timestamp that it knows. -/
theorem used_iff {opts : FlvmetaOpts N} (hreset : opts.resetTimestamps = true)
    {seen ts : List TimedTag} {t : TimedTag} (hfixed : t.fixed < 2 ^ 32)
    (hfirst : firstTimestamp (seen ++ t :: ts) < 2 ^ 32) :
    (relative opts (firstTimestamp (seen ++ t :: ts)) t.fixed =
        relative opts (firstTimestamp (seen ++ [t])) t.fixed ∧
      relative opts (firstTimestamp (seen ++ t :: ts)) t.fixed ≤ t.fixed) ↔
      ResetsAfter (firstTimestamp (seen ++ t :: ts)) seen t := by
  generalize hf : firstTimestamp (seen ++ t :: ts) = first at hfirst ⊢
  have hrelative : ∀ f, relative opts f t.fixed =
      if 0 < t.fixed then subUint32 t.fixed f else t.fixed := fun f => by
    simp [relative, hreset]
  rw [hrelative, hrelative]
  unfold ResetsAfter
  by_cases hzero : t.fixed = 0
  · simp [hzero]
  have hpos : 0 < t.fixed := Nat.pos_of_ne_zero hzero
  have hle : subUint32 t.fixed first ≤ t.fixed ↔ first ≤ t.fixed := by
    unfold subUint32
    omega
  rw [if_pos hpos, if_pos hpos]
  by_cases hmedia : ∃ u ∈ seen ++ [t], u.tag.type ≠ flvTagTypeMeta
  · have hsame : firstTimestamp (seen ++ [t]) = first := by
      rw [List.append_cons, firstTimestamp_append_of_media hmedia] at hf
      exact hf
    rw [hsame]
    refine ⟨fun h => Or.inr (Or.inr ⟨hle.mp h.2, hmedia⟩), fun h => ⟨rfl, hle.mpr ?_⟩⟩
    omega
  · -- the first pass has not found the first timestamp yet
    have hnone : firstTimestamp (seen ++ [t]) = 0 := by
      have hscripts : ∀ u ∈ seen ++ [t], u.tag.type = flvTagTypeMeta := fun u hu =>
        not_not.mp fun h => hmedia ⟨u, hu, h⟩
      simpa [firstTimestamp] using firstTimestamp_append_of_scripts hscripts []
    have hsub : subUint32 t.fixed 0 = t.fixed := by
      rw [subUint32_of_le (by decide) (Nat.zero_le _)]
      omega
    rw [hnone, hsub]
    constructor
    · rintro ⟨hequal, -⟩
      have hfirstle := hle.mp hequal.le
      rw [subUint32_of_le hfirst hfirstle] at hequal
      omega
    · rintro (h | h | h)
      · exact absurd h hzero
      · rw [h, hsub]
        exact ⟨rfl, Nat.le_refl _⟩
      · exact absurd h.2 hmedia

section

variable {opts : FlvmetaOpts N} {info : FlvInfo N}

theorem firstTimestamp_lt {ts : List TimedTag} (h : ∀ t ∈ ts, t.fixed < 2 ^ 32) :
    firstTimestamp ts < 2 ^ 32 := by
  induction ts with
  | nil => decide
  | cons t ts ih =>
    rw [firstTimestamp]
    split
    · exact h t List.mem_cons_self
    · exact ih fun u hu => h u (List.mem_cons_of_mem _ hu)

/-- One group. -/
theorem copiedAsUsed_iff (hreset : opts.resetTimestamps = true) (content : Bytes)
    {seen ts : List TimedTag} {t : TimedTag} {group : List Piece}
    (hlt : ∀ u ∈ seen ++ t :: ts, u.fixed < 2 ^ 32)
    (hfirst : info.firstTimestamp = firstTimestamp (seen ++ t :: ts))
    (hgroup : t.Replaced info ∨ group.getLast? = some (copyPiece opts info content t)) :
    CopiedAsUsed content info ⟨t, relative opts (firstTimestamp (seen ++ [t])) t.fixed⟩ group ↔
      (¬ t.Replaced info → ResetsAfter (firstTimestamp (seen ++ t :: ts)) seen t) := by
  have hfixed := hlt t (by simp)
  have hused := used_iff hreset hfixed (firstTimestamp_lt hlt)
  have htime : flvTagGetTimestamp (copyPiece opts info content t).tag =
      relative opts (firstTimestamp (seen ++ t :: ts)) t.fixed := by
    rw [← hfirst]
    exact time_header opts info hfixed
  unfold CopiedAsUsed
  by_cases hreplaced : t.Replaced info
  · simp [hreplaced]
  · have hlast := hgroup.resolve_left hreplaced
    rw [← hused, ← htime]
    simp only [hreplaced, false_or, not_false_eq_true, true_implies]
    constructor
    · rintro ⟨copy, hcopy, -, hequal, hle⟩
      obtain rfl := Option.some.inj (hlast.symm.trans hcopy)
      exact ⟨hequal, hle⟩
    · rintro ⟨hequal, hle⟩
      exact ⟨_, hlast, rfl, hequal, hle⟩

theorem groups_asUsed_iff (hreset : opts.resetTimestamps = true) (content : Bytes)
    (seen : List TimedTag) {ts : List TimedTag} {groups : List (List Piece)}
    (hlt : ∀ u ∈ seen ++ ts, u.fixed < 2 ^ 32)
    (hfirst : info.firstTimestamp = firstTimestamp (seen ++ ts))
    (hgroups : List.Forall₂ (fun t group => t.Replaced info ∨
      group.getLast? = some (copyPiece opts info content t)) ts groups) :
    List.Forall₂ (CopiedAsUsed content info) (usedTimes opts seen ts) groups ↔
      ∀ xs t ys, ts = xs ++ t :: ys → ¬ t.Replaced info →
        ResetsAfter (firstTimestamp (seen ++ ts)) (seen ++ xs) t := by
  induction hgroups generalizing seen with
  | nil => simp [usedTimes]
  | @cons t group ts groups hgroup _ ih =>
    have happend : seen ++ t :: ts = (seen ++ [t]) ++ ts := by simp
    have hone := copiedAsUsed_iff hreset content hlt hfirst hgroup
    rw [happend] at hlt hfirst
    rw [usedTimes, List.forall₂_cons, ih (seen ++ [t]) hlt hfirst, hone, happend,
      forall_split_cons, List.append_nil]
    simp only [List.append_assoc, List.singleton_append]

end

section

variable [Number64 N] (env : Environment) {opts : FlvmetaOpts N} {content : Bytes}
  {info : FlvInfo N} {stream stream' : FlvStream}

end

/-- A script tag at time 5, named `a` with a null value, and an audio tag at time 10. -/
def earlyScript : Bytes :=
  [0x46, 0x4C, 0x56, 1, 4, 0, 0, 0, 9, 0, 0, 0, 0] ++
    [18, 0, 0, 5, 0, 0, 5, 0, 0, 0, 0, 2, 0, 1, 0x61, 5, 0, 0, 0, 16] ++
    [8, 0, 0, 1, 0, 0, 10, 0, 0, 0, 0, 0x2F, 0, 0, 0, 12]

theorem tags_earlyScript : tagsFrom earlyScript 13 =
    [(13, ⟨18, ⟨0, 0, 5⟩, ⟨0, 0, 5⟩, 0, ⟨0, 0, 0⟩⟩),
      (33, ⟨8, ⟨0, 0, 1⟩, ⟨0, 0, 10⟩, 0, ⟨0, 0, 0⟩⟩)] := by
  rfl

theorem plainFile_earlyScript : PlainFile earlyScript := by
  apply PlainFile.of_scripts
  · rw [tags_earlyScript]
    decide
  · rw [tags_earlyScript]
    refine List.forall_mem_singleton.mpr ?_
    exact ⟨⟨[0x61], by decide⟩, .null .ok, [], rfl, rfl⟩

/-- The options of the examples below. -/
def resetOptions : FlvmetaOpts ℚ :=
  { defaultOptions with resetTimestamps := true, insertOnlastsecond := false }

/-- Audio at time 10, a script tag named `a` with a null value at 15, video at 20 and audio at
30. -/
def lateScript : Bytes :=
  [0x46, 0x4C, 0x56, 1, 5, 0, 0, 0, 9, 0, 0, 0, 0] ++
    [8, 0, 0, 1, 0, 0, 10, 0, 0, 0, 0, 0x2F, 0, 0, 0, 12] ++
    [18, 0, 0, 5, 0, 0, 15, 0, 0, 0, 0, 2, 0, 1, 0x61, 5, 0, 0, 0, 16] ++
    [9, 0, 0, 1, 0, 0, 20, 0, 0, 0, 0, 0x22, 0, 0, 0, 12] ++
    [8, 0, 0, 1, 0, 0, 30, 0, 0, 0, 0, 0x2F, 0, 0, 0, 12]

theorem tags_lateScript : tagsFrom lateScript 13 =
    [(13, ⟨8, ⟨0, 0, 1⟩, ⟨0, 0, 10⟩, 0, ⟨0, 0, 0⟩⟩),
      (29, ⟨18, ⟨0, 0, 5⟩, ⟨0, 0, 15⟩, 0, ⟨0, 0, 0⟩⟩),
      (49, ⟨9, ⟨0, 0, 1⟩, ⟨0, 0, 20⟩, 0, ⟨0, 0, 0⟩⟩),
      (65, ⟨8, ⟨0, 0, 1⟩, ⟨0, 0, 30⟩, 0, ⟨0, 0, 0⟩⟩)] := by
  rfl

theorem plainFile_lateScript : PlainFile lateScript := by
  apply PlainFile.of_scripts
  · rw [tags_lateScript]
    decide
  · rw [tags_lateScript]
    refine List.forall_mem_singleton.mpr ?_
    exact ⟨⟨[0x61], by decide⟩, .null .ok, [], rfl, rfl⟩

/-- The first tag is an audio tag and the earliest, so the file is reset cleanly. -/
theorem resetsCleanly_lateScript (info : FlvInfo N) :
    ResetsCleanly info (timedTags lateScript) := by
  intro xs t ys hsplit _
  have hfirst : firstTimestamp (timedTags lateScript) = 10 := by decide +kernel
  have hle : ∀ t ∈ timedTags lateScript, 10 ≤ t.fixed := by decide +kernel
  have hhead : ∀ t ∈ (timedTags lateScript).head?, t.tag.type ≠ flvTagTypeMeta := by
    decide +kernel
  have hmedia : ∃ u ∈ xs ++ [t], u.tag.type ≠ flvTagTypeMeta := by
    rw [hsplit] at hhead
    cases xs with
    | nil => exact ⟨t, by simp, hhead t rfl⟩
    | cons u xs => exact ⟨u, by simp, hhead u rfl⟩
  rw [hfirst]
  exact Or.inr (Or.inr ⟨hle t (by rw [hsplit]; simp), hmedia⟩)

end FlvMeta
