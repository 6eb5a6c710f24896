import FlvMeta.Update.Files

/-!
# The computed tag is written

The second pass writes the computed metadata when it comes to the tag that the first pass has
found, or at once if there was none. An update that succeeds has come to every tag of its input,
since only the last one can be truncated; and its output then holds the computed tag
(`updateMetadata_holds`), also when the writes of the last tag are not checked.
-/

namespace FlvMeta

open Stdio

/-! ## Writes only append -/

/-- Whatever a write does, what was written before stays. -/
def Appends (w : WriteStep) : Prop := ∀ out, out.written <+: (w out).2.written

theorem appends_put (bs : Bytes) : Appends (put bs) := fun _ => List.prefix_append _ _

theorem appends_andThen {a b : WriteStep} (ha : Appends a) (hb : Appends b) :
    Appends (andThen a b) := by
  intro out
  have hfirst := ha out
  unfold andThen
  generalize a out = r at hfirst
  obtain ⟨ok, out₁⟩ := r
  cases ok with
  | true => exact hfirst.trans (hb out₁)
  | false => exact hfirst

theorem appends_flvWriteTag (tag : FlvTag) : Appends (flvWriteTag tag) :=
  appends_andThen (appends_put _) (appends_andThen (appends_put _)
    (appends_andThen (appends_put _) (appends_andThen (appends_put _) (appends_put _))))

theorem appends_writeBodyUnchecked (tag : FlvTag) (body : Bytes) (out : OutFile) :
    out.written <+: (writeBodyUnchecked tag body out).written := by
  have htag := appends_flvWriteTag tag out
  have hbody := appends_put body (flvWriteTag tag out).2
  exact (htag.trans hbody).trans (appends_put _ _)

/-! ## The end of the loop -/

section

variable {N : Type} {opts : FlvmetaOpts N} {info : FlvInfo N} {tag : FlvTag} {st : WriteState}
  {stream stream' : FlvStream} {out out' : OutFile}

theorem copyTag_done (h : copyTag opts info tag st stream out = (.done .ok, stream', out')) :
    out.written <+: out'.written := by
  unfold copyTag at h
  dsimp only at h
  split at h
  · split at h
    · cases h
    · cases h
      exact List.prefix_refl _
    · cases h
      exact appends_writeBodyUnchecked _ _ _
  · generalize writeBody tag _ out = r at h
    obtain ⟨ok, out₁⟩ := r
    cases ok <;> cases h

variable [NumberImage N] {metadata : FlvMetadata N}

/-- A turn that ends the loop well only appends. -/
theorem writeTag_done (h : writeTag opts info metadata tag st stream out =
    (.done .ok, stream', out')) : out.written <+: out'.written := by
  unfold writeTag at h
  dsimp only at h
  split at h
  · generalize writeScriptTag (onMetadataTag metadata) metadata.onMetadataName metadata.onMetadata
      out = r at h
    obtain ⟨ok, out₁⟩ := r
    cases ok <;> cases h
  · split at h
    · rcases (emits_writeScriptTag (scriptTag metadata.onLastSecondName metadata.onLastSecond
        (flvTagSetTimestamp tag (writeTimestamp opts info tag st.clocks).1))
        metadata.onLastSecondName metadata.onLastSecond).cases out with hw | ⟨out₁, hw, -⟩
      · rw [hw] at h
        exact (List.prefix_append _ _).trans (copyTag_done h)
      · rw [hw] at h
        cases h
    · exact copyTag_done h

variable {content : Bytes}

/-- A loop that ends well only appends, and has written the computed tag for every tag that is
replaced. -/
theorem writeLoop_holds {fuel : Nat} {last : Option (Nat × FlvTag)}
    (htracks : Tracks content last stream)
    (hloop : writeLoop opts info metadata fuel st stream out = some (.ok, stream', out')) :
    out.written <+: out'.written ∧
      ∀ t ∈ timeline st.clocks (tagsFrom content (nextOffset last)), t.Replaced info →
        (onMetadataPiece metadata).bytes <:+: out'.written := by
  induction fuel generalizing last st stream out with
  | zero => cases hloop
  | succ fuel ih =>
    rw [writeLoop] at hloop
    by_cases hle : nextOffset last + 11 ≤ content.length
    · rw [htracks.flvReadTag hle] at hloop
      dsimp only at hloop
      rw [tagsFrom_of_le hle, timeline]
      generalize htag : flvTagOfBytes (content.drop (nextOffset last)) = tag at hloop ⊢
      have hturn := writeTag_outcome opts info metadata content (nextOffset last) st out htag.symm
      have hnext := writeTag_tracks opts info metadata tag st
        (tracks_tagStream content (nextOffset last)) out
      rw [htag] at hnext
      generalize ht : (⟨nextOffset last, tag, (st.clocks.fix tag).1⟩ : TimedTag) = t at hturn ⊢
      have hstop := block_stop opts info metadata content st.haveOnLastSecond t
      cases hwrite : writeTag opts info metadata tag st
        (tagStream content (nextOffset last)) out with
      | mk turn r =>
        obtain ⟨stream₁, out₁⟩ := r
        rw [hwrite] at hloop hturn hnext
        dsimp only at hturn hnext
        cases hturn with
        | next hgoes =>
          obtain ⟨hstarts, hrest⟩ := ih hnext hloop
          refine ⟨(List.prefix_append _ _).trans hstarts, ?_⟩
          rw [List.forall_mem_cons]
          refine ⟨fun hreplaced => ?_, hrest⟩
          have hpieces : (block opts info metadata content st.haveOnLastSecond t).pieces =
              [onMetadataPiece metadata] := by rw [block, if_pos hreplaced]
          rw [hpieces, List.flatMap_singleton, OutFile.append_written] at hstarts
          exact (List.suffix_append _ _).isInfix.trans hstarts.isInfix
        | @done status status' _ hended hout =>
          cases hloop
          rw [hstop] at hended
          split at hended
          · rename_i hshort
            refine ⟨writeTag_done hwrite, ?_⟩
            have hlast := not_complete_of_truncated hshort.2
            rw [← ht] at hlast
            rw [List.forall_mem_cons]
            refine ⟨fun hreplaced => absurd hreplaced hshort.1, ?_⟩
            -- a truncated tag is the last one
            have hempty : tagsFrom content (nextTag (nextOffset last) tag) = [] :=
              tagsFrom_nextTag_of_not_complete hlast
            rw [hempty]
            exact fun u hu => absurd hu (by simp [timeline])
          · cases hended
        | failed hl => cases hloop
    · obtain ⟨stream₁, hread, -⟩ := flvReadTag_of_aimed_lt htracks.aimed (by omega)
      rw [hread] at hloop
      cases hloop
      rw [tagsFrom_of_lt (by omega)]
      exact ⟨List.prefix_refl _, by simp [timeline]⟩

/-! ## The update -/

/-- The second pass comes to the tag in whose place the computed metadata is written, if there is
one. -/
def ComesBack (info : FlvInfo N) (content : Bytes) : Prop :=
  info.onMetadataSize = 0 ∨ ∃ t ∈ timedTags content, t.Replaced info

theorem writeFlv_holds {flvIn : FlvStream} (hcontent : flvIn.flvin.content = content)
    (hcomes : ComesBack info content)
    (h : writeFlv opts info metadata flvIn out = (.ok, stream', out')) :
    (onMetadataPiece metadata).bytes <:+: out'.written := by
  unfold writeFlv at h
  rcases (emits_writeStart info metadata).cases out with hw | ⟨out₁, hw, -⟩
  · simp only [hw] at h
    obtain ⟨hstarts, htags⟩ := writeLoop_holds (atStart_flvReset flvIn).tracks
      ((Option.eq_some_iff_get_eq).mpr ⟨_, h⟩)
    rw [hcontent] at htags
    rcases hcomes with hzero | ⟨t, ht, hreplaced⟩
    · have hstart : (onMetadataPiece metadata).bytes <:+ startBytes info metadata := by
        rw [startBytes, if_pos hzero]
        exact (List.suffix_append _ _).trans (List.suffix_append _ _)
      exact (hstart.trans (List.suffix_append _ _)).isInfix.trans hstarts.isInfix
    · exact htags t ht hreplaced
  · simp only [hw] at h
    cases h

end

/-- The output of an update that succeeds holds the computed tag. -/
theorem updateMetadata_holds {N : Type} [Number64 N] {env : Environment} {opts : FlvmetaOpts N}
    {files : UpdateFiles} {content : Bytes} {info : FlvInfo N} {stream : FlvStream} {out : OutFile}
    (hinput : files.input = some content)
    (hinfo : getFlvInfo opts (flvOpen content) = (.ok info, stream))
    (hcomes : ComesBack info content) (hupdate : updateMetadata env opts files = (.ok, some out)) :
    (onMetadataPiece (computeMetadata env opts info)).bytes <:+: out.written := by
  obtain ⟨content', info', stream₁, device, stream₂, flvOut, hinput', hinfo', hwrite, hwritten⟩ :=
    updateMetadata_writes hupdate
  obtain rfl : content = content' := Option.some.inj (hinput.symm.trans hinput')
  obtain ⟨rfl, rfl⟩ : info = info' ∧ stream = stream₁ := by
    simpa using hinfo.symm.trans hinfo'
  rw [hwritten]
  exact writeFlv_holds (getFlvInfo_content hinfo) hcomes hwrite

end FlvMeta
