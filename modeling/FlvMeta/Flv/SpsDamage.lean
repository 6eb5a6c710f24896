import FlvMeta.Flv.BitProgram
import FlvMeta.Flv.Sps

/-!
# Damaged sequence parameter sets

`parse_sps` as a program that reads bits, with the events of running it on any bytes. A code with
too many leading zeros is shifted out of range, a crop offset that is cut off counts as zero, and
offsets larger than the picture wrap around. Whether any of that happens is told by the codes and
the elements in the bits (`spsSafe_iff`).
-/

namespace FlvMeta

open Bits BitProgram

/-! ## The parser as a program -/

/-- The value of `exp_golomb_se` from that of `exp_golomb_ue`. -/
def seValue (u : Nat) : Int :=
  let ret : Int := if u < 2 ^ 31 then u else (u : Int) - 2 ^ 32
  if ret % 2 = 0 then -(ret / 2) else (ret + 1) / 2

def scalingListProgram : Nat → Nat → Nat → BitProgram Unit
  | 0, _, _ => done ()
  | n + 1, last, next =>
    if next ≠ 0 then
      expGolombUe fun u =>
        scalingListProgram n
          (if nextScale last (seValue u) ≠ 0 then nextScale last (seValue u) else last)
          (nextScale last (seValue u))
    else scalingListProgram n last next

def scalingMatrixProgram : List Nat → BitProgram (Option Unit)
  | [] => done (some ())
  | size :: sizes =>
    getBit fun answer =>
      match answer with
      | none => done none
      | some bit =>
        if bit ≠ 0 then (scalingListProgram size 8 8).bind fun _ => scalingMatrixProgram sizes
        else scalingMatrixProgram sizes

/-- The chroma part after its format. -/
def bitDepthProgram : BitProgram (Option Unit) :=
  expGolombUe fun _ => expGolombUe fun _ => skipBits 1 <| getBit fun answer =>
    match answer with
    | none => done none
    | some bit =>
      if bit ≠ 0 then scalingMatrixProgram [16, 16, 16, 16, 16, 16, 64, 64] else done (some ())

def chromaProgram : BitProgram (Option Unit) :=
  expGolombUe fun chromaFormat =>
    if chromaFormat = 3 then skipBits 1 bitDepthProgram else bitDepthProgram

def skipSeProgram : Nat → BitProgram Unit
  | 0 => done ()
  | n + 1 => expGolombUe fun _ => skipSeProgram n

def picOrderProgram : BitProgram Unit :=
  expGolombUe fun picOrderCntType =>
    if picOrderCntType = 0 then expGolombUe fun _ => done ()
    else if picOrderCntType = 1 then
      skipBits 1 <| expGolombUe fun _ => expGolombUe fun _ => expGolombUe fun size =>
        skipSeProgram size
    else done ()

/-- The coded elements that make the size of the picture. -/
structure SpsPicture where
  width : Nat
  height : Nat
  frameMbsOnlyFlag : Nat

/-- From the reference frames to the cropping flag. -/
def pictureProgram : BitProgram (Option SpsPicture) :=
  expGolombUe fun _ => skipBits 1 <| expGolombUe fun width => expGolombUe fun height =>
    getBit fun answer =>
      match answer with
      | none => done none
      | some flag =>
        if flag = 0 then skipBits 1 (skipBits 1 (done (some ⟨width, height, flag⟩)))
        else skipBits 1 (done (some ⟨width, height, flag⟩))

/-- Everything in front of the cropping flag. -/
def frontProgram : BitProgram (Option SpsPicture) :=
  skipBits 8 <| getBits 8 fun answer =>
    match answer with
    | none => done none
    | some profile =>
      skipBits 16 <| expGolombUe fun _ =>
        (if profile = 100 ∨ profile = 110 ∨ profile = 122 ∨ profile = 144 then chromaProgram
          else done (some ())).bind fun result =>
          match result with
          | none => done none
          | some _ => expGolombUe fun _ => picOrderProgram.bind fun _ => pictureProgram

/-- With the crop offsets, zero when they are not coded. -/
structure SpsDimensions extends SpsPicture where
  left : Nat
  right : Nat
  top : Nat
  bottom : Nat

def cropProgram (picture : SpsPicture) : BitProgram SpsDimensions :=
  expGolombUe fun left => expGolombUe fun right => expGolombUe fun top => expGolombUe fun bottom =>
    done { picture with left := left, right := right, top := top, bottom := bottom }

def croppingProgram (picture : SpsPicture) : BitProgram (Option SpsDimensions) :=
  getBit fun answer =>
    match answer with
    | none => done none
    | some bit =>
      if bit ≠ 0 then (cropProgram picture).bind fun dimensions => done (some dimensions)
      else done (some { picture with left := 0, right := 0, top := 0, bottom := 0 })

/-- Nothing more is read when a bit of the front is missing. -/
def croppingOf : Option SpsPicture → BitProgram (Option SpsDimensions)
  | none => done none
  | some picture => croppingProgram picture

def spsProgram : BitProgram (Option SpsDimensions) := frontProgram.bind croppingOf

namespace SpsDimensions

variable (d : SpsDimensions)

def fields : Nat := if d.frameMbsOnlyFlag = 0 then 2 else 1

/-- Width and height, in 32 bits. -/
def size : Nat × Nat :=
  (subUint32 ((d.width + 1) % 2 ^ 32 * 16) (d.left * 2 + d.right * 2),
    subUint32 ((d.height + 1) % 2 ^ 32 * 16)
      (d.top * 2 * d.fields + d.bottom * 2 * d.fields) * d.fields % 2 ^ 32)

end SpsDimensions

/-! ## The program runs as the parser -/

theorem expGolombSe_eq (bb : BitBuffer) :
    bb.expGolombSe = (seValue bb.expGolombUe.1, bb.expGolombUe.2) := by
  rw [BitBuffer.expGolombSe]
  cases bb.expGolombUe with
  | mk u after =>
    dsimp only [seValue]
    generalize (if u < 2 ^ 31 then (u : Int) else (u : Int) - 2 ^ 32) = ret
    by_cases hret : ret % 2 = 0
    · rw [if_pos hret, if_pos hret]
    · rw [if_neg hret, if_neg hret]

theorem expGolombSe_snd (bb : BitBuffer) : bb.expGolombSe.2 = bb.expGolombUe.2 := by
  rw [expGolombSe_eq]

theorem run_scalingListProgram (n last next : Nat) (bb : BitBuffer) :
    (scalingListProgram n last next).run bb = ((), parseScalingList n last next bb) := by
  induction n generalizing last next bb with
  | zero => rfl
  | succ n ih =>
    rw [scalingListProgram, parseScalingList]
    by_cases hnext : next ≠ 0
    · rw [if_pos hnext, if_pos hnext, expGolombSe_eq]
      exact ih _ _ _
    · rw [if_neg hnext, if_neg hnext]
      exact ih _ _ _

theorem run_scalingMatrixProgram (sizes : List Nat) (bb : BitBuffer) :
    (scalingMatrixProgram sizes).run bb = parseScalingMatrix sizes bb := by
  induction sizes generalizing bb with
  | nil => rfl
  | cons size sizes ih =>
    rw [scalingMatrixProgram, parseScalingMatrix, run]
    cases bb.getBit with
    | mk answer after =>
      cases answer with
      | none => rfl
      | some bit =>
        dsimp only
        by_cases hbit : bit ≠ 0
        · rw [if_pos hbit, if_pos hbit, run_bind, run_scalingListProgram]
          exact ih _
        · rw [if_neg hbit, if_neg hbit]
          exact ih _

theorem run_bitDepthProgram (bb : BitBuffer) :
    bitDepthProgram.run bb =
      match (bb.expGolombUe.2.expGolombUe.2.skipBits 1).getBit with
      | (none, bb) => (none, bb)
      | (some bit, bb) =>
        if bit ≠ 0 then parseScalingMatrix [16, 16, 16, 16, 16, 16, 64, 64] bb
        else (some (), bb) := by
  rw [bitDepthProgram, run, run, run, run]
  cases (bb.expGolombUe.2.expGolombUe.2.skipBits 1).getBit with
  | mk answer after =>
    cases answer with
    | none => rfl
    | some bit =>
      dsimp only
      by_cases hbit : bit ≠ 0
      · rw [if_pos hbit, if_pos hbit, run_scalingMatrixProgram]
      · rw [if_neg hbit, if_neg hbit]
        rfl

theorem run_chromaProgram (bb : BitBuffer) : chromaProgram.run bb = parseSpsChroma bb := by
  rw [chromaProgram, parseSpsChroma, run]
  cases bb.expGolombUe with
  | mk chromaFormat after =>
    dsimp only
    by_cases hformat : chromaFormat = 3
    · rw [if_pos hformat, if_pos hformat, run]
      exact run_bitDepthProgram _
    · rw [if_neg hformat, if_neg hformat]
      exact run_bitDepthProgram _

theorem run_skipSeProgram (n : Nat) (bb : BitBuffer) :
    (skipSeProgram n).run bb = ((), skipExpGolombSe n bb) := by
  induction n generalizing bb with
  | zero => rfl
  | succ n ih =>
    rw [skipSeProgram, skipExpGolombSe, expGolombSe_snd]
    exact ih _

theorem run_picOrderProgram (bb : BitBuffer) :
    picOrderProgram.run bb = ((), parseSpsPicOrder bb) := by
  rw [picOrderProgram, parseSpsPicOrder, run]
  cases bb.expGolombUe with
  | mk picOrderCntType after =>
    dsimp only
    by_cases hzero : picOrderCntType = 0
    · rw [if_pos hzero, if_pos hzero]
      rfl
    · rw [if_neg hzero, if_neg hzero]
      by_cases hone : picOrderCntType = 1
      · rw [if_pos hone, if_pos hone, expGolombSe_snd, expGolombSe_snd, run, run, run, run,
          run_skipSeProgram]
      · rw [if_neg hone, if_neg hone]
        rfl

theorem run_croppingProgram (picture : SpsPicture) (bb : BitBuffer) :
    ((croppingProgram picture).run bb).1.map SpsDimensions.size =
      match bb.getBit with
      | (none, _) => none
      | (some bit, bb) =>
        let fields := if picture.frameMbsOnlyFlag = 0 then 2 else 1
        let crop : Nat × Nat :=
          if bit ≠ 0 then
            match bb.expGolombUe with
            | (left, bb) =>
              match bb.expGolombUe with
              | (right, bb) =>
                match bb.expGolombUe with
                | (top, bb) =>
                  match bb.expGolombUe with
                  | (bottom, _) =>
                    (left * 2 + right * 2, top * 2 * fields + bottom * 2 * fields)
          else (0, 0)
        some (subUint32 ((picture.width + 1) % 2 ^ 32 * 16) crop.1,
          subUint32 ((picture.height + 1) % 2 ^ 32 * 16) crop.2 * fields % 2 ^ 32) := by
  rw [croppingProgram, run]
  cases bb.getBit with
  | mk answer after =>
    cases answer with
    | none => rfl
    | some bit =>
      dsimp only
      by_cases hbit : bit ≠ 0
      · rw [if_pos hbit, if_pos hbit, run_bind, cropProgram]
        simp only [run, Option.map_some, SpsDimensions.size, SpsDimensions.fields]
      · rw [if_neg hbit, if_neg hbit]
        simp only [run, Option.map_some, SpsDimensions.size, SpsDimensions.fields, Nat.zero_mul,
          Nat.add_zero]

theorem run_pictureProgram (bb : BitBuffer) :
    ((pictureProgram.bind croppingOf).run bb).1.map SpsDimensions.size = parseSpsFrame bb := by
  rw [run_bind, pictureProgram, run, run, run, run, run, parseSpsFrame]
  dsimp only
  cases (bb.expGolombUe.2.skipBits 1).expGolombUe.2.expGolombUe.2.getBit with
  | mk answer after =>
    cases answer with
    | none => rfl
    | some flag =>
      dsimp only
      by_cases hflag : flag = 0
      · simp only [if_pos hflag, run, croppingOf]
        refine (run_croppingProgram _ _).trans ?_
        cases (BitBuffer.skipBits 1 (BitBuffer.skipBits 1 after)).getBit with
        | mk answer rest =>
          cases answer with
          | none => rfl
          | some bit => simp only [if_pos hflag]
      · simp only [if_neg hflag, run, croppingOf]
        refine (run_croppingProgram _ _).trans ?_
        cases (BitBuffer.skipBits 1 after).getBit with
        | mk answer rest =>
          cases answer with
          | none => rfl
          | some bit => simp only [if_neg hflag]

theorem run_frontProgram (bb : BitBuffer) :
    ((frontProgram.bind croppingOf).run bb).1.map SpsDimensions.size =
      match (bb.skipBits 8).getBits 8 with
      | (none, _) => none
      | (some profile, bb) =>
        let bb := (bb.skipBits 16).expGolombUe.2
        match
          if profile = 100 ∨ profile = 110 ∨ profile = 122 ∨ profile = 144 then parseSpsChroma bb
          else (some (), bb) with
        | (none, _) => none
        | (some _, bb) => parseSpsFrame (parseSpsPicOrder bb.expGolombUe.2) := by
  rw [run_bind, frontProgram, run, run]
  cases (bb.skipBits 8).getBits 8 with
  | mk answer after =>
    cases answer with
    | none => rfl
    | some profile =>
      have hchroma : (if profile = 100 ∨ profile = 110 ∨ profile = 122 ∨ profile = 144
            then chromaProgram else done (some ())).run (after.skipBits 16).expGolombUe.2 =
          if profile = 100 ∨ profile = 110 ∨ profile = 122 ∨ profile = 144
            then parseSpsChroma (after.skipBits 16).expGolombUe.2
            else (some (), (after.skipBits 16).expGolombUe.2) := by
        split
        · exact run_chromaProgram _
        · rfl
      dsimp only
      rw [run, run, run_bind, hchroma]
      cases (if profile = 100 ∨ profile = 110 ∨ profile = 122 ∨ profile = 144
        then parseSpsChroma (after.skipBits 16).expGolombUe.2
        else (some (), (after.skipBits 16).expGolombUe.2)) with
      | mk result chroma =>
        cases result with
        | none => rfl
        | some _ =>
          dsimp only
          rw [run, run_bind, run_picOrderProgram, ← run_bind, run_pictureProgram]

/-- The size that the parser finds is that of the dimensions that the program reads. -/
theorem run_spsProgram (sps : Bytes) :
    (spsProgram.run ⟨sps, 0, 0⟩).1.map SpsDimensions.size = parseSps sps := by
  rw [spsProgram, parseSps]
  exact run_frontProgram _

/-! ## Events -/

/-- An unsigned operation on 32 bits. -/
def wrapIf (leaves : Prop) [Decidable leaves] : List BitEvent := if leaves then [.wrap] else []

theorem wrap_mem_wrapIf (leaves : Prop) [Decidable leaves] : .wrap ∈ wrapIf leaves ↔ leaves := by
  unfold wrapIf
  split <;> simpa

theorem shiftsInRange_wrapIf (leaves : Prop) [Decidable leaves] :
    ShiftsInRange (wrapIf leaves) := by
  unfold wrapIf
  split
  · simp
  · simp

theorem pastEnd_notMem_wrapIf (leaves : Prop) [Decidable leaves] : .pastEnd ∉ wrapIf leaves := by
  unfold wrapIf
  split
  · simp
  · simp

namespace SpsDimensions

variable (d : SpsDimensions)

/-- The operations of `parse_sps` on the elements. They are on exact numbers as long as none of
them wraps around, so the first one that does is found here. -/
def log : List BitEvent :=
  wrapIf (2 ^ 32 ≤ d.width + 1) ++ wrapIf (2 ^ 32 ≤ d.height + 1) ++
    wrapIf (2 ^ 32 ≤ d.left * 2) ++ wrapIf (2 ^ 32 ≤ d.right * 2) ++
    wrapIf (2 ^ 32 ≤ d.top * 2) ++ wrapIf (2 ^ 32 ≤ d.bottom * 2) ++
    wrapIf (2 ^ 32 ≤ d.top * 2 * d.fields) ++ wrapIf (2 ^ 32 ≤ d.bottom * 2 * d.fields) ++
    wrapIf (2 ^ 32 ≤ (d.width + 1) * 16) ++ wrapIf (2 ^ 32 ≤ d.left * 2 + d.right * 2) ++
    wrapIf ((d.width + 1) * 16 < d.left * 2 + d.right * 2) ++
    wrapIf (2 ^ 32 ≤ (d.height + 1) * 16) ++
    wrapIf (2 ^ 32 ≤ d.top * 2 * d.fields + d.bottom * 2 * d.fields) ++
    wrapIf ((d.height + 1) * 16 < d.top * 2 * d.fields + d.bottom * 2 * d.fields) ++
    wrapIf (2 ^ 32 ≤
      ((d.height + 1) * 16 - (d.top * 2 * d.fields + d.bottom * 2 * d.fields)) * d.fields)

/-- No more is cropped than there is, as the code counts it, and the size fits in 32 bits. -/
structure Fit : Prop where
  columns : (d.width + 1) * 16 < 2 ^ 32
  lines : (d.height + 1) * 16 < 2 ^ 32
  cropColumns : d.left * 2 + d.right * 2 ≤ (d.width + 1) * 16
  cropLines : d.top * 2 * d.fields + d.bottom * 2 * d.fields ≤ (d.height + 1) * 16
  frameLines :
    ((d.height + 1) * 16 - (d.top * 2 * d.fields + d.bottom * 2 * d.fields)) * d.fields < 2 ^ 32

theorem fields_eq_one_or_two : d.fields = 1 ∨ d.fields = 2 := by
  unfold fields
  split
  · exact .inr rfl
  · exact .inl rfl

theorem wrap_notMem_log_iff : .wrap ∉ d.log ↔ d.Fit := by
  simp only [log, List.mem_append, wrap_mem_wrapIf, not_or, Nat.not_le, Nat.not_lt]
  constructor
  · rintro ⟨⟨⟨⟨⟨⟨⟨⟨⟨⟨⟨⟨⟨⟨-, -⟩, -⟩, -⟩, -⟩, -⟩, -⟩, -⟩, hcolumns⟩, -⟩, hcropColumns⟩, hlines⟩, -⟩,
      hcropLines⟩, hframe⟩
    exact ⟨hcolumns, hlines, hcropColumns, hcropLines, hframe⟩
  · rintro ⟨hcolumns, hlines, hcropColumns, hcropLines, hframe⟩
    rcases d.fields_eq_one_or_two with hone | htwo
    · rw [hone] at hcropLines hframe ⊢
      omega
    · rw [htwo] at hcropLines hframe ⊢
      omega

theorem shiftsInRange_log : ShiftsInRange d.log := by
  simp [log, shiftsInRange_wrapIf]

theorem pastEnd_notMem_log : .pastEnd ∉ d.log := by
  simp [log, pastEnd_notMem_wrapIf]

end SpsDimensions

/-- The events of `parse_sps`. -/
def spsLog (sps : Bytes) : List BitEvent :=
  spsProgram.log ⟨sps, 0, 0⟩ ++
    match (spsProgram.run ⟨sps, 0, 0⟩).1 with
    | none => []
    | some dimensions => dimensions.log

/-- No shift is out of range, and the size is left alone or found in bits that all exist, without
wrapping around. -/
def SpsSafe (sps : Bytes) : Prop :=
  ShiftsInRange (spsLog sps) ∧
    (parseSps sps = none ∨ .pastEnd ∉ spsLog sps ∧ .wrap ∉ spsLog sps)

/-! ## What the bits say -/

/-- What is read are codes only. -/
def OnlyCodes {α : Type} : BitProgram α → Prop
  | done _ => True
  | expGolombUe next => ∀ value, OnlyCodes (next value)
  | _ => False

theorem OnlyCodes.pastEnd_mem_iff {α : Type} {p : BitProgram α} (hp : OnlyCodes p) {bb : BitBuffer}
    (h : bb.Valid) : .pastEnd ∈ p.log bb ↔ .cut ∈ p.codes bb.rest := by
  induction p generalizing bb with
  | done a => simp [log, codes]
  | skipBits nbits next ih => exact hp.elim
  | getBit next ih => exact hp.elim
  | getBits nbits next ih => exact hp.elim
  | expGolombUe next ih =>
    obtain ⟨hvalid, hvalue, hrest⟩ := h.expGolombUe_eq
    rw [log, codes, List.mem_append, h.codeEvents.pastEnd_mem_iff, ih _ (hp _) hvalid, hvalue,
      hrest,
      List.mem_cons, eq_comm]

theorem onlyCodes_cropProgram (picture : SpsPicture) : OnlyCodes (cropProgram picture) :=
  fun _ _ _ _ => trivial

/-- The bits of a parameter set that is read safely. -/
structure Undamaged (bits : List Bool) : Prop where
  shifts : ∀ zeros, .whole zeros ∈ spsProgram.codes bits → zeros % 2 ^ 8 < 32
  counts : ∀ dimensions, (spsProgram.walk bits).1 = some dimensions →
    ∀ zeros, .whole zeros ∈ spsProgram.codes bits → zeros < 2 ^ 8
  whole : ∀ dimensions, (spsProgram.walk bits).1 = some dimensions → .cut ∉ spsProgram.codes bits
  fit : ∀ dimensions, (spsProgram.walk bits).1 = some dimensions → dimensions.Fit

/-- Past the cropping flag only codes are read. -/
theorem pastEnd_croppingProgram {picture : SpsPicture} {bb : BitBuffer} (h : bb.Valid)
    {dimensions : SpsDimensions}
    (hfound : ((croppingProgram picture).run bb).1 = some dimensions)
    (hpast : .pastEnd ∈ (croppingProgram picture).log bb) :
    .cut ∈ (croppingProgram picture).codes bb.rest := by
  have hflag := h.pastEnd_mem_getBitLog
  rw [croppingProgram, run] at hfound
  rw [croppingProgram, log, List.mem_append, hflag] at hpast
  rw [croppingProgram, codes]
  cases hrest : bb.rest with
  | nil =>
    rw [h.getBit_nil hrest] at hfound
    cases hfound
  | cons bit tail =>
    have htail : (bb.skipBits 1).rest = tail := by
      rw [BitBuffer.rest_skipBits, hrest, List.drop_succ_cons, List.drop_zero]
    rw [h.getBit_cons hrest, hrest] at hpast
    have hpast := hpast.resolve_left (List.cons_ne_nil bit tail)
    cases bit with
    | false => simp [log] at hpast
    | true =>
      have hcodes := (onlyCodes_cropProgram picture).pastEnd_mem_iff (BitBuffer.valid_skipBits 1 bb)
      rw [htail] at hcodes
      dsimp only [List.head?_cons, Option.map_some, List.drop_succ_cons, List.drop_zero] at hpast ⊢
      rw [if_pos (by decide), log_bind, List.mem_append] at hpast
      rw [if_pos (by decide), codes_bind, List.mem_append]
      exact .inl (hcodes.mp (hpast.resolve_right (by simp [log])))

/-- When the cropping flag is found, all that lies in front of it was there. -/
theorem pastEnd_mem_iff_cut {bb : BitBuffer} (h : bb.Valid) {dimensions : SpsDimensions}
    (hfound : (spsProgram.run bb).1 = some dimensions) :
    .pastEnd ∈ spsProgram.log bb ↔ .cut ∈ spsProgram.codes bb.rest := by
  obtain ⟨-, hreads⟩ := spsProgram.run_walk h
  refine ⟨fun hpast => ?_, hreads.pastEnd_of_cut⟩
  obtain ⟨hresult, hfront⟩ := frontProgram.run_walk h
  rw [spsProgram, run_bind] at hfound
  rw [spsProgram, log_bind, List.mem_append] at hpast
  rw [spsProgram, codes_bind, List.mem_append, ← hresult, ← hfront.rest_eq]
  cases hpicture : (frontProgram.run bb).1 with
  | none =>
    rw [hpicture] at hfound
    cases hfound
  | some picture =>
    rw [hpicture] at hfound hpast
    rcases hpast with hpast | hpast
    · have hend : (frontProgram.run bb).2.rest = [] :=
        hfront.rest_eq.trans (hfront.rest_of_pastEnd hpast)
      rw [croppingOf, croppingProgram, run, hfront.valid.getBit_nil hend] at hfound
      cases hfound
    · exact .inr (pastEnd_croppingProgram hfront.valid hfound hpast)

/-- On all bytes: the parser is safe exactly if the bits are undamaged. -/
theorem spsSafe_iff (sps : Bytes) : SpsSafe sps ↔ Undamaged (ofBytes sps) := by
  have hstart : BitBuffer.Valid ⟨sps, 0, 0⟩ := Nat.zero_lt_succ 7
  have hrest : BitBuffer.rest ⟨sps, 0, 0⟩ = ofBytes sps := rfl
  obtain ⟨hresult, hreads⟩ := spsProgram.run_walk hstart
  have hparse := run_spsProgram sps
  rw [hrest] at hresult hreads
  unfold SpsSafe spsLog
  cases hfound : (spsProgram.run ⟨sps, 0, 0⟩).1 with
  | none =>
    rw [hfound] at hparse hresult
    rw [List.append_nil, ← hparse, hreads.shiftsInRange_iff]
    constructor
    · rintro ⟨hshifts, -⟩
      exact ⟨hshifts, by simp [← hresult], by simp [← hresult], by simp [← hresult]⟩
    · intro h
      exact ⟨h.shifts, .inl rfl⟩
  | some dimensions =>
    have hpast := pastEnd_mem_iff_cut hstart hfound
    rw [hfound] at hparse hresult
    dsimp only
    rw [← hparse, shiftsInRange_append, hreads.shiftsInRange_iff, List.mem_append, List.mem_append,
      hpast, hrest]
    constructor
    · rintro ⟨⟨hshifts, -⟩, hnone | ⟨hcut, hwrap⟩⟩
      · cases hnone
      · have hwhole := fun hmem => hcut (.inl hmem)
        rw [not_or, hreads.wrap_iff hwhole, dimensions.wrap_notMem_log_iff] at hwrap
        refine ⟨hshifts, fun _ _ zeros hmem => Nat.lt_of_not_le fun hle =>
          hwrap.1 ⟨zeros, hle, hmem⟩, fun _ _ => hwhole, fun found hsome => ?_⟩
        rw [← hresult] at hsome
        cases hsome
        exact hwrap.2
    · intro h
      have hwhole := h.whole dimensions hresult.symm
      refine ⟨⟨h.shifts, dimensions.shiftsInRange_log⟩,
        .inr ⟨not_or_intro hwhole dimensions.pastEnd_notMem_log, not_or_intro ?_ ?_⟩⟩
      · rw [hreads.wrap_iff hwhole]
        rintro ⟨zeros, hle, hmem⟩
        exact Nat.not_lt_of_le hle (h.counts dimensions hresult.symm zeros hmem)
      · exact dimensions.wrap_notMem_log_iff.mpr (h.fit dimensions hresult.symm)

/-- A set that ends after two of its four crop offsets: the others count as zero. -/
theorem not_spsSafe : ¬ ∀ sps, SpsSafe sps := by
  intro h
  have hsafe := h [0x67, 0x4d, 0x00, 0x28, 0xf2, 0x80, 0xf0, 0x08, 0x9f]
  rcases hsafe.2 with hnone | ⟨hinside, -⟩
  · exact absurd hnone (by decide)
  · exact absurd hinside (by decide)

end FlvMeta
