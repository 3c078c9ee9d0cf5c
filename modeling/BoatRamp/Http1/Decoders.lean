import BoatRamp.Http1.Pieces
import BoatRamp.Http1.RoundTrip

/-!
# The two decoders of chunks

A body is decoded in one walk over the buffer, or chunk by chunk from the front
of a buffer that drops what it has read.  The walk adds the offset of a chunk to
its size, so a size that is in range by itself can leave the range there.
-/

namespace BoatRamp.Http1.Chunked

open Http Nat

/-- Take chunk after chunk from the front, with the number of bytes dropped so far. -/
def takeChunks : (fuel pos : Nat) → Octets → (collected : Octets) → ChunkDecode
  | 0, _, _, _ => .incomplete
  | fuel + 1, pos, rest, collected =>
      match nextChunk rest with
      | .data dataStart dataEnd next =>
          takeChunks fuel (pos + next) (rest.drop next)
            (collected ++ (rest.drop dataStart).take (dataEnd - dataStart))
      | .last finish => .complete collected (pos + finish)
      | .incomplete => .incomplete
      | .reject reason => .reject reason

def decodeStepwise (buffer : Octets) : ChunkDecode := takeChunks (buffer.length + 1) 0 buffer []

inductive ChunkScan where
  | complete (finish : Nat)
  | incomplete
  | reject (reason : Reject)

def scan (buffer : Octets) : ChunkScan :=
  match walk (buffer.length + 1) 0 buffer [] with
  | .ok (some (_, finish)) => .complete finish
  | .ok none => .incomplete
  | .error reason => .reject reason

def ChunkDecode.scanned : ChunkDecode → ChunkScan
  | .complete _ finish => .complete finish
  | .incomplete => .incomplete
  | .reject reason => .reject reason

/-- A chunk whose end is in range, but not from its offset. -/
def Overflows (pos : Nat) (rest : Octets) : Prop :=
  ∃ line after size, nextLine rest = .ok (some (line, after)) ∧ sizeOfLine line = .ok size ∧
    size ≠ 0 ∧ line.length + 2 + size + 2 < 2 ^ 64 ∧ 2 ^ 64 ≤ pos + line.length + 2 + size + 2

inductive Overflowing : Nat → Octets → Prop
  | here {pos : Nat} {rest : Octets} (chunk : Overflows pos rest) : Overflowing pos rest
  | later {pos dataStart dataEnd next : Nat} {rest : Octets}
      (chunk : nextChunk rest = .data dataStart dataEnd next)
      (others : Overflowing (pos + next) (rest.drop next)) : Overflowing pos rest

def ChunkStep.shift (pos : Nat) : ChunkStep → ChunkStep
  | .data dataStart dataEnd next => .data (pos + dataStart) (pos + dataEnd) (pos + next)
  | .last finish => .last (pos + finish)
  | .incomplete => .incomplete
  | .reject reason => .reject reason

variable {pos : Nat} {rest : Octets}

theorem trailers_shift (fuel b pos : Nat) (rest : Octets) :
    trailers fuel (pos + b) rest = (trailers fuel b rest).map (Option.map (pos + ·)) := by
  induction fuel generalizing b rest with
  | zero => rfl
  | succ fuel ih =>
    unfold trailers
    cases nextLine rest with
    | error rsn => rfl
    | ok l =>
      cases l with
      | none => rfl
      | some p =>
        obtain ⟨l, a⟩ := p
        dsimp only
        split_ifs
        · rfl
        · rfl
        cases splitHeader l with
        | error rsn => rfl
        | ok f =>
          dsimp only
          split_ifs
          · rfl
          · rw [← ih, add_assoc, add_assoc, add_assoc]

theorem chunkAt_shift (hf : ¬Overflows pos rest) :
    chunkAt pos rest = (chunkAt 0 rest).map (ChunkStep.shift pos) := by
  unfold chunkAt
  cases hl : nextLine rest with
  | error rsn => rfl
  | ok l =>
    cases l with
    | none => rfl
    | some p =>
      obtain ⟨l, af⟩ := p
      dsimp only
      cases hs : sizeOfLine l with
      | error rsn => rfl
      | ok s =>
        simp only [bind, Except.bind, zero_add]
        by_cases hz : s = 0
        · rw [if_pos hz, if_pos hz, add_assoc, trailers_shift]
          cases trailers (af.length + 1) (l.length + 2) af with
          | error rsn => rfl
          | ok f => cases f <;> rfl
        have hb : 2 ^ 64 ≤ pos + l.length + 2 + s + 2 ↔ 2 ^ 64 ≤ l.length + 2 + s + 2 := by
          refine ⟨fun hp => ?_, fun _ => by omega⟩
          by_contra hr
          exact hf ⟨l, af, s, hl, hs, hz, by omega, hp⟩
        rw [if_neg hz, if_neg hz]
        simp only [hb]
        split_ifs
        · rfl
        · rfl
        · rfl
        · simp [pure, Except.pure, Except.map, ChunkStep.shift, add_assoc]

/-- Out of range, the walk rejects a chunk that has not arrived. -/
theorem chunkAt_of_overflows (ho : Overflows pos rest) (hs : pos + rest.length < 2 ^ 64) :
    chunkAt pos rest = .error .badChunk ∧ nextChunk rest = .incomplete := by
  obtain ⟨l, af, s, hl, hsi, hz, hr, hp⟩ := ho
  have hle := length_of_nextLine hl
  unfold nextChunk chunkAt
  simp only [hl, hsi, bind, Except.bind, if_neg hz, zero_add]
  rw [if_pos hp, if_neg (by omega), if_pos (by omega)]
  exact ⟨rfl, rfl⟩

theorem chunkAt_ne_reject (rsn : Reject) : chunkAt pos rest ≠ .ok (.reject rsn) := by
  intro hf
  rcases chunkAt_cases hf with hs | ⟨l, a, s, _, ⟨f, _, hs⟩ | ⟨_, hs⟩⟩ <;> cases hs

def decoded : Except Reject (Option (Octets × Nat)) → ChunkDecode
  | .ok (some (data, finish)) => .complete data finish
  | .ok none => .incomplete
  | .error reason => .reject reason

theorem takeChunks_eq_iff {fuel : Nat} (he : rest.length < fuel) (c : Octets)
    (hs : pos + rest.length < 2 ^ 64) :
    takeChunks fuel pos rest c = decoded (walk fuel pos rest c) ↔ ¬Overflowing pos rest := by
  induction fuel generalizing pos rest c with
  | zero => exact absurd he (Nat.not_lt_zero _)
  | succ fuel ih =>
    by_cases ho : Overflows pos rest
    · obtain ⟨hw, hn⟩ := chunkAt_of_overflows ho hs
      simp only [takeChunks, walk, hw, hn, bind, Except.bind, decoded]
      exact iff_of_false (by simp) (not_not.mpr (.here ho))
    -- a chunk that is no data ends both runs, and there is none after it
    have hh (hd : ∀ ds de next, nextChunk rest ≠ .data ds de next) : ¬Overflowing pos rest := by
      intro hov
      cases hov with
      | here hch => exact ho hch
      | later hch => exact hd _ _ _ hch
    have hw := chunkAt_shift ho
    rw [walk, hw, takeChunks]
    cases hc : chunkAt 0 rest with
    | error rsn =>
      have hn : nextChunk rest = .reject rsn := by rw [nextChunk, hc]
      rw [hn]
      exact iff_of_true rfl (hh (by simp [hn]))
    | ok step =>
      have hn : nextChunk rest = step := by rw [nextChunk, hc]
      rw [hn]
      cases step with
      | reject rsn => exact absurd hc (chunkAt_ne_reject rsn)
      | incomplete | last f => exact iff_of_true rfl (hh (by simp [hn]))
      | data ds de next =>
        obtain ⟨_, _, hp, hle⟩ := nextChunk_data hn
        have hhl : (rest.drop next).length = rest.length - next := List.length_drop
        simp only [Except.map, ChunkStep.shift, bind, Except.bind, Nat.add_sub_cancel_left,
          Nat.add_sub_add_left]
        rw [ih (by omega) _ (by omega), not_iff_not]
        constructor
        · exact .later hn
        intro hov
        cases hov with
        | here hch => exact absurd hch ho
        | later hch hot =>
          cases hn.symm.trans hch
          exact hot

/-- Chunk by chunk a body is decoded as in one walk, unless the walk reaches a chunk that leaves
the range; what the encoder writes is decoded up to its last byte. -/
theorem chunked_decoders_agree_iff (buffer : Octets) (hs : buffer.length < 2 ^ 64) :
    ((decodeStepwise buffer = decode buffer ∧ (decodeStepwise buffer).scanned = scan buffer) ↔
      ¬Overflowing 0 buffer) ∧ ∀ (pieces : List Octets) (fields : HeaderMap) (rest : Octets),
      (∀ piece ∈ pieces, piece ≠ []) → (∀ field ∈ fields, forbiddenTrailer field.1.bytes = false) →
      (pieces.flatMap encode ++ encodeLast fields).length < 2 ^ 64 →
      decode (pieces.flatMap encode ++ encodeLast fields ++ rest) =
        .complete pieces.flatten (pieces.flatMap encode ++ encodeLast fields).length := by
  refine ⟨?_, fun pieces fields rest hso ha hs => decode_encoded rest hso ha hs⟩
  have hw : decode buffer = decoded (walk (buffer.length + 1) 0 buffer []) := rfl
  have hsc : scan buffer = (decode buffer).scanned := by
    unfold scan decode
    split <;> simp_all [ChunkDecode.scanned]
  rw [hsc, ← takeChunks_eq_iff (Nat.lt_succ_self _) [] (by omega), hw]
  exact ⟨fun hb => hb.1, fun hsa => ⟨hsa, congrArg _ hsa⟩⟩

namespace Distant

def buffer : Octets := ascii "1\r\nX\r\nffffffffffffffe8\r\n"

/-- The walk rejects the second chunk, which the other decoder waits for. -/
theorem rejected_or_awaited :
    decode buffer = .reject .badChunk ∧ decodeStepwise buffer = .incomplete := by
  decide +kernel

theorem overflow_told : buffer.length < 2 ^ 64 ∧ ((decodeStepwise buffer = decode buffer ∧
      (decodeStepwise buffer).scanned = scan buffer) ↔ ¬Overflowing 0 buffer) :=
  ⟨by decide, (chunked_decoders_agree_iff buffer (by decide)).1⟩

end Distant

end BoatRamp.Http1.Chunked
