import BoatRamp.Http1.Respond

/-!
# The largest head

A head ends with the first empty line after another line.  The parsers look at
the bound when a line starts, so that the empty line of an accepted head may end
one byte beyond it.
-/

namespace BoatRamp.Http1

open Http Library.Incremental List Option

/-- Where the first empty line that follows another line ends. -/
def headEnd : Octets → Option Nat
  | [] => none
  | byte :: rest =>
      if byte = LF ∧ CRLF <+: rest then some 3 else (headEnd rest).map (· + 1)

theorem headEnd_append {l : Octets} (hl : LF ∉ l) (rest : Octets) :
    headEnd (l ++ rest) = (headEnd rest).map (· + l.length) := by
  induction l with
  | nil => simp
  | cons b l ih =>
    obtain ⟨hb, hl⟩ := not_or.mp fun h => hl (mem_cons.mpr h)
    rw [cons_append, headEnd, if_neg (fun h => hb h.1.symm), ih hl, Option.map_map]
    apply congrArg fun f => (headEnd rest).map f
    funext n
    simp [Nat.add_assoc]

variable {buffer l a : Octets}

theorem nextLine_unbroken (read : nextLine buffer = .ok (some (l, a))) : CR ∉ l := by
  unfold nextLine at read
  split at read
  · cases read
  dsimp only at read
  split at read
  · cases read
  split at read
  · cases read
  next hc =>
    cases read
    simpa using hc

theorem headEnd_line (read : nextLine buffer = .ok (some (l, a)))
    (hn : l ≠ []) : headEnd (LF :: buffer) = (headEnd buffer).map (· + 1) := by
  obtain ⟨hs, -⟩ := nextLine_shape read
  have hc := nextLine_unbroken read
  rw [headEnd, if_neg]
  rintro ⟨-, tail, ht⟩
  cases l with
  | nil => exact hn rfl
  | cons b l =>
    rw [hs] at ht
    have hb : CR = b := (cons.inj ht).1
    exact hc (hb ▸ mem_cons_self)

theorem headEnd_after_line (read : nextLine buffer = .ok (some (l, a))) :
    headEnd buffer = (headEnd (LF :: a)).map (· + (l.length + 1)) := by
  obtain ⟨hs, hl⟩ := nextLine_shape read
  have hp : LF ∉ l ++ [CR] := by
    rw [mem_append, mem_singleton]
    exact not_or.mpr ⟨hl, by decide⟩
  have hb : buffer = l ++ [CR] ++ LF :: a := by simp [hs, CRLF]
  rw [hb, headEnd_append hp]
  simp

section Lines

variable {Gathering : Type} {read : Gathering → Octets → Option Gathering}

/-- The lines of an accepted head end at its first empty line, at most one byte beyond the bound. -/
theorem readLines_end {t fuel pos c : Nat} {rest : Octets} {g f : Gathering}
    (ht : pos + rest.length = t) (hr : readLines read t fuel pos rest g = some (some (f, c))) :
    c ≤ MAX_HEAD + 1 ∧ pos ≤ c ∧ headEnd (LF :: rest) = some (c - pos + 1) := by
  induction fuel generalizing pos rest g with
  | zero => cases hr
  | succ fuel ih =>
    rw [readLines] at hr
    split at hr
    · cases hr
    next hb =>
    split at hr
    · cases hr
    · split at hr <;> cases hr
    next l a found =>
    have hl := length_of_nextLine found
    split at hr
    next hn =>
      cases hr
      obtain ⟨hs, -⟩ := nextLine_shape found
      rw [hn, length_nil] at hl
      refine ⟨by omega, by omega, ?_⟩
      rw [headEnd, if_pos ⟨rfl, a, by rw [hs, hn, nil_append]⟩]
      simp
    next hn =>
    split at hr
    · cases hr
    obtain ⟨hm, hp, he⟩ := ih (by omega) hr
    refine ⟨hm, by omega, ?_⟩
    rw [headEnd_line found hn, headEnd_after_line found, he]
    simp only [map_some, some.injEq]
    omega

end Lines

theorem parseResponseHead_end {buffer : Octets} {head : ResponseHead} {c : Nat}
    (hp : parseResponseHead buffer = .complete head c) :
    c ≤ MAX_HEAD + 1 ∧ headEnd buffer = some c := by
  unfold parseResponseHead at hp
  simp only [parseResponseFields_eq] at hp
  split at hp
  · cases hp
  · split at hp
    · cases hp
    · cases hp
  next l a found =>
  have hl := length_of_nextLine found
  split at hp
  · cases hp
  split at hp
  · cases hp
  · cases hp
  next hr =>
  cases hp
  obtain ⟨hm, hs, he⟩ := readLines_end (by omega) hr
  refine ⟨hm, ?_⟩
  rw [headEnd_after_line found, he]
  simp only [map_some, some.injEq]
  omega

section Requests

variable {acceptsUri : Octets → Bool} {buffer : Octets} {head : RequestHead} {c : Nat}

theorem parseHeadFrom_end {t pos : Nat} {rest : Octets} (ht : pos + rest.length = t)
    (hp : (parseHeadFrom acceptsUri t pos rest).toOption = some (some (head, c))) :
    c ≤ MAX_HEAD + 1 ∧ pos ≤ c ∧ headEnd rest = some (c - pos) := by
  obtain ⟨l, a, f, hf, -, hr⟩ := parseHeadFrom_lines hp
  have hl := length_of_nextLine hf
  obtain ⟨hm, hs, he⟩ := readLines_end (by omega) hr
  refine ⟨hm, by omega, ?_⟩
  rw [headEnd_after_line hf, he]
  simp only [map_some, some.injEq]
  omega

theorem parseRequestHead_end (hp : parseRequestHead acceptsUri buffer = .complete head c) :
    c ≤ MAX_HEAD + 1 ∧ headEnd buffer = some c := by
  rcases parseRequestHead_from hp with ⟨a, hf, ht, hr⟩ | hr
  · -- an empty line in front of the head is not after another line
    obtain ⟨hm, hs, he⟩ := parseHeadFrom_end ht hr
    obtain ⟨l, b, _, hfo, hn, -⟩ := parseHeadFrom_lines hr
    refine ⟨hm, ?_⟩
    rw [headEnd_after_line hf, headEnd_line hfo hn, he]
    simp only [map_some, some.injEq, length_nil]
    omega
  · obtain ⟨hm, -, he⟩ := parseHeadFrom_end (Nat.zero_add _) hr
    exact ⟨hm, he⟩

end Requests

/-- An accepted head is within the bound exactly when its empty line does not end one byte beyond
it.  What is refused stays refused, and reads in pieces are read alike. -/
theorem head_bounded_iff (acceptsUri : Octets → Bool) (buffer : Octets) :
    (∀ head consumed, parseRequestHead acceptsUri buffer = .complete head consumed →
      (consumed ≤ MAX_HEAD ↔ headEnd buffer ≠ some (MAX_HEAD + 1))) ∧
    (∀ head consumed, parseResponseHead buffer = .complete head consumed →
      (consumed ≤ MAX_HEAD ↔ headEnd buffer ≠ some (MAX_HEAD + 1))) ∧
    (parseRequestHead acceptsUri buffer = .reject .tooLarge →
      ∀ later, ∃ reason, parseRequestHead acceptsUri (buffer ++ later) = .reject reason) ∧
    (parseResponseHead buffer = .reject → ∀ later, parseResponseHead (buffer ++ later) = .reject) ∧
    Stable (decodeRequestHead acceptsUri) ∧ Stable decodeResponseHead := by
  have hb {c : Nat} (hm : c ≤ MAX_HEAD + 1 ∧ headEnd buffer = some c) :
      c ≤ MAX_HEAD ↔ headEnd buffer ≠ some (MAX_HEAD + 1) := by
    rw [hm.2, ne_eq, Option.some.injEq]
    omega
  refine ⟨fun _ _ hp => hb (parseRequestHead_end hp), fun _ _ hp => hb (parseResponseHead_end hp),
    ?_, ?_, decodeRequestHead_stable, decodeResponseHead_stable⟩
  · intro hr later
    have hn : decodeRequestHead acceptsUri buffer = some (none, buffer) := by
      simp [decodeRequestHead, hr]
    have hd := decodeRequestHead_stable hn later
    unfold decodeRequestHead at hd
    split at hd
    · cases hd
    next reason hp => exact ⟨reason, hp⟩
    · cases hd
  · intro hr later
    rw [parseResponseHead_extend (by simp [hr]), hr]

namespace Brimming

open Overweight

def target : OriginForm (fun _ => true) := ⟨ascii "/a", rfl, by decide, rfl⟩

def headers (length : Nat) : HeaderMap :=
  [(.HOST, note 1), (NOTE, note length)]

theorem length_head (n : Nat) :
    (encodeRequestHead .GET target.bytes (headers n)).length = 38 + n := by
  have hn : (note n).bytes.length = n := length_replicate
  have hf : (fieldLine (NOTE, note n)).length = 8 + n := by
    have hk : (NOTE.bytes ++ ascii ": ").length = 8 := by decide
    rw [fieldLine, length_append, hk, hn]
  rw [length_encodeRequestHead, headers, length_fieldLines_cons, length_fieldLines_cons, hf]
  have hr : (requestLine .GET target.bytes).length = 15 := by decide
  have hh : (fieldLine (HeaderName.HOST, note 1)).length = 7 := by decide
  rw [hr, hh]
  simp [fieldLines]
  omega

theorem accepted_beyond_bound : ∃ head consumed, parseRequestHead (fun _ => true)
        (encodeRequestHead .GET target.bytes (headers 65499)) = .complete head consumed ∧
      consumed = MAX_HEAD + 1 := by
  have hl := length_head 65499
  have hm : MAX_HEAD = 65536 := rfl
  have hp := parseRequestHead_encoded .GET target (headers 65499) [] (by decide) (by omega) rfl rfl
  rw [List.append_nil] at hp
  exact ⟨_, _, hp, by omega⟩

end Brimming

end BoatRamp.Http1
