import BoatRamp.Http1.Client
import BoatRamp.Library.Incremental
import Mathlib.Data.List.TakeWhile

/-!
# Reading lines

The loop that the parsers of request heads and of response heads share: field
lines up to the empty one, within the largest head.  What it has said of a
buffer stands for every buffer that continues it.
-/

namespace BoatRamp.Http1

open Http List Nat

theorem span_append_of_stopped {s : UInt8 → Bool} {bs : Octets}
    (hs : bs.dropWhile s ≠ []) (l : Octets) : (bs ++ l).dropWhile s = bs.dropWhile s ++ l ∧
      (bs ++ l).takeWhile s = bs.takeWhile s := by
  induction bs with
  | nil => exact absurd rfl hs
  | cons b bs ih =>
    cases hk : s b with
    | false => simp [hk]
    | true =>
      simp only [dropWhile_cons, hk, if_true] at hs
      obtain ⟨hd, ht⟩ := ih hs
      simp [hk, hd, ht]

variable {buf : Octets}

theorem nextLine_extend (ha : nextLine buf ≠ .ok none) (l : Octets) :
    nextLine (buf ++ l) = (nextLine buf).map (fun read => read.map fun p => (p.1, p.2 ++ l)) := by
  have hs : buf.dropWhile (fun b => b ≠ LF) ≠ [] := by
    intro hm
    apply ha
    rw [nextLine, hm]
  obtain ⟨hd, ht⟩ := span_append_of_stopped hs l
  unfold nextLine
  rw [hd, ht]
  split
  next hm => exact absurd (append_eq_nil_iff.mp hm).1 hs
  next _ a hsh =>
  cases hta : buf.dropWhile (fun b => b ≠ LF) with
  | nil => exact absurd hta hs
  | cons _ rest =>
    rw [hta] at hsh
    obtain ⟨_, rfl⟩ := cons.inj hsh
    dsimp only
    split
    · rfl
    split <;> rfl

theorem nextLine_error_extend {rsn : Reject} (hr : nextLine buf = .error rsn)
    (l : Octets) : nextLine (buf ++ l) = .error rsn := by
  rw [nextLine_extend (by simp [hr]), hr]
  rfl

theorem nextLine_some_extend {ln a : Octets}
    (read : nextLine buf = .ok (some (ln, a))) (l : Octets) :
    nextLine (buf ++ l) = .ok (some (ln, a ++ l)) := by
  rw [nextLine_extend (by simp [read]), read]
  rfl

theorem nextLine_shape {ln a : Octets} (read : nextLine buf = .ok (some (ln, a))) :
    buf = ln ++ CRLF ++ a ∧ LF ∉ ln := by
  unfold nextLine at read
  split at read
  · cases read
  next b rest hs =>
  have hfe : b = LF := by
    have hf := head?_dropWhile_not (fun b => decide (b ≠ LF)) buf
    rw [hs] at hf
    simpa using hf
  dsimp only at read
  split at read
  · cases read
  next ended =>
  split at read
  · cases read
  cases read
  have hw := takeWhile_append_dropWhile (p := fun b => decide (b ≠ LF)) (l := buf)
  have hl := dropLast_append_getLast? _ (Option.mem_def.mpr (not_not.mp ended))
  rw [hs, hfe, ← hl] at hw
  refine ⟨by simpa [CRLF] using hw.symm, ?_⟩
  intro hi
  have he := mem_takeWhile_imp (mem_of_mem_dropLast hi)
  simp at he

theorem length_of_nextLine {l a : Octets} (read : nextLine buf = .ok (some (l, a))) :
    buf.length = l.length + 2 + a.length := by
  rw [(nextLine_shape read).1]
  simp [CRLF]
  omega

theorem length_le_of_unfinished {l ln a : Octets} (hu : nextLine buf = .ok none)
    (read : nextLine (buf ++ l) = .ok (some (ln, a))) : buf.length ≤ ln.length + 1 := by
  obtain ⟨hs, _⟩ := nextLine_shape read
  have hf : LF ∉ buf := by
    intro hi
    unfold nextLine at hu
    split at hu
    next passed =>
      have hk := dropWhile_eq_nil_iff.mp passed LF hi
      simp at hk
    dsimp only at hu
    split at hu
    · cases hu
    split at hu <;> cases hu
  by_contra hl
  -- the line feed after the line would lie in the buffer
  have hp : (buf ++ l)[ln.length + 1]? = some LF := by
    rw [hs]
    simp [CRLF]
  rw [getElem?_append_left (by omega)] at hp
  exact hf (mem_of_getElem? hp)

section Loop

variable {Gathering : Type} (read : Gathering → Octets → Option Gathering)

/-- Lines up to the empty one, from the given position of a buffer of `total` bytes: `none` when
the head is refused, `some none` when more is needed. -/
def readLines (total : Nat) : (fuel pos : Nat) → Octets → Gathering →
    Option (Option (Gathering × Nat))
  | 0, _, _, _ => some none
  | fuel + 1, pos, rest, gathered =>
      if MAX_HEAD < total ∧ MAX_HEAD ≤ pos then none
      else
        match nextLine rest with
        | .error _ => none
        | .ok none => if MAX_HEAD < total then none else some none
        | .ok (some (line, after)) =>
            if line = [] then some (some (gathered, pos + 2))
            else
              match read gathered line with
              | none => none
              | some gathered => readLines total fuel (pos + line.length + 2) after gathered

variable {read}

variable {rest : Octets} {ga : Gathering}

variable {t fuel pos : Nat}

theorem readLines_beyond (hl : MAX_HEAD < t) (hb : MAX_HEAD ≤ pos)
    (hs : 0 < fuel) : readLines read t fuel pos rest ga = none := by
  obtain ⟨fuel, rfl⟩ := exists_eq_succ_of_ne_zero (ne_of_gt hs)
  rw [readLines, if_pos ⟨hl, hb⟩]

theorem readLines_bounds {f : Gathering} {c : Nat} (hc : pos + rest.length = t)
    (read : readLines read t fuel pos rest ga = some (some (f, c))) : pos < c ∧ c ≤ t := by
  induction fuel generalizing pos rest ga with
  | zero => cases read
  | succ fuel ih =>
    rw [readLines] at read
    split at read
    · cases read
    split at read
    · cases read
    · split at read <;> cases read
    next l a found =>
    have hl := length_of_nextLine found
    split at read
    · cases read
      omega
    split at read
    · cases read
    · obtain ⟨ha, hi⟩ := ih (by omega) read
      exact ⟨by omega, hi⟩

/-- A buffer that is too long before its last line is finished stays refused: the line ends
beyond the largest head, and so does the head. -/
theorem readLines_overrun {l : Octets} (hco : pos + rest.length = t) (hlo : MAX_HEAD < t)
    (hu : nextLine rest = .ok none) (he : (rest ++ l).length < fuel) :
    readLines read (t + l.length) fuel pos (rest ++ l) ga = none := by
  obtain ⟨fuel, rfl⟩ := exists_eq_succ_of_ne_zero (ne_of_gt (zero_lt_of_lt he))
  rw [readLines]
  split
  · rfl
  cases hf : nextLine (rest ++ l) with
  | error rsn => rfl
  | ok ln =>
    cases ln with
    | none => exact if_pos (by omega)
    | some p =>
      obtain ⟨ln, a⟩ := p
      have hc := length_le_of_unfinished hu hf
      have hl := length_of_nextLine hf
      have hfi : ln ≠ [] := by
        rintro rfl
        rw [length_nil] at hc
        omega
      dsimp only
      rw [if_neg hfi]
      cases read ga ln with
      | none => rfl
      | some next => exact readLines_beyond (by omega) (by omega) (by omega)

/-- What has been said of the lines stands when the buffer grows. -/
theorem readLines_extend (hc : pos + rest.length = t)
    (hs : readLines read t fuel pos rest ga ≠ some none) {l : Octets}
    {o : Nat} (he : (rest ++ l).length < o) : readLines read (t + l.length) o pos (rest ++ l) ga =
      readLines read t fuel pos rest ga := by
  induction fuel generalizing pos rest ga o with
  | zero => exact absurd rfl hs
  | succ fuel ih =>
    obtain ⟨o, rfl⟩ := exists_eq_succ_of_ne_zero (ne_of_gt (zero_lt_of_lt he))
    rw [length_append] at he
    rw [readLines] at hs ⊢
    rw [readLines]
    by_cases hl : MAX_HEAD < t ∧ MAX_HEAD ≤ pos
    · rw [if_pos hl, if_pos ⟨by omega, hl.2⟩]
    rw [if_neg hl] at hs ⊢
    cases hf : nextLine rest with
    | error rsn =>
      rw [nextLine_error_extend hf l]
      simp
    | ok ln =>
      cases ln with
      | none =>
        rw [hf] at hs
        have hlo : MAX_HEAD < t := by
          by_contra hsh
          exact hs (if_neg hsh)
        have hr : readLines read (t + l.length) (o + 1) pos (rest ++ l) ga = none :=
          readLines_overrun hc hlo hf (by rw [length_append]; omega)
        rw [readLines] at hr
        exact hr.trans (if_pos hlo).symm
      | some p =>
        obtain ⟨ln, a⟩ := p
        have hle := length_of_nextLine hf
        have hi : ¬(MAX_HEAD < t + l.length ∧ MAX_HEAD ≤ pos) := by omega
        rw [hf] at hs
        rw [if_neg hi, nextLine_some_extend hf l]
        dsimp only at hs ⊢
        by_cases hb : ln = []
        · rw [if_pos hb, if_pos hb]
        rw [if_neg hb] at hs
        rw [if_neg hb, if_neg hb]
        cases ht : read ga ln with
        | none => rfl
        | some next =>
          rw [ht] at hs
          exact ih (by omega) hs (by rw [length_append]; omega)

end Loop

def readResponseField (headers : HeaderMap) (line : Octets) : Option HeaderMap :=
  if isFolded line then none
  else
    match splitHeader line with
    | .error _ => none
    | .ok (name, value) =>
        match HeaderName.fromBytes name, HeaderValue.fromBytes value with
        | some name, some value => some (headers.append name value)
        | _, _ => none

theorem parseResponseFields_eq (t fuel pos : Nat) (rest : Octets) (hdrs : HeaderMap) :
    parseResponseFields t fuel pos rest hdrs =
      readLines readResponseField t fuel pos rest hdrs := by
  induction fuel generalizing pos rest hdrs with
  | zero => rfl
  | succ fuel ih =>
    rw [parseResponseFields, readLines]
    split
    · rfl
    cases nextLine rest with
    | error rsn => rfl
    | ok l =>
      cases l with
      | none => rfl
      | some p =>
        obtain ⟨l, a⟩ := p
        dsimp only [readResponseField]
        split
        · rfl
        cases isFolded l with
        | true => rfl
        | false =>
          rw [if_neg Bool.false_ne_true, if_neg Bool.false_ne_true]
          cases splitHeader l with
          | error rsn => rfl
          | ok f =>
            obtain ⟨name, v⟩ := f
            dsimp only
            cases HeaderName.fromBytes name with
            | none => rfl
            | some name =>
              cases HeaderValue.fromBytes v with
              | none => rfl
              | some v => exact ih _ _ _

theorem toOption_parseFields (t fuel pos : Nat) (rest : Octets) (g : Gathered) :
    (parseFields t fuel pos rest g).toOption =
      readLines (fun g l => (g.read l).toOption) t fuel pos rest g := by
  induction fuel generalizing pos rest g with
  | zero => rfl
  | succ fuel ih =>
    rw [parseFields, readLines]
    split
    · rfl
    cases nextLine rest with
    | error rsn => rfl
    | ok l =>
      cases l with
      | none =>
        dsimp only [unfinished]
        split <;> rfl
      | some p =>
        obtain ⟨l, a⟩ := p
        dsimp only
        split
        · rfl
        cases g.read l with
        | error rsn => rfl
        | ok g => exact ih _ _ _

end BoatRamp.Http1
