import BoatRamp.Http1.Lines

/-!
# Messages in pieces

The parsers of heads and of chunks are stable: what they say of the bytes that
have arrived, they say of all that come.
-/

namespace BoatRamp.Http1

open Http Library.Incremental List

theorem parseResponseHead_extend {buffer : Octets} (hs : parseResponseHead buffer ≠ .incomplete)
    (l : Octets) : parseResponseHead (buffer ++ l) = parseResponseHead buffer := by
  unfold parseResponseHead at hs ⊢
  simp only [parseResponseFields_eq, length_append] at hs ⊢
  cases hf : nextLine buffer with
  | error rsn => rw [nextLine_error_extend hf l]
  | ok ln =>
    rw [hf] at hs
    cases ln with
    | none =>
      have hlo : MAX_HEAD < buffer.length := by
        by_contra hsh
        exact hs (if_neg hsh)
      rw [if_pos hlo]
      cases hl : nextLine (buffer ++ l) with
      | error rsn => rfl
      | ok ln =>
        cases ln with
        | none => exact if_pos (by omega)
        | some p =>
          obtain ⟨ln, a⟩ := p
          have hc := length_le_of_unfinished hf hl
          dsimp only
          cases parseStatusLine ln with
          | none => rfl
          | some x =>
            rw [readLines_beyond (by omega) (by omega) (by omega)]
    | some p =>
      obtain ⟨ln, a⟩ := p
      have hle := length_of_nextLine hf
      rw [nextLine_some_extend hf l]
      dsimp only at hs ⊢
      cases x : parseStatusLine ln with
      | none => rfl
      | some s =>
        rw [x] at hs
        obtain ⟨ver, s⟩ := s
        dsimp only at hs ⊢
        rw [readLines_extend (by omega) _ (by simp)]
        intro hu
        rw [hu] at hs
        exact hs rfl

theorem consumed_le_of_parseResponseHead {buffer : Octets} {head : ResponseHead} {c : Nat}
    (hp : parseResponseHead buffer = .complete head c) : c ≤ buffer.length := by
  unfold parseResponseHead at hp
  simp only [parseResponseFields_eq] at hp
  split at hp
  · cases hp
  · split at hp
    · cases hp
    · cases hp
  next l a found =>
  have hl := length_of_nextLine found
  split at hp
  · cases hp
  split at hp
  · cases hp
  · cases hp
  next hdrs f hr =>
    cases hp
    exact (readLines_bounds (by omega) hr).2

/-- The head in front of a buffer, `none` inside when it is malformed, and what follows it. -/
def decodeResponseHead (buffer : Octets) : Option (Option ResponseHead × Octets) :=
  match parseResponseHead buffer with
  | .complete head consumed => some (some head, buffer.drop consumed)
  | .reject => some (none, buffer)
  | .incomplete => none

theorem decodeResponseHead_stable : Stable decodeResponseHead := by
  intro buffer res lf hd l
  unfold decodeResponseHead at hd ⊢
  cases hp : parseResponseHead buffer with
  | incomplete => simp [hp] at hd
  | reject =>
    rw [hp] at hd
    cases hd
    rw [parseResponseHead_extend (by simp [hp]), hp]
  | complete head c =>
    have hc := consumed_le_of_parseResponseHead hp
    rw [hp] at hd
    cases hd
    rw [parseResponseHead_extend (by simp [hp]), hp]
    dsimp only
    rw [drop_append_of_le_length hc]

section Requests

variable {acceptsUri : Octets → Bool}

def concludeHead (first : Method × Octets × Version) (gathered : Gathered) : Option RequestHead :=
  if !hostCoherent first.2.2 gathered then none
  else
    (resolveFraming gathered.clTokens gathered.teValues (first.2.2 = .http11)).toOption.map
      (fun framing => ⟨first.1, first.2.1, first.2.2, gathered.headers, framing⟩)

def linesAfter (first : Method × Octets × Version) (total pos : Nat) (after : Octets) :
    Option (Option (RequestHead × Nat)) :=
  match readLines (fun gathered line => (Gathered.read gathered line).toOption) total
      (after.length + 1) pos after {} with
  | none => none
  | some none => some none
  | some (some (gathered, consumed)) =>
      (concludeHead first gathered).map fun head => some (head, consumed)

theorem toOption_parseHeadFrom (t pos : Nat) (rest : Octets) :
    (parseHeadFrom acceptsUri t pos rest).toOption =
      match nextLine rest with
      | .error _ => none
      | .ok none => if MAX_HEAD < t then none else some none
      | .ok (some (l, a)) =>
        match (parseRequestLine acceptsUri l).toOption with
        | none => none
        | some x => linesAfter x t (pos + l.length + 2) a := by
  unfold parseHeadFrom
  cases nextLine rest with
  | error rsn => rfl
  | ok l =>
    cases l with
    | none =>
      unfold unfinished
      split <;> rfl
    | some p =>
      obtain ⟨l, a⟩ := p
      simp only [bind, Except.bind]
      cases parseRequestLine acceptsUri l with
      | error rsn => rfl
      | ok x =>
        obtain ⟨m, uri, ver⟩ := x
        have hl := toOption_parseFields t (a.length + 1) (pos + l.length + 2) a {}
        simp only [Except.toOption, linesAfter] at hl ⊢
        rw [← hl]
        cases parseFields t (a.length + 1) (pos + l.length + 2) a {} with
        | error rsn => rfl
        | ok r =>
          cases r with
          | none => rfl
          | some p =>
            obtain ⟨ga, c⟩ := p
            dsimp only [concludeHead]
            cases hostCoherent ver ga with
            | false => rfl
            | true =>
              cases resolveFraming ga.clTokens ga.teValues (decide (ver = Version.http11)) with
              | error rsn | ok f => rfl

variable {buffer : Octets} {head : RequestHead}

/-- What is refused and what is read of a head stand when the buffer grows, up to the reason. -/
theorem parseHeadFrom_extend {t pos : Nat} {rest : Octets} (hco : pos + rest.length = t)
    (hs : (parseHeadFrom acceptsUri t pos rest).toOption ≠ some none) (l : Octets) :
    (parseHeadFrom acceptsUri (t + l.length) pos (rest ++ l)).toOption =
      (parseHeadFrom acceptsUri t pos rest).toOption := by
  rw [toOption_parseHeadFrom] at hs ⊢
  rw [toOption_parseHeadFrom]
  cases hf : nextLine rest with
  | error rsn => rw [nextLine_error_extend hf l]
  | ok ln =>
    rw [hf] at hs
    cases ln with
    | none =>
      have hlo : MAX_HEAD < t := by
        by_contra hsh
        exact hs (if_neg hsh)
      rw [if_pos hlo]
      cases hl : nextLine (rest ++ l) with
      | error rsn => rfl
      | ok ln =>
        cases ln with
        | none => exact if_pos (by omega)
        | some p =>
          obtain ⟨ln, af⟩ := p
          have hc := length_le_of_unfinished hf hl
          dsimp only
          cases (parseRequestLine acceptsUri ln).toOption with
          | none => rfl
          | some x =>
            dsimp only [linesAfter]
            rw [readLines_beyond (by omega) (by omega) (by omega)]
    | some p =>
      obtain ⟨ln, af⟩ := p
      have hle := length_of_nextLine hf
      rw [nextLine_some_extend hf l]
      dsimp only at hs ⊢
      cases x : (parseRequestLine acceptsUri ln).toOption with
      | none => rfl
      | some w =>
        rw [x] at hs
        dsimp only [linesAfter] at hs ⊢
        rw [readLines_extend (by omega) _ (by simp)]
        intro hu
        rw [hu] at hs
        exact hs rfl

theorem parseHeadInner_extend (hs : (parseHeadInner acceptsUri buffer).toOption ≠ some none)
    (l : Octets) : (parseHeadInner acceptsUri (buffer ++ l)).toOption =
      (parseHeadInner acceptsUri buffer).toOption := by
  unfold parseHeadInner at hs ⊢
  rw [length_append]
  cases hf : nextLine buffer with
  | error rsn =>
    rw [nextLine_error_extend hf l]
    rfl
  | ok ln =>
    simp only [hf, bind, Except.bind] at hs ⊢
    cases ln with
    | none =>
      have he := parseHeadFrom_extend (Nat.zero_add _) hs l
      cases hl : nextLine (buffer ++ l) with
      | error rsn =>
        rw [toOption_parseHeadFrom, hl] at he
        exact he
      | ok ln =>
        cases ln with
        | none => exact he
        | some p =>
          obtain ⟨ln, af⟩ := p
          cases ln with
          | nil =>
            -- an empty line cannot end a buffer that is already too long
            have hc := length_le_of_unfinished hf hl
            refine absurd ?_ hs
            rw [toOption_parseHeadFrom, hf]
            refine if_neg fun hlo => ?_
            unfold MAX_HEAD at hlo
            simp only [length_nil] at hc
            omega
          | cons b ln => exact he
    | some p =>
      obtain ⟨ln, af⟩ := p
      have hle := length_of_nextLine hf
      rw [nextLine_some_extend hf l]
      cases ln with
      | nil => exact parseHeadFrom_extend (by simp at hle; omega) hs l
      | cons b ln => exact parseHeadFrom_extend (Nat.zero_add _) hs l

theorem parseHeadFrom_lines {t pos c : Nat} {rest : Octets}
    (hp : (parseHeadFrom acceptsUri t pos rest).toOption = some (some (head, c))) :
    ∃ l a f, nextLine rest = .ok (some (l, a)) ∧ l ≠ [] ∧
      readLines (fun g ln => (Gathered.read g ln).toOption) t (a.length + 1)
        (pos + l.length + 2) a {} = some (some (f, c)) := by
  rw [toOption_parseHeadFrom] at hp
  split at hp
  · cases hp
  · split at hp
    · cases hp
    · cases hp
  next l a hf =>
  split at hp
  · cases hp
  next x hx =>
  unfold linesAfter at hp
  split at hp
  · cases hp
  · cases hp
  next f _ hr =>
  obtain ⟨_, _, hs⟩ := Option.map_eq_some_iff.mp hp
  cases hs
  refine ⟨l, a, f, hf, ?_, hr⟩
  rintro rfl
  cases hx

theorem parseRequestHead_from {c : Nat}
    (hp : parseRequestHead acceptsUri buffer = .complete head c) :
    (∃ a, nextLine buffer = .ok (some ([], a)) ∧ 2 + a.length = buffer.length ∧
      (parseHeadFrom acceptsUri buffer.length 2 a).toOption = some (some (head, c))) ∨
    (parseHeadFrom acceptsUri buffer.length 0 buffer).toOption = some (some (head, c)) := by
  unfold parseRequestHead at hp
  split at hp
  next _ _ hr =>
    cases hp
    unfold parseHeadInner at hr
    cases hf : nextLine buffer with
    | error rsn =>
      rw [hf] at hr
      cases hr
    | ok l =>
      simp only [hf, bind, Except.bind] at hr
      split at hr
      next a =>
        have hl := length_of_nextLine hf
        exact .inl ⟨a, rfl, by simp at hl; omega, congrArg Except.toOption hr⟩
      next => exact .inr (congrArg Except.toOption hr)
  · cases hp
  · cases hp

theorem consumed_bounds {c : Nat} (hp : parseRequestHead acceptsUri buffer = .complete head c) :
    0 < c ∧ c ≤ buffer.length := by
  have hb {pos : Nat} {rest : Octets} (ht : pos + rest.length = buffer.length)
      (hp : (parseHeadFrom acceptsUri buffer.length pos rest).toOption = some (some (head, c))) :
      0 < c ∧ c ≤ buffer.length := by
    obtain ⟨l, a, f, hf, -, hr⟩ := parseHeadFrom_lines hp
    have hl := length_of_nextLine hf
    obtain ⟨ha, hi⟩ := readLines_bounds (by omega) hr
    exact ⟨by omega, hi⟩
  rcases parseRequestHead_from hp with ⟨a, -, ht, hf⟩ | hf
  · exact hb ht hf
  · exact hb (Nat.zero_add _) hf

/-- The head in front of a buffer, `none` inside when it is refused, and what follows it. -/
def decodeRequestHead (acceptsUri : Octets → Bool) (buffer : Octets) :
    Option (Option RequestHead × Octets) :=
  match parseRequestHead acceptsUri buffer with
  | .complete head consumed => some (some head, buffer.drop consumed)
  | .reject _ => some (none, buffer)
  | .incomplete => none

theorem decodeRequestHead_stable : Stable (decodeRequestHead acceptsUri) := by
  intro buffer res lf hd l
  unfold decodeRequestHead at hd ⊢
  have he := @parseHeadInner_extend acceptsUri buffer
  cases hp : parseRequestHead acceptsUri buffer with
  | incomplete => simp [hp] at hd
  | reject rsn =>
    rw [hp] at hd
    cases hd
    unfold parseRequestHead at hp ⊢
    cases hi : parseHeadInner acceptsUri buffer with
    | ok r =>
      rw [hi] at hp
      cases r with
      | none | some p => cases hp
    | error rsn =>
      have hs := he (by simp [hi, Except.toOption]) l
      rw [hi] at hs
      cases ho : parseHeadInner acceptsUri (buffer ++ l) with
      | ok r => simp [ho, Except.toOption] at hs
      | error o => rfl
  | complete head c =>
    have hc := (consumed_bounds hp).2
    rw [hp] at hd
    cases hd
    unfold parseRequestHead at hp ⊢
    cases hi : parseHeadInner acceptsUri buffer with
    | error rsn => simp [hi] at hp
    | ok r =>
      rw [hi] at hp
      cases r with
      | none => cases hp
      | some p =>
        cases hp
        have hs := he (by simp [hi, Except.toOption]) l
        rw [hi] at hs
        cases ho : parseHeadInner acceptsUri (buffer ++ l) with
        | error rsn => simp [ho, Except.toOption] at hs
        | ok r =>
          rw [ho] at hs
          cases hs
          dsimp only
          rw [drop_append_of_le_length hc]

theorem length_lt_of_decodeRequestHead {l : Octets}
    (hd : decodeRequestHead acceptsUri buffer = some (some head, l)) :
    l.length < buffer.length := by
  unfold decodeRequestHead at hd
  split at hd
  next hp =>
    have hb := consumed_bounds hp
    cases hd
    rw [length_drop]
    omega
  · cases hd
  · cases hd

end Requests

namespace Chunked

variable {rest buffer : Octets}

theorem trailers_extend {fuel pos : Nat} (hs : trailers fuel pos rest ≠ .ok none)
    {l : Octets} {o : Nat} (he : (rest ++ l).length < o) :
    trailers o pos (rest ++ l) = trailers fuel pos rest := by
  induction fuel generalizing pos rest o with
  | zero => exact absurd rfl hs
  | succ fuel ih =>
    obtain ⟨o, rfl⟩ := Nat.exists_eq_succ_of_ne_zero (Nat.ne_of_gt (Nat.zero_lt_of_lt he))
    rw [length_append] at he
    rw [trailers] at hs ⊢
    rw [trailers]
    cases hfo : nextLine rest with
    | error rsn => rw [nextLine_error_extend hfo l]
    | ok ln =>
      rw [hfo] at hs
      cases ln with
      | none => exact absurd rfl hs
      | some p =>
        obtain ⟨ln, a⟩ := p
        have hl := length_of_nextLine hfo
        rw [nextLine_some_extend hfo l]
        dsimp only at hs ⊢
        by_cases hb : ln = []
        · rw [if_pos hb, if_pos hb]
        rw [if_neg hb] at hs ⊢
        rw [if_neg hb]
        cases hfd : isFolded ln with
        | true => rfl
        | false =>
          rw [hfd, if_neg Bool.false_ne_true] at hs
          cases hr : splitHeader ln with
          | error rsn => rfl
          | ok f =>
            rw [hr] at hs
            obtain ⟨name, v⟩ := f
            dsimp only at hs ⊢
            by_cases hf : forbiddenTrailer name = true
            · rw [if_pos hf, if_pos hf]
            rw [if_neg hf] at hs
            rw [if_neg hf, if_neg hf]
            exact ih hs (by rw [length_append]; omega)

theorem trailers_bounds {fuel pos f : Nat} (he : trailers fuel pos rest = .ok (some f)) :
    f ≤ pos + rest.length := by
  induction fuel generalizing pos rest with
  | zero => cases he
  | succ fuel ih =>
    rw [trailers] at he
    split at he
    · cases he
    · cases he
    next l a found =>
    have hl := length_of_nextLine found
    split at he
    · cases he
      omega
    split at he
    · cases he
    split at he
    · cases he
    split at he
    · cases he
    · have hi := ih he
      omega

theorem chunkAt_extend {pos : Nat} (hs : chunkAt pos rest ≠ .ok .incomplete) (l : Octets) :
    chunkAt pos (rest ++ l) = chunkAt pos rest := by
  unfold chunkAt at hs ⊢
  cases hfo : nextLine rest with
  | error rsn => rw [nextLine_error_extend hfo l]
  | ok ln =>
    rw [hfo] at hs
    cases ln with
    | none => exact absurd rfl hs
    | some p =>
      obtain ⟨ln, a⟩ := p
      rw [nextLine_some_extend hfo l]
      dsimp only at hs ⊢
      cases hr : sizeOfLine ln with
      | error rsn => rfl
      | ok s =>
        simp only [hr, bind, Except.bind] at hs ⊢
        by_cases hf : s = 0
        · rw [if_pos hf] at hs ⊢
          rw [if_pos hf, trailers_extend _ (by simp)]
          intro hu
          rw [hu] at hs
          exact hs rfl
        rw [if_neg hf] at hs ⊢
        rw [if_neg hf]
        by_cases ho : 2 ^ 64 ≤ pos + ln.length + 2 + s + 2
        · rw [if_pos ho, if_pos ho]
        rw [if_neg ho] at hs ⊢
        rw [if_neg ho]
        have ha : ¬a.length < s + 2 := by
          intro hsh
          rw [if_pos hsh] at hs
          exact hs rfl
        have hst : ¬(a ++ l).length < s + 2 := by
          rw [length_append]
          omega
        have hsa : ((a ++ l).drop s).take 2 = (a.drop s).take 2 := by
          rw [drop_append_of_le_length (by omega),
            take_append_of_le_length (by rw [length_drop]; omega)]
        rw [if_neg ha, if_neg hst, hsa]

theorem nextChunk_extend (hs : nextChunk buffer ≠ .incomplete) (l : Octets) :
    nextChunk (buffer ++ l) = nextChunk buffer := by
  unfold nextChunk at hs ⊢
  rw [chunkAt_extend _ l]
  intro hu
  rw [hu] at hs
  exact hs rfl

theorem chunkAt_cases {pos : Nat} {st : ChunkStep} (hf : chunkAt pos rest = .ok st) :
    st = .incomplete ∨ ∃ l a s, nextLine rest = .ok (some (l, a)) ∧
      ((∃ f, trailers (a.length + 1) (pos + l.length + 2) a = .ok (some f) ∧ st = .last f) ∨
        (s + 2 ≤ a.length ∧ st = .data (pos + l.length + 2) (pos + l.length + 2 + s)
            (pos + l.length + 2 + s + 2))) := by
  unfold chunkAt at hf
  cases hr : nextLine rest with
  | error rsn =>
    rw [hr] at hf
    cases hf
  | ok l =>
    rw [hr] at hf
    cases l with
    | none =>
      cases hf
      exact .inl rfl
    | some p =>
      obtain ⟨l, a⟩ := p
      dsimp only at hf
      cases hs : sizeOfLine l with
      | error rsn =>
        rw [hs] at hf
        cases hf
      | ok s =>
        simp only [hs, bind, Except.bind] at hf
        split at hf
        · cases he : trailers (a.length + 1) (pos + l.length + 2) a with
          | error rsn =>
            rw [he] at hf
            cases hf
          | ok f =>
            rw [he] at hf
            cases f with
            | none =>
              cases hf
              exact .inl rfl
            | some f =>
              cases hf
              exact .inr ⟨l, a, s, rfl, .inl ⟨f, he, rfl⟩⟩
        split at hf
        · cases hf
        split at hf
        · cases hf
          exact .inl rfl
        split at hf
        · cases hf
        · cases hf
          exact .inr ⟨l, a, s, rfl, .inr ⟨by omega, rfl⟩⟩

theorem chunkAt_of_nextChunk {s : ChunkStep} (hf : nextChunk buffer = s)
    (ha : ∀ reason, s ≠ .reject reason) : chunkAt 0 buffer = .ok s := by
  unfold nextChunk at hf
  split at hf
  next chunk => rw [chunk, hf]
  next => exact absurd hf.symm (ha _)

theorem nextChunk_data {ds de next : Nat} (hfo : nextChunk buffer = .data ds de next) :
    ds ≤ de ∧ de ≤ next ∧ 0 < next ∧ next ≤ buffer.length := by
  rcases chunkAt_cases (chunkAt_of_nextChunk hfo (by simp)) with
    hm | ⟨l, a, s, hr, ⟨f, _, hf⟩ | ⟨ha, hd⟩⟩
  · cases hm
  · cases hf
  · have hl := length_of_nextLine hr
    cases hd
    omega

theorem nextChunk_last {f : Nat} (hfo : nextChunk buffer = .last f) : f ≤ buffer.length := by
  rcases chunkAt_cases (chunkAt_of_nextChunk hfo (by simp)) with
    hm | ⟨l, a, s, hr, ⟨f, he, hf⟩ | ⟨_, hd⟩⟩
  · cases hm
  · have hl := length_of_nextLine hr
    have hi := trailers_bounds he
    cases hf
    omega
  · cases hd

end Chunked

end BoatRamp.Http1
