import BoatRamp.Text

/-!
# Schedules

Five fields, each a list of ranges with steps.  The values of a range are
counted off with 32 bits, and a large step takes the counter past its end: it
then panics, or starts again from below.
-/

namespace BoatRamp.Functions

inductive CronFailure where
  | refused (message : Text)
  | panicked
  -- more rounds than the model counts
  | unfinished
  deriving DecidableEq

structure Bounds where
  lo : Nat
  hi : Nat
  ordered : lo ≤ hi
  small : hi < 2 ^ 31

variable (bounds : Bounds)

/-- A range within the bounds, and how far apart its values are. -/
structure Item where
  start : Nat
  stop : Nat
  step : Nat
  above : bounds.lo ≤ start
  ordered : start ≤ stop
  below : stop ≤ bounds.hi
  moves : 0 < step

def parseU32 : Text → Option Nat := parseUnsigned (2 ^ 32)

def num (text : Text) : Except Text { value : Nat // bounds.lo ≤ value ∧ value ≤ bounds.hi } :=
  match parseU32 text with
  | none => .error ("not a number: ".toList ++ debugText text)
  | some value =>
      if hv : bounds.lo ≤ value ∧ value ≤ bounds.hi then .ok ⟨value, hv⟩
      else .error (Nat.toDigits 10 value ++ " out of range ".toList ++ Nat.toDigits 10 bounds.lo ++
        "..=".toList ++ Nat.toDigits 10 bounds.hi)

def readStep (part : Text) : Except Text (Text × { step : Nat // 0 < step }) :=
  match splitOnceAt '/' part with
  | none => .ok (part, ⟨1, Nat.one_pos⟩)
  | some (range, step) =>
      match parseU32 step with
      | none => .error ("bad step in ".toList ++ debugText part)
      | some 0 => .error ("zero step in ".toList ++ debugText part)
      | some (step + 1) => .ok (range, ⟨step + 1, step.succ_pos⟩)

def readItem (part : Text) : Except Text (Item bounds) := do
  let (range, ⟨step, hs⟩) ← readStep part
  if range = ['*'] then
    return ⟨bounds.lo, bounds.hi, step, Nat.le_refl _, bounds.ordered, Nat.le_refl _, hs⟩
  else
    match splitOnceAt '-' range with
    | some (first, last) =>
        let ⟨first, hf⟩ ← num bounds first
        let ⟨last, hl⟩ ← num bounds last
        if ho : first ≤ last then return ⟨first, last, step, hf.1, ho, hl.2, hs⟩
        else .error ("descending range ".toList ++ debugText range)
    | none =>
        if '/' ∈ part then .error ("step on a single value ".toList ++ debugText part)
        else
          let ⟨value, hv⟩ ← num bounds range
          return ⟨value, value, step, hv.1, Nat.le_refl _, hv.2, hs⟩

variable {bounds}

/-- Mark the values of an item.  Additions are checked in some builds and wrap in others; a value
below the bounds indexes outside of the field in both. -/
def mark (checked : Bool) (item : Item bounds) :
    (fuel : Nat) → Nat → List Nat → Except CronFailure (List Nat)
  | 0, _, _ => .error .unfinished
  | fuel + 1, value, allowed =>
      if item.stop < value then .ok allowed
      else if value < bounds.lo ∨ (checked ∧ 2 ^ 32 ≤ value + item.step) then .error .panicked
      else mark checked item fuel ((value + item.step) % 2 ^ 32) (value :: allowed)

variable (bounds) in
def parseParts (checked : Bool) : List Text → List Nat → Except CronFailure (List Nat)
  | [], allowed => .ok allowed
  | part :: rest, allowed =>
      match readItem bounds part with
      | .error message => .error (.refused message)
      | .ok item => do
          let allowed ← mark checked item (bounds.hi + 2) item.start allowed
          parseParts checked rest allowed

/-- The values that are allowed, and whether the field was a bare star. -/
structure Field where
  allowed : List Nat
  wildcard : Bool
  deriving DecidableEq

def Field.matches (field : Field) (value : Nat) : Bool := field.allowed.contains value

variable (bounds) in
def Field.parse (checked : Bool) (number : Nat) (spec : Text) : Except CronFailure Field :=
  let parsed := if spec = [] then .error (.refused "empty field".toList)
    else parseParts bounds checked (splitAll ',' spec) []
  match parsed with
  | .ok allowed => .ok ⟨allowed, spec = ['*']⟩
  | .error (.refused message) => .error (.refused
      ("field ".toList ++ Nat.toDigits 10 number ++ ": ".toList ++ message))
  | .error failure => .error failure

structure CronSchedule where
  minute : Field
  hour : Field
  dom : Field
  month : Field
  dow : Field
  deriving DecidableEq

def minutes : Bounds := ⟨0, 59, by decide, by decide⟩
def hours : Bounds := ⟨0, 23, by decide, by decide⟩
def daysOfMonth : Bounds := ⟨1, 31, by decide, by decide⟩
def months : Bounds := ⟨1, 12, by decide, by decide⟩
def daysOfWeek : Bounds := ⟨0, 7, by decide, by decide⟩

def splitWhitespace (text : Text) : List Text :=
  (text.splitOnP isWhitespace).filter fun field => field ≠ []

namespace CronSchedule

def parse (checked : Bool) (schedule : Text) : Except CronFailure CronSchedule :=
  match splitWhitespace schedule with
  | [minute, hour, dom, month, dow] => do
      let minute ← Field.parse minutes checked 1 minute
      let hour ← Field.parse hours checked 2 hour
      let dom ← Field.parse daysOfMonth checked 3 dom
      let month ← Field.parse months checked 4 month
      let dow ← Field.parse daysOfWeek checked 5 dow
      return ⟨minute, hour, dom, month, dow⟩
  | _ => .error (.refused ("schedule ".toList ++ debugText schedule ++
      " must have 5 fields (minute hour day-of-month month day-of-week)".toList))

def firesAt (schedule : CronSchedule) (minute hour dom month dow : Nat) : Bool :=
  let dowMatch := schedule.dow.matches dow || (dow = 0 && schedule.dow.matches 7)
  let domMatch := schedule.dom.matches dom
  let day := if !schedule.dom.wildcard && !schedule.dow.wildcard then domMatch || dowMatch
    else domMatch && dowMatch
  schedule.minute.matches minute && schedule.hour.matches hour &&
    schedule.month.matches month && day

end CronSchedule

section Meaning

variable (bounds)

/-- A number in decimal digits, with or without a plus sign. -/
def Numeral (text : Text) (value : Nat) : Prop :=
  ∃ digits, (text = digits ∨ text = '+' :: digits) ∧ digits ≠ [] ∧
    (∀ digit ∈ digits, digit.isDigit = true) ∧ decimalValue digits = value ∧ value < 2 ^ 32

/-- A star spans the bounds, and two numbers what lies between them. -/
inductive Spans : Text → Nat → Nat → Prop where
  | star : Spans ['*'] bounds.lo bounds.hi
  | between {first last : Text} {start stop : Nat} (opening : Numeral first start)
      (closing : Numeral last stop) (above : bounds.lo ≤ start) (ordered : start ≤ stop)
      (below : stop ≤ bounds.hi) : Spans (first ++ '-' :: last) start stop

/-- What an item says: its first value, its last one and how far apart they are. -/
inductive Denotes : Text → Nat → Nat → Nat → Prop where
  | single {text : Text} {value : Nat} (numeral : Numeral text value) (above : bounds.lo ≤ value)
      (below : value ≤ bounds.hi) : Denotes text value value 1
  | every {text : Text} {start stop : Nat} (spans : Spans bounds text start stop) :
      Denotes text start stop 1
  | stepped {range count : Text} {start stop step : Nat} (spans : Spans bounds range start stop)
      (numeral : Numeral count step) (moves : 0 < step) :
      Denotes (range ++ '/' :: count) start stop step

def Listed (spec : Text) (value : Nat) : Prop :=
  ∃ part ∈ splitAll ',' spec, ∃ start stop step, Denotes bounds part start stop step ∧
    ∃ k, value = start + k * step ∧ value ≤ stop

def Field.Reads (field : Field) (spec : Text) : Prop :=
  (∀ v, field.matches v = true ↔ Listed bounds spec v) ∧ (field.wildcard = true ↔ spec = ['*'])

end Meaning

/-- Seven is Sunday too, and one of two restricted days is enough. -/
def CronSchedule.Fires (s : CronSchedule) (minute hour dom month dow : Nat) : Prop :=
  let onWeekday := s.dow.matches dow ∨ dow = 0 ∧ s.dow.matches 7
  s.minute.matches minute ∧ s.hour.matches hour ∧ s.month.matches month ∧
    if s.dom.wildcard ∨ s.dow.wildcard then s.dom.matches dom ∧ onWeekday
    else s.dom.matches dom ∨ onWeekday

structure Follows (s : CronSchedule) (minute hour dom month dow : Text) : Prop where
  minute : s.minute.Reads minutes minute
  hour : s.hour.Reads hours hour
  dom : s.dom.Reads daysOfMonth dom
  month : s.month.Reads months month
  dow : s.dow.Reads daysOfWeek dow
  fires : ∀ minute hour dom month dow,
    s.firesAt minute hour dom month dow = true ↔ s.Fires minute hour dom month dow

def Right (schedule : Text) : Except CronFailure CronSchedule → Prop
  | .ok parsed => ∃ minute hour dom month dow,
      splitWhitespace schedule = [minute, hour, dom, month, dow] ∧
        Follows parsed minute hour dom month dow
  | .error (.refused _) => True
  | .error _ => False

variable (bounds) in
/-- Up to the first malformed item, no counter leaves its bits. -/
def Tame : List Text → Prop
  | [] => True
  | part :: rest => ∀ start stop step, Denotes bounds part start stop step →
      start + step < 2 ^ 32 ∧ Tame rest

variable (bounds) in
def Readable (parts : List Text) : Prop :=
  ∀ part ∈ parts, ∃ start stop step, Denotes bounds part start stop step

def TameFields : List (Bounds × Text) → Prop
  | [] => True
  | (bounds, spec) :: rest => Tame bounds (splitAll ',' spec) ∧
      (Readable bounds (splitAll ',' spec) → TameFields rest)

def TameSchedule (schedule : Text) : Prop :=
  match splitWhitespace schedule with
  | [minute, hour, dom, month, dow] => TameFields [(minutes, minute), (hours, hour),
      (daysOfMonth, dom), (months, month), (daysOfWeek, dow)]
  | _ => True

theorem parseU32_iff {text : Text} {value : Nat} :
    parseU32 text = some value ↔ Numeral text value := by
  have read (digits : Text) : (if digits ≠ [] ∧ digits.all Char.isDigit ∧
        decimalValue digits < 2 ^ 32 then some (decimalValue digits) else none) = some value ↔
      digits ≠ [] ∧ (∀ digit ∈ digits, digit.isDigit = true) ∧
        decimalValue digits = value ∧ value < 2 ^ 32 := by
    simp only [Option.ite_none_right_eq_some, Option.some.injEq, List.all_eq_true]
    constructor
    · rintro ⟨⟨nonempty, all, small⟩, rfl⟩
      exact ⟨nonempty, all, rfl, small⟩
    · rintro ⟨nonempty, all, rfl, small⟩
      exact ⟨⟨nonempty, all, small⟩, rfl⟩
  unfold parseU32 parseUnsigned
  rw [read]
  split
  · next digits =>
    constructor
    · exact fun parts => ⟨digits, .inr rfl, parts⟩
    · rintro ⟨_, rfl | same, parts⟩
      · exact absurd (parts.2.1 '+' (by simp)) (by decide)
      · cases same
        exact parts
  · next unsigned =>
    constructor
    · exact fun parts => ⟨text, .inl rfl, parts⟩
    · rintro ⟨digits, rfl | rfl, parts⟩
      · exact parts
      · exact absurd rfl (unsigned digits)

theorem Numeral.notMem {text : Text} {value : Nat} (numeral : Numeral text value) (letter : Char)
    (foreign : letter ≠ '+' ∧ letter.isDigit = false) : letter ∉ text := by
  obtain ⟨digits, sign, -, all, -⟩ := numeral
  have apart : letter ∉ digits := fun member => by simp [all letter member] at foreign
  rcases sign with rfl | rfl
  · exact apart
  · simp [foreign.1, apart]

theorem num_eq_ok {text : Text} {value : Nat} (numeral : Numeral text value)
    (inside : bounds.lo ≤ value ∧ value ≤ bounds.hi) : num bounds text = .ok ⟨value, inside⟩ := by
  simp [num, parseU32_iff.mpr numeral, inside]

theorem numeral_of_num {text : Text} {read : { value // bounds.lo ≤ value ∧ value ≤ bounds.hi }}
    (ok : num bounds text = .ok read) : Numeral text read.1 := by
  unfold num at ok
  split at ok
  · cases ok
  · next parsed =>
    split_ifs at ok
    cases ok
    exact parseU32_iff.mp parsed

theorem Spans.slash_notMem {text : Text} {start stop : Nat} (spans : Spans bounds text start stop) :
    '/' ∉ text := by
  cases spans with
  | star => decide
  | between opening closing =>
    simp [opening.notMem '/' (by decide), closing.notMem '/' (by decide)]

theorem readItem_of_spans {range part : Text} {start stop step : Nat}
    (spans : Spans bounds range start stop) (moves : 0 < step)
    (stepped : readStep part = .ok (range, ⟨step, moves⟩)) :
    ∃ item, readItem bounds part = .ok item ∧ item.start = start ∧ item.stop = stop ∧
      item.step = step := by
  unfold readItem
  rw [stepped]
  cases spans with
  | star => exact ⟨_, rfl, rfl, rfl, rfl⟩
  | @between first last _ _ opening closing above ordered below =>
    have cut : splitOnceAt '-' (first ++ '-' :: last) = some (first, last) :=
      splitOnceAt_eq_some_iff.mpr ⟨rfl, opening.notMem '-' (by decide)⟩
    have other : first ++ '-' :: last ≠ ['*'] := by
      intro same
      have := congrArg (splitOnceAt '-') same
      rw [cut] at this
      cases this
    have starts := num_eq_ok opening ⟨above, ordered.trans below⟩
    have ends := num_eq_ok closing ⟨above.trans ordered, below⟩
    simp [other, cut, starts, ends, ordered, bind, Except.bind, pure, Except.pure]

theorem readStep_cases {part range : Text} {step : Nat} {moves : 0 < step}
    (stepped : readStep part = .ok (range, ⟨step, moves⟩)) :
    part = range ∧ '/' ∉ part ∧ step = 1 ∨
      ∃ count, part = range ++ '/' :: count ∧ Numeral count step := by
  unfold readStep at stepped
  split at stepped
  · next whole =>
    cases stepped
    exact .inl ⟨rfl, splitOnceAt_eq_none_iff.mp whole, rfl⟩
  · next cut =>
    split at stepped
    · cases stepped
    · cases stepped
    · next parsed =>
      cases stepped
      exact .inr ⟨_, (splitOnceAt_eq_some_iff.mp cut).1, parseU32_iff.mp parsed⟩

theorem denotes_of_readItem {part : Text} {item : Item bounds}
    (read : readItem bounds part = .ok item) :
    Denotes bounds part item.start item.stop item.step := by
  unfold readItem at read
  cases stepped : readStep part with
  | error message => simp [stepped, bind, Except.bind] at read
  | ok cut =>
    obtain ⟨range, step, moves⟩ := cut
    have parts := readStep_cases stepped
    have spanned {start stop : Nat} (spans : Spans bounds range start stop) :
        Denotes bounds part start stop step := by
      rcases parts with ⟨rfl, -, rfl⟩ | ⟨count, rfl, numeral⟩
      · exact .every spans
      · exact .stepped spans numeral moves
    simp only [stepped, bind, Except.bind] at read
    split at read
    · next star =>
      cases read
      exact spanned (star ▸ .star)
    split at read
    · next first last dash =>
      obtain ⟨rfl, -⟩ := splitOnceAt_eq_some_iff.mp dash
      cases starts : num bounds first with
      | error message => simp [starts] at read
      | ok start =>
        cases ends : num bounds last with
        | error message => simp [starts, ends] at read
        | ok stop =>
          simp only [starts, ends] at read
          split_ifs at read with ordered
          cases read
          exact spanned (.between (numeral_of_num starts) (numeral_of_num ends) start.2.1 ordered
            stop.2.2)
    · split_ifs at read with slash
      obtain ⟨rfl, -, rfl⟩ : part = range ∧ '/' ∉ part ∧ step = 1 := by
        refine parts.resolve_right ?_
        rintro ⟨count, rfl, -⟩
        simp at slash
      cases value : num bounds part with
      | error message => simp [value] at read
      | ok value' =>
        simp only [value] at read
        cases read
        exact .single (numeral_of_num value) value'.2.1 value'.2.2

theorem denotes_iff {part : Text} {start stop step : Nat} :
    Denotes bounds part start stop step ↔ ∃ item, readItem bounds part = .ok item ∧
      item.start = start ∧ item.stop = stop ∧ item.step = step := by
  constructor
  · intro denotes
    cases denotes with
    | single numeral above below =>
      have whole : readStep part = .ok (part, ⟨1, Nat.one_pos⟩) := by
        simp [readStep, splitOnceAt_eq_none_iff.mpr (numeral.notMem '/' (by decide))]
      have other : part ≠ ['*'] := by
        rintro rfl
        exact numeral.notMem '*' (by decide) (by simp)
      unfold readItem
      simp [whole, other, splitOnceAt_eq_none_iff.mpr (numeral.notMem '-' (by decide)),
        numeral.notMem '/' (by decide), num_eq_ok numeral ⟨above, below⟩, bind, Except.bind, pure,
        Except.pure]
    | every spans =>
      apply readItem_of_spans spans Nat.one_pos
      simp [readStep, splitOnceAt_eq_none_iff.mpr spans.slash_notMem]
    | @stepped range count _ _ _ spans numeral moves =>
      apply readItem_of_spans spans moves
      have cut : splitOnceAt '/' (range ++ '/' :: count) = some (range, count) :=
        splitOnceAt_eq_some_iff.mpr ⟨rfl, spans.slash_notMem⟩
      obtain ⟨step, rfl⟩ := Nat.exists_eq_succ_of_ne_zero moves.ne'
      simp [readStep, cut, parseU32_iff.mpr numeral]
  · rintro ⟨item, read, rfl, rfl, rfl⟩
    exact denotes_of_readItem read

theorem forall_denotes {part : Text} {P : Nat → Nat → Nat → Prop} :
    (∀ start stop step, Denotes bounds part start stop step → P start stop step) ↔
      ∀ item, readItem bounds part = .ok item → P item.start item.stop item.step := by
  refine ⟨fun all item read => all _ _ _ (denotes_of_readItem read), ?_⟩
  intro all start stop step denotes
  obtain ⟨item, read, rfl, rfl, rfl⟩ := denotes_iff.mp denotes
  exact all item read

theorem exists_denotes {part : Text} {P : Nat → Nat → Nat → Prop} :
    (∃ start stop step, Denotes bounds part start stop step ∧ P start stop step) ↔
      ∃ item, readItem bounds part = .ok item ∧ P item.start item.stop item.step := by
  constructor
  · rintro ⟨start, stop, step, denotes, holds⟩
    obtain ⟨item, read, rfl, rfl, rfl⟩ := denotes_iff.mp denotes
    exact ⟨item, read, holds⟩
  · rintro ⟨item, read, holds⟩
    exact ⟨_, _, _, denotes_of_readItem read, holds⟩

theorem readable_iff {part : Text} : (∃ start stop step, Denotes bounds part start stop step) ↔
      ∃ item, readItem bounds part = .ok item := by
  simpa using @exists_denotes bounds part fun _ _ _ => True

/-- Where the counters are tame, both builds read the same or refuse; else a checked one panics. -/
structure Settles {Result : Type} (run : Bool → Except CronFailure Result) (tame reads : Prop)
    (Good : Result → Prop) : Prop where
  finishes : tame → ∀ checked, (reads ∧ ∃ result, run checked = .ok result ∧ Good result) ∨
    ¬reads ∧ ∃ message, run checked = .error (.refused message)
  panics : ¬tame → run true = .error .panicked

section Settles

variable {First Last : Type} {run : Bool → Except CronFailure First} {tame reads next : Prop}
  {readsNext : Prop} {Good : First → Prop} {Done : Last → Prop}

theorem Settles.ok {x : First} (hg : Good x) : Settles (fun _ => .ok x) True True Good where
  finishes _ _ := .inl ⟨trivial, x, rfl, hg⟩
  panics ht := absurd trivial ht

theorem Settles.mono {Better : First → Prop} (hf : Settles run tame reads Good)
    (hg : ∀ x, Good x → Better x) : Settles run tame reads Better where
  finishes ht c := (hf.finishes ht c).imp_left fun ⟨hr, x, he, hd⟩ =>
    ⟨hr, x, he, hg x hd⟩
  panics := hf.panics

theorem Settles.bind (hf : Settles run tame reads Good)
    {go : Bool → First → Except CronFailure Last}
    (hl : ∀ x, Good x → Settles (go · x) next readsNext Done) :
    Settles (fun c => run c >>= go c) (tame ∧ (reads → next)) (reads ∧ readsNext) Done where
  finishes := by
    rintro ⟨ht, hn⟩ c
    rcases hf.finishes ht c with ⟨hr, x, he, hg⟩ | ⟨hr, msg, he⟩
    · rcases (hl x hg).finishes (hn hr) c with ⟨hs, hd⟩ | ⟨hs, hd⟩
      · exact .inl ⟨⟨hr, hs⟩, by rwa [he]⟩
      · exact .inr ⟨fun hb => hs hb.2, by rwa [he]⟩
    · exact .inr ⟨fun hb => hr hb.1, msg, by rw [he]; rfl⟩
  panics := by
    intro hn
    by_cases ht : tame
    · obtain ⟨hr, hs⟩ := Classical.not_imp.mp (fun hi => hn ⟨ht, hi⟩)
      rcases hf.finishes ht true with ⟨_, x, he, hg⟩ | ⟨hu, _⟩
      · rw [he]
        exact (hl x hg).panics hs
      · exact absurd hr hu
    · rw [hf.panics ht]
      rfl

end Settles

/-- After the first round the step is at most the range, so the counter stays small. -/
theorem mark_tame (c : Bool) (item : Item bounds) {fuel val : Nat} {a : List Nat}
    (hs : val ≤ item.stop → val + item.step < 2 ^ 32) (hl : bounds.lo ≤ val)
    (hf : item.stop < val + fuel) :
    ∃ m, mark c item (fuel + 1) val a = .ok m ∧
      ∀ v, v ∈ m ↔ v ∈ a ∨ ∃ k, v = val + k * item.step ∧ v ≤ item.stop := by
  have hb := item.below
  have hm := bounds.small
  have hp := item.moves
  have hd {fuel val : Nat} {a : List Nat} (hv : item.stop < val) :
      ∃ m, mark c item (fuel + 1) val a = .ok m ∧
        ∀ v, v ∈ m ↔ v ∈ a ∨ ∃ k, v = val + k * item.step ∧ v ≤ item.stop := by
    refine ⟨a, if_pos hv, fun v => ⟨.inl, ?_⟩⟩
    rintro (hv | ⟨k, rfl, hk⟩)
    · exact hv
    · omega
  induction fuel generalizing val a with
  | zero => exact hd hf
  | succ fuel ih =>
    by_cases hv : item.stop < val
    · exact hd hv
    have hn := hs (Nat.le_of_not_lt hv)
    unfold mark
    rw [if_neg hv, if_neg (by omega), Nat.mod_eq_of_lt hn]
    obtain ⟨m, he, hv⟩ := @ih (val + item.step) (val :: a) (by omega) (by omega)
      (by omega)
    refine ⟨m, he, fun v => ?_⟩
    rw [hv, List.mem_cons]
    constructor
    · rintro ((rfl | hv) | ⟨k, rfl, hv⟩)
      · exact .inr ⟨0, by omega⟩
      · exact .inl hv
      · exact .inr ⟨k + 1, by rw [Nat.succ_mul]; omega, hv⟩
    · rintro (hv | ⟨k, rfl, hv⟩)
      · exact .inl (.inr hv)
      · cases k with
        | zero => simp
        | succ k => exact .inr ⟨k, by rw [Nat.succ_mul]; omega, hv⟩

theorem mark_settles (item : Item bounds) (a : List Nat) :
    Settles (mark · item (bounds.hi + 2) item.start a) (item.start + item.step < 2 ^ 32) True
      (fun m => ∀ v, v ∈ m ↔ v ∈ a ∨
        ∃ k, v = item.start + k * item.step ∧ v ≤ item.stop) where
  finishes ht c := .inl ⟨trivial, mark_tame c item (fun _ => ht) item.above
    (by have := item.below; omega)⟩
  panics ht := by
    unfold mark
    rw [if_neg (Nat.not_lt.mpr item.ordered), if_pos (.inr ⟨rfl, Nat.le_of_not_lt ht⟩)]

theorem parseParts_settles (p : List Text) (a : List Nat) :
    Settles (parseParts bounds · p a) (Tame bounds p) (Readable bounds p)
      (fun m => ∀ v, v ∈ m ↔ v ∈ a ∨ ∃ part ∈ p, ∃ item,
        readItem bounds part = .ok item ∧ ∃ k, v = item.start + k * item.step ∧ v ≤ item.stop) := by
  induction p generalizing a with
  | nil =>
    simp only [parseParts, Tame, Readable, List.not_mem_nil, false_and, exists_false, or_false,
      IsEmpty.forall_iff, implies_true]
    exact .ok fun _ => Iff.rfl
  | cons part rest ih =>
    simp only [parseParts, Tame, Readable, List.forall_mem_cons, List.exists_mem_cons_iff,
      forall_denotes, readable_iff]
    cases hr : readItem bounds part with
    | error msg => exact ⟨fun _ _ => .inr ⟨by simp, msg, rfl⟩, by simp⟩
    | ok item =>
      simp only [Except.ok.injEq, forall_eq', exists_eq', true_and, exists_eq_left']
      have hl (m : List Nat) (hm : ∀ v, v ∈ m ↔ v ∈ a ∨
          ∃ k, v = item.start + k * item.step ∧ v ≤ item.stop) :=
        (ih m).mono fun last hd v => (hd v).trans ((or_congr_left (hm v)).trans or_assoc)
      have hb := (mark_settles item a).bind hl
      simp only [true_imp_iff, true_and, Readable, readable_iff] at hb
      exact hb

theorem Field.parse_settles (n : Nat) (spec : Text) :
    Settles (Field.parse bounds · n spec) (Tame bounds (splitAll ',' spec))
      (Readable bounds (splitAll ',' spec)) (Field.Reads bounds · spec) := by
  have hp := @parseParts_settles bounds (splitAll ',' spec) []
  unfold Field.parse
  by_cases hs : spec = []
  · subst hs
    have hr : readItem bounds [] = .error "not a number: \"\"".toList := rfl
    have unread : ¬∃ start stop step, Denotes bounds [] start stop step := by
      simp [readable_iff, hr]
    refine ⟨fun _ _ => .inr ⟨fun all => unread (all [] (List.mem_singleton_self _)), _, rfl⟩,
      fun wild => absurd (fun _ _ _ denotes => ?_) wild⟩
    exact absurd ⟨_, _, _, denotes⟩ unread
  simp only [if_neg hs]
  refine ⟨fun ht c => ?_, fun ht => by rw [hp.panics ht]⟩
  rcases hp.finishes ht c with ⟨hr, m, he, hm⟩ | ⟨hr, msg, he⟩
  · refine .inl ⟨hr, ⟨m, spec = ['*']⟩, by rw [he], ?_⟩
    simpa [Field.Reads, Field.matches, Listed, exists_denotes] using hm
  · exact .inr ⟨hr, _, by rw [he]⟩

theorem firesAt_iff (s : CronSchedule) (mn hour dom m dow : Nat) :
    s.firesAt mn hour dom m dow = true ↔ s.Fires mn hour dom m dow := by
  simp only [CronSchedule.firesAt, CronSchedule.Fires, Bool.and_eq_true, and_assoc]
  cases s.dom.wildcard <;> cases s.dow.wildcard <;> simp

theorem right_iff_of_settles {s mn hour dom m dow : Text} {tame reads : Prop}
    {run : Bool → Except CronFailure CronSchedule}
    (hs : splitWhitespace s = [mn, hour, dom, m, dow])
    (hp : Settles run tame reads (Follows · mn hour dom m dow)) :
    (∀ c, Right s (run c)) ↔ tame := by
  constructor
  · intro hr
    by_contra hn
    have hc := hr true
    rw [hp.panics hn] at hc
    exact hc
  · intro ht c
    rcases hp.finishes ht c with ⟨_, p, he, hf⟩ | ⟨_, msg, he⟩
    · rw [he]
      exact ⟨_, _, _, _, _, hs, hf⟩
    · rw [he]
      trivial

open Field

/-- A schedule is read as it is meant, in every build, exactly when its counters are tame. -/
theorem parse_right_iff (schedule : Text) :
    (∀ checked, Right schedule (CronSchedule.parse checked schedule)) ↔ TameSchedule schedule := by
  unfold CronSchedule.parse TameSchedule
  split
  · next mn hour dom m dow hs =>
    apply right_iff_of_settles hs
    exact (parse_settles 1 mn).bind fun a ha =>
      (parse_settles 2 hour).bind fun b hb =>
      (parse_settles 3 dom).bind fun c hc =>
      (parse_settles 4 m).bind fun d hd =>
      (parse_settles 5 dow).bind fun e he => .ok ⟨ha, hb, hc, hd, he, firesAt_iff _⟩
  · simp [Right]

namespace Overstepped

/-- A step of almost 32 bits from the first day of the month: every build panics. -/
theorem large_step_panics :
    [true, false].map (CronSchedule.parse · "0 0 */4294967295 * *".toList) =
      [.error .panicked, .error .panicked] := by
  decide +kernel

end Overstepped

end BoatRamp.Functions
