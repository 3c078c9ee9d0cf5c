import BoatRamp.Routing.Resolve

/-!
# Normal paths

A path is normalised before it is routed.  The normal form is read off the
segments of the path, is split back into them, and is what the removal of dot
segments of RFC 3986 gives when empty segments are dropped as well.
-/

namespace BoatRamp.Routing

open Library List

/-- The segments that leave a slash behind at the end of a path. -/
def dotSegments : List Text := [[], ['.'], ['.', '.']]

/-- The segments of the normal form; an empty one at the end is a trailing slash. -/
def canonical (segments : List Text) : List Text :=
  (segments.foldl pushSegment []).reverse ++
    if segments.getLast?.any (· ∈ dotSegments) then [[]] else []

def Proper (segment : Text) : Prop := '/' ∉ segment ∧ segment ∉ dotSegments

theorem foldl_pushSegment_proper {sgs k : List Text} (hc : ∀ sg ∈ sgs, '/' ∉ sg)
    (hb : ∀ sg ∈ k, Proper sg) : ∀ sg ∈ sgs.foldl pushSegment k, Proper sg := by
  induction sgs generalizing k with
  | nil => exact hb
  | cons x rest ih =>
    rw [forall_mem_cons] at hc
    apply ih hc.2
    intro sg hm
    unfold pushSegment at hm
    split at hm
    next => exact hb sg hm
    next hf =>
    split at hm
    next => exact hb sg (mem_of_mem_tail hm)
    next ho =>
    rcases mem_cons.mp hm with rfl | hol
    · exact ⟨hc.1, by simp [dotSegments, hf, ho]⟩
    · exact hb sg hol

variable (path : Text) {sgs : List Text}

theorem foldl_pushSegment_of_proper (hp : ∀ segment ∈ sgs, Proper segment) (k : List Text) :
    sgs.foldl pushSegment k = sgs.reverse ++ k := by
  induction sgs generalizing k with
  | nil => rfl
  | cons x rest ih =>
    rw [forall_mem_cons] at hp
    have hpu : pushSegment k x = x :: k := by
      have ha := hp.1.2
      simp only [dotSegments, mem_cons, not_mem_nil, or_false, not_or] at ha
      simp [pushSegment, ha]
    rw [foldl_cons, hpu, ih hp.2]
    simp

/-- A path whose segments are all dropped ends in one that leaves a slash. -/
theorem last_mem_of_foldl_nil {f : List Text} {l : Text}
    (hn : (f ++ [l]).foldl pushSegment [] = []) : l ∈ dotSegments := by
  by_contra ho
  simp only [dotSegments, mem_cons, not_mem_nil, or_false, not_or] at ho
  simp [pushSegment, ho] at hn

theorem canonical_concat (f : List Text) (l : Text) :
    canonical (f ++ [l]) = ((f ++ [l]).foldl pushSegment []).reverse ++
      if l ∈ dotSegments then [[]] else [] := by
  simp [canonical]

theorem canonical_shape (hf : sgs ≠ []) (hc : ∀ sg ∈ sgs, '/' ∉ sg) :
    ∃ k, (∀ sg ∈ k, Proper sg) ∧ (canonical sgs = k ++ [[]] ∨ canonical sgs = k ∧ k ≠ []) := by
  obtain ⟨f, l, rfl⟩ := (eq_nil_or_concat' sgs).resolve_left hf
  rw [canonical_concat]
  refine ⟨((f ++ [l]).foldl pushSegment []).reverse, ?_, ?_⟩
  · intro sg hm
    exact foldl_pushSegment_proper hc (by simp) sg (mem_reverse.mp hm)
  by_cases hd : l ∈ dotSegments
  · exact .inl (by simp [hd])
  · refine .inr ⟨by simp [hd], ?_⟩
    intro hn
    exact hd (last_mem_of_foldl_nil (reverse_eq_nil_iff.mp hn))

/-- The segments of a normal form, which starts with a slash, are their own normal form. -/
theorem canonical_idempotent (hf : sgs ≠ []) (hc : ∀ sg ∈ sgs, '/' ∉ sg) :
    canonical ([] :: canonical sgs) = canonical sgs := by
  obtain ⟨k, hpr, hs⟩ := canonical_shape hf hc
  have hp := foldl_pushSegment_of_proper hpr []
  rcases hs with hs | ⟨hs, hso⟩
  · rw [hs, ← cons_append, canonical_concat]
    simp [pushSegment, dotSegments, hp]
  obtain ⟨f, l, rfl⟩ := (eq_nil_or_concat' k).resolve_left hso
  have ho : l ∉ dotSegments := (hpr l (by simp)).2
  rw [hs, ← cons_append, canonical_concat, cons_append, foldl_cons]
  rw [show pushSegment [] [] = [] from rfl, hp]
  simp [ho]

theorem suffix_slash_iff {f l dot : Text} (hc : '/' ∉ l) (hp : '/' ∉ dot) :
    '/' :: dot <:+ f ++ '/' :: l ↔ l = dot := by
  constructor
  · rintro ⟨b, hj⟩
    have hs := congrArg (rsplitOnceAt '/') hj
    rw [rsplitOnceAt_append hp, rsplitOnceAt_append hc] at hs
    cases hs
    rfl
  · rintro rfl
    exact ⟨f, rfl⟩

theorem trailing_iff {path l : Text} {f : List Text} (hs : splitAll '/' path = f ++ [l]) :
    (path = [] ∨ ['/'] <:+ path ∨ "/.".toList <:+ path ∨ "/..".toList <:+ path ∨ path = ['.'] ∨
      path = ['.', '.']) ↔ l ∈ dotSegments := by
  have hw := flatMap_splitAll '/' path
  have hc : '/' ∉ l := clean_of_mem_splitAll (by rw [hs]; simp)
  rw [hs, flatMap_append, flatMap_singleton] at hw
  have he (dot : Text) (hp : '/' ∉ dot) : path = dot ∨ '/' :: dot <:+ path ↔ l = dot := by
    rw [← suffix_slash_iff hc hp, hw, suffix_cons_iff, cons.injEq, eq_comm]
    simp
  have hem := he [] (by simp)
  have hh := he ['.'] (by simp)
  have up := he ['.', '.'] (by simp)
  simp only [dotSegments, mem_cons, not_mem_nil, or_false, ← hem, ← hh, ← up]
  change (path = [] ∨ ['/'] <:+ path ∨ ['/', '.'] <:+ path ∨ ['/', '.', '.'] <:+ path ∨ _) ↔ _
  grind

theorem normalizeDotSegments_eq :
    normalizeDotSegments path = (canonical (splitAll '/' path)).flatMap ('/' :: ·) := by
  obtain ⟨f, l, split⟩ :=
    (eq_nil_or_concat' (splitAll '/' path)).resolve_left (splitAll_ne_nil '/' path)
  have hc : ∀ sg ∈ f ++ [l], '/' ∉ sg := by
    intro sg hm
    exact clean_of_mem_splitAll (split ▸ hm)
  have t := trailing_iff split
  have hp := foldl_pushSegment_proper hc (by simp : ∀ sg ∈ [], Proper sg)
  unfold normalizeDotSegments
  rw [split, canonical_concat]
  generalize hfo : (f ++ [l]).foldl pushSegment [] = k at hp
  cases k with
  | nil =>
    have hd := last_mem_of_foldl_nil hfo
    simp [joinAll, hd]
  | cons top o =>
    have hf : (top :: o).reverse ≠ [] := by simp
    have hb : ¬['/'] <:+ '/' :: joinAll ['/'] (top :: o).reverse := by
      rw [cons_joinAll '/' hf, reverse_cons, flatMap_append, flatMap_singleton,
        suffix_slash_iff (hp top (by simp)).1 (by simp)]
      rintro rfl
      exact (hp [] (by simp)).2 (by simp [dotSegments])
    have some : path ≠ [] := by
      rintro rfl
      cases f with
      | nil =>
        cases split
        simp [pushSegment] at hfo
      | cons x rest => simp [splitAll] at split
    simp only [some, false_or] at t
    simp only [t, decide_eq_true_eq, hb, not_false_eq_true, and_true]
    rw [cons_joinAll '/' hf, flatMap_append]
    split <;> simp

theorem splitAll_normalizeDotSegments :
    splitAll '/' (normalizeDotSegments path) = [] :: canonical (splitAll '/' path) := by
  obtain ⟨k, hp, hs⟩ :=
    canonical_shape (splitAll_ne_nil '/' path) fun _ hm => clean_of_mem_splitAll hm
  rw [normalizeDotSegments_eq]
  apply splitAll_flatMap
  intro sg hm
  rcases hs with hs | ⟨hs, _⟩
  · rw [hs, mem_append, mem_singleton] at hm
    rcases hm with hi | rfl
    · exact (hp sg hi).1
    · exact not_mem_nil
  · exact (hp sg (hs ▸ hm)).1

theorem normalizeDotSegments_idempotent :
    normalizeDotSegments (normalizeDotSegments path) = normalizeDotSegments path := by
  rw [normalizeDotSegments_eq (normalizeDotSegments path), splitAll_normalizeDotSegments,
    canonical_idempotent (splitAll_ne_nil '/' path) (fun _ hm => clean_of_mem_splitAll hm),
    normalizeDotSegments_eq]

theorem normalizeDotSegments_slash :
    normalizeDotSegments ('/' :: path) = normalizeDotSegments path := by
  have hsp : splitAll '/' ('/' :: path) = [] :: splitAll '/' path :=
    @splitAll_append '/' [] path not_mem_nil
  obtain ⟨f, l, hs⟩ :=
    (eq_nil_or_concat' (splitAll '/' path)).resolve_left (splitAll_ne_nil '/' path)
  rw [normalizeDotSegments_eq, normalizeDotSegments_eq, hsp, hs, ← cons_append,
    canonical_concat, canonical_concat]
  rfl

theorem routedPath_eq : routedPath path = normalizeDotSegments path := by
  unfold routedPath
  split
  next => rfl
  next => exact normalizeDotSegments_slash path

/-- The loop of RFC 3986, section 5.2.4, on an absolute path, with a rule that drops an empty
segment.  The output is kept last first; a dot segment with its slash is replaced by a slash. -/
def removeDotSegments : (fuel : Nat) → (output : List Text) → (input : Text) → Text
  | fuel + 1, output, '/' :: input =>
      let segment := input.takeWhile (· ≠ '/')
      let rest := input.dropWhile (· ≠ '/')
      let replaced := if rest = [] then ['/'] else rest
      if segment = ['.'] then removeDotSegments fuel output replaced
      else if segment = ['.', '.'] then removeDotSegments fuel output.tail replaced
      else if segment = [] ∧ rest ≠ [] then removeDotSegments fuel output rest
      else removeDotSegments fuel (('/' :: segment) :: output) rest
  | _, output, _ => output.reverse.flatten

theorem cut_segment {x : Text} (hc : '/' ∉ x) (rest : List Text) :
    (x ++ rest.flatMap ('/' :: ·)).takeWhile (· ≠ '/') = x ∧
      (x ++ rest.flatMap ('/' :: ·)).dropWhile (· ≠ '/') = rest.flatMap ('/' :: ·) := by
  have hp : ∀ c ∈ x, decide (c ≠ '/') = true := by
    intro c hm
    simpa using fun hs : c = '/' => hc (hs ▸ hm)
  rw [takeWhile_append_of_pos hp, dropWhile_append_of_pos hp]
  cases rest <;> simp

theorem removeDotSegments_slash {fuel : Nat} (he : 1 < fuel) (k : List Text) :
    removeDotSegments fuel (k.map ('/' :: ·)) ['/'] = (k.reverse ++ [[]]).flatMap ('/' :: ·) := by
  obtain ⟨fuel, rfl⟩ : ∃ m, fuel = m + 2 := ⟨fuel - 2, by omega⟩
  simp [removeDotSegments, flatMap]

theorem removeDotSegments_flatMap (hf : sgs ≠ []) (hc : ∀ sg ∈ sgs, '/' ∉ sg) {fuel : Nat}
    (hen : (sgs.flatMap ('/' :: ·)).length < fuel) (k : List Text) :
    removeDotSegments fuel (k.map ('/' :: ·)) (sgs.flatMap ('/' :: ·)) =
      ((sgs.foldl pushSegment k).reverse ++
        if sgs.getLast?.any (· ∈ dotSegments) then [[]] else []).flatMap ('/' :: ·) := by
  induction sgs generalizing fuel k with
  | nil => exact absurd rfl hf
  | cons x rest ih =>
    rw [forall_mem_cons] at hc
    obtain ⟨ht, hd⟩ := cut_segment hc.1 rest
    rw [flatMap_cons, length_append, length_cons] at hen
    obtain ⟨fuel, rfl⟩ : ∃ m, fuel = m + 1 := ⟨fuel - 1, by omega⟩
    rw [flatMap_cons, cons_append, removeDotSegments]
    simp only [ht, hd]
    cases rest with
    | nil =>
      -- the last segment: a dot segment leaves its slash, which is then moved
      simp only [flatMap_nil, length_nil] at hen ⊢
      by_cases hh : x = ['.']
      · subst hh
        rw [if_pos rfl, if_pos trivial, removeDotSegments_slash (by
          simp at hen
          omega)]
        simp [pushSegment, dotSegments]
      rw [if_neg hh]
      by_cases up : x = ['.', '.']
      · subst up
        rw [if_pos rfl, if_pos trivial, ← map_tail, removeDotSegments_slash (by
          simp at hen
          omega)]
        simp [pushSegment, dotSegments]
      rw [if_neg up, if_neg (by simp)]
      by_cases he : x = []
      · simp [removeDotSegments, pushSegment, dotSegments, he, flatMap]
      · simp [removeDotSegments, pushSegment, dotSegments, he, hh, up, flatMap]
    | cons next o =>
      have m : (next :: o).flatMap ('/' :: ·) ≠ [] := by simp
      have ho := ih (cons_ne_nil _ _) hc.2
        (show ((next :: o).flatMap ('/' :: ·)).length < fuel by omega)
      rw [foldl_cons, getLast?_cons_cons, if_neg m]
      by_cases hh : x = ['.']
      · rw [if_pos hh, ho]
        simp [hh, pushSegment]
      rw [if_neg hh]
      by_cases up : x = ['.', '.']
      · rw [if_pos up, ← map_tail, ho]
        simp [up, pushSegment]
      rw [if_neg up]
      by_cases he : x = []
      · rw [if_pos ⟨he, m⟩, ho]
        simp [he, pushSegment]
      · rw [if_neg (by simp [he]), ← map_cons, ho]
        simp [pushSegment, he, hh, up]

/-- Normalisation confines routing: it is idempotent; its result starts with a slash and has no
empty or dot segment but for a trailing slash; it is the removal of dot segments with empty ones
dropped; and a path is routed as its normal form is. -/
theorem normalization_confines [CaseFolding] {Entry : Type} (config : DeployConfig)
    (files : SortedMap Text Entry) (path : Text) (ctx : RequestContext) :
    normalizeDotSegments (normalizeDotSegments path) = normalizeDotSegments path ∧
    (∃ segments, (∀ segment ∈ segments, Proper segment) ∧
      (normalizeDotSegments path = segments.flatMap ('/' :: ·) ++ ['/'] ∨
        normalizeDotSegments path = segments.flatMap ('/' :: ·) ∧ segments ≠ [])) ∧
    normalizeDotSegments path = removeDotSegments (path.length + 2) [] ('/' :: path) ∧
    resolveCtx config files path ctx = resolveCtx config files (normalizeDotSegments path) ctx := by
  have hc : ∀ segment ∈ splitAll '/' path, '/' ∉ segment :=
    fun _ hm => clean_of_mem_splitAll hm
  refine ⟨normalizeDotSegments_idempotent path, ?_, ?_, ?_⟩
  · obtain ⟨k, hp, hs⟩ := canonical_shape (splitAll_ne_nil '/' path) hc
    refine ⟨k, hp, ?_⟩
    rw [normalizeDotSegments_eq]
    rcases hs with hs | ⟨hs, hso⟩
    · exact .inl (by rw [hs, List.flatMap_append, List.flatMap_singleton])
    · exact .inr ⟨by rw [hs], hso⟩
  · have hw := flatMap_splitAll '/' path
    have he : ((splitAll '/' path).flatMap ('/' :: ·)).length < path.length + 2 := by
      simp [hw]
    have hr := removeDotSegments_flatMap (splitAll_ne_nil '/' path) hc he []
    rw [hw] at hr
    rw [normalizeDotSegments_eq]
    exact hr.symm
  · unfold resolveCtx
    rw [routedPath_eq, routedPath_eq, normalizeDotSegments_idempotent]

end BoatRamp.Routing
