import BoatRamp.Gateway.Config
import BoatRamp.Proxy.Send

/-!
# Responses of an upstream

The fields of an upstream's response on their way to the client.  The fields
that pass are inserted one by one into a fresh map, and an insertion replaces
what the map has under the name.
-/

namespace BoatRamp.Proxy

open Http Gateway HeaderMap List

/-- Insert a field in the place of the first of its name; the others of the name go. -/
def replace (name : HeaderName) (value : HeaderValue) : HeaderMap → HeaderMap
  | [] => [(name, value)]
  | field :: rest =>
      if field.1 = name then (name, value) :: HeaderMap.remove rest name
      else field :: replace name value rest

/-- Set a configured field; an invalid name or value is ignored. -/
def setHeaderStr (headers : HeaderMap) (entry : Text × Text) : HeaderMap :=
  match HeaderName.fromBytes (toUtf8 entry.1), HeaderValue.fromStr (toUtf8 entry.2) with
  | some name, some value => replace name value headers
  | _, _ => headers

/-- A field that is not passed on to the client. -/
def isDropped (upstream : Upstream) (name : HeaderName) : Bool :=
  isHopByHop name || name = .CONTENT_LENGTH ||
    upstream.headerDown.remove.any fun removed =>
      name.bytes.map toLowercase = (toUtf8 removed).map toLowercase

def insertAll (headers fields : HeaderMap) : HeaderMap :=
  fields.foldl (fun headers field => replace field.1 field.2 headers) headers

def proxyUpstream (upstream : Upstream) (fields : HeaderMap) : HeaderMap :=
  let headers := fields.foldl (fun headers field =>
    if isDropped upstream field.1 then headers else replace field.1 field.2 headers) []
  upstream.headerDown.set.entries.foldl setHeaderStr headers

def passed (upstream : Upstream) (fields : HeaderMap) : HeaderMap :=
  fields.filter fun field => !isDropped upstream field.1

def rewritten (upstream : Upstream) (fields : HeaderMap) : HeaderMap :=
  upstream.headerDown.set.entries.foldl setHeaderStr (passed upstream fields)

def nameSet (entry : Text × Text) : Option HeaderName :=
  match HeaderName.fromBytes (toUtf8 entry.1), HeaderValue.fromStr (toUtf8 entry.2) with
  | some name, some _ => some name
  | _, _ => none

def names (fields : HeaderMap) : List HeaderName := fields.map Prod.fst

section Replacement

variable {name o : HeaderName} {v next : HeaderValue} {fs : HeaderMap}

theorem remove_replace (hd : o ≠ name) : remove (replace o next fs) name =
      replace o next (remove fs name) := by
  induction fs with
  | nil => simp [replace, remove, hd]
  | cons f rest ih =>
    unfold remove at ih ⊢
    by_cases hs : f.1 = o
    · simp [replace, hs, hd, remove, Bool.and_comm]
    by_cases hg : f.1 = name
    · rw [replace, if_neg hs, filter_cons_of_neg (by simp [hg]),
        filter_cons_of_neg (by simp [hg]), ih]
    · rw [replace, if_neg hs, filter_cons_of_pos (by simp [hg]),
        filter_cons_of_pos (by simp [hg]), replace, if_neg hs, ih]

theorem replace_replace_self : replace name v (replace name next fs) = replace name v fs := by
  induction fs with
  | nil => simp [replace, remove]
  | cons f rest ih =>
    by_cases hs : f.1 = name
    · simp [replace, hs, remove]
    · simp only [replace, if_neg hs, ih]

/-- A name that is present keeps its place whatever else is inserted. -/
theorem replace_comm (hd : o ≠ name) (hp : name ∈ names fs) :
    replace name v (replace o next fs) = replace o next (replace name v fs) := by
  induction fs with
  | nil => exact absurd hp not_mem_nil
  | cons f rest ih =>
    by_cases hf : f.1 = name
    · have hu : f.1 ≠ o := fun hs => hd (hs.symm.trans hf)
      simp only [replace, if_neg hu, if_pos hf, if_neg (Ne.symm hd)]
      rw [remove_replace hd]
    have hl : name ∈ names rest := (mem_cons.mp hp).resolve_left (Ne.symm hf)
    by_cases hs : f.1 = o
    · simp only [replace, if_neg hf, if_pos hs, if_neg hd]
      rw [remove_replace (Ne.symm hd)]
    · simp only [replace, if_neg hf, if_neg hs, ih hl]

theorem count_names_remove : (names (remove fs o)).count name =
      if name = o then 0 else (names fs).count name := by
  have hk : names (remove fs o) = (names fs).filter (· ≠ o) := by
    simp [names, remove, filter_map, Function.comp_def]
  rw [hk]
  split
  case isTrue same => simp [count_eq_zero, same]
  case isFalse unlike => rw [count_filter (by simp [unlike])]

theorem count_names_replace : (names (replace o next fs)).count name =
      if name = o then 1 else (names fs).count name := by
  induction fs with
  | nil =>
    by_cases hs : name = o
    · simp [replace, names, hs]
    · simp [replace, names, count_eq_zero, hs]
  | cons f rest ih =>
    have hc (f : HeaderName × HeaderValue) (rest : HeaderMap) : (names (f :: rest)).count name =
          (names rest).count name + if f.1 = name then 1 else 0 := by
      simp [names, count_cons]
    by_cases hf : f.1 = o
    · rw [replace, if_pos hf, hc, count_names_remove, hc]
      simp only [hf, eq_comm (a := name)]
      split <;> simp
    rw [replace, if_neg hf, hc, ih, hc]
    by_cases hs : name = o
    · simp [hs, hf]
    · simp [hs]

theorem mem_names_replace (hp : name ∈ names fs) : name ∈ names (replace o next fs) := by
  rw [← count_pos_iff] at hp ⊢
  rw [count_names_replace]
  split <;> omega

theorem replace_insertAll (hp : name ∈ names fs) (m : HeaderMap) :
    replace name v (insertAll fs m) = insertAll (replace name v fs) (remove m name) := by
  induction m generalizing fs with
  | nil => rfl
  | cons f rest ih =>
    refine (ih (mem_names_replace hp)).trans ?_
    unfold remove
    by_cases hs : f.1 = name
    · rw [filter_cons_of_neg (by simp [hs]), hs, replace_replace_self]
    · rw [filter_cons_of_pos (by simp [hs]), replace_comm hs hp]
      rfl

theorem insertAll_replace (hdrs : HeaderMap) : insertAll hdrs (replace name v fs) =
      replace name v (insertAll hdrs fs) := by
  induction fs generalizing hdrs with
  | nil => rfl
  | cons f rest ih =>
    by_cases hs : f.1 = name
    · have hp : name ∈ names (replace name f.2 hdrs) := by
        rw [← count_pos_iff, count_names_replace, if_pos rfl]
        omega
      have hl : replace name v (insertAll (replace name f.2 hdrs) rest) = _ :=
        replace_insertAll hp rest
      rw [replace_replace_self, ← hs] at hl
      rw [replace, if_pos hs, ← hs]
      exact hl.symm
    · rw [replace, if_neg hs]
      exact ih _

theorem replace_of_absent (ha : name ∉ names fs) : replace name v fs = fs ++ [(name, v)] := by
  induction fs with
  | nil => rfl
  | cons f rest ih =>
    obtain ⟨hu, hl⟩ := not_or.mp (mt mem_cons.mpr ha)
    rw [replace, if_neg (Ne.symm hu), ih hl, cons_append]

theorem insertAll_of_nodup (hdrs : HeaderMap) (hd : (names (hdrs ++ fs)).Nodup) :
    insertAll hdrs fs = hdrs ++ fs := by
  induction fs generalizing hdrs with
  | nil => exact (append_nil hdrs).symm
  | cons f rest ih =>
    have ha : f.1 ∉ names hdrs := by
      simp only [names, map_append, map_cons] at hd
      exact fun hi => disjoint_of_nodup_append hd hi mem_cons_self
    have had : insertAll hdrs (f :: rest) = insertAll (hdrs ++ [f]) rest :=
      congrArg (insertAll · rest) (replace_of_absent ha)
    rw [had, ih _ (by simpa using hd), append_assoc, singleton_append]

theorem nodup_insertAll (hdrs : HeaderMap) (hd : (names hdrs).Nodup) :
    (names (insertAll hdrs fs)).Nodup := by
  induction fs generalizing hdrs with
  | nil => exact hd
  | cons f rest ih =>
    refine ih _ (nodup_iff_count_le_one.mpr fun name => ?_)
    rw [count_names_replace]
    split
    · exact Nat.le_refl 1
    · exact nodup_iff_count_le_one.mp hd name

/-- The fresh map has one field of each name, so it is the list only if the list has. -/
theorem insertAll_eq_self_iff : insertAll [] fs = fs ↔ (names fs).Nodup := by
  constructor
  · intro hs
    rw [← hs]
    exact nodup_insertAll [] nodup_nil
  · exact insertAll_of_nodup []

end Replacement

theorem setHeaderStr_cases (e : Text × Text) :
    (nameSet e = none ∧ ∀ hdrs, setHeaderStr hdrs e = hdrs) ∨ ∃ name val, nameSet e = some name ∧
        ∀ hdrs, setHeaderStr hdrs e = replace name val hdrs := by
  unfold nameSet setHeaderStr
  split
  case h_1 name val named valued => exact .inr ⟨name, val, rfl, fun _ => rfl⟩
  case h_2 => exact .inl ⟨rfl, fun _ => rfl⟩

theorem insertAll_setHeaderStr (es : List (Text × Text)) (fds : HeaderMap) :
    insertAll [] (es.foldl setHeaderStr fds) = es.foldl setHeaderStr (insertAll [] fds) := by
  induction es generalizing fds with
  | nil => rfl
  | cons e rest ih =>
    rw [foldl_cons, ih, foldl_cons]
    obtain ⟨-, hs⟩ | ⟨name, val, -, hr⟩ := setHeaderStr_cases e
    · rw [hs, hs]
    · rw [hr, hr, insertAll_replace]

theorem count_names_setHeaderStr (es : List (Text × Text)) (fds : HeaderMap) (name : HeaderName) :
    (names (es.foldl setHeaderStr fds)).count name =
      if some name ∈ es.map nameSet then 1 else (names fds).count name := by
  induction es generalizing fds with
  | nil => rfl
  | cons e rest ih =>
    rw [foldl_cons, ih, map_cons]
    obtain ⟨hu, hs⟩ | ⟨ot, val, hn, hr⟩ := setHeaderStr_cases e
    · rw [hs, hu]
      exact if_congr (by simp) rfl rfl
    rw [hr, hn, count_names_replace]
    by_cases he : name = ot
    · simp [he]
    · rw [if_neg he]
      exact if_congr (by simp [he]) rfl rfl

theorem proxyUpstream_eq (up : Upstream) (fds : HeaderMap) :
    proxyUpstream up fds = insertAll [] (rewritten up fds) := by
  unfold rewritten proxyUpstream
  rw [insertAll_setHeaderStr]
  unfold insertAll passed
  rw [foldl_filter]
  simp only [Bool.not_eq_true', ← Bool.not_eq_true, ite_not]

/-- The response is the upstream's with every field that passes exactly if each name that
several of these fields have is set by the configuration. -/
theorem response_fields_kept_iff (upstream : Upstream) (fields : HeaderMap) :
    proxyUpstream upstream fields = rewritten upstream fields ↔
      ∀ name, 1 < (names (passed upstream fields)).count name →
        some name ∈ upstream.headerDown.set.entries.map nameSet := by
  rw [proxyUpstream_eq, insertAll_eq_self_iff, List.nodup_iff_count_le_one]
  refine forall_congr' fun name => ?_
  rw [rewritten, count_names_setHeaderStr]
  split
  case isTrue inside => exact iff_of_true (Nat.le_refl 1) fun _ => inside
  case isFalse unset => exact ⟨fun few hm => absurd few (by omega), fun ho =>
    Nat.le_of_not_lt fun hm => unset (ho hm)⟩

namespace Collapsed

def setCookie (value : String) : HeaderName × HeaderValue :=
  (⟨ascii "set-cookie", by decide⟩, (HeaderValue.fromStr (ascii value)).getD .CHUNKED)

/-- Of two cookies only the second is returned. -/
theorem cookie_lost :
    let received := [setCookie "a=1", setCookie "b=2"]
    proxyUpstream (.single []) received = [setCookie "b=2"] ∧
      rewritten (.single []) received = received ∧ setCookie "a=1" ≠ setCookie "b=2" := by
  decide +kernel

end Collapsed

end BoatRamp.Proxy
