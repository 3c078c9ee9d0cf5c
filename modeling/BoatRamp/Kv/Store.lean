import BoatRamp.Library.SortedMap
import BoatRamp.Text

/-!
# The key/value store

A store is an ordered map from keys, which are strings, to byte strings.
`writeBatch` applies a group of writes in order.
-/

namespace BoatRamp

open Library List SortedMap

abbrev Store (Bytes : Type) := SortedMap Text Bytes

inductive KvWrite (Bytes : Type) where
  | put (key : Text) (value : Bytes)
  | delete (key : Text)
  deriving DecidableEq

namespace KvWrite

variable {Bytes : Type}

def key : KvWrite Bytes → Text
  | .put key _ => key
  | .delete key => key

def apply (store : Store Bytes) : KvWrite Bytes → Store Bytes
  | .put key value => store.insert key value
  | .delete key => store.erase key

theorem get?_apply_of_ne (store : Store Bytes) (w : KvWrite Bytes) {key : Text}
    (hd : key ≠ w.key) : (w.apply store).get? key = store.get? key := by
  cases w with
  | put tg v => exact store.get?_insert_of_ne v hd
  | delete tg => exact store.get?_erase_of_ne hd

end KvWrite

variable {Bytes : Type}

def writeBatch (store : Store Bytes) (writes : List (KvWrite Bytes)) : Store Bytes :=
  writes.foldl KvWrite.apply store

variable (store : Store Bytes)

@[simp]
theorem writeBatch_nil : writeBatch store [] = store := rfl

@[simp]
theorem writeBatch_cons (w : KvWrite Bytes) (rest : List (KvWrite Bytes)) :
    writeBatch store (w :: rest) = writeBatch (w.apply store) rest := rfl

theorem writeBatch_append (x y : List (KvWrite Bytes)) :
    writeBatch store (x ++ y) = writeBatch (writeBatch store x) y :=
  foldl_append

theorem get?_writeBatch_of_unnamed (wr : List (KvWrite Bytes)) {key : Text}
    (hu : ∀ w ∈ wr, key ≠ w.key) : (writeBatch store wr).get? key = store.get? key := by
  induction wr generalizing store with
  | nil => rfl
  | cons w rest ih =>
    rw [writeBatch_cons, ih]
    · exact w.get?_apply_of_ne store (hu w (by simp))
    · intro l hi
      exact hu l (by simp [hi])

theorem get?_writeBatch_of_named {ops : List (KvWrite Bytes)} {key : Text}
    (hn : key ∈ ops.map KvWrite.key) (x y : Store Bytes) :
    (writeBatch x ops).get? key = (writeBatch y ops).get? key := by
  induction ops generalizing x y with
  | nil => simp at hn
  | cons op rest ih =>
    by_cases hl : key ∈ rest.map KvWrite.key
    · exact ih hl (op.apply x) (op.apply y)
    obtain rfl : key = op.key := by simpa [hl] using hn
    have hu : ∀ w ∈ rest, op.key ≠ w.key :=
      fun w hi hs => hl (hs ▸ mem_map_of_mem hi)
    rw [writeBatch_cons, writeBatch_cons, get?_writeBatch_of_unnamed _ _ hu,
      get?_writeBatch_of_unnamed _ _ hu]
    cases op with
    | put tg v | delete tg => simp [KvWrite.apply, KvWrite.key]

theorem get?_writeBatch_deletes (k : List Text) (key : Text) :
    (writeBatch store (k.map .delete)).get? key = if key ∈ k then none else store.get? key := by
  induction k generalizing store with
  | nil => rfl
  | cons x rest ih =>
    rw [map_cons, writeBatch_cons, ih]
    by_cases hl : key ∈ rest
    · simp [hl]
    · simp [hl, KvWrite.apply, get?_erase]

theorem get?_writeBatch_puts {Element : Type} (ko : Element → Text) (vo : Element → Bytes)
    {el : List Element} {key : Text} (hn : key ∈ el.map ko) (store : Store Bytes) :
    ∃ e ∈ el, ko e = key ∧ (writeBatch store (el.map fun e => .put (ko e) (vo e))).get?
        key = some (vo e) := by
  induction el generalizing store with
  | nil => cases hn
  | cons x rest ih =>
    rw [map_cons, writeBatch_cons]
    by_cases hl : key ∈ rest.map ko
    · obtain ⟨e, hi, hsa, hs⟩ := ih hl _
      exact ⟨e, by simp [hi], hsa, hs⟩
    obtain rfl : key = ko x := by simpa [hl] using hn
    refine ⟨x, by simp, rfl, ?_⟩
    rw [get?_writeBatch_of_unnamed]
    · simp [KvWrite.apply]
    intro w hi
    obtain ⟨e, hm, rfl⟩ := mem_map.mp hi
    exact fun hsa => hl (mem_map.mpr ⟨e, hm, hsa.symm⟩)

/-- The stored keys below a leading part, in order. -/
def listPrefix (kv : Store Bytes) (head : Text) : List Text := (kv.scan head).map Prod.fst

theorem mem_listPrefix_iff (kv : Store Bytes) (head key : Text) :
    key ∈ listPrefix kv head ↔ (kv.get? key).isSome ∧ head <+: key := by
  simp only [listPrefix, mem_map, Prod.exists, exists_and_right, exists_eq_right,
    mem_scan_iff, Option.isSome_iff_exists]

theorem listPrefix_of_gone {b a : Store Bytes} {head : Text} {k : List Text}
    (hg : ∀ key, head <+: key → a.get? key = if key ∈ k then none else b.get? key) :
    listPrefix a head = (listPrefix b head).filter fun key => key ∉ k := by
  have hen : a.scan head = (b.scan head).filter fun e => e.1 ∉ k := by
    apply entries_eq_of_mem_iff (a.scan_sorted head) ((b.scan_sorted head).sublist filter_sublist)
    rintro ⟨key, v⟩
    rw [mem_scan_iff, mem_filter, mem_scan_iff]
    constructor
    · rintro ⟨hs, he⟩
      rw [hg key he] at hs
      split_ifs at hs with hd
      exact ⟨⟨hs, he⟩, decide_eq_true hd⟩
    rintro ⟨⟨hs, he⟩, hk⟩
    rw [hg key he, if_neg (of_decide_eq_true hk)]
    exact ⟨hs, he⟩
  rw [listPrefix, hen, listPrefix, filter_map]
  rfl

end BoatRamp
