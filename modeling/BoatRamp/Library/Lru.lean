import Mathlib.Order.Lattice

/-!
# Least-recently-used caches

Entries are kept most recently used first.  A cache carries its capacity and
never holds more entries than that.
-/

namespace Library

open List

universe u v

structure LruCache (Key : Type u) (Value : Type v) where
  capacity : Nat
  entries : List (Key × Value)
  positive : 0 < capacity
  bounded : entries.length ≤ capacity
  deriving DecidableEq

namespace LruCache

variable {Key : Type u} {Value : Type v}

def empty (capacity : Nat) (positive : 0 < capacity) : LruCache Key Value :=
  ⟨capacity, [], positive, Nat.zero_le _⟩

variable [DecidableEq Key]

/-- Look an entry up without touching its age. -/
def peek (cache : LruCache Key Value) (key : Key) : Option Value :=
  (cache.entries.find? fun entry => entry.1 = key).map Prod.snd

def without (cache : LruCache Key Value) (key : Key) : List (Key × Value) :=
  cache.entries.filter fun entry => entry.1 ≠ key

variable (cache : LruCache Key Value) (key : Key)

theorem without_length_le : (cache.without key).length ≤ cache.capacity :=
  (length_filter_le _ _).trans cache.bounded

theorem without_length_lt {key : Key} {val : Value} (hf : cache.peek key = some val) :
    (cache.without key).length < cache.entries.length := by
  obtain ⟨e, hl, _⟩ := Option.map_eq_some_iff.mp hf
  apply length_filter_lt_length_iff_exists.mpr
  refine ⟨e, mem_of_find?_eq_some hl, ?_⟩
  simpa using find?_some hl

/-- Put an entry in front, evicting the oldest one when the cache is full. -/
def put (cache : LruCache Key Value) (key : Key) (value : Value) : LruCache Key Value where
  capacity := cache.capacity
  entries := (key, value) :: (cache.without key).take (cache.capacity - 1)
  positive := cache.positive
  bounded := by
    have positive := cache.positive
    simp only [List.length_cons, List.length_take]
    omega

def pop (cache : LruCache Key Value) (key : Key) : LruCache Key Value :=
  ⟨cache.capacity, cache.without key, cache.positive, cache.without_length_le key⟩

/-- Look an entry up and make it the most recently used one. -/
def get (cache : LruCache Key Value) (key : Key) : LruCache Key Value × Option Value :=
  match found : cache.peek key with
  | none => (cache, none)
  | some value =>
      (⟨cache.capacity, (key, value) :: cache.without key, cache.positive,
        (cache.without_length_lt found).trans_le cache.bounded⟩, some value)

def clear (cache : LruCache Key Value) : LruCache Key Value := empty cache.capacity cache.positive

@[simp]
theorem peek_empty (c : Nat) (hp : 0 < c) (key : Key) :
    (empty c hp : LruCache Key Value).peek key = none := rfl

@[simp]
theorem peek_clear : cache.clear.peek key = none := rfl

theorem find?_without {key o : Key} (ha : o ≠ key) : (cache.without key).find? (fun e => e.1 = o) =
      cache.entries.find? (fun e => e.1 = o) := by
  rw [without, find?_filter]
  congr 1
  funext e
  by_cases hs : e.1 = o
  · simp [hs, ha]
  · simp [hs]

@[simp]
theorem peek_pop_self : (cache.pop key).peek key = none := by
  simp [peek, pop, without, find?_filter]

theorem peek_pop_of_ne {key o : Key} (ha : o ≠ key) : (cache.pop key).peek o = cache.peek o := by
  simp only [peek, pop, cache.find?_without ha]

theorem peek_foldl_pop {k : List Key} {key : Key} {val : Value}
    (hf : (k.foldl pop cache).peek key = some val) : cache.peek key = some val := by
  induction k generalizing cache with
  | nil => exact hf
  | cons tg rest ih =>
    have hp := ih (cache.pop tg) hf
    by_cases hs : key = tg
    · subst hs
      simp at hp
    · exact (cache.peek_pop_of_ne hs).symm.trans hp

@[simp]
theorem peek_put_self (val : Value) : (cache.put key val).peek key = some val := by
  simp [peek, put]

theorem peek_put_of_ne {key o : Key} (val : Value) (ha : o ≠ key) {k : Value}
    (hf : (cache.put key val).peek o = some k) : cache.peek o = some k := by
  obtain ⟨e, hlo, rfl⟩ := Option.map_eq_some_iff.mp hf
  have hl : ((cache.without key).take (cache.capacity - 1)).find? (fun e => e.1 = o) = some e := by
    simpa [put, Ne.symm ha] using hlo
  have hw : (cache.without key).find? (fun e => e.1 = o) = some e := by
    rw [← take_append_drop (cache.capacity - 1) (cache.without key), find?_append, hl]
    rfl
  rw [cache.find?_without ha] at hw
  rw [peek, hw]
  rfl

theorem get_snd : (cache.get key).2 = cache.peek key := by
  unfold get
  split <;> simp_all

theorem peek_get (o : Key) : (cache.get key).1.peek o = cache.peek o := by
  unfold get
  split
  · rfl
  rename_i val hf
  by_cases hs : o = key
  · subst hs
    refine Eq.trans ?_ hf.symm
    simp [peek]
  · have hl := cache.find?_without hs
    simp only [peek, find?_cons, Ne.symm hs, decide_false, hl]

end LruCache

end Library
