import Mathlib.Data.List.TakeWhile

/-!
# The first match

A key is tried after the other and the first entry counts.  When the entries
change, the answer changes only through a key that was tried in vain before.
-/

namespace Library

open List

universe u v

variable {Key : Type u} {Value : Type v} {b a : Key → Option Value} {keys : List Key}

theorem findSome?_congr (hs : ∀ key ∈ keys, a key = b key) :
    keys.findSome? a = keys.findSome? b := by
  induction keys with
  | nil => rfl
  | cons key rest ih =>
    rw [findSome?_cons, findSome?_cons, hs key (by simp),
      ih fun o hi => hs o (mem_cons_of_mem _ hi)]

def missed (entry : Key → Option Value) (keys : List Key) : List Key :=
  keys.takeWhile fun key => (entry key).isNone

theorem missed_cons_none {key : Key} (ha : b key = none) :
    missed b (key :: keys) = key :: missed b keys := by
  simp [missed, ha]

theorem missed_cons_some {key : Key} {val : Value} (hp : b key = some val) :
    missed b (key :: keys) = [] := by
  simp [missed, hp]

/-- The match stays if it is kept and nothing is found before it. -/
theorem findSome?_of_missed {val : Value} (hf : keys.findSome? b = some val)
    (hk : ∀ key ∈ keys, b key = some val → a key = some val)
    (hn : ∀ key ∈ missed b keys, a key = none) : keys.findSome? a = some val := by
  induction keys with
  | nil => cases hf
  | cons key rest ih =>
    rw [findSome?_cons] at hf ⊢
    cases he : b key with
    | some o =>
      rw [he] at hf
      cases hf
      rw [hk key (by simp) he]
    | none =>
      rw [he] at hf
      rw [missed_cons_none he] at hn
      rw [hn key (by simp)]
      exact ih hf (fun o hi => hk o (mem_cons_of_mem _ hi))
        (fun o hi => hn o (mem_cons_of_mem _ hi))

/-- Otherwise what is found before it takes its place. -/
theorem findSome?_of_match {Good : Value → Prop} {key : Key} (ht : key ∈ missed b keys)
    (hf : (a key).isSome) (hg : ∀ key ∈ missed b keys, ∀ val, a key = some val → Good val) :
    ∃ val, keys.findSome? a = some val ∧ Good val := by
  induction keys with
  | nil => cases ht
  | cons x rest ih =>
    cases he : b x with
    | some o =>
      rw [missed_cons_some he] at ht
      cases ht
    | none =>
      rw [missed_cons_none he] at ht hg
      rw [findSome?_cons]
      cases new : a x with
      | some val => exact ⟨val, rfl, hg x (by simp) val new⟩
      | none =>
        apply ih
        · rcases mem_cons.mp ht with rfl | hl
          · simp [new] at hf
          · exact hl
        · exact fun o hi => hg o (mem_cons_of_mem _ hi)

end Library
