import BoatRamp.Http2.Hpack

/-!
# The dynamic table of a decoder

The table holds the newest of the fields inserted so far, as many as its limit
allows, and knows the room they take.
-/

namespace BoatRamp.Http2

open List Nat Option

def totalSize (entries : HeaderList) : Nat := (entries.map entrySize).sum

namespace DynamicTable

/-- The table knows the room its entries take, and stays within its limits. -/
structure Sized (table : DynamicTable) : Prop where
  size : table.size = totalSize table.entries
  fits : table.size ≤ table.max
  bounded : table.max ≤ table.hardMax
  hard : table.hardMax = DEFAULT_HEADER_TABLE_SIZE

/-- Of the entries, the newest stay that leave the room, and no other one could stay. -/
theorem evict_eq (r max h : Nat) (es : HeaderList) :
    ∃ k ≤ es.length, evict r es.length ⟨es, totalSize es, max, h⟩ =
        ⟨es.take k, totalSize (es.take k), max, h⟩ ∧ (k = 0 ∨ totalSize (es.take k) + r ≤ max) ∧
      ∀ m, k < m → m ≤ es.length → max < totalSize (es.take m) + r := by
  induction es using reverseRecOn with
  | nil => exact ⟨0, Nat.le_refl 0, rfl, .inl rfl, fun m hl hs => absurd hl (by simpa using hs)⟩
  | append_singleton n o ih =>
    rw [length_append, length_singleton, evict]
    split
    next fits =>
      refine ⟨n.length + 1, Nat.le_refl _, ?_, .inr ?_, fun m hl hs => by omega⟩
      · rw [take_of_length_le (by simp)]
      · rwa [take_of_length_le (by simp)]
    next full =>
    obtain ⟨k, hw, hev, r, hm⟩ := ih
    have hsm : totalSize (n ++ [o]) - entrySize o = totalSize n := by
      simp [totalSize]
    have he (c : Nat) (hs : c ≤ n.length) :
        (n ++ [o]).take c = n.take c := take_append_of_le_length hs
    simp only [getLast?_concat, dropLast_concat, hsm]
    refine ⟨k, Nat.le_succ_of_le hw, ?_, ?_, fun m hl hs => ?_⟩
    · rw [hev, he k hw]
    · rwa [he k hw]
    rcases Nat.lt_or_eq_of_le hs with hb | hwh
    · rw [he m (Nat.le_of_lt_succ hb)]
      exact hm m hl (Nat.le_of_lt_succ hb)
    · rw [take_of_length_le (by simp [hwh])]
      exact Nat.lt_of_not_le full

variable {t : DynamicTable}

/-- What an insertion leaves: the newest fields, and all that the limit allows. -/
theorem Sized.insert (hs : t.Sized) (e : Octets × Octets) :
    (t.insert e).Sized ∧ (t.insert e).entries <+: e :: t.entries ∧
      ∀ c, (t.insert e).entries.length < c → c ≤ t.entries.length + 1 →
        (t.insert e).max < totalSize ((e :: t.entries).take c) := by
  obtain ⟨k, hwi, ev, hr, hm⟩ :=
    evict_eq (entrySize e) t.max t.hardMax t.entries
  have hsa : t = ⟨t.entries, totalSize t.entries, t.max, t.hardMax⟩ := by
    rw [← hs.size]
  have hw (c : Nat) : totalSize ((e :: t.entries).take (c + 1)) =
        totalSize (t.entries.take c) + entrySize e := by
    simp [totalSize, add_comm]
  unfold DynamicTable.insert
  dsimp only
  rw [hsa, ev]
  dsimp only
  split
  next small =>
    have hf : totalSize (t.entries.take k) + entrySize e ≤ t.max := by
      rcases hr with rfl | hr
      · simpa [totalSize] using small
      · exact hr
    refine ⟨⟨?_, hf, hs.bounded, hs.hard⟩, ?_, fun c hl hsh => ?_⟩
    · exact (hw k).symm
    · exact (prefix_cons_inj e).mpr ⟨_, take_append_drop k t.entries⟩
    obtain ⟨c, rfl⟩ := exists_eq_add_one_of_ne_zero (by omega : c ≠ 0)
    simp only [length_cons, length_take] at hl
    rw [hw]
    exact hm c (by omega) (by omega)
  next large =>
  -- Nothing stays beside an entry that is too large for the table.
  obtain rfl : k = 0 := hr.resolve_right (by omega)
  refine ⟨⟨rfl, zero_le _, hs.bounded, hs.hard⟩, nil_prefix, fun c hl hsh => ?_⟩
  obtain ⟨c, rfl⟩ := exists_eq_add_one_of_ne_zero (ne_of_gt hl)
  rw [hw]
  dsimp only
  omega

theorem Sized.setMax (hs : t.Sized) {nm : Nat} {next : DynamicTable}
    (hr : t.setMax nm = some next) :
    next.Sized ∧ next.entries <+: t.entries := by
  obtain ⟨k, hw, he, hro, _⟩ := evict_eq 0 nm t.hardMax t.entries
  unfold DynamicTable.setMax at hr
  split at hr
  · cases hr
  next allowed =>
  rw [hs.size, he] at hr
  cases hr
  refine ⟨⟨rfl, ?_, Nat.le_of_not_lt allowed, hs.hard⟩, take_prefix k t.entries⟩
  rcases hro with rfl | hro
  · exact Nat.zero_le _
  · exact hro

end DynamicTable

namespace Hpack

def inserted (block : Octets) (field : Option (Octets × Octets)) : HeaderList :=
  if block.head?.any (fun octet => octet &&& 0x80 = 0 && octet &&& 0x40 != 0) then field.toList
  else []

/-- The decoders of a connection after any number of representations, with the fields inserted so
far, the newest first. -/
inductive Reached : HeaderList → Hpack → Prop
  | new : Reached [] Hpack.new
  | decoded {log : HeaderList} {hpack next : Hpack} {seenField : Bool} {block rest : Octets}
      {field : Option (Octets × Octets)} : Reached log hpack →
      hpack.decodeField seenField block = some (field, next, rest) →
      Reached (inserted block field ++ log) next

/-- A representation leaves the table alone, inserts its field or changes the limit. -/
theorem decodeField_cases {h next : Hpack} {sz : Bool} {b rest : Octets}
    {f : Option (Octets × Octets)} (hd : h.decodeField sz b = some (f, next, rest)) :
    (inserted b f = [] ∧ next.dynamic = h.dynamic) ∨
    (∃ e, inserted b f = [e] ∧ next.dynamic = h.dynamic.insert e) ∨
    inserted b f = [] ∧ ∃ s, h.dynamic.setMax s = some next.dynamic := by
  unfold decodeField at hd
  split at hd
  · cases hd
  next o _ =>
  unfold inserted
  split at hd
  next indexed =>
    simp only [bind_eq_bind, bind_eq_some_iff] at hd
    obtain ⟨_, _, _, _, hs⟩ := hd
    cases hs
    exact .inl ⟨by simp [bne_iff_ne.mp indexed], rfl⟩
  next literal =>
  split at hd
  next incremental =>
    simp only [bind_eq_bind, bind_eq_some_iff] at hd
    obtain ⟨⟨e, _⟩, _, hs⟩ := hd
    cases hs
    exact .inr (.inl ⟨e, by simp_all, rfl⟩)
  next plain =>
  split at hd
  · split at hd
    · cases hd
    simp only [bind_eq_bind, bind_eq_some_iff] at hd
    obtain ⟨⟨s, _⟩, _, hr⟩ := hd
    split at hr
    · cases hr
    obtain ⟨d, hc, hs⟩ := bind_eq_some_iff.mp hr
    cases hs
    exact .inr (.inr ⟨by simp_all, s, hc⟩)
  simp only [bind_eq_bind, bind_eq_some_iff] at hd
  obtain ⟨_, _, hs⟩ := hd
  cases hs
  exact .inl ⟨by simp_all, rfl⟩

theorem Reached.decodeFields {log : HeaderList} {h : Hpack} (hr : Reached log h) (fuel : Nat)
    (sz : Bool) (b : Octets) : ∃ n, Reached (n ++ log) (decodeFields fuel h sz b).2 := by
  induction fuel generalizing log h sz b with
  | zero => cases b <;> exact ⟨[], hr⟩
  | succ fuel ih =>
    cases b with
    | nil => exact ⟨[], hr⟩
    | cons o oc =>
      unfold Hpack.decodeFields
      cases hd : h.decodeField sz (o :: oc) with
      | none => exact ⟨[], hr⟩
      | some res =>
        obtain ⟨f, next, rest⟩ := res
        obtain ⟨n, l⟩ := ih (hr.decoded hd) (sz || f.isSome) rest
        rw [← append_assoc] at l
        exact ⟨_, l⟩

theorem Reached.sized {log : HeaderList} {h : Hpack} (hr : Reached log h) :
    h.dynamic.Sized ∧ h.dynamic.entries <+: log := by
  induction hr with
  | new => exact ⟨⟨rfl, zero_le _, le_refl _, rfl⟩, nil_prefix⟩
  | decoded _ decoded ih =>
    obtain ⟨hs, run⟩ := ih
    rcases decodeField_cases decoded with ⟨nothing, same⟩ | ⟨e, one, hg⟩ | ⟨nothing, s, hre⟩
    · rw [nothing, same]
      exact ⟨hs, run⟩
    · obtain ⟨ha, hn, _⟩ := hs.insert e
      rw [one, hg]
      exact ⟨ha, hn.trans ((prefix_cons_inj e).mpr run)⟩
    obtain ⟨ha, hn⟩ := hs.setMax hre
    rw [nothing]
    exact ⟨ha, hn.trans run⟩

end Hpack

/-- Whatever blocks a connection decodes, at every point the size of the table is that of its
entries and within its limit, the entries are the newest insertions without a gap, and an insertion
evicts no entry that could stay together with all newer ones. -/
theorem dynamic_table_modelled : (∀ blocks : List Octets, ∃ log, Hpack.Reached log
      (blocks.foldl (fun hpack block => (hpack.decode block).2) Hpack.new)) ∧
    ∀ log hpack, Hpack.Reached log hpack → hpack.dynamic.size = totalSize hpack.dynamic.entries ∧
      hpack.dynamic.size ≤ hpack.dynamic.max ∧
      hpack.dynamic.max ≤ DEFAULT_HEADER_TABLE_SIZE ∧ hpack.dynamic.entries <+: log ∧
      ∀ entry, let next := hpack.dynamic.insert entry
        ∀ c, next.entries.length < c → c ≤ hpack.dynamic.entries.length + 1 →
          next.max < totalSize ((entry :: hpack.dynamic.entries).take c) := by
  refine ⟨fun blocks => ?_, fun log hpack hr => ?_⟩
  · have run (log : HeaderList) (hpack : Hpack) (hr : Hpack.Reached log hpack) :
        ∃ log, Hpack.Reached log
          (blocks.foldl (fun hpack block => (hpack.decode block).2) hpack) := by
      induction blocks generalizing log hpack with
      | nil => exact ⟨log, hr⟩
      | cons block rest ih =>
        obtain ⟨newer, hl⟩ := hr.decodeFields block.length false block
        exact ih _ _ hl
    exact run [] Hpack.new .new
  · obtain ⟨hs, run⟩ := hr.sized
    exact ⟨hs.size, hs.fits, hs.hard ▸ hs.bounded, run, fun entry => (hs.insert entry).2.2⟩

end BoatRamp.Http2
