import Mathlib.Data.Finmap
import Mathlib.Algebra.BigOperators.Group.Multiset.Basic

/-!
# Rust's `HashMap` as a finite map

`std::collections::HashMap` has no order a program may rely on, so a map is a finite partial
function: Mathlib's `Finmap`, with equal maps being equal values.  `HashMap.ext` is the only
principle a proof needs: two maps are equal when `get` answers alike for every key.

Beside `get` and `insert` there are the two loops the standard library runs over entries: `upsert`
is `entry(k).and_modify(f).or_insert(v)`, and `collect` is `FromIterator`, where a later pair
replaces an earlier one under the same key.  `valueSum` adds a measure up over `values()`.
-/

namespace RustStd

/-- `std::collections::HashMap<K, V>`. -/
def HashMap (K V : Type*) : Type _ := Finmap fun _ : K => V

namespace HashMap

variable {K V : Type*}

/-- `HashMap::new`. -/
def empty : HashMap K V := (∅ : Finmap fun _ : K => V)

/-- `HashMap::keys`, as a set. -/
def keys (m : HashMap K V) : Finset K := Finmap.keys m

/-- The sum of a measure over `HashMap::values`. -/
def valueSum (f : V → ℕ) (m : HashMap K V) : ℕ := (m.entries.map fun e => f e.2).sum

/-- No key stands for two values. -/
def SingleValued (kvs : List (K × V)) : Prop := ∀ e ∈ kvs, ∀ e' ∈ kvs, e.1 = e'.1 → e.2 = e'.2

/-- The order of the pairs is of no account. -/
theorem SingleValued.perm {kvs kvs' : List (K × V)} (h : SingleValued kvs) (hperm : kvs.Perm kvs') :
    SingleValued kvs' :=
  fun e he e' he' => h e (hperm.mem_iff.mpr he) e' (hperm.mem_iff.mpr he')

@[simp] theorem keys_empty : (empty : HashMap K V).keys = ∅ := Finmap.keys_empty

variable [DecidableEq K]

instance [DecidableEq V] : DecidableEq (HashMap K V) :=
  inferInstanceAs (DecidableEq (Finmap fun _ : K => V))

/-- `HashMap::get`. -/
def get (m : HashMap K V) (k : K) : Option V := Finmap.lookup k m

/-- `HashMap::insert`: the value under `k` is now `v`. -/
def insert (m : HashMap K V) (k : K) (v : V) : HashMap K V := Finmap.insert k v m

/-- `map.entry(k).and_modify(f).or_insert(v)`. -/
def upsert (m : HashMap K V) (k : K) (f : V → V) (v : V) : HashMap K V :=
  m.insert k (((m.get k).map f).getD v)

/-- `iter.collect::<HashMap<_, _>>()`: the pairs are inserted one after another. -/
def collect (kvs : List (K × V)) : HashMap K V :=
  kvs.foldl (fun m kv => m.insert kv.1 kv.2) empty

/-! ### What `get` answers -/

theorem ext {m m' : HashMap K V} (h : ∀ k, m.get k = m'.get k) : m = m' :=
  Finmap.ext_lookup h

@[simp] theorem get_empty (k : K) : (empty : HashMap K V).get k = none := Finmap.lookup_empty k

@[simp] theorem get_insert_self (m : HashMap K V) (k : K) (v : V) : (m.insert k v).get k = some v :=
  Finmap.lookup_insert m

theorem get_insert_of_ne (m : HashMap K V) {k k' : K} (v : V) (h : k' ≠ k) :
    (m.insert k v).get k' = m.get k' :=
  Finmap.lookup_insert_of_ne m h

theorem get_insert (m : HashMap K V) (k k' : K) (v : V) :
    (m.insert k v).get k' = if k' = k then some v else m.get k' := by
  split
  · next h => rw [h, get_insert_self]
  · next h => exact get_insert_of_ne m v h

/-- Writing back the value that is already there changes nothing. -/
theorem insert_get {m : HashMap K V} {k : K} {v : V} (h : m.get k = some v) : m.insert k v = m := by
  apply ext
  intro k'
  rw [get_insert]
  split
  · next hk => rw [hk, h]
  · rfl

theorem get_upsert (m : HashMap K V) (k k' : K) (f : V → V) (v : V) :
    (m.upsert k f v).get k' = if k' = k then some (((m.get k).map f).getD v) else m.get k' := by
  rw [upsert, get_insert]

/-! ### Keys -/

theorem mem_keys {m : HashMap K V} {k : K} : k ∈ m.keys ↔ ∃ v, m.get k = some v :=
  Finmap.mem_keys.trans Finmap.mem_iff

@[simp] theorem keys_insert (m : HashMap K V) (k : K) (v : V) :
    (m.insert k v).keys = Insert.insert k m.keys := by
  ext k'
  rw [Finset.mem_insert, mem_keys, mem_keys, get_insert]
  split
  · next h => simp [h]
  · next h => simp [h]

/-! ### Collecting pairs -/

instance [DecidableEq V] (kvs : List (K × V)) : Decidable (SingleValued kvs) :=
  inferInstanceAs (Decidable (∀ e ∈ kvs, ∀ e' ∈ kvs, e.1 = e'.1 → e.2 = e'.2))

theorem collect_snoc (kvs : List (K × V)) (e : K × V) :
    collect (kvs ++ [e]) = (collect kvs).insert e.1 e.2 := by
  simp only [collect, List.foldl_append, List.foldl_cons, List.foldl_nil]

/-- **The last value of a key is the one that stays.** -/
theorem get_collect (kvs : List (K × V)) (k : K) :
    (collect kvs).get k = ((kvs.filter fun e => e.1 = k).map Prod.snd).getLast? := by
  induction kvs using List.reverseRecOn with
  | nil => exact get_empty k
  | append_singleton kvs e ih =>
      rw [collect_snoc, get_insert, List.filter_append, List.map_append]
      by_cases h : k = e.1
      · rw [if_pos h, List.filter_cons_of_pos (by simpa using h.symm)]
        simp
      · rw [if_neg h, List.filter_cons_of_neg (by simpa using Ne.symm h), ih]
        simp

theorem mem_of_get_collect {kvs : List (K × V)} {k : K} {v : V}
    (h : (collect kvs).get k = some v) : (k, v) ∈ kvs := by
  rw [get_collect] at h
  obtain ⟨e, he, hv⟩ := List.mem_map.mp (List.mem_of_getLast? h)
  rw [List.mem_filter, decide_eq_true_eq] at he
  rw [← he.2, ← hv]
  exact he.1

theorem exists_get_collect {kvs : List (K × V)} {e : K × V} (h : e ∈ kvs) :
    ∃ v, (collect kvs).get e.1 = some v := by
  rw [get_collect, ← Option.isSome_iff_exists, List.getLast?_isSome]
  have hmem : e ∈ kvs.filter fun e' => e'.1 = e.1 := List.mem_filter.mpr ⟨h, by simp⟩
  exact List.ne_nil_of_mem (List.mem_map_of_mem hmem)

theorem SingleValued.get_collect {kvs : List (K × V)} (h : SingleValued kvs) {e : K × V}
    (he : e ∈ kvs) : (collect kvs).get e.1 = some e.2 := by
  obtain ⟨v, hv⟩ := exists_get_collect he
  have hsame : v = e.2 := h (e.1, v) (mem_of_get_collect hv) e he rfl
  rw [hv, hsame]

/-- What a map agrees with is single-valued. -/
theorem singleValued_of_get {m : HashMap K V} {kvs : List (K × V)}
    (h : ∀ e ∈ kvs, m.get e.1 = some e.2) : SingleValued kvs := by
  intro e he e' he' hkey
  have hsame := h e he
  rw [hkey, h e' he'] at hsame
  exact (Option.some.inj hsame).symm

omit [DecidableEq K] in
/-- Keys that are all different have one value each. -/
theorem singleValued_zip {ks : List K} (h : ks.Nodup) (vs : List V) : SingleValued (ks.zip vs) := by
  induction ks generalizing vs with
  | nil =>
      intro e he
      cases he
  | cons k ks ih =>
      rw [List.nodup_cons] at h
      cases vs with
      | nil =>
          intro e he
          cases he
      | cons v vs =>
          have hfresh : ∀ e ∈ ks.zip vs, e.1 ≠ k := by
            intro e he hk
            exact h.1 (hk ▸ (List.of_mem_zip he).1)
          intro e he e' he' hkey
          rw [List.zip_cons_cons, List.mem_cons] at he he'
          rcases he with rfl | he
          · rcases he' with rfl | he'
            · rfl
            · exact absurd hkey.symm (hfresh e' he')
          · rcases he' with rfl | he'
            · exact absurd hkey (hfresh e he)
            · exact ih h.2 vs e he e' he' hkey

/-! ### Sums over the values -/

/-- Inserting replaces what the old value under the key contributed by what the new one does. -/
theorem valueSum_insert (f : V → ℕ) (m : HashMap K V) (k : K) (v : V) :
    (m.insert k v).valueSum f + ((m.get k).map f).getD 0 = f v + m.valueSum f := by
  have hins : ∀ (m : HashMap K V) (w : V), m.get k = none →
      (m.insert k w).valueSum f = f w + m.valueSum f := by
    intro m w hk
    rw [valueSum, insert, Finmap.entries_insert_of_notMem (Finmap.lookup_eq_none.mp hk),
      Multiset.map_cons, Multiset.sum_cons, valueSum]
  cases hk : m.get k with
  | none => simp [hins m v hk]
  | some w =>
      -- take the key out first: both sides then insert a fresh key into the same map
      set e : HashMap K V := Finmap.erase k m with he
      have hnone : e.get k = none := Finmap.lookup_erase k m
      have hget : ∀ k', k' ≠ k → e.get k' = m.get k' := fun k' hne => Finmap.lookup_erase_ne hne
      have hput : ∀ u : V, e.insert k u = m.insert k u := by
        intro u
        apply ext
        intro k'
        rw [get_insert, get_insert]
        split
        · rfl
        · next hne => exact hget k' hne
      have hv := hins e v hnone
      have hw := hins e w hnone
      rw [hput] at hv hw
      rw [insert_get hk] at hw
      simp only [Option.map_some, Option.getD_some]
      omega

end HashMap

/-- A `HashMap` as a program that iterates over it sees it: its entries in the order in which its
iterator happens to yield them, each key once. -/
structure IteratedMap (K V : Type*) where
  entries : List (K × V)
  nodup : (entries.map Prod.fst).Nodup

namespace IteratedMap

variable {K V : Type*}

/-- The empty map. -/
def empty : IteratedMap K V := ⟨[], List.nodup_nil⟩

/-- The same map, iterated over in another order. -/
def reordered (m : IteratedMap K V) (entries : List (K × V)) (h : entries.Perm m.entries) :
    IteratedMap K V :=
  ⟨entries, (h.map Prod.fst).nodup_iff.mpr m.nodup⟩

end IteratedMap

end RustStd
