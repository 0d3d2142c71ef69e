import Mathlib.Data.List.AList
import Mathlib.Tactic

/-!
# Hash maps with an unspecified iteration order

A hash map is an association list with distinct keys, observed through `get`.
Nothing may depend on the order in which the entries are stored: code that
iterates does so through an `IterationOrder`, an arbitrary rearrangement of the
values, so a statement about every iteration order is a statement about every
layout of the table.

Besides the usual lookup equations the module treats filling a map from a list
of values that carry their own key, which is how a log of records is read back.
-/

namespace FlorenceServer

universe u v

/-- Finite maps from `κ` to `ν`. -/
abbrev HashMap (κ : Type u) (ν : Type v) := AList (fun _ : κ => ν)

/-- A rearrangement chosen by the hash table whenever it is iterated. -/
structure IterationOrder (ν : Type v) where
  visit : List ν → List ν
  perm : ∀ values, (visit values).Perm values

/-- The order in which the entries happen to be stored. -/
def IterationOrder.stored {ν : Type v} : IterationOrder ν where
  visit := id
  perm := fun values => List.Perm.refl values

namespace HashMap

variable {κ : Type u} {ν : Type v} [DecidableEq κ]

def get (m : HashMap κ ν) (k : κ) : Option ν :=
  AList.lookup k m

def insert (m : HashMap κ ν) (k : κ) (v : ν) : HashMap κ ν :=
  AList.insert k v m

def remove (m : HashMap κ ν) (k : κ) : HashMap κ ν :=
  AList.erase k m

/-- Number of entries. -/
def len (m : HashMap κ ν) : Nat :=
  m.entries.length

/-- The values, in storage order. -/
def values (m : HashMap κ ν) : List ν :=
  m.entries.map Sigma.snd

/-- Keep the entries whose key passes the test. -/
def retain (m : HashMap κ ν) (keep : κ → Bool) : HashMap κ ν where
  entries := m.entries.filter (fun e => keep e.1)
  nodupKeys := m.nodupKeys.sublist List.filter_sublist

/-- Change every value in place. -/
def mapValues (m : HashMap κ ν) (f : ν → ν) : HashMap κ ν where
  entries := m.entries.map (fun e => ⟨e.1, f e.2⟩)
  nodupKeys := m.nodupKeys.map₂ (fun _ v => f v)

/-- Insert values one after the other under the key each of them carries. -/
def insertAll (key : ν → κ) (m : HashMap κ ν) (vs : List ν) : HashMap κ ν :=
  vs.foldl (fun m v => m.insert (key v) v) m

/-- Every entry is stored under the key its value carries. -/
def Keyed (key : ν → κ) (m : HashMap κ ν) : Prop :=
  ∀ k v, m.get k = some v → key v = k

section Lookup

@[simp] theorem get_empty (k : κ) :
    get (∅ : HashMap κ ν) k = none := by
  simp [get]

theorem get_insert (m : HashMap κ ν) (k k' : κ) (v : ν) :
    (m.insert k v).get k' = if k' = k then some v else m.get k' := by
  unfold get insert
  split_ifs with h
  · subst h
    exact AList.lookup_insert m
  · exact AList.lookup_insert_ne h

@[simp] theorem get_insert_self (m : HashMap κ ν) (k : κ) (v : ν) :
    (m.insert k v).get k = some v := by
  simp [get_insert]

theorem get_insert_of_ne {k k' : κ} (m : HashMap κ ν) (v : ν) (h : k' ≠ k) :
    (m.insert k v).get k' = m.get k' := by
  simp [get_insert, h]

theorem get_remove (m : HashMap κ ν) (k k' : κ) :
    (m.remove k).get k' = if k' = k then none else m.get k' := by
  unfold get remove
  split_ifs with h
  · subst h
    exact AList.lookup_erase k' m
  · exact AList.lookup_erase_ne h

@[simp] theorem get_remove_self (m : HashMap κ ν) (k : κ) :
    (m.remove k).get k = none := by
  simp [get_remove]

theorem get_remove_of_ne {k k' : κ} (m : HashMap κ ν) (h : k' ≠ k) :
    (m.remove k).get k' = m.get k' := by
  simp [get_remove, h]

theorem get_eq_some_iff (m : HashMap κ ν) (k : κ) (v : ν) :
    m.get k = some v ↔ (⟨k, v⟩ : Sigma fun _ : κ => ν) ∈ m.entries := by
  exact AList.mem_lookup_iff

theorem mem_values_iff (m : HashMap κ ν) (v : ν) :
    v ∈ m.values ↔ ∃ k, m.get k = some v := by
  unfold values
  constructor
  · intro h
    obtain ⟨⟨k, w⟩, he, rfl⟩ := List.mem_map.mp h
    exact ⟨k, (get_eq_some_iff m k w).mpr he⟩
  · rintro ⟨k, h⟩
    exact List.mem_map.mpr ⟨⟨k, v⟩, (get_eq_some_iff m k v).mp h, rfl⟩

theorem get_retain (m : HashMap κ ν) (keep : κ → Bool) (k : κ) :
    (m.retain keep).get k = if keep k then m.get k else none := by
  apply Option.ext
  intro v
  rw [get_eq_some_iff]
  split_ifs with h
  · rw [get_eq_some_iff]
    simp [retain, h]
  · simp [retain, h]

theorem get_mapValues (m : HashMap κ ν) (f : ν → ν) (k : κ) :
    (m.mapValues f).get k = (m.get k).map f := by
  apply Option.ext
  intro v
  rw [get_eq_some_iff]
  simp only [mapValues, List.mem_map, Option.map_eq_some_iff, get_eq_some_iff]
  constructor
  · rintro ⟨⟨k', w⟩, hmem, heq⟩
    cases heq
    exact ⟨w, hmem, rfl⟩
  · rintro ⟨w, hmem, rfl⟩
    exact ⟨⟨k, w⟩, hmem, rfl⟩

omit [DecidableEq κ] in
@[simp] theorem values_length (m : HashMap κ ν) :
    m.values.length = m.len := by
  simp [values, len]

end Lookup

section Keys

variable {key : ν → κ}

theorem Keyed.empty : Keyed key (∅ : HashMap κ ν) := by
  intro k v h
  simp at h

theorem Keyed.insert {m : HashMap κ ν}
    (hm : Keyed key m) (v : ν) :
    Keyed key (m.insert (key v) v) := by
  intro k w h
  rw [get_insert] at h
  split_ifs at h with hk
  · cases h
    exact hk.symm
  · exact hm k w h

theorem Keyed.insertAll {m : HashMap κ ν}
    (hm : Keyed key m) (vs : List ν) :
    Keyed key (m.insertAll key vs) := by
  induction vs generalizing m with
  | nil =>
      exact hm
  | cons v vs ih =>
      exact ih (hm.insert v)

theorem Keyed.mapValues {m : HashMap κ ν}
    (hm : Keyed key m) {f : ν → ν} (hf : ∀ v, key (f v) = key v) :
    Keyed key (m.mapValues f) := by
  intro k v h
  rw [get_mapValues, Option.map_eq_some_iff] at h
  obtain ⟨w, hw, rfl⟩ := h
  rw [hf]
  exact hm k w hw

/-- In a keyed map the keys can be read off the values. -/
theorem Keyed.map_values {m : HashMap κ ν}
    (hm : Keyed key m) :
    m.values.map key = m.keys := by
  unfold values AList.keys List.keys
  rw [List.map_map]
  apply List.map_congr_left
  rintro ⟨k, v⟩ he
  exact hm k v ((get_eq_some_iff m k v).mpr he)

theorem Keyed.nodup_values {m : HashMap κ ν}
    (hm : Keyed key m) :
    (m.values.map key).Nodup := by
  rw [hm.map_values]
  exact m.keys_nodup

omit [DecidableEq κ] in
theorem keys_retain (m : HashMap κ ν) (keep : κ → Bool) :
    (m.retain keep).keys = m.keys.filter keep := by
  unfold AList.keys List.keys retain
  rw [List.filter_map]
  rfl

omit [DecidableEq κ] in
/-- Keeping some of the keys leaves that many entries. -/
theorem len_retain (m : HashMap κ ν) {kept : List κ} {keep : κ → Bool}
    (hnodup : kept.Nodup)
    (hkeys : ∀ k ∈ kept, k ∈ m.keys)
    (hkeep : ∀ k, keep k = true ↔ k ∈ kept) :
    (m.retain keep).len = kept.length := by
  have hperm : (m.keys.filter keep).Perm kept := by
    refine (List.perm_ext_iff_of_nodup (m.keys_nodup.filter _) hnodup).mpr fun k => ?_
    rw [List.mem_filter, hkeep]
    exact ⟨And.right, fun hmem => ⟨hkeys k hmem, hmem⟩⟩
  rw [← hperm.length_eq, ← keys_retain]
  exact (List.length_map _).symm

/-- A keyed map holds `v` exactly under the key of `v`. -/
theorem Keyed.mem_values_iff {m : HashMap κ ν}
    (hm : Keyed key m) (v : ν) :
    v ∈ m.values ↔ m.get (key v) = some v := by
  rw [HashMap.mem_values_iff]
  constructor
  · rintro ⟨k, h⟩
    rw [hm k v h]
    exact h
  · intro h
    exact ⟨key v, h⟩

/-- A keyed map has at most one value with a given key. -/
theorem Keyed.filter_values {m : HashMap κ ν}
    (hm : Keyed key m) (k : κ) :
    m.values.filter (fun v => decide (key v = k)) = (m.get k).toList := by
  have hnodup : (m.values.filter (fun v => decide (key v = k))).Nodup :=
    hm.nodup_values.of_map.filter _
  cases hget : m.get k with
  | none =>
      rw [Option.toList_none, List.filter_eq_nil_iff]
      intro v hv
      rw [hm.mem_values_iff] at hv
      simp only [decide_eq_true_eq]
      rintro rfl
      rw [hget] at hv
      cases hv
  | some v =>
      rw [Option.toList_some]
      refine List.perm_singleton.mp ((List.perm_ext_iff_of_nodup hnodup
        (List.nodup_singleton v)).mpr ?_)
      intro w
      rw [List.mem_filter, List.mem_singleton, hm.mem_values_iff, decide_eq_true_eq]
      constructor
      · rintro ⟨hw, rfl⟩
        rw [hget] at hw
        exact (Option.some.inj hw).symm
      · rintro rfl
        have hkey := hm k w hget
        exact ⟨hkey.symm ▸ hget, hkey⟩

/-- Reading a list back: the last value with a given key wins. -/
theorem get_insertAll (m : HashMap κ ν) (vs : List ν) (k : κ) :
    (m.insertAll key vs).get k =
      ((vs.filter (fun v => decide (key v = k))).getLast?).or (m.get k) := by
  induction vs generalizing m with
  | nil =>
      simp [HashMap.insertAll]
  | cons v vs ih =>
      have hstep :
          (m.insertAll key (v :: vs)) =
            (m.insert (key v) v).insertAll key vs := rfl
      rw [hstep, ih, get_insert]
      by_cases hk : key v = k
      · rw [if_pos hk.symm, List.filter_cons_of_pos (by simpa using hk),
          List.getLast?_cons]
        cases (vs.filter (fun v => decide (key v = k))).getLast? <;> simp
      · rw [if_neg (fun h => hk h.symm),
          List.filter_cons_of_neg (by simpa using hk)]

/-- Reading back a list without repeated keys. -/
theorem get_insertAll_of_nodup (m : HashMap κ ν) {vs : List ν}
    (hnodup : (vs.map key).Nodup) (k : κ) (v : ν) :
    (m.insertAll key vs).get k = some v ↔
      v ∈ vs ∧ key v = k ∨ (∀ w ∈ vs, key w ≠ k) ∧ m.get k = some v := by
  induction vs generalizing m with
  | nil =>
      simp [HashMap.insertAll]
  | cons w vs ih =>
      rw [List.map_cons, List.nodup_cons] at hnodup
      have hstep :
          (m.insertAll key (w :: vs)) =
            (m.insert (key w) w).insertAll key vs := rfl
      rw [hstep, ih _ hnodup.2, get_insert, List.forall_mem_cons, List.mem_cons]
      by_cases hk : k = key w
      · have hothers : ∀ u ∈ vs, key u ≠ k := by
          intro u hu hsame
          exact hnodup.1 (hk ▸ hsame ▸ List.mem_map_of_mem hu)
        rw [if_pos hk, Option.some.injEq]
        constructor
        · rintro (⟨hv, hsame⟩ | ⟨-, rfl⟩)
          · exact absurd hsame (hothers v hv)
          · exact Or.inl ⟨Or.inl rfl, hk.symm⟩
        · rintro (⟨rfl | hv, hsame⟩ | ⟨⟨hne, -⟩, -⟩)
          · exact Or.inr ⟨hothers, rfl⟩
          · exact absurd hsame (hothers v hv)
          · exact absurd hk.symm hne
      · rw [if_neg hk]
        constructor
        · rintro (⟨hv, hsame⟩ | ⟨hothers, hget⟩)
          · exact Or.inl ⟨Or.inr hv, hsame⟩
          · exact Or.inr ⟨⟨fun hsame => hk hsame.symm, hothers⟩, hget⟩
        · rintro (⟨rfl | hv, hsame⟩ | ⟨⟨-, hothers⟩, hget⟩)
          · exact absurd hsame.symm hk
          · exact Or.inl ⟨hv, hsame⟩
          · exact Or.inr ⟨hothers, hget⟩

/-- Keyed maps with the same entries hold the same values. -/
theorem Keyed.values_perm {m m' : HashMap κ ν}
    (hm : Keyed key m)
    (h : ∀ k, m'.get k = m.get k) :
    m'.values.Perm m.values := by
  have hm' : Keyed key m' := by
    intro k v hv
    rw [h] at hv
    exact hm k v hv
  refine (List.perm_ext_iff_of_nodup hm'.nodup_values.of_map hm.nodup_values.of_map).mpr ?_
  intro v
  rw [hm'.mem_values_iff, hm.mem_values_iff, h]

end Keys

end HashMap
end FlorenceServer
