import Mathlib.Data.List.Sort
import Mathlib.Data.List.TakeWhile
import Mathlib.Tactic

/-!
# Keeping the most recent elements of a list

`recent key limit values` sorts stably by `key` and keeps the last `limit`
elements, in ascending order.  An element survives as soon as at most `limit`
elements, itself included, are not older than it; this criterion does not
mention the order in which the elements are presented.  If more than `limit`
elements are not older, some presentation loses it.

With distinct keys the criterion is exact, and a selection does not change how
many elements are not older than one that it keeps.  So the order in which two
selections are made does not matter.
-/

namespace FlorenceServer

universe u v

section RecentSelection

variable {ν : Type u} {τ : Type v} [LinearOrder τ]

/-- Stable sort by `key`, then the last `limit` elements in ascending order. -/
def recent (key : ν → τ) (limit : Nat) (values : List ν) : List ν :=
  ((values.insertionSort (fun a b => key a ≤ key b)).reverse.take limit).reverse

/-- Number of elements that are not older than `v`. -/
def notOlder (key : ν → τ) (values : List ν) (v : ν) : Nat :=
  values.countP (fun w => decide (key v ≤ key w))

variable (key : ν → τ) (limit : Nat)

theorem recent_eq_drop (values : List ν) :
    recent key limit values =
      (values.insertionSort (fun a b => key a ≤ key b)).drop
        (values.length - limit) := by
  unfold recent
  rw [List.take_reverse, List.reverse_reverse, List.length_insertionSort]

theorem recent_sublist (values : List ν) :
    (recent key limit values).Sublist
      (values.insertionSort (fun a b => key a ≤ key b)) := by
  rw [recent_eq_drop]
  exact List.drop_sublist _ _

theorem mem_of_mem_recent {values : List ν} {v : ν}
    (h : v ∈ recent key limit values) :
    v ∈ values :=
  (List.mem_insertionSort _).mp ((recent_sublist key limit values).subset h)

theorem length_recent (values : List ν) :
    (recent key limit values).length = min limit values.length := by
  rw [recent_eq_drop, List.length_drop, List.length_insertionSort]
  omega

/-- A selection is in ascending order. -/
theorem pairwise_recent (values : List ν) :
    (recent key limit values).Pairwise (fun a b => key a ≤ key b) :=
  (List.pairwise_insertionSort _ values).sublist (recent_sublist key limit values)

/-- A smaller limit keeps the end of what a larger one keeps. -/
theorem recent_suffix {smaller : Nat} (h : smaller ≤ limit) (values : List ν) :
    recent key smaller values <:+ recent key limit values := by
  rw [recent_eq_drop, recent_eq_drop]
  exact List.drop_suffix_drop_left _ (by omega)

/-- What is not selected is not newer than what is. -/
theorem key_le_of_not_mem_recent {values : List ν} {v w : ν}
    (hv : v ∈ values)
    (hout : v ∉ recent key limit values)
    (hw : w ∈ recent key limit values) :
    key v ≤ key w := by
  have hsorted := List.pairwise_insertionSort (fun a b => key a ≤ key b) values
  rw [recent_eq_drop] at hout hw
  rw [← List.take_append_drop (values.length - limit)
    (values.insertionSort (fun a b => key a ≤ key b))] at hsorted
  have hmem := (List.mem_insertionSort (fun a b => key a ≤ key b)).mpr hv
  rw [← List.take_append_drop (values.length - limit)
    (values.insertionSort (fun a b => key a ≤ key b))] at hmem
  rcases List.mem_append.mp hmem with hfront | hback
  · exact (List.pairwise_append.mp hsorted).2.2 v hfront w hw
  · exact absurd hback hout

/-- A limit that is not exceeded keeps everything. -/
theorem recent_perm_of_length_le {values : List ν}
    (h : values.length ≤ limit) :
    (recent key limit values).Perm values := by
  rw [recent_eq_drop, Nat.sub_eq_zero_of_le h, List.drop_zero]
  exact List.perm_insertionSort _ values

/-- Selecting keeps identifiers distinct. -/
theorem nodup_map_recent {ι : Type*} {ident : ν → ι} {values : List ν}
    (h : (values.map ident).Nodup) :
    ((recent key limit values).map ident).Nodup := by
  have hsorted :
      ((values.insertionSort (fun a b => key a ≤ key b)).map ident).Nodup :=
    ((List.perm_insertionSort _ values).map ident).nodup_iff.mpr h
  exact hsorted.sublist ((recent_sublist key limit values).map ident)

theorem notOlder_perm {values values' : List ν}
    (h : values.Perm values') (v : ν) :
    notOlder key values v = notOlder key values' v :=
  h.countP_eq _

/-- **Survival.** At most `limit` elements are not older than `v`. -/
theorem mem_recent_of_notOlder_le {values : List ν} {v : ν}
    (hv : v ∈ values)
    (hcount : notOlder key values v ≤ limit) :
    v ∈ recent key limit values := by
  set sorted := values.insertionSort (fun a b => key a ≤ key b) with hsorted
  have hperm : sorted.Perm values := List.perm_insertionSort _ values
  obtain ⟨older, newer, hsplit⟩ :=
    List.append_of_mem (hperm.mem_iff.mpr hv)
  have hpairwise : sorted.Pairwise (fun a b => key a ≤ key b) :=
    List.pairwise_insertionSort _ values
  -- everything that the sort puts behind `v` is not older than `v`
  have hnewer : (v :: newer).length ≤ notOlder key values v := by
    rw [← notOlder_perm key hperm v, hsplit, notOlder, List.countP_append]
    rw [hsplit] at hpairwise
    have htail := (List.pairwise_append.mp hpairwise).2.1
    have hall : (v :: newer).countP (fun w => decide (key v ≤ key w)) =
        (v :: newer).length := by
      rw [List.countP_eq_length]
      intro w hw
      rcases List.mem_cons.mp hw with rfl | hw
      · simp
      · simpa using (List.pairwise_cons.mp htail).1 w hw
    omega
  have hlength : values.length = older.length + (v :: newer).length := by
    rw [← hperm.length_eq, hsplit, List.length_append]
  rw [recent_eq_drop, ← hsorted, hsplit,
    List.drop_append_of_le_length (by omega)]
  exact List.mem_append_right _ List.mem_cons_self

/--
**Loss.** If more than `limit` elements are not older than `v`, a presentation
that starts with `v` selects only from the other elements.
-/
theorem recent_cons_subset_of_lt_notOlder {rest : List ν} {v : ν}
    (hcount : limit < notOlder key (v :: rest) v) :
    ∀ w ∈ recent key limit (v :: rest), w ∈ rest := by
  intro w hw
  rw [recent_eq_drop, List.insertionSort_cons] at hw
  set sorted := rest.insertionSort (fun a b => key a ≤ key b) with hsorted
  -- a stable sort puts the first element in front of its ties
  have hsplit := List.orderedInsert_eq_take_drop
    (fun a b : ν => key a ≤ key b) v sorted
  set older := sorted.takeWhile (fun b => ¬ key v ≤ key b) with holder
  have holderCount : older.length + notOlder key (v :: rest) v ≤ (v :: rest).length := by
    have hperm : (older ++ sorted.dropWhile (fun b => ¬ key v ≤ key b)).Perm rest := by
      rw [holder, List.takeWhile_append_dropWhile]
      exact List.perm_insertionSort _ rest
    have hrest : notOlder key rest v ≤
        (sorted.dropWhile (fun b => ¬ key v ≤ key b)).length := by
      rw [← notOlder_perm key hperm v, notOlder, List.countP_append]
      have hzero : older.countP (fun w => decide (key v ≤ key w)) = 0 := by
        rw [List.countP_eq_zero]
        intro b hb
        simpa using List.mem_takeWhile_imp hb
      have hle := List.countP_le_length
        (p := fun w => decide (key v ≤ key w))
        (l := sorted.dropWhile (fun b => ¬ key v ≤ key b))
      omega
    have hlen := hperm.length_eq
    rw [List.length_append] at hlen
    have hcons : notOlder key (v :: rest) v = notOlder key rest v + 1 := by
      simp [notOlder]
    rw [hcons, List.length_cons]
    omega
  rw [hsplit] at hw
  have hdrop : older.length + 1 ≤ (v :: rest).length - limit := by
    omega
  have hw' : w ∈ sorted.dropWhile (fun b => ¬ key v ≤ key b) := by
    have hmem : w ∈ (older ++ v :: sorted.dropWhile (fun b => ¬ key v ≤ key b)).drop
        (older.length + 1) := by
      obtain ⟨k, hk⟩ := Nat.exists_eq_add_of_le hdrop
      rw [hk, ← List.drop_drop] at hw
      exact List.mem_of_mem_drop hw
    rw [List.drop_append, List.drop_eq_nil_of_le (Nat.le_succ _)] at hmem
    simpa using hmem
  have hsub : w ∈ sorted :=
    (List.dropWhile_sublist _).subset hw'
  exact (List.mem_insertionSort _).mp hsub

section DistinctKeys

/-- With distinct keys every presentation gives the same selection. -/
theorem recent_eq_of_perm {values values' : List ν}
    (hdistinct : (values.map key).Nodup)
    (hperm : values.Perm values') :
    recent key limit values = recent key limit values' := by
  have hsorted : values.insertionSort (fun a b => key a ≤ key b) =
      values'.insertionSort (fun a b => key a ≤ key b) := by
    have hleft := List.perm_insertionSort (fun a b => key a ≤ key b) values
    have hright := List.perm_insertionSort (fun a b => key a ≤ key b) values'
    refine List.Perm.eq_of_pairwise ?_ (List.pairwise_insertionSort _ values)
      (List.pairwise_insertionSort _ values') (hleft.trans (hperm.trans hright.symm))
    intro a b ha hb hab hba
    have hb' : b ∈ values := hperm.mem_iff.mpr (hright.mem_iff.mp hb)
    exact List.inj_on_of_nodup_map hdistinct (hleft.mem_iff.mp ha) hb' (le_antisymm hab hba)
  rw [recent_eq_drop, recent_eq_drop, hsorted, hperm.length_eq]

/-- With distinct keys exactly the elements with at most `limit` elements that
are not older survive. -/
theorem mem_recent_iff {values : List ν}
    (hdistinct : (values.map key).Nodup) (v : ν) :
    v ∈ recent key limit values ↔ v ∈ values ∧ notOlder key values v ≤ limit := by
  constructor
  · intro h
    have hv := mem_of_mem_recent key limit h
    refine ⟨hv, ?_⟩
    by_contra hmany
    obtain ⟨older, newer, hsplit⟩ := List.append_of_mem hv
    have hperm : values.Perm (v :: (older ++ newer)) := by
      rw [hsplit]
      exact List.perm_middle
    rw [recent_eq_of_perm key limit hdistinct hperm] at h
    rw [notOlder_perm key hperm] at hmany
    have hrest := recent_cons_subset_of_lt_notOlder key limit (by omega) v h
    have hnodup := (hperm.map key).nodup_iff.mp hdistinct
    rw [List.map_cons, List.nodup_cons] at hnodup
    exact hnodup.1 (List.mem_map_of_mem hrest)
  · rintro ⟨hv, hcount⟩
    exact mem_recent_of_notOlder_le key limit hv hcount

omit limit in
/-- What is not older has no more elements that are not older. -/
theorem notOlder_anti (values : List ν) {v w : ν}
    (h : key v ≤ key w) :
    notOlder key values w ≤ notOlder key values v := by
  refine List.countP_mono_left ?_
  intro x _ hx
  rw [decide_eq_true_eq] at hx ⊢
  exact le_trans h hx

/-- A selection contains everything that is not older than what it keeps. -/
theorem notOlder_kept {values kept : List ν}
    (hvalues : values.Nodup)
    (hkept : kept.Nodup)
    (hmem : ∀ w, w ∈ kept ↔ w ∈ values ∧ notOlder key values w ≤ limit)
    {v : ν} (hv : notOlder key values v ≤ limit) :
    notOlder key kept v = notOlder key values v := by
  have hperm : (kept.filter (fun w => decide (key v ≤ key w))).Perm
      (values.filter (fun w => decide (key v ≤ key w))) := by
    refine (List.perm_ext_iff_of_nodup (hkept.filter _) (hvalues.filter _)).mpr ?_
    intro w
    rw [List.mem_filter, List.mem_filter, hmem, decide_eq_true_eq]
    constructor
    · rintro ⟨⟨hw, -⟩, hnewer⟩
      exact ⟨hw, hnewer⟩
    · rintro ⟨hw, hnewer⟩
      exact ⟨⟨hw, le_trans (notOlder_anti key values hnewer) hv⟩, hnewer⟩
  unfold notOlder
  rw [List.countP_eq_length_filter, List.countP_eq_length_filter, hperm.length_eq]

end DistinctKeys

end RecentSelection

end FlorenceServer
