import FlorenceServer.Jobs.Store
import FlorenceServer.Api.Submit

/-!
# Retention keeps the newest records

`retain_recent_jobs` and `recent_records` of `jobs/store.rs`, for every order in
which the map is iterated.  Records of the same age are told apart by that order
only, and it does not matter for how many are kept and how old they are.
-/

namespace FlorenceServer

open HashMap

variable {M : Type}

section Selection

variable (order : IterationOrder (JobRecord M)) (jobs : JobMap M) (limit : Nat)

theorem length_recentRecords :
    (recentRecords (order.visit jobs.values) limit).length = min limit jobs.len := by
  rw [recentRecords, length_recent, (order.perm jobs.values).length_eq, values_length]

variable {jobs limit}

/-- Selected records are entries of the map. -/
theorem get_of_mem_recentRecords
    {record : JobRecord M}
    (hkeyed : Keyed JobRecord.id jobs)
    (hmem : record ∈ recentRecords (order.visit jobs.values) limit) :
    jobs.get record.id = some record := by
  have hvisited := mem_of_mem_recent JobRecord.updatedAt limit hmem
  exact (hkeyed.mem_values_iff record).mp ((order.perm jobs.values).mem_iff.mp hvisited)

theorem nodup_ids_recentRecords
    (hkeyed : Keyed JobRecord.id jobs)
    (limit : Nat) :
    ((recentRecords (order.visit jobs.values) limit).map JobRecord.id).Nodup := by
  refine nodup_map_recent JobRecord.updatedAt limit ?_
  exact ((order.perm jobs.values).map JobRecord.id).nodup_iff.mpr hkeyed.nodup_values

/-- An entry that is not selected is not newer than a selected one. -/
theorem updatedAt_le_of_not_mem_recentRecords
    {id : Uuid}
    {record kept : JobRecord M}
    (hget : jobs.get id = some record)
    (hout : record ∉ recentRecords (order.visit jobs.values) limit)
    (hkept : kept ∈ recentRecords (order.visit jobs.values) limit) :
    record.updatedAt ≤ kept.updatedAt := by
  refine key_le_of_not_mem_recent JobRecord.updatedAt limit ?_ hout hkept
  exact (order.perm jobs.values).mem_iff.mpr ((mem_values_iff jobs record).mpr ⟨id, hget⟩)

end Selection

section Retained

variable (order : IterationOrder (JobRecord M)) {jobs : JobMap M} {limit : Nat}

/-- A map over its limit keeps the records whose ids are selected. -/
theorem retainRecentJobs_of_lt
    (hlen : limit < jobs.len)
    (hpositive : limit ≠ 0) :
    retainRecentJobs order jobs limit =
      jobs.retain (fun id =>
        decide (id ∈ (recentRecords (order.visit jobs.values) limit).map JobRecord.id)) := by
  rw [retainRecentJobs, if_neg (by omega), if_neg hpositive]

theorem retainRecentJobs_len
    (hkeyed : Keyed JobRecord.id jobs) :
    (retainRecentJobs order jobs limit).len = min limit jobs.len := by
  by_cases hlen : jobs.len ≤ limit
  · rw [retainRecentJobs, if_pos hlen, Nat.min_eq_right hlen]
  · by_cases hzero : limit = 0
    · rw [retainRecentJobs, if_neg hlen, if_pos hzero, hzero, Nat.zero_min]
      rfl
    · have hnodup := nodup_ids_recentRecords order hkeyed limit
      rw [retainRecentJobs_of_lt order (Nat.lt_of_not_le hlen) hzero,
        len_retain jobs hnodup ?_ (fun id => decide_eq_true_iff), List.length_map,
        length_recentRecords]
      intro id hid
      obtain ⟨record, hrecord, rfl⟩ := List.mem_map.mp hid
      have hget := get_of_mem_recentRecords order hkeyed hrecord
      rw [← hkeyed.map_values]
      exact List.mem_map_of_mem ((hkeyed.mem_values_iff record).mpr hget)

theorem get_of_retainRecentJobs
    {id : Uuid}
    {record : JobRecord M}
    (hget : (retainRecentJobs order jobs limit).get id = some record) :
    jobs.get id = some record := by
  rcases retainRecentJobs_get order jobs limit id with hsame | hgone
  · rw [← hsame]
    exact hget
  · rw [hgone] at hget
    cases hget

/-- A removed record is not newer than a kept one. -/
theorem updatedAt_le_of_removed
    {removedId keptId : Uuid}
    {removed kept : JobRecord M}
    (hkeyed : Keyed JobRecord.id jobs)
    (hbefore : jobs.get removedId = some removed)
    (hgone : (retainRecentJobs order jobs limit).get removedId = none)
    (hkept : (retainRecentJobs order jobs limit).get keptId = some kept) :
    removed.updatedAt ≤ kept.updatedAt := by
  by_cases hlen : jobs.len ≤ limit
  · rw [retainRecentJobs, if_pos hlen, hbefore] at hgone
    cases hgone
  · by_cases hzero : limit = 0
    · rw [retainRecentJobs, if_neg hlen, if_pos hzero, get_empty] at hkept
      cases hkept
    · rw [retainRecentJobs_of_lt order (Nat.lt_of_not_le hlen) hzero, get_retain] at hgone hkept
      have hremovedId : removed.id = removedId := hkeyed removedId removed hbefore
      have hout : removed ∉ recentRecords (order.visit jobs.values) limit := by
        intro hmem
        rw [if_pos (decide_eq_true (hremovedId ▸ List.mem_map_of_mem hmem)), hbefore] at hgone
        cases hgone
      split at hkept
      · rename_i hselected
        obtain ⟨selected, hmem, hid⟩ := List.mem_map.mp (of_decide_eq_true hselected)
        have hget := get_of_mem_recentRecords order hkeyed hmem
        rw [hid, hkept] at hget
        cases hget
        exact updatedAt_le_of_not_mem_recentRecords order hbefore hout hmem
      · cases hkept

end Retained

/--
Retention leaves as many entries as the limit allows, as they were, and none that
it removes is newer than one that it keeps.  The selection it rests on lists
entries of the map by age, each once, and a smaller limit selects the end of what
a larger one selects.
-/
theorem retention_keeps_newest
    (order : IterationOrder (JobRecord M))
    (jobs : JobMap M)
    (limit : Nat)
    (hkeyed : Keyed JobRecord.id jobs) :
    ((retainRecentJobs order jobs limit).len = min limit jobs.len ∧
      (∀ id record, (retainRecentJobs order jobs limit).get id = some record →
        jobs.get id = some record) ∧
      ∀ removedId removed keptId kept,
        jobs.get removedId = some removed →
        (retainRecentJobs order jobs limit).get removedId = none →
        (retainRecentJobs order jobs limit).get keptId = some kept →
        removed.updatedAt ≤ kept.updatedAt) ∧
    let selected := recentRecords (order.visit jobs.values) limit
    selected.length = min limit jobs.len ∧
      (∀ record ∈ selected, jobs.get record.id = some record) ∧
      (selected.map JobRecord.id).Nodup ∧
      selected.Pairwise (fun earlier later => earlier.updatedAt ≤ later.updatedAt) ∧
      (∀ id record, jobs.get id = some record → record ∉ selected →
        ∀ kept ∈ selected, record.updatedAt ≤ kept.updatedAt) ∧
      ∀ smaller ≤ limit,
        recentRecords (order.visit jobs.values) smaller <:+ selected := by
  refine ⟨⟨retainRecentJobs_len order hkeyed, ?_, ?_⟩, ?_⟩
  · exact fun id record hget => get_of_retainRecentJobs order hget
  · exact fun removedId removed keptId kept hbefore hgone hkept =>
      updatedAt_le_of_removed order hkeyed hbefore hgone hkept
  · refine ⟨length_recentRecords order jobs limit, ?_, nodup_ids_recentRecords order hkeyed limit,
      pairwise_recent JobRecord.updatedAt limit _, ?_, ?_⟩
    · exact fun record hmem => get_of_mem_recentRecords order hkeyed hmem
    · exact fun id record hget hout kept hkept =>
        updatedAt_le_of_not_mem_recentRecords order hget hout hkept
    · exact fun smaller hsmaller =>
        recent_suffix JobRecord.updatedAt limit hsmaller _

/-- Three records, two of them equally new. -/
def tiedJobs : JobMap String :=
  (∅ : JobMap String).insertAll JobRecord.id
    [sampleRecord 1 5 none, sampleRecord 2 5 none, sampleRecord 3 4 none]

/-- With room for one of them, the tied record that is visited last stays. -/
theorem retention_keeps_newest_tied :
    let kept := retainRecentJobs .stored tiedJobs 1
    kept.len = 1 ∧ kept.get 1 = some (sampleRecord 1 5 none) ∧
      kept.get 2 = none ∧ kept.get 3 = none ∧
      ∀ id removed, tiedJobs.get id = some removed → kept.get id = none →
        removed.updatedAt ≤ 5 := by
  obtain ⟨hlen, -, hnewest⟩ :=
    (retention_keeps_newest .stored tiedJobs 1 (Keyed.empty.insertAll _)).1
  have hthree : tiedJobs.len = 3 := by decide +kernel
  have hfirst : (retainRecentJobs .stored tiedJobs 1).get 1 = some (sampleRecord 1 5 none) := by
    decide +kernel
  rw [hthree] at hlen
  refine ⟨hlen, hfirst, by decide +kernel, by decide +kernel, ?_⟩
  exact fun id removed hbefore hgone => hnewest id removed 1 _ hbefore hgone hfirst

end FlorenceServer
