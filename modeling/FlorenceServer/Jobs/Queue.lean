import FlorenceServer.Types.JobRecord
import FlorenceServer.Types.TaskSpec

/-!
# Queueing a job

The data of `jobs/queue.rs`: the request a worker takes from the queue, the ways
`enqueue_record` can fail, and the suspension points of a call that is still
running.  The steps of a call change the shared state and are in `Jobs.Enqueue`.
-/

namespace FlorenceServer

variable {M : Type}

structure JobRequest where
  id : Uuid
  imagePath : PathBuf
  task : TaskSpec
deriving DecidableEq

inductive EnqueueError where
  | invalidTask (source : TaskSpecError)
  | queueFull
  | queueClosed
  | persist
deriving DecidableEq

structure QueueResponse where
  id : Uuid
  status : JobStatus
  statusUrl : String
deriving DecidableEq

section Uuids

/-- `char::from_digit` in base 16, lower case. -/
def hexDigit (n : Nat) : Char :=
  if n < 10 then Char.ofNat (48 + n) else Char.ofNat (87 + n)

/-- The hexadecimal digits number `start`, …, `start + count - 1` of an id. -/
def uuidDigits (id : Uuid) (start count : Nat) : List Char :=
  (List.range' start count).map (fun k => hexDigit (id.toNat / 16 ^ (31 - k) % 16))

/-- The hyphenated lower-case form of an id. -/
def uuidText (id : Uuid) : String :=
  String.ofList
    (uuidDigits id 0 8 ++ ['-'] ++ uuidDigits id 8 4 ++ ['-'] ++ uuidDigits id 12 4 ++
      ['-'] ++ uuidDigits id 16 4 ++ ['-'] ++ uuidDigits id 20 12)

theorem hexDigit_injective
    {a b : Nat} (ha : a < 16) (hb : b < 16) (h : hexDigit a = hexDigit b) :
    a = b := by
  have hall : ∀ a < 16, ∀ b < 16, hexDigit a = hexDigit b → a = b := by
    decide
  exact hall a ha b hb h

theorem hexDigit_ne_slash {n : Nat} (hn : n < 16) : hexDigit n ≠ '/' := by
  have hall : ∀ n < 16, hexDigit n ≠ '/' := by
    decide
  exact hall n hn

theorem uuidDigits_length (id : Uuid) (start count : Nat) :
    (uuidDigits id start count).length = count := by
  simp [uuidDigits]

theorem slash_not_mem_uuidDigits (id : Uuid) (start count : Nat) :
    '/' ∉ uuidDigits id start count := by
  intro hmem
  obtain ⟨k, -, hk⟩ := List.mem_map.mp hmem
  exact hexDigit_ne_slash (Nat.mod_lt _ (by decide)) hk

theorem digit_eq_of_uuidDigits
    {id id' : Uuid} {start count k : Nat}
    (h : uuidDigits id start count = uuidDigits id' start count)
    (hfrom : start ≤ k) (hto : k < start + count) :
    id.toNat / 16 ^ (31 - k) % 16 = id'.toNat / 16 ^ (31 - k) % 16 := by
  have hdigit := List.map_inj_left.mp h k (List.mem_range'_1.mpr ⟨hfrom, hto⟩)
  exact hexDigit_injective (Nat.mod_lt _ (by decide)) (Nat.mod_lt _ (by decide)) hdigit

/-- Numbers with the same `n` last hexadecimal digits. -/
theorem mod_eq_of_digits
    {x y n : Nat}
    (h : ∀ k < n, x / 16 ^ k % 16 = y / 16 ^ k % 16) :
    x % 16 ^ n = y % 16 ^ n := by
  induction n with
  | zero => simp [Nat.mod_one]
  | succ n ih =>
      rw [Nat.mod_pow_succ, Nat.mod_pow_succ, h n (Nat.lt_succ_self n),
        ih (fun k hk => h k (Nat.lt_succ_of_lt hk))]

theorem uuidText_length (id : Uuid) : (uuidText id).toList.length = 36 := by
  simp [uuidText, uuidDigits_length]

theorem slash_not_mem_uuidText (id : Uuid) : '/' ∉ (uuidText id).toList := by
  simp [uuidText, slash_not_mem_uuidDigits]

/-- Different ids have different texts. -/
theorem uuidText_injective : Function.Injective uuidText := by
  intro id id' h
  have htext := congrArg String.toList h
  simp only [uuidText, String.toList_ofList] at htext
  obtain ⟨htext, h5⟩ := List.append_inj' htext (by simp [uuidDigits_length])
  obtain ⟨htext, -⟩ := List.append_inj' htext rfl
  obtain ⟨htext, h4⟩ := List.append_inj' htext (by simp [uuidDigits_length])
  obtain ⟨htext, -⟩ := List.append_inj' htext rfl
  obtain ⟨htext, h3⟩ := List.append_inj' htext (by simp [uuidDigits_length])
  obtain ⟨htext, -⟩ := List.append_inj' htext rfl
  obtain ⟨htext, h2⟩ := List.append_inj' htext (by simp [uuidDigits_length])
  obtain ⟨h1, -⟩ := List.append_inj' htext rfl
  have hdigits : ∀ k < 32, id.toNat / 16 ^ k % 16 = id'.toNat / 16 ^ k % 16 := by
    intro k hk
    have hfrom : k = 31 - (31 - k) := by omega
    rw [hfrom]
    have hblock : 31 - k < 8 ∨ 8 ≤ 31 - k ∧ 31 - k < 12 ∨ 12 ≤ 31 - k ∧ 31 - k < 16 ∨
        16 ≤ 31 - k ∧ 31 - k < 20 ∨ 20 ≤ 31 - k ∧ 31 - k < 32 := by omega
    rcases hblock with hb | hb | hb | hb | hb
    · exact digit_eq_of_uuidDigits h1 (by omega) (by omega)
    · exact digit_eq_of_uuidDigits h2 hb.1 hb.2
    · exact digit_eq_of_uuidDigits h3 hb.1 hb.2
    · exact digit_eq_of_uuidDigits h4 hb.1 hb.2
    · exact digit_eq_of_uuidDigits h5 hb.1 hb.2
  have hmod := mod_eq_of_digits hdigits
  have hlt : ∀ i : Uuid, i.toNat < 16 ^ 32 := by
    intro i
    exact i.isLt
  rw [Nat.mod_eq_of_lt (hlt id), Nat.mod_eq_of_lt (hlt id')] at hmod
  exact BitVec.eq_of_toNat_eq hmod

end Uuids

/-- `job_request_from_record`. -/
def jobRequestFromRecord (record : JobRecord M) : Except EnqueueError JobRequest :=
  match TaskSpec.fromStrings (some record.taskType) (some record.taskPrompt)
      record.textInput with
  | .error source => .error (.invalidTask source)
  | .ok task => .ok { id := record.id, imagePath := record.imagePath, task }

/-- `queue_response`. -/
def queueResponse (id : Uuid) : QueueResponse where
  id := id
  status := .queued
  statusUrl := "/v1/jobs/" ++ uuidText id

/-- A record together with the request parsed from it. -/
structure Submission (M : Type) where
  record : JobRecord M
  request : JobRequest
  parsed : jobRequestFromRecord record = .ok request

namespace Submission

/-- The first statement of `enqueue_record`. -/
def ofRecord (record : JobRecord M) : Except EnqueueError (Submission M) :=
  match h : jobRequestFromRecord record with
  | .ok request => .ok { record, request, parsed := h }
  | .error err => .error err

theorem record_of_ofRecord
    {record : JobRecord M} {sub : Submission M}
    (h : ofRecord record = .ok sub) :
    sub.record = record := by
  unfold ofRecord at h
  split at h
  · cases h
    rfl
  · cases h

/-- The only error of the first statement is an invalid task. -/
theorem error_of_ofRecord
    {record : JobRecord M} {err : EnqueueError}
    (h : ofRecord record = .error err) :
    ∃ source, err = .invalidTask source := by
  unfold ofRecord at h
  split at h
  · cases h
  · rename_i err' hparse
    cases h
    unfold jobRequestFromRecord at hparse
    split at hparse
    · exact ⟨_, (Except.error.inj hparse).symm⟩
    · cases hparse

theorem request_id (sub : Submission M) :
    sub.request.id = sub.record.id := by
  have h := sub.parsed
  unfold jobRequestFromRecord at h
  split at h
  · cases h
  · rw [← Except.ok.inj h]

end Submission

section Calls

/-- The two errors of `try_send`. -/
inductive TrySendError where
  | full
  | closed
deriving DecidableEq, Repr

namespace TrySendError

/-- The error text that the rollback writes to the results file. -/
def rollbackError : TrySendError → String
  | .full => "inference queue became full before the job could be queued"
  | .closed => "inference queue closed before the job could be queued"

def toEnqueueError : TrySendError → EnqueueError
  | .full => .queueFull
  | .closed => .queueClosed

end TrySendError

/-- Where a running `enqueue_record` call stands. -/
inductive CallPc where
  /-- before `jobs.write().await` -/
  | inserting
  /-- before the append to the submissions file -/
  | appending
  /-- before `try_send` -/
  | sending
  /-- before `jobs.write().await` in `rollback_unqueued_record` -/
  | rollingBack (reason : TrySendError)
  /-- before the append in `persist_unqueued_record` -/
  | persisting (reason : TrySendError)
deriving DecidableEq, Repr

/-- How a call ended: it returned, or its future was dropped. -/
inductive CallEnding where
  | returned (outcome : Except EnqueueError QueueResponse)
  | dropped

/-- The `enqueue_record` call for one id. -/
inductive EnqueueCall (M : Type) where
  /-- no record with this id has been submitted yet -/
  | fresh
  /-- the id was used by an earlier server process -/
  | past
  /-- before the task is parsed and the queue is checked -/
  | checking (record : JobRecord M)
  | live (sub : Submission M) (pc : CallPc)
  | ended (record : JobRecord M) (ending : CallEnding)

/-- The call returned `Ok`. -/
def EnqueueCall.isAccepted : EnqueueCall M → Bool
  | .ended _ (.returned (.ok _)) => true
  | _ => false

/-- The call has not ended. -/
def EnqueueCall.isLive : EnqueueCall M → Bool
  | .checking _ | .live _ _ => true
  | .fresh | .past | .ended _ _ => false

/-- The future can be dropped where the call awaits a lock or a file. -/
def CallPc.awaits : CallPc → Bool
  | .inserting | .appending | .rollingBack _ | .persisting _ => true
  | .sending => false

end Calls
end FlorenceServer
