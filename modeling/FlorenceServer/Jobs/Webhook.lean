import FlorenceServer.Jobs.Store
import FlorenceServer.Jobs.Queue
import FlorenceServer.State

/-!
# Webhook delivery and image cleanup

`jobs/webhook.rs` and the cleanup functions of `jobs/worker.rs`.

A delivery is a function of the outcomes of its attempts.  It returns the
transcript of what it did, attempt by attempt, together with the result that
`send_webhook` turns into a metric.
-/

namespace FlorenceServer

variable {M : Type}

section Durations

/-- `std::time::Duration`, in nanoseconds. -/
abbrev Duration := Nat

/-- `Duration::MAX`. -/
def durationMax : Duration := (2 ^ 64 - 1) * 10 ^ 9 + 999999999

/-- `Duration::saturating_mul`. -/
def saturatingMul (duration : Duration) (factor : Nat) : Duration :=
  min (duration * factor) durationMax

/-- `backoff_delay`. -/
def backoffDelay (initialBackoff : Duration) (attempt : Nat) : Duration :=
  saturatingMul initialBackoff (2 ^ min (attempt - 1) 16)

end Durations

section Delivery

structure WebhookClient where
  maxAttempts : Nat
  initialBackoff : Duration
deriving DecidableEq

namespace WebhookClient

/-- `WebhookClient::new`, as far as the delivery loop is concerned. -/
def new (maxAttempts : Nat) (initialBackoff : Duration) : WebhookClient where
  maxAttempts := max maxAttempts 1
  initialBackoff := initialBackoff

def fromConfig (cfg : Config) : WebhookClient :=
  new cfg.webhookMaxAttempts (cfg.webhookInitialBackoffMs * 10 ^ 6)

end WebhookClient

structure WebhookEvent (M : Type) where
  eventId : Uuid
  eventType : String
  createdAt : OffsetDateTime
  job : JobRecord M

/-- `WebhookEvent::from_job`. -/
def WebhookEvent.fromJob (eventId : Uuid) (createdAt : OffsetDateTime)
    (job : JobRecord M) : WebhookEvent M where
  eventId := eventId
  eventType := "job.completed"
  createdAt := createdAt
  job := job

structure WebhookDeadLetter (M : Type) where
  event : WebhookEvent M
  attempts : Nat
  failedAt : OffsetDateTime
  error : String

inductive WebhookDeliveryResult where
  | skipped
  | delivered (eventId : Uuid) (attempts : Nat)
  | failed (eventId : Uuid) (attempts : Nat) (error : String)
  | deadLetterFailed (eventId : Uuid) (attempts : Nat) (error deadLetterError : String)
deriving DecidableEq

/-- What a delivery draws from its environment. -/
structure DeliveryEnv where
  /-- `Uuid::new_v4` for the event -/
  eventId : Uuid
  createdAt : OffsetDateTime
  /-- the outcome of `send` for each attempt number -/
  attempt : Nat → Except String Unit
  failedAt : OffsetDateTime
  /-- the append to the dead-letter file -/
  deadLetter : AppendOutcome
  deadLetterError : String

inductive DeliveryStep (M : Type) where
  | attempt (event : WebhookEvent M) (number : Nat)
  | sleep (delay : Duration)
  | deadLetter (letter : WebhookDeadLetter M)

structure Delivery (M : Type) where
  transcript : List (DeliveryStep M)
  result : WebhookDeliveryResult

namespace WebhookClient

variable (client : WebhookClient) (env : DeliveryEnv)

/-- The `for attempt in 1..=max_attempts` loop with `remaining` attempts left:
its transcript, and the number of the successful attempt or the last error. -/
def attemptLoop (event : WebhookEvent M) :
    Nat → Nat → Option String → List (DeliveryStep M) × (Nat ⊕ Option String)
  | 0, _, lastError => ([], .inr lastError)
  | remaining + 1, attempt, _ =>
      match env.attempt attempt with
      | .ok () => ([.attempt event attempt], .inl attempt)
      | .error err =>
          let pause : List (DeliveryStep M) :=
            if attempt < client.maxAttempts ∧ client.initialBackoff ≠ 0 then
              [.sleep (backoffDelay client.initialBackoff attempt)]
            else []
          let rest := attemptLoop event remaining (attempt + 1) (some err)
          (.attempt event attempt :: pause ++ rest.1, rest.2)

/-- `WebhookClient::deliver`. -/
def deliver (record : JobRecord M) : Delivery M :=
  if record.webhookUrl.isNone then
    { transcript := [], result := .skipped }
  else
    let event := WebhookEvent.fromJob env.eventId env.createdAt record
    let loop := attemptLoop client env event client.maxAttempts 1 none
    match loop.2 with
    | .inl attempts =>
        { transcript := loop.1, result := .delivered env.eventId attempts }
    | .inr lastError =>
        let error := lastError.getD "webhook delivery failed"
        let letter : WebhookDeadLetter M :=
          { event, attempts := client.maxAttempts, failedAt := env.failedAt, error }
        { transcript := loop.1 ++ (env.deadLetter.lines letter).map .deadLetter
          result :=
            if env.deadLetter.isOk then
              .failed env.eventId client.maxAttempts error
            else
              .deadLetterFailed env.eventId client.maxAttempts error env.deadLetterError }

end WebhookClient

/-- The metric update at the end of `send_webhook`. -/
def WebhookDeliveryResult.record (metrics : AppMetrics) :
    WebhookDeliveryResult → AppMetrics
  | .skipped | .delivered _ _ => metrics
  | .failed _ _ _ | .deadLetterFailed _ _ _ _ => metrics.recordWebhookFailure

/-- The webhook of the job was attempted, and delivered or dead-lettered. -/
structure Delivery.Completes (delivery : Delivery M) (record : JobRecord M) : Prop where
  attempted : ∃ event number,
    .attempt event number ∈ delivery.transcript ∧ event.job = record
  ended : (∃ eventId attempts, delivery.result = .delivered eventId attempts) ∨
    ∃ letter, .deadLetter letter ∈ delivery.transcript ∧ letter.event.job = record

section Attempts

variable (client : WebhookClient) (env : DeliveryEnv) (event : WebhookEvent M)

theorem attemptLoop_attempts
    (remaining attempt : Nat) (lastError : Option String) :
    .attempt event attempt ∈
      (client.attemptLoop env event (remaining + 1) attempt lastError).1 := by
  rw [WebhookClient.attemptLoop]
  cases env.attempt attempt with
  | ok _ => exact List.mem_cons_self
  | error err => exact List.mem_cons_self

/-- The loop ends with a delivery if one of its attempts succeeds. -/
theorem attemptLoop_delivers
    (remaining attempt : Nat) (lastError : Option String)
    {number : Nat} (hfrom : attempt ≤ number) (hto : number < attempt + remaining)
    (hsent : env.attempt number = .ok ()) :
    ∃ attempts,
      (client.attemptLoop env event remaining attempt lastError).2 = .inl attempts := by
  induction remaining generalizing attempt lastError with
  | zero => omega
  | succ remaining ih =>
      rw [WebhookClient.attemptLoop]
      cases hattempt : env.attempt attempt with
      | ok _ => exact ⟨attempt, rfl⟩
      | error err =>
          have hlater : attempt ≠ number := by
            rintro rfl
            rw [hattempt] at hsent
            cases hsent
          exact ih (attempt + 1) (some err) (by omega) (by omega)

end Attempts

/-- A webhook is completed if an attempt succeeds or the dead letter is written. -/
theorem deliver_completes
    (client : WebhookClient) (env : DeliveryEnv) (record : JobRecord M)
    (hurl : record.webhookUrl ≠ none)
    (hpositive : 0 < client.maxAttempts)
    (hsent : (∃ number, 1 ≤ number ∧ number ≤ client.maxAttempts ∧
        env.attempt number = .ok ()) ∨
      env.deadLetter ≠ .failed false) :
    (client.deliver env record).Completes record := by
  set event := WebhookEvent.fromJob env.eventId env.createdAt record with hevent
  obtain ⟨remaining, hremaining⟩ := Nat.exists_eq_succ_of_ne_zero (Nat.ne_of_gt hpositive)
  have hattempt : .attempt event 1 ∈
      (client.attemptLoop env event client.maxAttempts 1 none).1 := by
    rw [hremaining]
    exact attemptLoop_attempts client env event remaining 1 none
  unfold WebhookClient.deliver
  rw [if_neg (by simpa using hurl)]
  simp only [← hevent]
  cases hloop : (client.attemptLoop env event client.maxAttempts 1 none).2 with
  | inl attempts =>
      exact ⟨⟨event, 1, hattempt, rfl⟩, Or.inl ⟨_, _, rfl⟩⟩
  | inr lastError =>
      refine ⟨⟨event, 1, List.mem_append_left _ hattempt, rfl⟩, Or.inr ?_⟩
      have hwritten : env.deadLetter ≠ .failed false := by
        rcases hsent with ⟨number, hfrom, hto, hok⟩ | hwritten
        · obtain ⟨attempts, hdelivered⟩ := attemptLoop_delivers client env event
            client.maxAttempts 1 none hfrom (by omega) hok
          rw [hdelivered] at hloop
          cases hloop
        · exact hwritten
      let letter : WebhookDeadLetter M :=
        { event
          attempts := client.maxAttempts
          failedAt := env.failedAt
          error := lastError.getD "webhook delivery failed" }
      have hletter : letter ∈ env.deadLetter.lines letter := by
        rw [AppendOutcome.lines_eq hwritten]
        exact List.mem_singleton_self letter
      exact ⟨letter, List.mem_append_right _ (List.mem_map_of_mem hletter), rfl⟩

end Delivery

section Cleanup

/-- `path_is_inside`: below the directory, and not the directory itself. -/
def pathIsInside (path directory : PathBuf) : Bool :=
  directory.isPrefixOf path && path != directory

/-- `should_delete_image`. -/
def shouldDeleteImage (cfg : Config) (record : JobRecord M) : Bool :=
  record.inputKind == "upload" && pathIsInside record.imagePath cfg.imagesDir

/-- How `tokio::fs::remove_file` ends. -/
inductive RemoveFile where
  | removed
  | notFound
  | failed
deriving DecidableEq, Repr

/-- What `cleanup_job_artifacts` did: `none` where it left the image alone. -/
def cleanupJobArtifacts (cfg : Config) (removal : RemoveFile)
    (record : JobRecord M) : Option RemoveFile :=
  if shouldDeleteImage cfg record then some removal else none

/-- The metric update of `cleanup_job_artifacts`. -/
def cleanupMetrics (metrics : AppMetrics) : Option RemoveFile → AppMetrics
  | some .failed => metrics.recordCleanupFailure
  | some .removed | some .notFound | none => metrics

end Cleanup
end FlorenceServer
