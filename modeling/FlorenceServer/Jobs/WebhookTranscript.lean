import FlorenceServer.Jobs.Worker

/-!
# The transcript of a webhook delivery

A delivery is known from the outcomes of its attempts: it stops at the first
success or at the limit, and between two attempts it waits twice as long as the
time before, up to a cap.  The loop is described by one lemma about its tail; the
dead letter and the metric follow from how it ended.
-/

namespace FlorenceServer

variable {M : Type}

/-- `send_webhook`: the metrics it leaves, and what the delivery did. -/
def sendWebhook
    (metrics : AppMetrics)
    (webhooks : WebhookClient)
    (env : DeliveryEnv)
    (record : JobRecord M) : AppMetrics × List (DeliveryStep M) :=
  if record.webhookUrl.isNone then
    (metrics, [])
  else
    let delivery := webhooks.deliver env record
    (delivery.result.record metrics, delivery.transcript)

/-- A worker's notification is `send_webhook` on the metrics of the server. -/
theorem notifyLoop_eq_sendWebhook
    (cfg : Config)
    (s : Server M)
    (w : Nat)
    (record : JobRecord M)
    (restart : Bool)
    (env : DeliveryEnv) :
    let sent := sendWebhook s.metrics (WebhookClient.fromConfig cfg) env record
    (s.notifyLoop cfg w record restart env).metrics = sent.1 ∧
      ∃ delivery, delivery.transcript = sent.2 ∧
        (s.notifyLoop cfg w record restart env).effects =
          s.effects ++ [.webhook record delivery] := by
  cases hurl : record.webhookUrl.isNone with
  | true =>
      simp only [sendWebhook, hurl, if_true, Server.notifyLoop, WebhookClient.deliver]
      exact ⟨rfl, _, rfl, rfl⟩
  | false =>
      simp only [sendWebhook, hurl, Server.notifyLoop]
      exact ⟨rfl, _, rfl, rfl⟩

/-! ## The attempts -/

/-- `k` attempts are made: up to the first success, or up to the limit. -/
structure AttemptCount
    (attempt : Nat → Except String Unit)
    (limit k : Nat) : Prop where
  first : 1 ≤ k
  within : k ≤ limit
  failed : ∀ number, 1 ≤ number → number < k → ∃ err, attempt number = .error err
  ended : attempt k = .ok () ∨ k = limit

/-- The wait between attempt `number` and the next. -/
def pauseAfter (initialBackoff : Duration) (number : Nat) : Duration :=
  min (initialBackoff * 2 ^ min (number - 1) 16) durationMax

/-- Attempt `number` of `k`, and the wait for the next one. -/
def attemptSteps
    (initialBackoff : Duration)
    (event : WebhookEvent M)
    (k number : Nat) : List (DeliveryStep M) :=
  .attempt event number ::
    if number < k ∧ initialBackoff ≠ 0 then
      [.sleep (pauseAfter initialBackoff number)]
    else []

/-- The attempts `from, .., k` of one event. -/
def attemptsTranscript
    (initialBackoff : Duration)
    (event : WebhookEvent M)
    (k : Nat)
    (start : Nat) : List (DeliveryStep M) :=
  (List.range' start (k + 1 - start)).flatMap (attemptSteps initialBackoff event k)

theorem attemptsTranscript_cons
    (initialBackoff : Duration)
    (event : WebhookEvent M)
    {k start : Nat}
    (hstart : start ≤ k) :
    attemptsTranscript initialBackoff event k start =
      attemptSteps initialBackoff event k start ++
        attemptsTranscript initialBackoff event k (start + 1) := by
  obtain ⟨count, hcount⟩ : ∃ count, k + 1 - start = count + 1 :=
    ⟨k - start, by omega⟩
  have hrest : k + 1 - (start + 1) = count := by omega
  rw [attemptsTranscript, attemptsTranscript, hcount, hrest, List.range'_succ,
    List.flatMap_cons]

/-- No wait follows the last attempt. -/
theorem attemptsTranscript_last
    (initialBackoff : Duration)
    (event : WebhookEvent M)
    (k : Nat) :
    attemptsTranscript initialBackoff event k k = [.attempt event k] := by
  have hnone : attemptsTranscript initialBackoff event k (k + 1) = [] := by
    rw [attemptsTranscript, Nat.sub_self]
    rfl
  rw [attemptsTranscript_cons _ _ (Nat.le_refl _), hnone, attemptSteps,
    if_neg (fun hpause => Nat.lt_irrefl _ hpause.1)]
  rfl

/-- How the loop ends after `k` attempts. -/
def LoopEnds
    (attempt : Nat → Except String Unit)
    (limit k : Nat)
    (ending : Nat ⊕ Option String) : Prop :=
  (attempt k = .ok () ∧ ending = .inl k) ∨
    ∃ err, k = limit ∧ attempt k = .error err ∧ ending = .inr (some err)

/-- The loop from attempt `start` on, with the limit not yet passed. -/
theorem attemptLoop_transcript
    (client : WebhookClient)
    (env : DeliveryEnv)
    (event : WebhookEvent M)
    (remaining start : Nat)
    (lastError : Option String)
    (hremaining : start + remaining = client.maxAttempts) :
    ∃ k,
      start ≤ k ∧ k ≤ client.maxAttempts ∧
      (∀ number, start ≤ number → number < k →
        ∃ err, env.attempt number = .error err) ∧
      LoopEnds env.attempt client.maxAttempts k
        (client.attemptLoop env event (remaining + 1) start lastError).2 ∧
      (client.attemptLoop env event (remaining + 1) start lastError).1 =
        attemptsTranscript client.initialBackoff event k start := by
  induction remaining generalizing start lastError with
  | zero =>
      refine ⟨start, Nat.le_refl _, by omega, fun _ hfrom hto => by omega, ?_⟩
      have hlast : ¬ start < client.maxAttempts := by omega
      rw [attemptsTranscript_last, WebhookClient.attemptLoop]
      cases hattempt : env.attempt start with
      | ok _ =>
          exact ⟨Or.inl ⟨hattempt, rfl⟩, rfl⟩
      | error err =>
          simp only [hlast, false_and, if_false, WebhookClient.attemptLoop]
          exact ⟨Or.inr ⟨err, by omega, hattempt, rfl⟩, rfl⟩
  | succ remaining ih =>
      rw [WebhookClient.attemptLoop]
      cases hattempt : env.attempt start with
      | ok _ =>
          refine ⟨start, Nat.le_refl _, by omega, fun _ hfrom hto => by omega,
            Or.inl ⟨hattempt, rfl⟩, ?_⟩
          rw [attemptsTranscript_last]
      | error err =>
          obtain ⟨k, hfrom, hwithin, hfailed, hends, htranscript⟩ :=
            ih (start + 1) (some err) (by omega)
          refine ⟨k, by omega, hwithin, ?_, hends, ?_⟩
          · intro number hnumber hbefore
            rcases Nat.eq_or_lt_of_le hnumber with rfl | hlater
            · exact ⟨err, hattempt⟩
            · exact hfailed number hlater hbefore
          · rw [attemptsTranscript_cons _ _ (Nat.le_of_succ_le hfrom), ← htranscript,
              attemptSteps]
            have hmore : start < client.maxAttempts := by omega
            have hnext : start < k := hfrom
            simp only [hmore, hnext, true_and]
            rfl

/-- `deliver` starts at the first attempt and has one to make at least. -/
theorem deliverLoop_transcript
    (attempts : Nat)
    (initialBackoff : Duration)
    (env : DeliveryEnv)
    (event : WebhookEvent M) :
    ∃ k,
      AttemptCount env.attempt (max attempts 1) k ∧
      LoopEnds env.attempt (max attempts 1) k
        ((WebhookClient.new attempts initialBackoff).attemptLoop env event
          (max attempts 1) 1 none).2 ∧
      ((WebhookClient.new attempts initialBackoff).attemptLoop env event
          (max attempts 1) 1 none).1 =
        attemptsTranscript initialBackoff event k 1 := by
  obtain ⟨remaining, hremaining⟩ : ∃ remaining, max attempts 1 = remaining + 1 :=
    ⟨max attempts 1 - 1, by omega⟩
  obtain ⟨k, hfrom, hwithin, hfailed, hends, htranscript⟩ :=
    attemptLoop_transcript (WebhookClient.new attempts initialBackoff) env event
      remaining 1 none (by rw [Nat.add_comm]; exact hremaining.symm)
  rw [← hremaining] at hends htranscript
  refine ⟨k, ⟨hfrom, hwithin, hfailed, ?_⟩, hends, htranscript⟩
  rcases hends with ⟨hsent, -⟩ | ⟨err, hlimit, -, -⟩
  · exact Or.inl hsent
  · exact Or.inr hlimit

/-! ## The delivery -/

/-- The dead letter of a delivery that gave up after `limit` attempts. -/
def deadLetterOf
    (env : DeliveryEnv)
    (event : WebhookEvent M)
    (limit : Nat)
    (error : String) : WebhookDeadLetter M where
  event := event
  attempts := limit
  failedAt := env.failedAt
  error := error

/-- What a delivery with an address does once its attempts are made. -/
theorem deliver_of_ending
    (webhooks : WebhookClient)
    (env : DeliveryEnv)
    {record : JobRecord M}
    (hurl : record.webhookUrl ≠ none) :
    let event := WebhookEvent.fromJob env.eventId env.createdAt record
    let loop := webhooks.attemptLoop env event webhooks.maxAttempts 1 none
    (∀ k, loop.2 = .inl k →
      webhooks.deliver env record =
        { transcript := loop.1, result := .delivered env.eventId k }) ∧
    ∀ err, loop.2 = .inr (some err) →
      webhooks.deliver env record =
        { transcript :=
            loop.1 ++
              (env.deadLetter.lines (deadLetterOf env event webhooks.maxAttempts err)).map
                .deadLetter
          result :=
            if env.deadLetter.isOk then
              .failed env.eventId webhooks.maxAttempts err
            else
              .deadLetterFailed env.eventId webhooks.maxAttempts err
                env.deadLetterError } := by
  have hsome : ¬ record.webhookUrl.isNone = true := by
    simpa using hurl
  intro event loop
  constructor
  · intro k hending
    have hloop :
        (webhooks.attemptLoop env
          (WebhookEvent.fromJob env.eventId env.createdAt record)
          webhooks.maxAttempts 1 none).2 = .inl k := hending
    simp only [WebhookClient.deliver, hsome, hloop]
    rfl
  · intro err hending
    have hloop :
        (webhooks.attemptLoop env
          (WebhookEvent.fromJob env.eventId env.createdAt record)
          webhooks.maxAttempts 1 none).2 = .inr (some err) := hending
    simp only [WebhookClient.deliver, hsome, hloop]
    rfl

/--
A delivery makes attempts `1, .., k` of one event, `k` being the first success or
the limit, with the waits in between.  After a success there is nothing more.
Otherwise one dead letter with the number of attempts and the last error is
appended, which reaches the file unless the append itself fails, and the failure
is counted.
-/
theorem sendWebhook_transcript
    (attempts : Nat)
    (initialBackoff : Duration)
    (env : DeliveryEnv)
    (record : JobRecord M)
    (metrics : AppMetrics)
    (hurl : record.webhookUrl ≠ none) :
    let webhooks := WebhookClient.new attempts initialBackoff
    let event := WebhookEvent.fromJob env.eventId env.createdAt record
    let sent := sendWebhook metrics webhooks env record
    ∃ k,
      AttemptCount env.attempt (max attempts 1) k ∧
      (env.attempt k = .ok () →
        sent = (metrics, attemptsTranscript initialBackoff event k 1) ∧
          (webhooks.deliver env record).result = .delivered env.eventId k) ∧
      ∀ err, env.attempt k = .error err →
        k = max attempts 1 ∧
        sent.1 =
          { metrics with webhookFailures := fetchAdd metrics.webhookFailures 1 } ∧
        (env.deadLetter = .ok →
          sent.2 =
            attemptsTranscript initialBackoff event k 1 ++
              [.deadLetter (deadLetterOf env event (max attempts 1) err)] ∧
          (webhooks.deliver env record).result =
            .failed env.eventId (max attempts 1) err) ∧
        (env.deadLetter ≠ .ok →
          (sent.2 = attemptsTranscript initialBackoff event k 1 ∨
            sent.2 =
              attemptsTranscript initialBackoff event k 1 ++
                [.deadLetter (deadLetterOf env event (max attempts 1) err)]) ∧
          (webhooks.deliver env record).result =
            .deadLetterFailed env.eventId (max attempts 1) err env.deadLetterError) := by
  intro webhooks event sent
  obtain ⟨k, hcount, hends, htranscript⟩ :=
    deliverLoop_transcript attempts initialBackoff env event
  have hsent :
      sent =
        ((webhooks.deliver env record).result.record metrics,
          (webhooks.deliver env record).transcript) := by
    change sendWebhook metrics webhooks env record = _
    rw [sendWebhook, if_neg (by simpa using hurl)]
  obtain ⟨hdelivered, hgaveUp⟩ := deliver_of_ending webhooks env hurl
  refine ⟨k, hcount, ?_, ?_⟩
  · intro hok
    rcases hends with ⟨-, hending⟩ | ⟨err, -, hfailed, -⟩
    · rw [hsent, hdelivered k hending]
      exact ⟨congrArg (Prod.mk metrics) htranscript, rfl⟩
    · rw [hok] at hfailed
      cases hfailed
  · intro err hfailed
    rcases hends with ⟨hok, -⟩ | ⟨last, hlimit, hlast, hending⟩
    · rw [hok] at hfailed
      cases hfailed
    · rw [hfailed] at hlast
      cases hlast
      rw [hsent, hgaveUp err hending]
      refine ⟨hlimit, ?_, ?_, ?_⟩
      · cases env.deadLetter <;> rfl
      · intro hwritten
        rw [hwritten]
        exact ⟨congrArg (· ++ _) htranscript, rfl⟩
      · intro hunwritten
        cases happend : env.deadLetter with
        | ok =>
            exact absurd happend hunwritten
        | failed written =>
            refine ⟨?_, rfl⟩
            cases written with
            | false =>
                exact Or.inl ((List.append_nil _).trans htranscript)
            | true =>
                exact Or.inr (congrArg (· ++ _) htranscript)

/-- An endpoint that answers 500 to the first attempt; `deadLetter` is arbitrary. -/
def firstRefused (deadLetter : AppendOutcome) : DeliveryEnv where
  eventId := 7
  createdAt := 20
  attempt := fun number =>
    if number == 1 then .error "webhook endpoint returned HTTP 500" else .ok ()
  failedAt := 21
  deadLetter := deadLetter
  deadLetterError := "No space left on device"

/-- The second of two attempts succeeds. -/
theorem sendWebhook_transcript_second :
    ∃ k,
      AttemptCount (firstRefused .ok).attempt (max 2 1) k ∧
      ((firstRefused .ok).attempt k = .ok () →
        sendWebhook .default (WebhookClient.new 2 5) (firstRefused .ok)
            (sampleRecord 1 5 (some "http://127.0.0.1:9000/hook")) =
          (.default, attemptsTranscript 5
            (WebhookEvent.fromJob 7 20
              (sampleRecord 1 5 (some "http://127.0.0.1:9000/hook"))) k 1)) := by
  obtain ⟨k, hcount, hsent, -⟩ := sendWebhook_transcript 2 5 (firstRefused .ok)
    (sampleRecord 1 5 (some "http://127.0.0.1:9000/hook")) .default (by decide)
  exact ⟨k, hcount, fun hok => (hsent hok).1⟩

/-- The only attempt fails and so does the append: the file gets no line. -/
theorem sendWebhook_without_dead_letter :
    (∀ number, 1 ≤ number → number ≤ max 1 1 →
      ∃ err, (firstRefused (.failed false)).attempt number = .error err) ∧
    ∀ letter,
      .deadLetter letter ∉
        (sendWebhook .default (WebhookClient.new 1 5) (firstRefused (.failed false))
          (sampleRecord 1 5 (some "http://127.0.0.1:9000/hook"))).2 := by
  constructor
  · intro number hfrom hto
    obtain rfl : number = 1 := by omega
    exact ⟨_, rfl⟩
  · intro letter hmem
    change _ ∈ [DeliveryStep.attempt _ 1] at hmem
    cases List.mem_singleton.mp hmem

end FlorenceServer
