import FlorenceServer.Api.Traffic
import FlorenceServer.Lib.Components

/-!
# The request counters

`track_request_metrics` over all requests of a process.  The counters are raised one after
the other while other requests raise them too, so that a reader may find a request counted
in one of them only.

* `http_metrics_conserve`: what the counters say in every reachable state, and what they say
  when no request is between two of its updates.
-/

namespace FlorenceServer

open Runs

section Amounts

inductive HttpCounter where
  | total
  | failed
  | requestMs
deriving DecidableEq, Repr

def HttpMetrics.value (metrics : HttpMetrics) : HttpCounter → Nat
  | .total => metrics.httpRequestsTotal
  | .failed => metrics.httpRequestsFailed
  | .requestMs => metrics.totalRequestMs

/-- What an update adds to a counter. -/
def HttpUpdate.amount (counter : HttpCounter) : HttpUpdate → Nat
  | .httpRequestsTotal => if counter = .total then 1 else 0
  | .httpRequestsFailed => if counter = .failed then 1 else 0
  | .totalRequestMs elapsedMs => if counter = .requestMs then elapsedUsize elapsedMs else 0

/-- What several updates add to a counter. -/
def httpAmount (counter : HttpCounter) (updates : List HttpUpdate) : Nat :=
  (updates.map (HttpUpdate.amount counter)).sum

@[simp] theorem httpAmount_nil (counter : HttpCounter) :
    httpAmount counter [] = 0 :=
  rfl

@[simp] theorem httpAmount_cons
    (counter : HttpCounter) (update : HttpUpdate) (updates : List HttpUpdate) :
    httpAmount counter (update :: updates) =
      update.amount counter + httpAmount counter updates := by
  simp [httpAmount]

@[simp] theorem httpAmount_append
    (counter : HttpCounter) (updates updates' : List HttpUpdate) :
    httpAmount counter (updates ++ updates') =
      httpAmount counter updates + httpAmount counter updates' := by
  simp [httpAmount]

theorem HttpMetrics.value_apply
    {metrics : HttpMetrics} {counter : HttpCounter} {sum : Nat}
    (hvalue : metrics.value counter = sum % usizeCount) (update : HttpUpdate) :
    (metrics.apply update).value counter = (sum + update.amount counter) % usizeCount := by
  have hadd : ∀ amount, fetchAdd (sum % usizeCount) amount = (sum + amount) % usizeCount :=
    fun amount => Nat.mod_add_mod sum usizeCount amount
  cases update <;> cases counter <;>
    simp_all [HttpMetrics.value, HttpMetrics.apply, HttpUpdate.amount]

theorem httpAmount_recordHttpRequest
    (counter : HttpCounter) (elapsedMs : Nat) (failed : Bool) :
    httpAmount counter (recordHttpRequest elapsedMs failed) =
      match counter with
      | .total => 1
      | .failed => failed.toNat
      | .requestMs => elapsedUsize elapsedMs := by
  cases counter <;> cases failed <;>
    simp [recordHttpRequest, HttpUpdate.amount]

/-- A request is counted before its failure is. -/
theorem httpAmount_made_le
    {elapsedMs : Nat} {failed : Bool} {made left : List HttpUpdate}
    (hsplit : made ++ left = recordHttpRequest elapsedMs failed) :
    httpAmount .failed made ≤ httpAmount .total made ∧ httpAmount .total made ≤ 1 := by
  have htotal := congrArg (httpAmount .total) hsplit
  have hfailed := congrArg (httpAmount .failed) hsplit
  rw [httpAmount_append, httpAmount_recordHttpRequest] at htotal hfailed
  have hone : failed.toNat ≤ 1 := Bool.toNat_le failed
  dsimp only at htotal hfailed
  cases made with
  | nil =>
      exact ⟨le_rfl, Nat.zero_le 1⟩
  | cons update made =>
      obtain rfl : update = .httpRequestsTotal := (List.cons.inj hsplit).1
      have hcounted : HttpUpdate.amount .total .httpRequestsTotal = 1 := rfl
      have hnot : HttpUpdate.amount .failed .httpRequestsTotal = 0 := rfl
      rw [httpAmount_cons] at htotal hfailed
      rw [httpAmount_cons, httpAmount_cons]
      omega

end Amounts

section Conservation

variable {cfg : RouterConfig} {created : Nat} {s s' : HttpTraffic}
variable {n : Nat} {call : HttpCall} {stage : HttpStage}

/-- What a request has added to a counter. -/
def HttpStage.amount (counter : HttpCounter) : HttpStage → Nat
  | .recording _ _ made _ => httpAmount counter made
  | .finished answer elapsedMs =>
      httpAmount counter (recordHttpRequest elapsedMs answer.failed)
  | _ => 0

def callAmount (counter : HttpCounter) (call : Option HttpCall) : Nat :=
  (call.map (fun call => call.stage.amount counter)).getD 0

/-- The updates of a request are made in their order. -/
def HttpStage.InOrder : HttpStage → Prop
  | .recording answer elapsedMs made left =>
      made ++ left = recordHttpRequest elapsedMs answer.failed
  | _ => True

/-- The counters are what the requests have added. -/
structure CountersOk (s : HttpTraffic) : Prop where
  fresh : ∀ n, s.arrived ≤ n → s.calls n = none
  inOrder : ∀ n call, s.calls n = some call → call.stage.InOrder
  value : ∀ counter, s.metrics.value counter =
    total s.arrived (fun n => callAmount counter (s.calls n)) % usizeCount

theorem amount_of_pending
    {counter : HttpCounter} (hpending : stage.isPending = true) :
    stage.amount counter = 0 := by
  cases stage <;> first | rfl | cases hpending

namespace CountersOk

theorem lt_arrived
    (hok : CountersOk s) (hcall : s.calls n = some call) :
    n < s.arrived := by
  by_contra hlate
  rw [hok.fresh n (Nat.not_lt.mp hlate)] at hcall
  cases hcall

theorem start : CountersOk (HttpTraffic.start created) where
  fresh := fun _ _ => rfl
  inOrder := nofun
  value := fun counter => by cases counter <;> rfl

theorem arrive
    (hok : CountersOk s) (request : HttpRequest) :
    CountersOk (s.arrive cfg request) where
  fresh := HttpTraffic.fresh_arrive hok.fresh cfg request
  inOrder := by
    intro n call hcall
    by_cases hne : n = s.arrived
    · rw [hne, HttpTraffic.arrive_calls_self] at hcall
      cases hcall
      simp only [enterStage]
      split <;> trivial
    · rw [HttpTraffic.arrive_calls_of_ne s hne] at hcall
      exact hok.inOrder n call hcall
  value := by
    intro counter
    have hnew : callAmount counter ((s.arrive cfg request).calls s.arrived) = 0 := by
      rw [HttpTraffic.arrive_calls_self]
      simp only [callAmount, enterStage, Option.map_some, Option.getD_some]
      split <;> rfl
    have hold : total s.arrived (fun n => callAmount counter ((s.arrive cfg request).calls n)) =
        total s.arrived (fun n => callAmount counter (s.calls n)) :=
      total_congr fun n hn => by rw [HttpTraffic.arrive_calls_of_ne s hn.ne]
    have hsum : total (s.arrived + 1)
        (fun n => callAmount counter ((s.arrive cfg request).calls n)) =
          total s.arrived (fun n => callAmount counter (s.calls n)) := by
      rw [total_succ, hnew, hold, Nat.add_zero]
    exact (hok.value counter).trans (congrArg (· % usizeCount) hsum.symm)

/-- One request goes on, and the counters grow by what it adds. -/
theorem setStage
    (hok : CountersOk s)
    (hcall : s.calls n = some call)
    (horder : stage.InOrder)
    (metrics : HttpMetrics) (added : HttpCounter → Nat)
    (hadds : ∀ counter, stage.amount counter = call.stage.amount counter + added counter)
    (hmetrics : ∀ counter sum, s.metrics.value counter = sum % usizeCount →
      metrics.value counter = (sum + added counter) % usizeCount) :
    CountersOk ({ s with metrics := metrics }.setStage n call stage) where
  fresh := HttpTraffic.fresh_setStage hok.fresh hcall stage
  inOrder := by
    intro m other hother
    by_cases hne : m = n
    · rw [hne, HttpTraffic.setStage_calls_self] at hother
      cases hother
      exact horder
    · rw [HttpTraffic.setStage_calls_of_ne _ hne] at hother
      exact hok.inOrder m other hother
  value := by
    intro counter
    have hchange := total_change (hok.lt_arrived hcall)
      (f := fun m => callAmount counter (s.calls m))
      (g := fun m => callAmount counter
        (({ s with metrics := metrics }.setStage n call stage).calls m))
      fun m hm => by rw [HttpTraffic.setStage_calls_of_ne _ hm]
    have hbefore : callAmount counter (s.calls n) = call.stage.amount counter := by
      rw [hcall]
      rfl
    have hafter : callAmount counter
        (({ s with metrics := metrics }.setStage n call stage).calls n) =
          call.stage.amount counter + added counter := by
      rw [HttpTraffic.setStage_calls_self, ← hadds]
      rfl
    rw [hbefore, hafter] at hchange
    refine (hmetrics counter _ (hok.value counter)).trans ?_
    have hsum : total s.arrived (fun m => callAmount counter (s.calls m)) + added counter =
        total s.arrived (fun m => callAmount counter
          (({ s with metrics := metrics }.setStage n call stage).calls m)) := by
      omega
    exact congrArg (· % usizeCount) hsum

/-- A request goes on without an update, and has made none before. -/
theorem advance
    (hok : CountersOk s)
    (hcall : s.calls n = some call)
    (stage : HttpStage)
    (horder : stage.InOrder)
    (hbefore : ∀ counter, call.stage.amount counter = 0)
    (hafter : ∀ counter, stage.amount counter = 0)
    {window : RateLimitWindow} :
    CountersOk ({ s with window := window }.setStage n call stage) := by
  have hsame := hok.setStage hcall horder s.metrics (fun _ => 0)
    (fun counter => (hafter counter).trans (hbefore counter).symm) (fun _ _ h => h)
  exact ⟨hsame.fresh, hsame.inOrder, hsame.value⟩

theorem callStep
    (hok : CountersOk s)
    (hcall : s.calls n = some call)
    {a : StageAction}
    (hcase : StageCase cfg s n call a s') :
    CountersOk s' := by
  -- a request that waits for its answer has not been counted
  have hnone : ∀ {before : HttpStage}, call.stage = before → before.isPending = true →
      ∀ counter, call.stage.amount counter = 0 := by
    rintro _ rfl hpending counter
    exact amount_of_pending hpending
  cases hcase with
  | letIn hstage =>
      exact hok.advance hcall .atLimiter trivial (hnone hstage rfl) (fun _ => rfl)
  | refuse hstage =>
      exact hok.advance hcall (.answered .unauthorized) trivial (hnone hstage rfl) (fun _ => rfl)
  | probe hstage =>
      exact hok.advance hcall .handling trivial (hnone hstage rfl) (fun _ => rfl)
  | letThrough hstage =>
      exact hok.advance hcall .handling trivial (hnone hstage rfl) (fun _ => rfl)
  | limit hstage =>
      exact hok.advance hcall (.answered (.rateLimited _)) trivial (hnone hstage rfl)
        (fun _ => rfl)
  | answer status hstage =>
      exact hok.advance hcall (.answered (.handler status)) trivial (hnone hstage rfl)
        (fun _ => rfl)
  | expire hpending =>
      exact hok.advance hcall (.answered .requestTimeout) trivial (hnone rfl hpending)
        (fun _ => rfl)
  | disconnect hpending =>
      exact hok.advance hcall .dropped trivial (hnone rfl hpending) (fun _ => rfl)
  | measure hstage =>
      exact hok.advance hcall (.recording _ _ [] _) rfl (fun _ => by rw [hstage]; rfl)
        (fun _ => rfl)
  | count hstage =>
      rename_i answer elapsedMs made left update
      have horder := hok.inOrder n call hcall
      rw [hstage] at horder
      have hsplit : (made ++ [update]) ++ left = recordHttpRequest elapsedMs answer.failed := by
        rw [List.append_assoc]
        exact horder
      refine hok.setStage hcall ?_ (s.metrics.apply update) (fun counter => update.amount counter)
        ?_ (fun _ _ hvalue => HttpMetrics.value_apply hvalue update)
      · unfold recordingStage
        split
        · trivial
        · exact hsplit
      · intro counter
        have hmade : httpAmount counter (made ++ [update]) =
            httpAmount counter made + update.amount counter := by
          simp
        rw [hstage, recordingStage]
        split
        · rename_i hlast
          rw [List.isEmpty_iff.mp hlast, List.append_nil] at hsplit
          exact (congrArg (httpAmount counter) hsplit).symm.trans hmade
        · exact hmade

theorem step
    (hok : CountersOk s)
    {a : HttpAction}
    (h : s.step cfg a = some s') :
    CountersOk s' := by
  cases a with
  | wait nanos =>
      cases h
      exact ⟨hok.fresh, hok.inOrder, hok.value⟩
  | arrive request =>
      cases h
      exact hok.arrive request
  | call n a =>
      obtain ⟨call, hcall, hstep⟩ := Option.bind_eq_some_iff.mp h
      exact hok.callStep hcall (HttpTraffic.callStep_cases hstep)

theorem run
    {ok : HttpTraffic → HttpAction → Prop}
    (hrun : Run (HttpTraffic.step cfg) ok (HttpTraffic.start created) s) :
    CountersOk s :=
  hrun.invariant (fun _ _ _ _ hstep hok => hok.step hstep) start

end CountersOk

/-- The request has been recorded, with an answer of this kind. -/
def HttpStage.isRecorded (kind : HttpAnswer → Bool) : HttpStage → Bool
  | .finished answer _ => kind answer
  | _ => false

/-- The milliseconds that a recorded request took. -/
def HttpStage.recordedMs : HttpStage → Nat
  | .finished _ elapsedMs => elapsedUsize elapsedMs
  | _ => 0

def HttpStage.isRecording : HttpStage → Bool
  | .recording _ _ _ _ => true
  | _ => false

def hasAnswer (call : Option HttpCall) : Bool :=
  call.any (fun call => call.stage.answer.isSome)

def isRecorded (kind : HttpAnswer → Bool) (call : Option HttpCall) : Bool :=
  call.any (fun call => call.stage.isRecorded kind)

def recordedMs (call : Option HttpCall) : Nat :=
  (call.map (fun call => call.stage.recordedMs)).getD 0

/-- No request is between two updates. -/
def HttpTraffic.Settled (s : HttpTraffic) : Prop :=
  ∀ n call, s.calls n = some call → call.stage.isRecording = false

/-- A request is counted once it has its answer, and before its failure is. -/
theorem HttpStage.InOrder.amounts
    (horder : stage.InOrder) :
    stage.amount .failed ≤ stage.amount .total ∧
      stage.amount .total ≤ stage.answer.isSome.toNat := by
  cases stage with
  | recording answer elapsedMs made left =>
      exact httpAmount_made_le horder
  | finished answer elapsedMs =>
      exact httpAmount_made_le (List.append_nil _)
  | _ =>
      exact ⟨le_rfl, Nat.zero_le _⟩

theorem CountersOk.amounts
    (hok : CountersOk s) (n : Nat) :
    callAmount .failed (s.calls n) ≤ callAmount .total (s.calls n) ∧
      callAmount .total (s.calls n) ≤ (hasAnswer (s.calls n)).toNat := by
  cases hcall : s.calls n with
  | none => exact ⟨le_rfl, le_rfl⟩
  | some call => exact (hok.inOrder n call hcall).amounts

/-- Between its updates a request has added everything or nothing. -/
theorem HttpTraffic.Settled.amounts
    (hsettled : s.Settled) (n : Nat) :
    callAmount .total (s.calls n) = (isRecorded (fun _ => true) (s.calls n)).toNat ∧
      callAmount .failed (s.calls n) = (isRecorded HttpAnswer.failed (s.calls n)).toNat ∧
      callAmount .requestMs (s.calls n) = recordedMs (s.calls n) := by
  cases hcall : s.calls n with
  | none => exact ⟨rfl, rfl, rfl⟩
  | some call =>
      have hstage := hsettled n call hcall
      obtain ⟨request, started, stage⟩ := call
      cases stage with
      | recording answer elapsedMs made left =>
          cases hstage
      | finished answer elapsedMs =>
          exact ⟨httpAmount_recordHttpRequest .total elapsedMs answer.failed,
            httpAmount_recordHttpRequest .failed elapsedMs answer.failed,
            httpAmount_recordHttpRequest .requestMs elapsedMs answer.failed⟩
      | _ => exact ⟨rfl, rfl, rfl⟩

/--
In every reachable state no more requests are counted as failed than are counted at all, and
no more are counted than have an answer.  Where no request is between two updates, those
with an answer that was recorded are counted, those of them with an error status are counted
as failed, and their times are added up.
-/
theorem http_metrics_conserve
    {ok : HttpTraffic → HttpAction → Prop}
    (hrun : Run (HttpTraffic.step cfg) ok (HttpTraffic.start created) s)
    (hfew : s.arrived < usizeCount) :
    s.metrics.httpRequestsFailed ≤ s.metrics.httpRequestsTotal ∧
    s.metrics.httpRequestsTotal ≤ countBelow s.arrived (fun n => hasAnswer (s.calls n)) ∧
    (s.Settled →
      s.metrics.httpRequestsTotal =
        countBelow s.arrived (fun n => isRecorded (fun _ => true) (s.calls n)) ∧
      s.metrics.httpRequestsFailed =
        countBelow s.arrived (fun n => isRecorded HttpAnswer.failed (s.calls n)) ∧
      s.metrics.totalRequestMs =
        total s.arrived (fun n => recordedMs (s.calls n)) % usizeCount) := by
  have hok := CountersOk.run hrun
  have hfailed : total s.arrived (fun n => callAmount .failed (s.calls n)) ≤
      total s.arrived (fun n => callAmount .total (s.calls n)) :=
    total_mono fun n _ => (hok.amounts n).1
  have htotal : total s.arrived (fun n => callAmount .total (s.calls n)) ≤
      countBelow s.arrived (fun n => hasAnswer (s.calls n)) := by
    rw [countBelow_eq_total]
    exact total_mono fun n _ => (hok.amounts n).2
  have hbelow := countBelow_le s.arrived (fun n => hasAnswer (s.calls n))
  have hcounted : s.metrics.httpRequestsTotal =
      total s.arrived (fun n => callAmount .total (s.calls n)) :=
    (hok.value .total).trans (Nat.mod_eq_of_lt (by omega))
  have hcountedFailed : s.metrics.httpRequestsFailed =
      total s.arrived (fun n => callAmount .failed (s.calls n)) :=
    (hok.value .failed).trans (Nat.mod_eq_of_lt (by omega))
  refine ⟨by omega, by omega, fun hsettled => ⟨?_, ?_, ?_⟩⟩
  · rw [hcounted, countBelow_eq_total]
    exact total_congr fun n _ => (hsettled.amounts n).1
  · rw [hcountedFailed, countBelow_eq_total]
    exact total_congr fun n _ => (hsettled.amounts n).2.1
  · rw [← total_congr fun n _ => (hsettled.amounts n).2.2]
    exact hok.value .requestMs

/-- After `overtakingActions` two requests are recorded, and two are still on their way. -/
def recordedActions : List HttpAction :=
  overtakingActions ++
    [.call 0 .count, .call 0 .count, .call 3 .count, .wait 2000000, .call 3 .count,
      .call 3 .count]

/-- Four requests, none of them between two updates, and two of them failed. -/
def recordedTwo (s : HttpTraffic) : Bool :=
  s.arrived == 4 && s.metrics.httpRequestsFailed == 2 &&
    (List.range 4).all (fun n => (s.calls n).all (fun call => !call.stage.isRecording))

theorem http_metrics_conserve_sample :
    ∃ s : HttpTraffic, s.metrics.httpRequestsFailed = 2 ∧ 2 ≤ s.metrics.httpRequestsTotal ∧
      s.metrics.httpRequestsFailed =
        countBelow 4 (fun n => isRecorded HttpAnswer.failed (s.calls n)) := by
  have hexec : (runActions (HttpTraffic.step sampleRouterConfig) (fun _ _ => true)
      (HttpTraffic.start 0) recordedActions).any recordedTwo = true := by
    decide +kernel
  obtain ⟨s, hrun, htest⟩ :
      ∃ t, Run (HttpTraffic.step sampleRouterConfig) (fun _ _ => True)
        (HttpTraffic.start 0) t ∧ recordedTwo t = true :=
    exists_run_of_any (fun _ _ _ => trivial) hexec
  obtain ⟨hcounts, hstages⟩ := Bool.and_eq_true_iff.mp htest
  obtain ⟨harrived, htwo⟩ := Bool.and_eq_true_iff.mp hcounts
  have harrived : s.arrived = 4 := beq_iff_eq.mp harrived
  have htwo : s.metrics.httpRequestsFailed = 2 := beq_iff_eq.mp htwo
  have hsettled : s.Settled := by
    intro n call hcall
    have hn := (CountersOk.run hrun).lt_arrived hcall
    have hall := List.all_eq_true.mp hstages n (List.mem_range.mpr (harrived ▸ hn))
    rw [hcall] at hall
    simpa using hall
  obtain ⟨hle, -, hexact⟩ := http_metrics_conserve hrun (by rw [harrived]; decide)
  refine ⟨s, htwo, htwo ▸ hle, ?_⟩
  rw [← harrived]
  exact (hexact hsettled).2.1

end Conservation

end FlorenceServer
