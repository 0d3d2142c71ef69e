import FlorenceServer.Jobs.Quiescence
import FlorenceServer.Api.Uploads

/-!
# The channel between the handlers and the workers

Any number of `enqueue_record` calls send to the channel and all worker loops
receive from it.  An observer writes down every request that a call sends and every
request that a loop receives.

* `requests_are_received_in_order`: what the loops received, followed by what is in
  the channel, is what the calls sent, in that order; a request is sent for exactly
  the accepted jobs, once for each, and it is the one parsed from the job's record;
  the channel never holds more than `queue_size` requests.
* `unfinished_jobs_are_bounded`: at most `queue_size + workers` accepted jobs have
  not entered `finish_job`, and at most `workers` of them are not in the channel.
-/

namespace FlorenceServer

open Runs

variable {M : Type}

section Traffic

variable {cfg : Config} {s₀ s s' : Server M}

/-- The request that a call is about to send. -/
def EnqueueCall.outgoing : EnqueueCall M → Option JobRequest
  | .live sub .sending => some sub.request
  | _ => none

/-- What a step puts into the channel. -/
def Server.sentBy (cfg : Config) (s : Server M) : Action M → List JobRequest
  | .call id .send => if (s.trySend cfg).isNone then (s.calls id).outgoing.toList else []
  | _ => []

/-- What a step takes out of the channel. -/
def Server.receivedBy (s : Server M) : Action M → List JobRequest
  | .worker _ .recv => s.queue.head?.toList
  | _ => []

/-- The requests that went into the channel and those that came out, oldest first. -/
structure Traffic where
  sent : List JobRequest
  received : List JobRequest

namespace Traffic

def empty : Traffic where
  sent := []
  received := []

def note (cfg : Config) (s : Server M) (a : Action M) (traffic : Traffic) : Traffic where
  sent := traffic.sent ++ s.sentBy cfg a
  received := traffic.received ++ s.receivedBy a

end Traffic

/-- The call for the request's job returned `Ok`, and the request is the one parsed
from the record that was submitted. -/
def Server.Sent (s : Server M) (request : JobRequest) : Prop :=
  ∃ record, jobRequestFromRecord record = .ok request ∧
    s.calls request.id = .ended record (.returned (.ok (queueResponse request.id)))

/-- The traffic accounts for the queue and for the accepted calls. -/
structure Traffic.Accounts (cfg : Config) (s : Server M) (traffic : Traffic) : Prop where
  order : traffic.received ++ s.queue = traffic.sent
  nodup : (traffic.sent.map (fun request => request.id)).Nodup
  sent : ∀ request ∈ traffic.sent, s.Sent request
  accepted : ∀ id, (s.calls id).isAccepted = true → ∃ request ∈ traffic.sent, request.id = id
  bounded : s.queue.length ≤ cfg.queueSize

end Traffic

section Steps

variable {cfg : Config} {s₀ s s' : Server M} {traffic : Traffic}

/-- A step that leaves the channel and the ended calls alone. -/
theorem Traffic.Accounts.keep
    (haccounts : traffic.Accounts cfg s)
    (hqueue : s'.queue = s.queue)
    (hended : ∀ id record ending, s.calls id = .ended record ending →
      s'.calls id = .ended record ending)
    (haccepted : ∀ id, (s'.calls id).isAccepted = true → (s.calls id).isAccepted = true) :
    traffic.Accounts cfg s' where
  order := by rw [hqueue, haccounts.order]
  nodup := haccounts.nodup
  sent := by
    intro request hmem
    obtain ⟨record, hparsed, hcall⟩ := haccounts.sent request hmem
    exact ⟨record, hparsed, hended _ _ _ hcall⟩
  accepted := fun id hnew => haccounts.accepted id (haccepted id hnew)
  bounded := by rw [hqueue]; exact haccounts.bounded

/-- A call that does not send moves on or ends with an error. -/
theorem Traffic.Accounts.keepCall
    {id : Uuid} {call : EnqueueCall M}
    (haccounts : traffic.Accounts cfg s)
    (hlive : (s.calls id).isLive = true)
    (hcalls : s'.calls = Function.update s.calls id call)
    (hqueue : s'.queue = s.queue)
    (hnot : call.isAccepted = false) :
    traffic.Accounts cfg s' := by
  refine haccounts.keep hqueue ?_ ?_
  · intro other record ending hother
    rw [hcalls]
    by_cases hid : other = id
    · rw [← hid, hother] at hlive
      cases hlive
    · rw [Function.update_of_ne hid, hother]
  · intro other hnew
    rw [hcalls] at hnew
    by_cases hid : other = id
    · rw [hid, Function.update_self, hnot] at hnew
      cases hnew
    · rwa [Function.update_of_ne hid] at hnew

/-- `try_send` succeeds only below the capacity. -/
theorem Server.length_lt_of_trySend
    (h : s.trySend cfg = none) :
    s.queue.length < cfg.queueSize := by
  unfold Server.trySend at h
  split at h
  · cases h
  · split at h
    · cases h
    · omega

/-- A send that goes through. -/
theorem Traffic.Accounts.send
    {id : Uuid} {sub : Submission M}
    (haccounts : traffic.Accounts cfg s)
    (hid : sub.request.id = id)
    (hcall : s.calls id = .live sub .sending)
    (hsend : s.trySend cfg = none) :
    Traffic.Accounts cfg (s.sendCall cfg id sub)
      { traffic with sent := traffic.sent ++ [sub.request] } := by
  have hresult : s.sendCall cfg id sub =
      { s.endCall id sub.record (.returned (.ok (queueResponse id))) with
        queue := s.queue ++ [sub.request]
        effects := s.effects ++ [.accepted id] } := by
    rw [Server.sendCall, hsend]
  have hcalls : (s.sendCall cfg id sub).calls = Function.update s.calls id
      (.ended sub.record (.returned (.ok (queueResponse id)))) := by
    rw [hresult]
    rfl
  have hqueue : (s.sendCall cfg id sub).queue = s.queue ++ [sub.request] := by
    rw [hresult]
  have hnew : ∀ request ∈ traffic.sent, request.id ≠ id := by
    intro request hmem hsame
    obtain ⟨record, -, hended⟩ := haccounts.sent request hmem
    rw [hsame, hcall] at hended
    cases hended
  refine ⟨?_, ?_, ?_, ?_, ?_⟩
  · rw [hqueue, ← List.append_assoc, haccounts.order]
  · rw [List.map_append, List.map_singleton, List.nodup_append]
    refine ⟨haccounts.nodup, List.nodup_singleton _, ?_⟩
    intro other hother last hlast
    obtain ⟨request, hmem, rfl⟩ := List.mem_map.mp hother
    rw [List.mem_singleton.mp hlast, hid]
    exact hnew request hmem
  · intro request hmem
    rw [List.mem_append, List.mem_singleton] at hmem
    unfold Server.Sent
    rw [hcalls]
    rcases hmem with hold | rfl
    · obtain ⟨record, hparsed, hended⟩ := haccounts.sent request hold
      exact ⟨record, hparsed, by rw [Function.update_of_ne (hnew request hold), hended]⟩
    · exact ⟨sub.record, sub.parsed, by rw [hid, Function.update_self]⟩
  · intro other haccepted
    rw [hcalls] at haccepted
    by_cases hother : other = id
    · exact ⟨sub.request, List.mem_append_right _ (List.mem_singleton.mpr rfl),
        hid.trans hother.symm⟩
    · rw [Function.update_of_ne hother] at haccepted
      obtain ⟨request, hmem, hrequest⟩ := haccounts.accepted other haccepted
      exact ⟨request, List.mem_append_left _ hmem, hrequest⟩
  · have hlength := Server.length_lt_of_trySend hsend
    rw [hqueue, List.length_append, List.length_singleton]
    omega

theorem callStep_accounts
    {lives : Uuid → Life M} {id : Uuid} {action : CallAction}
    (htracks : Tracks s lives)
    (haccounts : traffic.Accounts cfg s)
    (hcase : Server.CallCase cfg s id action s') :
    (traffic.note cfg s (.call id action)).Accounts cfg s' := by
  have hlive := (callStep_calls hcase).1
  have hquiet : ∀ action, action ≠ .send →
      traffic.note cfg s (.call id action) = traffic := by
    intro action hne
    cases action with
    | send => exact absurd rfl hne
    | _ => simp [Traffic.note, Server.sentBy, Server.receivedBy]
  cases hcase with
  | check record hcall =>
      rw [hquiet _ (by simp)]
      unfold Server.checkCall
      split
      · exact haccounts.keepCall hlive rfl rfl rfl
      · split <;> exact haccounts.keepCall hlive rfl rfl rfl
  | insert sub hcall =>
      rw [hquiet _ (by simp)]
      exact haccounts.keepCall hlive rfl rfl rfl
  | append sub outcome hcall =>
      rw [hquiet _ (by simp)]
      unfold Server.appendCall
      split <;> exact haccounts.keepCall hlive rfl rfl rfl
  | send sub hcall =>
      have hid : sub.request.id = id :=
        sub.request_id.trans (htracks.sub_id hcall)
      cases hsend : s.trySend cfg with
      | some reason =>
          have hnote : traffic.note cfg s (.call id .send) = traffic := by
            simp [Traffic.note, Server.sentBy, Server.receivedBy, hsend]
          rw [hnote, Server.sendCall, hsend]
          exact haccounts.keepCall hlive rfl rfl rfl
      | none =>
          have hnote : traffic.note cfg s (.call id .send) =
              { traffic with sent := traffic.sent ++ [sub.request] } := by
            simp [Traffic.note, Server.sentBy, Server.receivedBy, hsend, hcall,
              EnqueueCall.outgoing]
          rw [hnote]
          exact haccounts.send hid hcall hsend
  | rollback sub reason hcall =>
      rw [hquiet _ (by simp)]
      exact haccounts.keepCall hlive rfl rfl rfl
  | persist sub reason now outcome hcall =>
      rw [hquiet _ (by simp)]
      exact haccounts.keepCall hlive rfl rfl rfl
  | drop sub pc now written hcall hpc =>
      rw [hquiet _ (by simp)]
      cases pc <;> exact haccounts.keepCall hlive rfl rfl rfl

/-- Only `recv` takes something out of the channel. -/
theorem workerStep_queue
    {w : Nat} {action : WorkerAction M}
    (hcase : Server.WorkerCase cfg s w action s') :
    s.receivedBy (.worker w action) ++ s'.queue = s.queue := by
  cases hcase with
  | initWorker outcome hloop => cases outcome <;> rfl
  | recv request rest hloop hqueue => simp [Server.receivedBy, hqueue]
  | recvClosed hloop hqueue hsenders => simp [Server.receivedBy, hqueue, Server.setLoop]
  | markRunning request now hloop =>
      unfold Server.markRunning
      split <;> rfl
  | publish request result restart now hloop =>
      unfold Server.publishLoop
      split <;> rfl
  | _ => rfl

theorem step_accounts
    {lives : Uuid → Life M} {a : Action M}
    (hstep : s.step cfg a = some s')
    (htracks : Tracks s lives)
    (haccounts : traffic.Accounts cfg s) :
    (traffic.note cfg s a).Accounts cfg s' := by
  have hquiet : s.sentBy cfg a = [] → s.receivedBy a = [] →
      traffic.note cfg s a = traffic := by
    intro hsent hreceived
    simp [Traffic.note, hsent, hreceived]
  cases a with
  | call id action => exact callStep_accounts htracks haccounts (Server.callStep_cases hstep)
  | worker w action =>
      simp only [Server.step] at hstep
      split at hstep
      · have hcase := Server.workerStep_cases hstep
        obtain ⟨loop, hspends⟩ := workerStep_spends hcase
        have hqueue := workerStep_queue hcase
        have hsent : s.sentBy cfg (.worker w action) = [] := rfl
        refine ⟨?_, ?_, ?_, ?_, ?_⟩
        · simp only [Traffic.note, hsent, List.append_nil]
          rw [List.append_assoc, hqueue, haccounts.order]
        · simpa only [Traffic.note, hsent, List.append_nil] using haccounts.nodup
        · simp only [Traffic.note, hsent, List.append_nil]
          intro request hmem
          unfold Server.Sent
          rw [hspends.calls]
          exact haccounts.sent request hmem
        · simp only [Traffic.note, hsent, List.append_nil]
          rw [hspends.calls]
          exact haccounts.accepted
        · have hlength := congrArg List.length hqueue
          rw [List.length_append] at hlength
          have hbounded := haccounts.bounded
          omega
      · cases hstep
  | submit record =>
      rw [hquiet rfl rfl]
      simp only [Server.step, Server.submit] at hstep
      split at hstep
      case h_1 hserving hcall =>
          cases hstep
          refine haccounts.keep rfl ?_ ?_
          · intro other current ending hother
            by_cases hid : other = record.id
            · rw [hid, hcall] at hother
              cases hother
            · exact (Function.update_of_ne hid _ _).trans hother
          · intro other hnew
            by_cases hid : other = record.id
            · simp only [Server.setCall, hid, Function.update_self] at hnew
              cases hnew
            · simpa only [Server.setCall, Function.update_of_ne hid] using hnew
      case h_2 => cases hstep
  | read id =>
      rw [hquiet rfl rfl]
      cases hstep
      exact haccounts.keep rfl (fun _ _ _ h => h) (fun _ h => h)
  | shutdown =>
      rw [hquiet rfl rfl]
      simp only [Server.step] at hstep
      split at hstep <;> cases hstep
      exact haccounts.keep rfl (fun _ _ _ h => h) (fun _ h => h)
  | backgroundDone w id =>
      rw [hquiet rfl rfl]
      simp only [Server.step] at hstep
      split at hstep <;> cases hstep
      exact haccounts.keep rfl (fun _ _ _ h => h) (fun _ h => h)

theorem Started.accounts
    (hstarted : Started cfg s) :
    Traffic.empty.Accounts cfg s := by
  obtain ⟨jobs, disk, effects, reads, used, rfl⟩ := hstarted.exists_start
  refine ⟨rfl, List.nodup_nil, ?_, ?_, Nat.zero_le _⟩
  · intro request hmem
    cases hmem
  · intro id haccepted
    cases hused : used id <;> simp [Server.start, hused, EnqueueCall.isAccepted] at haccepted

/--
However the calls and the worker loops interleave, the channel delivers every sent
request once and in the order of sending, and never holds more than `queue_size`
requests.  What is sent are the parsed records of exactly the accepted jobs.
-/
theorem requests_are_received_in_order
    {ok : Server M → Action M → Prop}
    (hstarted : Started cfg s₀)
    (hrun : ObservedRun (Server.step cfg) ok (Traffic.note cfg)
      (s₀, Traffic.empty) (s, traffic)) :
    traffic.Accounts cfg s := by
  obtain ⟨lives₀, htracks₀, -⟩ := hstarted.tracks
  have hinvariant := hrun.invariant
    (I := fun s traffic => (∃ lives, Tracks s lives) ∧ traffic.Accounts cfg s)
    (fun s traffic a s' _ hstep h => by
      obtain ⟨⟨lives, htracks⟩, haccounts⟩ := h
      obtain ⟨lives', htracks', -⟩ := step_tracks htracks hstep
      exact ⟨⟨lives', htracks'⟩, step_accounts hstep htracks haccounts⟩)
    ⟨⟨lives₀, htracks₀⟩, hstarted.accounts⟩
  exact hinvariant.2

/-- Two jobs are sent and a worker takes the first. -/
def trafficActions : List (Action String) :=
  enqueueActions (sampleRecord 1 5 none) ++ enqueueActions (sampleRecord 2 6 none) ++
    readyActions 0 ++ [.worker 0 .recv]

theorem requests_are_received_in_order_sample :
    ∃ (s : Server String) (traffic : Traffic),
      ObservedRun (Server.step Config.default) (fun _ _ => True)
        (Traffic.note Config.default)
        (Server.initial Config.default, Traffic.empty) (s, traffic) ∧
      traffic.received.map (fun request => request.id) = [1] ∧
      traffic.received ++ s.queue = traffic.sent := by
  have hexec : (runActions (observed (Server.step Config.default)
      (Traffic.note Config.default)) (fun _ _ => true)
      (Server.initial Config.default, Traffic.empty) trafficActions).any
      (fun q => q.2.received.map (fun request => request.id) == [1]) = true := by
    decide +kernel
  obtain ⟨⟨s, traffic⟩, hrun, htest⟩ :
      ∃ q, ObservedRun (Server.step Config.default) (fun _ _ => True)
        (Traffic.note Config.default) (Server.initial Config.default, Traffic.empty) q ∧
        (q.2.received.map (fun request => request.id) == [1]) = true :=
    exists_observedRun_of_any (fun _ _ _ => trivial) hexec
  have haccounts := requests_are_received_in_order (started_initial Config.default) hrun
  exact ⟨s, traffic, hrun, by simpa using htest, haccounts.order⟩

end Steps

section Backlog

variable {cfg : Config} {s₀ s : Server M}

/-- The accepted jobs that have not entered `finish_job`. -/
def Server.unfinished (s : Server M) : Set Uuid :=
  {id | (s.calls id).isAccepted = true ∧ (s.effectsOf id).countP Effect.entersFinish = 0}

/-- The job that a worker is busy with, if any. -/
def Server.heldBy (s : Server M) (w : Nat) : Option Uuid :=
  (s.loops w).held.map Prod.fst

theorem unfinished_subset
    (hstarted : Started cfg s₀)
    {ok : Server M → Action M → Prop}
    (hrun : Run (Server.step cfg) ok s₀ s)
    {id : Uuid}
    (hid : id ∈ s.unfinished) :
    s.Queued id ∨ ∃ w < cfg.workers, s.heldBy w = some id := by
  obtain ⟨⟨lives, htracks⟩, hbeyond, -⟩ := hstarted.accounted.run hrun
  rcases htracks.accepted_cases hid.1 with ⟨hfinished, -⟩ | hqueued | ⟨w, pc, hheld⟩
  · have hnone : (s.effectsOf id).countP Effect.entersFinish = 0 := hid.2
    omega
  · exact Or.inl hqueued
  · refine Or.inr ⟨w, ?_, by rw [Server.heldBy, hheld]; rfl⟩
    by_contra hw
    rw [hbeyond w (Nat.le_of_not_lt hw)] at hheld
    cases hheld

/-- Jobs that workers hold are at most as many as the workers. -/
theorem ncard_heldBy_le
    {jobs : Set Uuid} {n : Nat}
    (hheld : ∀ id ∈ jobs, ∃ w < n, s.heldBy w = some id) :
    jobs.ncard ≤ n := by
  have hsubset : some '' jobs ⊆ ((Finset.range n).image s.heldBy : Finset (Option Uuid)) := by
    rintro _ ⟨id, hid, rfl⟩
    obtain ⟨w, hw, hsome⟩ := hheld id hid
    exact Finset.mem_coe.mpr (Finset.mem_image.mpr ⟨w, Finset.mem_range.mpr hw, hsome⟩)
  have hcard := Set.ncard_le_ncard hsubset (Finset.finite_toSet _)
  rw [Set.ncard_image_of_injective _ (Option.some_injective _), Set.ncard_coe_finset] at hcard
  exact hcard.trans (Finset.card_image_le.trans (Finset.card_range n).le)

theorem ncard_queued_le :
    {id | s.Queued id}.ncard ≤ s.queue.length := by
  have hsubset : {id | s.Queued id} ⊆
      ((s.queue.map (fun request => request.id)).toFinset : Finset Uuid) := by
    rintro id ⟨request, hmem, hid⟩
    exact Finset.mem_coe.mpr (List.mem_toFinset.mpr (List.mem_map.mpr ⟨request, hmem, hid⟩))
  have hcard := Set.ncard_le_ncard hsubset (Finset.finite_toSet _)
  rw [Set.ncard_coe_finset] at hcard
  exact hcard.trans ((List.toFinset_card_le _).trans (List.length_map _).le)

/--
Back-pressure: in every reachable state at most `queue_size + workers` accepted
jobs are unfinished, and all but `workers` of them are in the channel.
-/
theorem unfinished_jobs_are_bounded
    {ok : Server M → Action M → Prop}
    (hstarted : Started cfg s₀)
    (hrun : Run (Server.step cfg) ok s₀ s) :
    s.unfinished.ncard ≤ cfg.queueSize + cfg.workers ∧
    (s.unfinished \ {id | s.Queued id}).ncard ≤ cfg.workers := by
  have hrest : (s.unfinished \ {id | s.Queued id}).ncard ≤ cfg.workers := by
    refine ncard_heldBy_le (s := s) (fun id hid => ?_)
    exact (unfinished_subset hstarted hrun hid.1).resolve_left hid.2
  refine ⟨?_, hrest⟩
  obtain ⟨traffic, hobserved⟩ := hrun.exists_observed (Traffic.note cfg) Traffic.empty
  have hbounded := (requests_are_received_in_order hstarted hobserved).bounded
  have hqueued := ncard_queued_le (s := s)
  have hsplit := Set.ncard_le_ncard_sdiff_add_ncard s.unfinished {id | s.Queued id}
    (Set.toFinite _)
  omega

/-- Two jobs are unfinished, one of them with a worker. -/
theorem unfinished_jobs_are_bounded_sample :
    ∃ s : Server String, s.queue.length = 1 ∧
      s.unfinished.ncard ≤ Config.default.queueSize + Config.default.workers := by
  have hexec : (runActions (Server.step Config.default) (fun _ _ => true)
      (Server.initial Config.default) trafficActions).any
      (fun s => s.queue.length == 1) = true := by
    decide +kernel
  obtain ⟨s, hrun, htest⟩ : ∃ s, Run (Server.step Config.default) (fun _ _ => True)
      (Server.initial Config.default) s ∧ (s.queue.length == 1) = true :=
    exists_run_of_any (fun _ _ _ => trivial) hexec
  exact ⟨s, by simpa using htest,
    (unfinished_jobs_are_bounded (started_initial Config.default) hrun).1⟩

end Backlog
end FlorenceServer
