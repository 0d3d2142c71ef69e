import FlorenceServer.Jobs.Tracking

/-!
# Records that nobody owns

A queued record is only of use while something will still act on it: its
request in the queue, a worker that holds the request, or the call that made it.
A call that fails while it saves the submission leaves its record behind, a call
whose future is dropped may do so, and the last worker to leave takes nobody
with it.  Outside these cases every record that is not terminal has an owner.
-/

namespace FlorenceServer

open JobRecord Runs

variable {M : Type}

section FailedCalls

variable {cfg : Config} {s₀ s s' : Server M} {id : Uuid}

/-- The call is about to fail at the submissions file with its record in the map. -/
def Server.FailsUnsaved (s : Server M) (id : Uuid) (action : CallAction) : Prop :=
  (∃ sub, s.calls id = .live sub .appending) ∧
    (∃ written, action = .append (.failed written)) ∧
    s.jobs.get id ≠ none

theorem run_tracked
    {ok : Server M → Action M → Prop}
    (hstarted : Started cfg s₀)
    (hrun : Run (Server.step cfg) ok s₀ s) :
    ∃ lives, Tracks s lives := by
  obtain ⟨lives₀, htracks₀, -⟩ := hstarted.tracks
  obtain ⟨lives, htracks, -⟩ := run_tracks (P := fun _ _ => True)
    (fun _ _ _ _ _ _ _ _ _ _ _ _ => trivial) hrun htracks₀ (fun _ => trivial)
  exact ⟨lives, htracks⟩

theorem not_queued_of_requests
    {L : Life M}
    (hview : View s id L)
    (hrequests : L.stage.requests = 0) :
    ¬ s.Queued id := by
  rintro ⟨request, hmem, hid⟩
  have hcount := hview.requests
  rw [hrequests, List.countP_eq_zero] at hcount
  exact hcount request hmem (by simpa using hid)

/-- A call that has ended without `Ok` stays away from the queue and the map. -/
theorem LifeStep.absent
    {a : Action M} {L L' : Life M} {record : JobRecord M} {err : EnqueueError}
    (hstep : LifeStep cfg id a L L')
    (hstage : L.stage = .settled record (.returned (.error err)))
    (hrecord : L.record = none) :
    L'.stage = .settled record (.returned (.error err)) ∧ L'.record = none := by
  cases hstep with
  | stutter => exact ⟨hstage, hrecord⟩
  | evict w order => exact ⟨hstage, rfl⟩
  | read => exact ⟨hstage, hrecord⟩
  | _ => simp_all

/-- The other jobs keep their entries during a step of a call. -/
theorem call_frame
    {lives : Uuid → Life M} {action : CallAction} {other : Uuid}
    (htracks : Tracks s lives)
    (hstep : s.step cfg (.call id action) = some s')
    (hne : other ≠ id) :
    s'.jobs.get other = s.jobs.get other :=
  (sameAt_callStep htracks (Server.callStep_cases hstep) hne).record

/-- What the last step of a failing call leaves in the map. -/
theorem failing_record_iff
    {lives lives' : Uuid → Life M} {action : CallAction}
    {record : JobRecord M} {err : EnqueueError}
    (htracks : Tracks s lives)
    (hstep : s.step cfg (.call id action) = some s')
    (hlife : LifeStep cfg id (.call id action) (lives id) (lives' id))
    (hstage' : (lives' id).stage = .settled record (.returned (.error err))) :
    (lives' id).record = none ↔ ¬ s.FailsUnsaved id action := by
  obtain ⟨hview, hok⟩ := htracks id
  have hcase := Server.callStep_cases hstep
  generalize hL : lives' id = L' at hlife hstage'
  cases hlife with
  | stutter =>
      have hcall := hview.call
      rw [hstage'] at hcall
      cases hcase <;> simp_all [Stage.call]
  | reject submitted err' herr hstage =>
      have hnone : (lives id).record = none := by
        simp only [Life.Ok, hstage] at hok
        exact hok.2.1
      refine iff_of_true hnone ?_
      rintro ⟨⟨sub, hcall⟩, -, -⟩
      rw [hview.call, hstage] at hcall
      cases hcall
  | appendFailed sub outcome hfailed hstage =>
      have hcall : s.calls id = .live sub .appending := by
        rw [hview.call, hstage]
        rfl
      constructor
      · rintro hnone ⟨-, -, hpresent⟩
        exact hpresent (hview.record.trans hnone)
      · intro hnot
        by_contra hpresent
        refine hnot ⟨⟨sub, hcall⟩, ?_, ?_⟩
        · cases outcome with
          | ok => cases hfailed
          | failed written => exact ⟨written, rfl⟩
        · rw [hview.record]
          exact hpresent
  | persist sub reason now outcome err' hstage =>
      have hnone : (lives id).record = none := by
        simp only [Life.Ok, hstage] at hok
        exact hok.2.1.1
      refine iff_of_true hnone ?_
      rintro ⟨⟨sub', hcall⟩, -, -⟩
      rw [hview.call, hstage] at hcall
      cases hcall
  | _ => simp_all

/--
In every reachable state, the step with which `enqueue_record` returns an error
leaves neither a record nor a request behind, unless the append to the
submissions file failed while the record was in the map.  Where it leaves
nothing, nothing comes back, and no step of a call touches another record.
-/
theorem failed_call_leaves_nothing_iff
    {ok : Server M → Action M → Prop} {action : CallAction}
    (hstarted : Started cfg s₀)
    (hrun : Run (Server.step cfg) ok s₀ s)
    (hstep : s.step cfg (.call id action) = some s') :
    (∀ record err, s'.calls id = .ended record (.returned (.error err)) →
      ((s'.jobs.get id = none ∧ ¬ s'.Queued id) ↔ ¬ s.FailsUnsaved id action) ∧
      (¬ s.FailsUnsaved id action →
        ∀ t, Run (Server.step cfg) ok s' t → t.jobs.get id = none ∧ ¬ t.Queued id)) ∧
    (∀ other, other ≠ id → s'.jobs.get other = s.jobs.get other) := by
  obtain ⟨lives, htracks⟩ := run_tracked hstarted hrun
  refine ⟨?_, fun other hne => call_frame htracks hstep hne⟩
  intro record err hended
  obtain ⟨lives', htracks', hlife⟩ := step_tracks htracks hstep
  obtain ⟨hview', hok'⟩ := htracks' id
  have hstage' : (lives' id).stage = .settled record (.returned (.error err)) := by
    rw [hview'.call] at hended
    cases hstage : (lives' id).stage <;> rw [hstage] at hended <;> cases hended
    rfl
  have hiff := failing_record_iff htracks hstep (hlife id) hstage'
  have hrequests : (lives' id).stage.requests = 0 := by rw [hstage']; rfl
  constructor
  · rw [hview'.record, hiff]
    exact and_iff_left (not_queued_of_requests hview' hrequests)
  · intro hnot t hrun'
    obtain ⟨livest, htrackst, hlivest⟩ := run_tracks
      (P := fun i (L : Life M) => i = id →
        L.stage = .settled record (.returned (.error err)) ∧ L.record = none)
      (fun _ _ _ _ _ i _ _ _ _ hstep' hP hi => by
        obtain ⟨hst, hrec⟩ := hP hi
        exact hstep'.absent hst hrec)
      hrun' htracks' (fun i hi => by subst hi; exact ⟨hstage', hiff.mpr hnot⟩)
    obtain ⟨hst, hrec⟩ := hlivest id rfl
    obtain ⟨hviewt, -⟩ := htrackst id
    exact ⟨hviewt.record.trans hrec,
      not_queued_of_requests hviewt (by rw [hst]; rfl)⟩

/-- A queue of one request turns the second submission away. -/
theorem failed_call_leaves_nothing_iff_sample :
    ∃ s s' : Server String, ∃ cfg : Config,
      s.step cfg (.call 2 .check) = some s' ∧
      s'.jobs.get 2 = none ∧ ¬ s'.Queued 2 ∧ s'.jobs.get 1 = s.jobs.get 1 := by
  let cfg : Config := { Config.default with queueSize := 1 }
  obtain ⟨s, s', hexec, hstep, hended, hchecking⟩ : ∃ s s' : Server String,
      runActions (Server.step cfg) (fun _ a => a.fromSamples) (Server.initial cfg)
        (enqueueActions (sampleRecord 1 5 none) ++ [.submit (sampleRecord 2 6 none)]) =
        some s ∧
      s.step cfg (.call 2 .check) = some s' ∧
      s'.calls 2 = .ended (sampleRecord 2 6 none) (.returned (.error .queueFull)) ∧
      s.calls 2 = .checking (sampleRecord 2 6 none) :=
    ⟨_, _, rfl, rfl, rfl, rfl⟩
  have hrun : Run (Server.step cfg) (fun _ a => a.FromHandlers) _ s :=
    run_of_runActions (fun _ _ h => Action.fromHandlers_of_samples h) _ _ s hexec
  have hresult := failed_call_leaves_nothing_iff (started_initial cfg) hrun hstep
  have hsaved : ¬ s.FailsUnsaved 2 .check := by
    rintro ⟨⟨sub, hcall⟩, -, -⟩
    rw [hchecking] at hcall
    cases hcall
  obtain ⟨habsent, hqueue⟩ := (hresult.1 _ _ hended).1.mpr hsaved
  exact ⟨s, s', cfg, hstep, habsent, hqueue, hresult.2 1 (by decide)⟩

/-- A full disk fails the append, and the client gets an error for a job that
stays in the map as queued. -/
theorem failed_call_leaves_its_record :
    ¬ ∀ (cfg : Config) (s₀ s s' : Server String) (id : Uuid) (action : CallAction)
      (record : JobRecord String) (err : EnqueueError),
      Started cfg s₀ →
      Run (Server.step cfg) (fun _ a => a.FromHandlers ∧ a.NoDrop) s₀ s →
      s.step cfg (.call id action) = some s' →
      s'.calls id = .ended record (.returned (.error err)) →
      s'.jobs.get id = none ∧ ¬ s'.Queued id := by
  intro hclaim
  let cfg := Config.default
  obtain ⟨s, s', hexec, hstep, hended, hleft⟩ : ∃ s s' : Server String,
      runActions (Server.step cfg) (fun _ a => a.undisturbed) (Server.initial cfg)
        [.submit (sampleRecord 1 5 none), .call 1 .check, .call 1 .insert] = some s ∧
      s.step cfg (.call 1 (.append (.failed false))) = some s' ∧
      s'.calls 1 = .ended (sampleRecord 1 5 none) (.returned (.error .persist)) ∧
      s'.jobs.get 1 = some (sampleRecord 1 5 none) :=
    ⟨_, _, rfl, rfl, rfl, rfl⟩
  have hguard : ∀ (_ : Server String) (a : Action String), a.undisturbed = true →
      a.FromHandlers ∧ a.NoDrop := by
    intro _ a h
    obtain ⟨hhandlers, -, hdrop⟩ := Action.of_undisturbed h
    exact ⟨hhandlers, hdrop⟩
  have habsent := (hclaim cfg _ s s' 1 _ _ _ (started_initial cfg)
    (run_of_runActions hguard _ _ s hexec) hstep hended).1
  rw [hleft] at habsent
  cases habsent

end FailedCalls

section Owners

variable {cfg : Config} {s₀ s s' : Server M} {id : Uuid}

/-- Something will still act on the job. -/
def Server.Owned (s : Server M) (id : Uuid) : Prop :=
  s.Queued id ∨ s.Held id ∨ (s.calls id).isLive = true

/-- No call is dropped, and none fails at the submissions file, while its record
is in the map. -/
structure LeavesNoRecord (s : Server M) (a : Action M) : Prop where
  drop : ∀ id now written, a = .call id (.drop now written) → s.jobs.get id = none
  append : ∀ id written, a = .call id (.append (.failed written)) → s.jobs.get id = none

/-- A job that came to rest is terminal or gone. -/
def Life.NoLeftover (L : Life M) : Prop :=
  ∀ submitted ending, L.stage = .settled submitted ending →
    ∀ record, L.record = some record → record.Terminal

theorem LifeStep.noLeftover
    {a : Action M} {L L' : Life M}
    (hstep : LifeStep cfg id a L L')
    (hok : L.Ok id)
    (hdrop : ∀ now written, a = .call id (.drop now written) → L.record = none)
    (happend : ∀ written, a = .call id (.append (.failed written)) → L.record = none)
    (h : L.NoLeftover) :
    L'.NoLeftover := by
  cases hstep with
  | stutter => exact h
  | reject record err herr hstage =>
      simp only [Life.Ok, hstage] at hok
      intro submitted ending _ r hr
      rw [hok.2.1] at hr
      cases hr
  | appendFailed sub outcome hfailed hstage =>
      intro submitted ending _ r hr
      cases outcome with
      | ok => cases hfailed
      | failed written =>
          have hnone := happend written rfl
          rw [hnone] at hr
          cases hr
  | persist sub reason now outcome err hstage =>
      simp only [Life.Ok, hstage] at hok
      intro submitted ending _ r hr
      rw [hok.2.1.1] at hr
      cases hr
  | drop sub pc now written hpc hstage =>
      intro submitted ending _ r hr
      have hnone := hdrop now written rfl
      rw [hnone] at hr
      cases hr
  | dropAppending sub now written hstage =>
      intro submitted ending _ r hr
      have hnone := hdrop now written rfl
      rw [hnone] at hr
      cases hr
  | dropPersisting sub reason now written hstage =>
      intro submitted ending _ r hr
      have hnone := hdrop now written rfl
      rw [hnone] at hr
      cases hr
  | miss record w now hstage hrecord =>
      intro submitted ending _ r hr
      rw [hrecord] at hr
      cases hr
  | cleanup record final w removal hstage =>
      simp only [Life.Ok, hstage] at hok
      obtain ⟨-, -, hfinal, hresident, -⟩ := hok
      intro submitted ending _ r hr
      rw [hresident.eq_of_some hr]
      exact hfinal.terminal
  | evict w order =>
      intro submitted ending _ r hr
      cases hr
  | read => exact h
  | _ =>
      intro submitted ending hsettled
      cases hsettled

theorem noLeftover_of_unsubmitted
    {L : Life M}
    (h : L.stage = .fresh ∨ L.stage = .past) :
    L.NoLeftover := by
  intro submitted ending hsettled
  rcases h with hfresh | hpast
  · rw [hfresh] at hsettled
    cases hsettled
  · rw [hpast] at hsettled
    cases hsettled

theorem run_noLeftover
    {ok : Server M → Action M → Prop}
    (hsafe : ∀ s a, ok s a → LeavesNoRecord s a)
    (hstarted : Started cfg s₀)
    (hrun : Run (Server.step cfg) ok s₀ s) :
    ∃ lives, Tracks s lives ∧ ∀ id, (lives id).NoLeftover := by
  obtain ⟨lives₀, htracks₀, hstage₀⟩ := hstarted.tracks
  refine run_tracks (P := fun _ (L : Life M) => L.NoLeftover) ?_ hrun htracks₀ ?_
  · intro s a s' lives lives' id hok _ htracks _ hlife h
    have hsafe' := hsafe s a hok
    refine hlife.noLeftover (htracks id).2 ?_ ?_ h
    · intro now written ha
      exact (htracks id).1.record.symm.trans (hsafe'.drop id now written ha)
    · intro written ha
      exact (htracks id).1.record.symm.trans (hsafe'.append id written ha)
  · exact fun id => noLeftover_of_unsubmitted (hstage₀ id)

/-- A record without an owner is terminal. -/
theorem terminal_of_not_owned
    {L : Life M} {record : JobRecord M}
    (hview : View s id L)
    (hok : L.Ok id)
    (hleft : L.NoLeftover)
    (hrecord : s.jobs.get id = some record)
    (howned : ¬ s.Owned id) :
    record.Terminal := by
  have hlife : L.record = some record := hview.record.symm.trans hrecord
  cases hstage : L.stage with
  | fresh =>
      simp only [Life.Ok, hstage] at hok
      rw [hok.1] at hlife
      cases hlife
  | past =>
      simp only [Life.Ok, hstage] at hok
      exact (hok record hlife).2
  | checking submitted =>
      have hcall := hview.call
      rw [hstage] at hcall
      exact absurd (Or.inr (Or.inr (by rw [hcall]; rfl))) howned
  | calling sub pc =>
      have hcall := hview.call
      rw [hstage] at hcall
      exact absurd (Or.inr (Or.inr (by rw [hcall]; rfl))) howned
  | queued submitted =>
      have hcount := hview.requests
      rw [hstage] at hcount
      have hpos : 0 < s.queue.countP (fun request => decide (request.id = id)) := by
        rw [hcount]
        exact Nat.one_pos
      obtain ⟨request, hmem, hid⟩ := List.countP_pos_iff.mp hpos
      exact absurd (Or.inl ⟨request, hmem, of_decide_eq_true hid⟩) howned
  | held submitted w pc =>
      have hheld := (hview.holder w pc).mpr (by rw [hstage]; rfl)
      exact absurd (Or.inr (Or.inl ⟨w, pc, hheld⟩)) howned
  | settled submitted ending => exact hleft submitted ending hstage record hlife

/--
As long as no call is dropped while its record is in the map, every queued
record has its request in the queue or with a worker, or its call still runs.
-/
theorem queued_records_are_owned
    {record : JobRecord M}
    (hstarted : Started cfg s₀)
    (hrun : Run (Server.step cfg)
      (fun s a => a.AppendsSucceed ∧
        ∀ id now written, a = .call id (.drop now written) → s.jobs.get id = none) s₀ s)
    (hrecord : s.jobs.get id = some record)
    (hqueued : record.status = .queued) :
    s.Owned id := by
  obtain ⟨lives, htracks, hleft⟩ := run_noLeftover
    (fun s a hok => ⟨hok.2, fun id written ha => by
      subst ha
      have hfailed := hok.1 (.failed written) rfl
      cases hfailed⟩) hstarted hrun
  by_contra howned
  have hterminal := terminal_of_not_owned (htracks id).1 (htracks id).2 (hleft id)
    hrecord howned
  rcases hterminal with hstatus | hstatus <;> rw [hqueued] at hstatus <;> cases hstatus

/-- Appends succeed, and a call is dropped only while it has no record. -/
def dropsNoRecord (s : Server String) (a : Action String) : Bool :=
  decide a.AppendsSucceed &&
    match a with
    | .call id (.drop _ _) => decide (s.jobs.get id = none)
    | _ => true

/-- A queued upload whose request waits for a worker, and a call that was dropped at the
lock of the map. -/
theorem queued_records_are_owned_sample :
    ∃ s : Server String,
      s.jobs.get 1 = some (sampleRecord 1 5 none) ∧ s.Owned 1 ∧
      s.calls 2 = .ended (sampleRecord 2 6 none) .dropped := by
  have hguard : ∀ (s : Server String) (a : Action String), dropsNoRecord s a = true →
      a.AppendsSucceed ∧
        ∀ id now written, a = .call id (.drop now written) → s.jobs.get id = none := by
    intro s a h
    obtain ⟨happends, hdrop⟩ := Bool.and_eq_true_iff.mp h
    refine ⟨of_decide_eq_true happends, ?_⟩
    rintro id now written rfl
    exact of_decide_eq_true hdrop
  obtain ⟨s, hexec, hrecord, hdropped⟩ : ∃ s : Server String,
      runActions (Server.step Config.default) dropsNoRecord (Server.initial Config.default)
        (enqueueActions (sampleRecord 1 5 none) ++
          [.submit (sampleRecord 2 6 none), .call 2 .check, .call 2 (.drop 7 false)]) = some s ∧
      s.jobs.get 1 = some (sampleRecord 1 5 none) ∧
      s.calls 2 = .ended (sampleRecord 2 6 none) .dropped :=
    ⟨_, rfl, rfl, rfl⟩
  exact ⟨s, hrecord, queued_records_are_owned (started_initial Config.default)
    (run_of_runActions hguard _ _ s hexec) hrecord rfl, hdropped⟩

/-- The request times out while the submission is being saved. -/
theorem dropped_call_leaves_a_queued_record :
    ¬ ∀ (cfg : Config) (s₀ s : Server String) (id : Uuid) (record : JobRecord String),
      Started cfg s₀ →
      Run (Server.step cfg) (fun s a => a.FromHandlers ∧ a.AppendsSucceed ∧
        ∀ w order, a = .worker w (.retain order) → s.jobs.len ≤ cfg.jobRetentionLimit)
        s₀ s →
      s.jobs.get id = some record → record.status = .queued → s.Owned id := by
  intro hclaim
  let cfg := Config.default
  obtain ⟨s, hexec, hrecord, hqueue, hheld, hcall⟩ : ∃ s : Server String,
      runActions (Server.step cfg) (fun s a => a.withinLimit cfg s) (Server.initial cfg)
        [.submit (sampleRecord 1 5 none), .call 1 .check, .call 1 .insert,
          .call 1 (.drop 6 false)] = some s ∧
      s.jobs.get 1 = some (sampleRecord 1 5 none) ∧ s.queue = [] ∧
      (∀ w, (s.loops w).held = none) ∧ s.calls 1 = .ended (sampleRecord 1 5 none) .dropped :=
    ⟨_, rfl, rfl, rfl, fun _ => rfl, rfl⟩
  have hguard : ∀ (s : Server String) (a : Action String), a.withinLimit cfg s = true →
      a.FromHandlers ∧ a.AppendsSucceed ∧
        ∀ w order, a = .worker w (.retain order) → s.jobs.len ≤ cfg.jobRetentionLimit := by
    intro s a h
    obtain ⟨hhandlers, happends, hlen⟩ := Action.of_withinLimit h
    exact ⟨hhandlers, happends, fun _ _ _ => hlen⟩
  have howned := hclaim cfg _ s 1 _ (started_initial cfg)
    (run_of_runActions hguard _ _ s hexec) hrecord rfl
  rcases howned with ⟨request, hmem, -⟩ | ⟨w, pc, hw⟩ | hlive
  · rw [hqueue] at hmem
    cases hmem
  · rw [hheld w] at hw
    cases hw
  · rw [hcall] at hlive
    cases hlive

end Owners

section LastExit

variable {cfg : Config} {s₀ s s' : Server M}

/-- The last worker leaves only when no queued job has a record. -/
def LeavesNobody (cfg : Config) (s : Server M) (a : Action M) : Prop :=
  ∀ w, a = .worker w .leave →
    (∀ w', w' < cfg.workers → w' ≠ w → (s.loops w').isReturned = true) →
    ∀ request ∈ s.queue, s.jobs.get request.id = none

/-- Only a worker that leaves can be the last one to return. -/
theorem step_allReturned
    {a : Action M}
    (hstep : s.step cfg a = some s')
    (hreturned : s'.allReturned cfg = true) :
    s.allReturned cfg = true ∨
      ∃ w, a = .worker w .leave ∧ w < cfg.workers ∧ s' = s.setLoop w .returned ∧
        ∀ w', w' < cfg.workers → w' ≠ w → (s.loops w').isReturned = true := by
  rw [allReturned_iff] at hreturned
  cases a with
  | worker w action =>
      simp only [Server.step] at hstep
      split at hstep
      case isFalse => cases hstep
      case isTrue hw =>
          have hcase := Server.workerStep_cases hstep
          obtain ⟨loop, hloops, hleave⟩ := workerStep_loops hcase
          have hloop : loop.isReturned = true := by
            have h := hreturned w hw
            rwa [hloops, Function.update_self] at h
          have haction := hleave hloop
          subst haction
          cases hcase with
          | leave hat =>
              refine Or.inr ⟨w, rfl, hw, rfl, ?_⟩
              intro w' hw' hne
              have h := hreturned w' hw'
              rwa [hloops, Function.update_of_ne hne] at h
  | submit record =>
      left
      rw [allReturned_iff]
      simp only [Server.step, Server.submit] at hstep
      split at hstep <;> cases hstep
      exact hreturned
  | call id action =>
      left
      rw [allReturned_iff, ← callStep_loops (Server.callStep_cases hstep)]
      exact hreturned
  | read id =>
      left
      cases hstep
      exact allReturned_iff.mpr hreturned
  | shutdown =>
      left
      simp only [Server.step] at hstep
      split at hstep <;> cases hstep
      exact allReturned_iff.mpr hreturned
  | backgroundDone w id =>
      left
      simp only [Server.step] at hstep
      split at hstep <;> cases hstep
      exact allReturned_iff.mpr hreturned

theorem exists_request_of_queued
    {id : Uuid} {L : Life M} {record : JobRecord M}
    (hview : View s id L)
    (hstage : L.stage = .queued record) :
    ∃ request ∈ s.queue, request.id = id := by
  have hcount := hview.requests
  rw [hstage] at hcount
  have hpos : 0 < s.queue.countP (fun request => decide (request.id = id)) := by
    rw [hcount]
    exact Nat.one_pos
  obtain ⟨request, hmem, hid⟩ := List.countP_pos_iff.mp hpos
  exact ⟨request, hmem, of_decide_eq_true hid⟩

/-- Once the workers are gone, a queued request has no record any more. -/
def Server.NobodyStranded (cfg : Config) (s : Server M) (lives : Uuid → Life M) : Prop :=
  s.allReturned cfg = true →
    ∀ id record, (lives id).stage = .queued record → (lives id).record = none

theorem step_nobodyStranded
    {a : Action M} {lives lives' : Uuid → Life M}
    (hleaves : LeavesNobody cfg s a)
    (hstep : s.step cfg a = some s')
    (htracks : Tracks s lives)
    (htracks' : Tracks s' lives')
    (hlife : ∀ id, LifeStep cfg id a (lives id) (lives' id))
    (h : s.NobodyStranded cfg lives) :
    s'.NobodyStranded cfg lives' := by
  intro hreturned' id record hstage'
  obtain ⟨hview, hok⟩ := htracks id
  obtain ⟨hview', -⟩ := htracks' id
  rcases step_allReturned hstep hreturned' with hreturned | ⟨w, rfl, hw, rfl, hothers⟩
  · have hlife' := hlife id
    generalize lives' id = L' at hlife' hstage' hview'
    cases hlife' with
    | stutter => exact h hreturned id record hstage'
    | evict w order => rfl
    | read => exact h hreturned id record hstage'
    | send sub hstage =>
        exfalso
        obtain ⟨request, hmem, hid⟩ := exists_request_of_queued hview' hstage'
        have hnot := not_queued_of_requests hview (by rw [hstage]; rfl)
        cases Server.callStep_cases hstep with
        | send sub' hcall =>
            have hclosed : s.trySend cfg = some .closed := by
              simp [Server.trySend, Server.queueClosed, hreturned]
            rw [Server.sendCall, hclosed] at hmem
            exact hnot ⟨request, hmem, hid⟩
    | _ => cases hstage'
  · obtain ⟨request, hmem, hid⟩ := exists_request_of_queued hview' hstage'
    have hnone := hleaves w rfl hothers request hmem
    rw [hid] at hnone
    exact hview'.record.symm.trans hnone

/--
When all workers have returned and no call is running, every record is
terminal, provided the last worker strands nobody and no call abandons its
record.
-/
theorem nobody_is_stranded
    {id : Uuid} {record : JobRecord M}
    (hstarted : Started cfg s₀)
    (hrun : Run (Server.step cfg)
      (fun s a => LeavesNoRecord s a ∧ LeavesNobody cfg s a) s₀ s)
    (hreturned : s.allReturned cfg = true)
    (hcalls : ∀ id, (s.calls id).isLive = false)
    (hrecord : s.jobs.get id = some record) :
    record.Terminal := by
  obtain ⟨lives₀, htracks₀, hstage₀⟩ := hstarted.tracks
  have hidle₀ : s₀.IdleBeyond cfg := hstarted.idleBeyond
  obtain ⟨lives, htracks, hleft, hidle, hstranded⟩ := hrun.invariant
    (I := fun s => ∃ lives, Tracks s lives ∧ (∀ id, (lives id).NoLeftover) ∧
      s.IdleBeyond cfg ∧ s.NobodyStranded cfg lives)
    (by
      rintro s a s' ⟨hsafe, hleaves⟩ hstep ⟨lives, htracks, hleft, hidle, hstranded⟩
      obtain ⟨lives', htracks', hlife⟩ := step_tracks htracks hstep
      refine ⟨lives', htracks', ?_, step_idleBeyond hstep hidle,
        step_nobodyStranded hleaves hstep htracks htracks' hlife hstranded⟩
      intro id
      refine (hlife id).noLeftover (htracks id).2 ?_ ?_ (hleft id)
      · intro now written ha
        exact (htracks id).1.record.symm.trans (hsafe.drop id now written ha)
      · intro written ha
        exact (htracks id).1.record.symm.trans (hsafe.append id written ha))
    ⟨lives₀, htracks₀, fun id => noLeftover_of_unsubmitted (hstage₀ id), hidle₀, by
      intro _ id submitted hqueued
      rcases hstage₀ id with hfresh | hpast
      · rw [hfresh] at hqueued
        cases hqueued
      · rw [hpast] at hqueued
        cases hqueued⟩
  obtain ⟨hview, hok⟩ := htracks id
  refine terminal_of_not_owned hview hok (hleft id) hrecord ?_
  rintro (⟨request, hmem, hid⟩ | ⟨w, pc, hw⟩ | hlive)
  · have hcount : (lives id).stage.requests ≠ 0 := by
      rw [← hview.requests]
      exact Nat.ne_of_gt (List.countP_pos_iff.mpr ⟨request, hmem, by simpa using hid⟩)
    obtain ⟨submitted, hstage⟩ := Stage.exists_queued_of_requests hcount
    have hnone := hstranded hreturned id submitted hstage
    rw [← hview.record, hrecord] at hnone
    cases hnone
  · by_cases hlt : w < cfg.workers
    · have hret := allReturned_iff.mp hreturned w hlt
      cases hloop : s.loops w <;> rw [hloop] at hret hw <;> cases hret
      cases hw
    · rw [hidle w (by omega)] at hw
      cases hw
  · rw [hcalls id] at hlive
    cases hlive

/-- Every call that runs has left a mark on the log. -/
theorem not_live_of_effects
    {lives : Uuid → Life M} {id : Uuid}
    (htracks : Tracks s lives)
    (heffects : ∀ e ∈ s.effects, e.jobId ≠ id) :
    (s.calls id).isLive = false := by
  obtain ⟨hview, hok⟩ := htracks id
  have hnil : (lives id).effects = [] := by
    rw [← hview.effects, List.filter_eq_nil_iff]
    intro e he
    simpa using heffects e he
  rw [hview.call]
  cases hstage : (lives id).stage with
  | checking record =>
      simp only [Life.Ok, hstage] at hok
      rw [hok.2.2.2.2] at hnil
      cases hnil
  | calling sub pc =>
      simp only [Life.Ok, hstage] at hok
      rw [hok.2.2.2] at hnil
      cases hnil
  | _ => rfl

/-- Only two jobs have left a mark, and their calls have ended. -/
theorem not_live_of_log
    {lives : Uuid → Life M} {first second : Uuid}
    (htracks : Tracks s lives)
    (hlog : s.effects.all (fun e => decide (e.jobId = first ∨ e.jobId = second)) = true)
    (hfirst : (s.calls first).isLive = false)
    (hsecond : (s.calls second).isLive = false) (id : Uuid) :
    (s.calls id).isLive = false := by
  by_cases hid : id = first ∨ id = second
  · rcases hid with rfl | rfl
    · exact hfirst
    · exact hsecond
  · refine not_live_of_effects htracks (fun e he hjob => hid ?_)
    rw [← hjob]
    exact of_decide_eq_true (List.all_eq_true.mp hlog e he)

/-- A worker leaves an empty queue. -/
def leavesEmptyQueue (s : Server String) (a : Action String) : Bool :=
  a.undisturbed && decide (a.isLeave = true → s.queue = [])

theorem leavesNobody_of_emptyQueue
    {s : Server String} {a : Action String}
    (h : leavesEmptyQueue s a = true) (cfg : Config) :
    LeavesNoRecord s a ∧ LeavesNobody cfg s a := by
  obtain ⟨hundisturbed, hqueue⟩ := Bool.and_eq_true_iff.mp h
  obtain ⟨-, happends, hdrop⟩ := Action.of_undisturbed hundisturbed
  refine ⟨⟨?_, ?_⟩, ?_⟩
  · rintro id now written rfl
    cases hdrop
  · rintro id written rfl
    cases happends (.failed written) rfl
  · rintro w rfl _ request hmem
    rw [of_decide_eq_true hqueue rfl] at hmem
    cases hmem

/-- The only worker does not come back from its first job.  The second one is submitted
while the queue is still open and sent when it is closed. -/
def closingActions : List (Action String) :=
  enqueueActions (sampleRecord 1 5 none) ++ readyActions 0 ++
    [.worker 0 .recv, .worker 0 .recordStarted, .worker 0 (.markRunning 8),
      .worker 0 (.infer 300000 .timedOut), .worker 0 .count, .worker 0 .count,
      .worker 0 .count, .worker 0 .count] ++
    finishActions 0 9 ++
    [.worker 0 .markStopped, .worker 0 (.initWorker .failed),
      .submit (sampleRecord 2 10 none), .call 2 .check, .call 2 .insert, .call 2 (.append .ok),
      .worker 0 .leave, .call 2 .send, .call 2 .rollback, .call 2 (.persist 11 .ok)]

/-- All have stopped, and the record of the second job was taken out of the map again. -/
def rollsBackSample (s : Server String) : Bool :=
  s.allReturned Config.default &&
    ((s.jobs.get 1).isSome && ((s.jobs.get 2).isNone &&
      (!(s.calls 2).isAccepted && (!(s.calls 1).isLive && (!(s.calls 2).isLive &&
        s.effects.all (fun e => decide (e.jobId = 1 ∨ e.jobId = 2)))))))

/-- The submission that meets the closed queue is rolled back. -/
theorem nobody_is_stranded_sample :
    ∃ (s : Server String) (record : JobRecord String),
      s.allReturned Config.default = true ∧
      (s.calls 2).isAccepted = false ∧ s.jobs.get 2 = none ∧
      s.jobs.get 1 = some record ∧ record.Terminal := by
  let cfg := Config.default
  have hexec : (runActions (Server.step cfg) leavesEmptyQueue (Server.initial cfg)
      closingActions).any rollsBackSample = true := by
    decide +kernel
  obtain ⟨s, hrun, htest⟩ := exists_run_of_any
    (fun _ _ h => leavesNobody_of_emptyQueue h cfg) hexec
  simp only [rollsBackSample, Bool.and_eq_true, Bool.not_eq_true',
    Option.isNone_iff_eq_none] at htest
  obtain ⟨hreturned, hsome, hgone, hrefused, hfirst, hsecond, hlog⟩ := htest
  obtain ⟨record, hrecord⟩ := Option.isSome_iff_exists.mp hsome
  obtain ⟨lives, htracks⟩ := run_tracked (started_initial cfg) hrun
  exact ⟨s, record, hreturned, hrefused, hgone, hrecord, nobody_is_stranded
    (started_initial cfg) hrun hreturned (not_live_of_log htracks hlog hfirst hsecond) hrecord⟩

/-- The only worker times out and fails to come back. -/
def strandingActions : List (Action String) :=
  enqueueActions (sampleRecord 1 5 none) ++ enqueueActions (sampleRecord 2 6 none) ++
    readyActions 0 ++
    [.worker 0 .recv, .worker 0 .recordStarted, .worker 0 (.markRunning 8),
      .worker 0 (.infer 300000 .timedOut), .worker 0 .count, .worker 0 .count,
      .worker 0 .count, .worker 0 .count] ++
    finishActions 0 9 ++
    [.worker 0 .markStopped, .worker 0 (.initWorker .failed), .worker 0 .leave]

/-- All have stopped, the second job is queued. -/
def strandsSample (s : Server String) : Bool :=
  s.allReturned Config.default &&
    (decide (s.jobs.get 2 = some (sampleRecord 2 6 none)) &&
      (!(s.calls 1).isLive && (!(s.calls 2).isLive &&
        s.effects.all (fun e => decide (e.jobId = 1 ∨ e.jobId = 2)))))

/-- The only worker does not come back and leaves a queued job behind. -/
theorem last_worker_strands_a_job :
    ¬ ∀ (cfg : Config) (s₀ s : Server String) (id : Uuid) (record : JobRecord String),
      Started cfg s₀ →
      Run (Server.step cfg)
        (fun _ a => a.FromHandlers ∧ a.AppendsSucceed ∧ a.NoDrop) s₀ s →
      s.allReturned cfg = true → (∀ id, (s.calls id).isLive = false) →
      s.jobs.get id = some record → record.Terminal := by
  intro hclaim
  let cfg := Config.default
  have hexec : (runActions (Server.step cfg) (fun _ a => a.undisturbed) (Server.initial cfg)
      strandingActions).any strandsSample = true := by
    decide +kernel
  obtain ⟨s, hrun, htest⟩ := exists_run_of_any (fun _ _ h => Action.of_undisturbed h) hexec
  simp only [strandsSample, Bool.and_eq_true, Bool.not_eq_true', decide_eq_true_eq] at htest
  obtain ⟨hreturned, hrecord, hcall₁, hcall₂, hlog⟩ := htest
  obtain ⟨lives, htracks⟩ := run_tracked (started_initial cfg) hrun
  have hcalls := not_live_of_log htracks hlog hcall₁ hcall₂
  have hterminal := hclaim cfg _ s 2 _ (started_initial cfg) hrun hreturned hcalls hrecord
  rcases hterminal with hstatus | hstatus <;> cases hstatus

end LastExit
end FlorenceServer
